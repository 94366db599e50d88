import CourseArchive.Lib.Runs
import CourseArchive.PintOS.Devices.Timer

/-! The alarm clock: when the sleeping threads are woken. -/

namespace CourseArchive.PintOS.Threads

open Lib

namespace Kernel

def wokenAt (log : List TimerEvent) (T : ℤ) : List ℕ := log.filterMap fun
  | .woken t now => if now = T then some t else none
  | .slept .. => none

def dueAt (log : List TimerEvent) (T : ℤ) : List ℕ := log.filterMap fun
  | .slept t now n => if now + n = T then some t else none
  | .woken .. => none

structure Linked (status : ℕ → ThreadStatus) (idleThread : ℕ) (readyList sleepList waiters : List ℕ) : Prop where
  ready : ∀ t ∈ readyList, status t = .ready ∧ t ≠ idleThread
  blocked : ∀ t ∈ sleepList ++ waiters, status t = .blocked ∧ t ≠ idleThread
  nodup_ready : readyList.Nodup
  nodup_blocked : (sleepList ++ waiters).Nodup
  idle : status idleThread ≠ .dying

structure OnTime (ticks : ℤ) (wakeTicks : ℕ → ℤ) (sleepList : List ℕ) (log : List TimerEvent) : Prop where
  sorted : sleepList.Pairwise fun t u => wakeTicks t ≤ wakeTicks u
  later : ∀ t ∈ sleepList, ticks < wakeTicks t
  woken : ∀ T, wokenAt log T = if T ≤ ticks then dueAt log T else []
  asleep : ∀ T, ticks < T → dueAt log T = sleepList.filter fun t => wakeTicks t = T

structure Sound (s : Kernel) : Prop where
  running : s.status s.current = .running
  linked : Linked s.status s.idleThread s.readyList s.sleepList s.waiters
  onTime : OnTime s.ticks s.wakeTicks s.sleepList s.log

variable {s : Kernel} {status : ℕ → ThreadStatus} {new : ThreadStatus} {idleThread t : ℕ}
  {readyList sleepList waiters sleepList' waiters' : List ℕ}

namespace Linked

lemma notMem_ready (h : Linked status idleThread readyList sleepList waiters) (ht : status t ≠ .ready) :
    t ∉ readyList :=
  fun hmem => ht (h.ready t hmem).1

lemma notMem_blocked (h : Linked status idleThread readyList sleepList waiters) (ht : status t ≠ .blocked) :
    t ∉ sleepList ++ waiters :=
  fun hmem => ht (h.blocked t hmem).1

lemma update (h : Linked status idleThread readyList sleepList waiters) (hready : t ∉ readyList)
    (hblocked : t ∉ sleepList ++ waiters) (hidle : t = idleThread → new ≠ .dying) :
    Linked (Function.update status t new) idleThread readyList sleepList waiters where
  ready u hu := by
    rw [Function.update_of_ne (ne_of_mem_of_not_mem hu hready)]
    exact h.ready u hu
  blocked u hu := by
    rw [Function.update_of_ne (ne_of_mem_of_not_mem hu hblocked)]
    exact h.blocked u hu
  nodup_ready := h.nodup_ready
  nodup_blocked := h.nodup_blocked
  idle := by
    by_cases he : idleThread = t
    · rw [he, Function.update_self]
      exact hidle he.symm
    · rw [Function.update_of_ne he]
      exact h.idle

lemma pushReady (h : Linked status idleThread readyList sleepList waiters) (ht : status t = .ready)
    (hidle : t ≠ idleThread)
    (hready : t ∉ readyList) : Linked status idleThread (readyList ++ [t]) sleepList waiters where
  ready u hu := by
    rcases List.mem_append.mp hu with hu | hu
    · exact h.ready u hu
    · obtain rfl := List.mem_singleton.mp hu
      exact ⟨ht, hidle⟩
  blocked := h.blocked
  nodup_ready :=
    (List.perm_append_singleton t readyList).nodup_iff.mpr (List.nodup_cons.mpr ⟨hready, h.nodup_ready⟩)
  nodup_blocked := h.nodup_blocked
  idle := h.idle

lemma popReady {next : ℕ} (h : Linked status idleThread (next :: readyList) sleepList waiters) :
    Linked status idleThread readyList sleepList waiters where
  ready u hu := h.ready u (List.mem_cons_of_mem next hu)
  blocked := h.blocked
  nodup_ready := h.nodup_ready.of_cons
  nodup_blocked := h.nodup_blocked
  idle := h.idle

lemma addBlocked (h : Linked status idleThread readyList sleepList waiters) (ht : status t = .blocked)
    (hidle : t ≠ idleThread)
    (hblocked : t ∉ sleepList ++ waiters) (hperm : (sleepList' ++ waiters').Perm (t :: (sleepList ++ waiters))) :
    Linked status idleThread readyList sleepList' waiters' where
  ready := h.ready
  blocked u hu := by
    rcases List.mem_cons.mp (hperm.mem_iff.mp hu) with rfl | hu
    · exact ⟨ht, hidle⟩
    · exact h.blocked u hu
  nodup_ready := h.nodup_ready
  nodup_blocked := hperm.nodup_iff.mpr (List.nodup_cons.mpr ⟨hblocked, h.nodup_blocked⟩)
  idle := h.idle

lemma removeBlocked (h : Linked status idleThread readyList sleepList waiters)
    (hperm : (t :: (sleepList' ++ waiters')).Perm (sleepList ++ waiters)) :
    Linked status idleThread readyList sleepList' waiters' ∧ status t = .blocked ∧ t ≠ idleThread ∧
      t ∉ sleepList' ++ waiters' := by
  obtain ⟨hnot, hnodup⟩ := List.nodup_cons.mp (hperm.nodup_iff.mpr h.nodup_blocked)
  obtain ⟨ht, hidle⟩ := h.blocked t (hperm.mem_iff.mp List.mem_cons_self)
  exact ⟨⟨h.ready, fun u hu => h.blocked u (hperm.mem_iff.mp (List.mem_cons_of_mem t hu)), h.nodup_ready, hnodup,
    h.idle⟩, ht, hidle, hnot⟩

end Linked

/-! The functions of the scheduler. -/

lemma threadCurrent_eq (h : s.status s.current = .running) : s.threadCurrent = some s.current := if_pos h

lemma schedule_sound (hcur : s.status s.current ≠ .running)
    (hlinked : Linked s.status s.idleThread s.readyList s.sleepList s.waiters)
    (htime : OnTime s.ticks s.wakeTicks s.sleepList s.log) : ∃ t, s.schedule = some t ∧ t.Sound := by
  rw [schedule, if_neg hcur, nextThreadToRun]
  cases hready : s.readyList with
  | nil =>
    refine ⟨_, rfl, Function.update_self .., ?_, htime⟩
    rw [hready] at hlinked
    have hidle : s.idleThread ∉ s.sleepList ++ s.waiters := fun hmem => (hlinked.blocked _ hmem).2 rfl
    exact hready ▸ hlinked.update List.not_mem_nil hidle fun _ => by decide
  | cons next rest =>
    rw [hready] at hlinked
    refine ⟨_, rfl, Function.update_self .., ?_, htime⟩
    have hnext := hlinked.ready next List.mem_cons_self
    refine hlinked.popReady.update (List.nodup_cons.mp hlinked.nodup_ready).1 ?_ fun _ => by decide
    exact hlinked.notMem_blocked (by rw [hnext.1]; decide)

lemma threadBlock_sound (hrun : s.status s.current = .running)
    (hlinked : Linked (Function.update s.status s.current .blocked) s.idleThread s.readyList s.sleepList s.waiters)
    (htime : OnTime s.ticks s.wakeTicks s.sleepList s.log) : ∃ t, s.threadBlock = some t ∧ t.Sound := by
  rw [threadBlock, threadCurrent_eq hrun]
  refine schedule_sound ?_ hlinked htime
  change Function.update s.status s.current .blocked s.current ≠ .running
  rw [Function.update_self]
  decide

lemma threadUnblock_sound (hrun : s.status s.current = .running) (hready : t ∉ s.readyList)
    (hidle : t ≠ s.idleThread) (ht : s.status t = .blocked) (hblocked : t ∉ s.sleepList ++ s.waiters)
    (hlinked : Linked s.status s.idleThread s.readyList s.sleepList s.waiters)
    (htime : OnTime s.ticks s.wakeTicks s.sleepList s.log) : ∃ u, s.threadUnblock t = some u ∧ u.Sound := by
  rw [threadUnblock, if_pos ht]
  refine ⟨_, rfl, ?_, ?_, htime⟩
  · have hne : s.current ≠ t := by
      rintro rfl
      rw [hrun] at ht
      cases ht
    exact (Function.update_of_ne hne ..).trans hrun
  · exact (hlinked.update hready hblocked fun _ => by decide).pushReady (Function.update_self ..) hidle hready

namespace Sound

lemma current_notMem_ready (h : s.Sound) : s.current ∉ s.readyList :=
  h.linked.notMem_ready (by rw [h.running]; decide)

lemma current_notMem_blocked (h : s.Sound) : s.current ∉ s.sleepList ++ s.waiters :=
  h.linked.notMem_blocked (by rw [h.running]; decide)

lemma leave (h : s.Sound) (new : ThreadStatus) (hidle : s.current = s.idleThread → new ≠ .dying) :
    Linked (Function.update s.status s.current new) s.idleThread s.readyList s.sleepList s.waiters :=
  h.linked.update h.current_notMem_ready h.current_notMem_blocked hidle

lemma threadYield (h : s.Sound) : ∃ t, s.threadYield = some t ∧ t.Sound := by
  have hleave := h.leave .ready fun _ => by decide
  rw [Kernel.threadYield, threadCurrent_eq h.running]
  refine schedule_sound ?_ ?_ h.onTime
  · change Function.update s.status s.current .ready s.current ≠ .running
    rw [Function.update_self]
    decide
  · change Linked (Function.update s.status s.current .ready) s.idleThread
      (if s.current ≠ s.idleThread then s.readyList ++ [s.current] else s.readyList) s.sleepList s.waiters
    split
    · next hidle => exact hleave.pushReady (Function.update_self ..) hidle h.current_notMem_ready
    · exact hleave

lemma threadExit (h : s.Sound) (hidle : s.current ≠ s.idleThread) : ∃ t, s.threadExit = some t ∧ t.Sound := by
  rw [Kernel.threadExit, threadCurrent_eq h.running]
  refine schedule_sound ?_ (h.leave .dying fun he => absurd he hidle) h.onTime
  change Function.update s.status s.current .dying s.current ≠ .running
  rw [Function.update_self]
  decide

lemma idle (h : s.Sound) : ∃ t, s.threadBlock = some t ∧ t.Sound :=
  threadBlock_sound h.running (h.leave .blocked fun _ => by decide) h.onTime

lemma semaDown (h : s.Sound) (hidle : s.current ≠ s.idleThread) : ∃ t, s.semaDown = some t ∧ t.Sound := by
  rw [Kernel.semaDown, threadCurrent_eq h.running]
  refine threadBlock_sound h.running ?_ h.onTime
  refine (h.leave .blocked fun _ => by decide).addBlocked (Function.update_self ..) hidle
    h.current_notMem_blocked ?_
  rw [← List.append_assoc]
  exact List.perm_append_singleton ..

lemma semaUp (h : s.Sound) (ht : t ∈ s.waiters) : ∃ u, s.semaUp t = some u ∧ u.Sound := by
  have hperm : (t :: (s.sleepList ++ s.waiters.erase t)).Perm (s.sleepList ++ s.waiters) :=
    List.perm_middle.symm.trans ((List.perm_cons_erase ht).symm.append_left _)
  obtain ⟨hlinked, hst, hidle, hnot⟩ := h.linked.removeBlocked hperm
  exact threadUnblock_sound h.running (h.linked.notMem_ready (by rw [hst]; decide)) hidle hst hnot hlinked h.onTime

end Sound

/-! The sleeping threads. -/

variable {ticks T : ℤ} {wakeTicks wakeTicks' : ℕ → ℤ} {log : List TimerEvent}

lemma wokenAt_append (log log' : List TimerEvent) (T : ℤ) :
    wokenAt (log ++ log') T = wokenAt log T ++ wokenAt log' T :=
  List.filterMap_append

lemma dueAt_append (log log' : List TimerEvent) (T : ℤ) : dueAt (log ++ log') T = dueAt log T ++ dueAt log' T :=
  List.filterMap_append

lemma wokenAt_map_woken (woken : List ℕ) (now T : ℤ) :
    wokenAt (woken.map (.woken · now)) T = if now = T then woken else [] := by
  rw [wokenAt, List.filterMap_map]
  split
  · next h => simp [h]
  · next h => simp [h]

lemma dueAt_map_woken (woken : List ℕ) (now T : ℤ) : dueAt (woken.map (.woken · now)) T = [] := by
  rw [dueAt, List.filterMap_map]
  simp

lemma wokenAt_slept (t : ℕ) (now n T : ℤ) : wokenAt [.slept t now n] T = [] := rfl

lemma dueAt_slept (t : ℕ) (now n T : ℤ) : dueAt [.slept t now n] T = if now + n = T then [t] else [] := by
  by_cases h : now + n = T <;> simp [dueAt, h]

namespace OnTime

lemma congr (h : OnTime ticks wakeTicks sleepList log) (hkeys : ∀ t ∈ sleepList, wakeTicks' t = wakeTicks t) :
    OnTime ticks wakeTicks' sleepList log where
  sorted := h.sorted.imp_of_mem fun ht hu hle => by rwa [hkeys _ ht, hkeys _ hu]
  later t ht := by
    rw [hkeys t ht]
    exact h.later t ht
  woken := h.woken
  asleep T hT := by
    rw [h.asleep T hT]
    exact List.filter_congr fun t ht => by rw [hkeys t ht]

lemma sleep {n : ℤ} (h : OnTime ticks wakeTicks sleepList log) (hn : 0 < n) (hwake : wakeTicks t = ticks + n) :
    OnTime ticks wakeTicks (insertLast wakeTicks t sleepList) (log ++ [.slept t ticks n]) where
  sorted := pairwise_insertLast h.sorted
  later u hu := by
    rcases mem_insertLast.mp hu with rfl | hu
    · omega
    · exact h.later u hu
  woken T := by
    rw [wokenAt_append, dueAt_append, wokenAt_slept, dueAt_slept, List.append_nil, h.woken T]
    split
    · rw [if_neg (by omega), List.append_nil]
    · rfl
  asleep T hT := by
    rw [dueAt_append, dueAt_slept, h.asleep T hT, filter_insertLast h.sorted T, hwake]

lemma tick (h : OnTime ticks wakeTicks sleepList log) :
    OnTime (ticks + 1) wakeTicks (sleepList.filter fun t => ticks + 1 < wakeTicks t)
      (log ++ (sleepList.filter fun t => wakeTicks t ≤ ticks + 1).map (.woken · (ticks + 1))) where
  sorted := h.sorted.filter _
  later t ht := by simpa using (List.mem_filter.mp ht).2
  woken T := by
    -- at the next tick exactly the sleepers due then are woken
    rw [wokenAt_append, dueAt_append, wokenAt_map_woken, dueAt_map_woken, List.append_nil, h.woken T]
    rcases lt_trichotomy T (ticks + 1) with hT | rfl | hT
    · rw [if_pos (show T ≤ ticks by omega), if_pos (show T ≤ ticks + 1 by omega),
        if_neg (show ¬ticks + 1 = T by omega),
        List.append_nil]
    · have hdue :
        (sleepList.filter fun t => wakeTicks t ≤ ticks + 1) = sleepList.filter fun t => wakeTicks t = ticks + 1 :=
        List.filter_congr fun t ht => by
          have := h.later t ht
          simp only [decide_eq_decide]
          omega
      rw [if_neg (show ¬ticks + 1 ≤ ticks by omega), if_pos rfl, if_pos le_rfl, List.nil_append, hdue,
        h.asleep _ (by omega)]
    · rw [if_neg (show ¬T ≤ ticks by omega), if_neg (show ¬ticks + 1 = T by omega),
        if_neg (show ¬T ≤ ticks + 1 by omega),
        List.append_nil]
  asleep T hT := by
    rw [dueAt_append, dueAt_map_woken, List.append_nil, h.asleep T (by omega), List.filter_filter]
    refine List.filter_congr fun t _ => ?_
    rw [Bool.eq_iff_iff]
    simp only [Bool.and_eq_true, decide_eq_true_eq]
    omega

end OnTime

lemma listInsertOrdered_cmpTicks (wakeTicks : ℕ → ℤ) (t : ℕ) (list : List ℕ) :
    listInsertOrdered (cmpTicks wakeTicks) t list = insertLast wakeTicks t list := by
  induction list with
  | nil => rfl
  | cons e list ih => simp [listInsertOrdered, cmpTicks, insertLast_cons, ih]

structure Woke (s u : Kernel) (list : List ℕ) : Prop where
  running : u.status u.current = .running
  linked : Linked u.status u.idleThread u.readyList u.sleepList u.waiters
  ticks : u.ticks = s.ticks
  wakeTicks : u.wakeTicks = s.wakeTicks
  sleepList : u.sleepList = list.filter fun t => s.ticks < s.wakeTicks t
  log : u.log = s.log ++ (list.filter fun t => s.wakeTicks t ≤ s.ticks).map (.woken · s.ticks)

lemma wakeSleepers_woke (hrun : s.status s.current = .running)
    (hlinked : Linked s.status s.idleThread s.readyList sleepList s.waiters)
    (hsorted : sleepList.Pairwise fun t u => s.wakeTicks t ≤ s.wakeTicks u) (hlist : s.sleepList = sleepList) :
    ∃ u, s.wakeSleepers sleepList = some u ∧ Woke s u sleepList := by
  induction sleepList generalizing s with
  | nil => exact ⟨s, rfl, hrun, hlist ▸ hlinked, rfl, rfl, hlist, (List.append_nil _).symm⟩
  | cons t rest ih =>
    obtain ⟨hfirst, hrest⟩ := List.pairwise_cons.mp hsorted
    rw [wakeSleepers]
    split
    · next hlt =>
      -- the first sleeper is not due, and so none of the others
      have hall : ∀ u ∈ t :: rest, s.ticks < s.wakeTicks u := by
        intro u hu
        rcases List.mem_cons.mp hu with rfl | hu
        · exact hlt
        · exact hlt.trans_le (hfirst u hu)
      have hnone : ((t :: rest).filter fun u => s.wakeTicks u ≤ s.ticks) = [] :=
        List.filter_eq_nil_iff.mpr fun u hu => by simpa using hall u hu
      have hkeep : ((t :: rest).filter fun u => s.ticks < s.wakeTicks u) = t :: rest :=
        List.filter_eq_self.mpr fun u hu => by simpa using hall u hu
      refine ⟨s, rfl, hrun, hlist ▸ hlinked, rfl, rfl, hlist.trans hkeep.symm, ?_⟩
      rw [hnone, List.map_nil, List.append_nil]
    · next hdue =>
      have hperm : (t :: (rest ++ s.waiters)).Perm (t :: rest ++ s.waiters) := .refl _
      obtain ⟨hremoved, ht, hidle, hnot⟩ := hlinked.removeBlocked hperm
      have hready : t ∉ s.readyList := hlinked.notMem_ready (by rw [ht]; decide)
      have hne : s.current ≠ t := by
        rintro rfl
        rw [hrun] at ht
        cases ht
      have hstatus : Linked (Function.update s.status t .ready) s.idleThread s.readyList rest s.waiters :=
        hremoved.update hready hnot fun _ => by decide
      have hpushed := hstatus.pushReady (Function.update_self ..) hidle hready
      rw [threadUnblock, if_pos ht]
      obtain ⟨u, hu, hwoke⟩ := ih (s := { s with
        status := Function.update s.status t .ready
        readyList := s.readyList ++ [t]
        sleepList := rest
        log := s.log ++ [.woken t s.ticks] }) ((Function.update_of_ne hne ..).trans hrun) hpushed hrest rfl
      refine ⟨u, hu, hwoke.running, hwoke.linked, hwoke.ticks, hwoke.wakeTicks, ?_, ?_⟩
      · rw [hwoke.sleepList, List.filter_cons_of_neg (by simpa using hdue)]
      · rw [hwoke.log, List.filter_cons_of_pos (by simpa using hdue), List.map_cons, List.append_assoc,
          List.singleton_append]

namespace Sound

lemma timerSleep {n : ℤ} (h : s.Sound) (hidle : s.current ≠ s.idleThread) :
    ∃ t, s.timerSleep n = some t ∧ t.Sound := by
  rw [Kernel.timerSleep]
  split
  · exact ⟨s, rfl, h⟩
  · next hn =>
    have hcur : s.current ∉ s.sleepList := fun hmem => h.current_notMem_blocked (List.mem_append_left _ hmem)
    have hkeys : ∀ t ∈ s.sleepList, Function.update s.wakeTicks s.current (s.ticks + n) t = s.wakeTicks t :=
      fun t ht => Function.update_of_ne (ne_of_mem_of_not_mem ht hcur) ..
    rw [threadCurrent_eq h.running]
    refine threadBlock_sound h.running ?_ ?_
    · refine (h.leave .blocked fun _ => by decide).addBlocked (Function.update_self ..) hidle
        h.current_notMem_blocked ?_
      rw [listInsertOrdered_cmpTicks]
      exact (insertLast_perm ..).append_right _
    · rw [listInsertOrdered_cmpTicks]
      exact (h.onTime.congr hkeys).sleep (by omega) (Function.update_self ..)

lemma timerInterrupt (h : s.Sound) : ∃ t, s.timerInterrupt = some t ∧ t.Sound := by
  rw [Kernel.timerInterrupt, threadCurrent_eq h.running]
  obtain ⟨u, hu, hwoke⟩ :=
    wakeSleepers_woke (s := { s with ticks := s.ticks + 1 }) h.running h.linked h.onTime.sorted rfl
  refine ⟨u, hu, hwoke.running, hwoke.linked, ?_⟩
  rw [hwoke.ticks, hwoke.wakeTicks, hwoke.sleepList, hwoke.log]
  exact h.onTime.tick

lemma threadCreate (h : s.Sound) (ht : s.status t = .dying) : ∃ u, s.threadCreate t = some u ∧ u.Sound := by
  have hready : t ∉ s.readyList := h.linked.notMem_ready (by rw [ht]; decide)
  have hblocked : t ∉ s.sleepList ++ s.waiters := h.linked.notMem_blocked (by rw [ht]; decide)
  have hidle : t ≠ s.idleThread := by
    rintro rfl
    exact h.linked.idle ht
  have hne : s.current ≠ t := by
    rintro rfl
    rw [h.running] at ht
    cases ht
  refine threadUnblock_sound ((Function.update_of_ne hne ..).trans h.running) hready hidle
    (Function.update_self ..) hblocked
    (h.linked.update hready hblocked fun _ => by decide) (h.onTime.congr fun u hu => ?_)
  exact Function.update_of_ne (ne_of_mem_of_not_mem (List.mem_append_left _ hu) hblocked) ..

lemma step {a : Move} (h : s.Sound) (ha : s.Possible a) : ∃ t, s.step a = some t ∧ t.Sound := by
  cases a with
  | timerSleep n => exact h.timerSleep ha.1
  | timerInterrupt => exact h.timerInterrupt
  | threadYield => exact h.threadYield
  | threadExit => exact h.threadExit ha
  | threadCreate t => exact h.threadCreate ha
  | semaDown => exact h.semaDown ha
  | semaUp t => exact h.semaUp ha
  | idle => exact h.idle

end Sound

lemma started_sound (ticks : ℤ) {initialThread idleThread : ℕ} (h : initialThread ≠ idleThread) :
    (started ticks initialThread idleThread).Sound where
  running := Function.update_self ..
  linked :=
    { ready := fun _ ht => absurd ht List.not_mem_nil
      blocked := fun _ ht => absurd ht List.not_mem_nil
      nodup_ready := List.nodup_nil
      nodup_blocked := List.nodup_nil
      idle := by
        change Function.update (Function.update (fun _ => ThreadStatus.dying) idleThread .blocked) initialThread
          .running
          idleThread ≠ .dying
        rw [Function.update_of_ne h.symm, Function.update_self]
        decide }
  onTime :=
    { sorted := List.Pairwise.nil
      later := fun _ ht => absurd ht List.not_mem_nil
      woken := fun T => (ite_self []).symm
      asleep := fun _ _ => rfl }

/-- A call with `n ≤ 0` returns at once. After any other call with `n`, at tick `now`, the thread stays blocked
until the interrupt at tick `now + n` wakes it, once and behind those whose calls came before. -/
structure Punctual (s : Kernel) : Prop where
  sorted : s.sleepList.Pairwise fun t u => s.wakeTicks t ≤ s.wakeTicks u
  woken : ∀ T, wokenAt s.log T = if T ≤ s.ticks then dueAt s.log T else []
  blocked : ∀ t now n, .slept t now n ∈ s.log → s.ticks < now + n → t ∈ s.sleepList ∧ s.status t = .blocked
  returns : ∀ n ≤ 0, s.timerSleep n = some s

lemma Sound.punctual (h : s.Sound) : s.Punctual where
  sorted := h.onTime.sorted
  woken := h.onTime.woken
  blocked t now n hslept hlt := by
    have hdue : t ∈ dueAt s.log (now + n) := List.mem_filterMap.mpr ⟨_, hslept, if_pos rfl⟩
    rw [h.onTime.asleep _ hlt] at hdue
    have hmem := List.mem_of_mem_filter hdue
    exact ⟨hmem, (h.linked.blocked t (List.mem_append_left _ hmem)).1⟩
  returns n hn := by
    rw [Kernel.timerSleep, if_pos hn]
    rfl

/-- No assertion fails in any run, whatever the threads and the timer do in which order, and the sleepers are woken
on time. -/
theorem alarm_clock (ticks : ℤ) {initialThread idleThread : ℕ} (hne : initialThread ≠ idleThread)
    (moves : List Move) (hok : AllOk step Possible (started ticks initialThread idleThread) moves) :
    ∃ s, play step (started ticks initialThread idleThread) moves = some s ∧ s.Punctual := by
  obtain ⟨s, hplay, hs⟩ := play_of_allOk Sound (fun _ _ h ha => h.step ha) moves (started_sound ticks hne) hok
  exact ⟨s, hplay, hs.punctual⟩

def twoSleepers : List Move :=
  [.threadCreate 2, .timerSleep 3, .timerInterrupt, .timerSleep 0, .timerSleep 2, .timerInterrupt, .timerInterrupt]

theorem alarm_clock_two_sleepers :
    (∃ s, play step (started 5 1 0) twoSleepers = some s ∧ s.Punctual) ∧
      (play step (started 5 1 0) twoSleepers).map (fun s => (s.readyList, s.log)) =
        some ([1, 2], [.slept 1 5 3, .slept 2 6 2, .woken 1 8, .woken 2 8]) :=
  ⟨alarm_clock 5 (by decide) twoSleepers (by decide), by decide⟩

end Kernel

end CourseArchive.PintOS.Threads
