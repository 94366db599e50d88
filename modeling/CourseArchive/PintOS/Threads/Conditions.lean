import CourseArchive.PintOS.Threads.Locks

/-! A condition variable (`threads/synch.c`) that threads use at the same time. Its lock is an owner, to which the
lock that is made of a semaphore has been shown to come down. -/

namespace CourseArchive.PintOS.Threads

open Lib

/-- Where a thread is: `queued` stands on the list of the condition and still has the lock, `sleeping` is the loop
of `sema_down` on the semaphore of the thread's own `semaphore_elem`, and `signalling` has taken a thread off the
list; its flag is on in a broadcast. -/
inductive CondPc (T : Type)
  | outside
  | acquiring
  | holding
  | queued
  | sleeping (blocked : Bool)
  | signalling (w : T) (broadcast : Bool)
  | broadcasting
  deriving DecidableEq

/-- An element of `waiters` is named by the thread on whose stack it is. `waited` and `signalled` are the threads
that have called `cond_wait` and those that have been taken off the list, in order. -/
structure SharedCondition (T : Type) where
  owner : Option T
  waiters : List T
  own : T → Semaphore T
  pc : T → CondPc T
  waited : List T
  signalled : List T

inductive CondMove
  | lockAcquire
  | lockRelease
  | condWait
  | condSignal
  | condBroadcast
  | run

namespace SharedCondition

variable {T : Type}

/-- `own` is what stands on the stacks before `cond_wait` initialises it. -/
def condInit (own : T → Semaphore T) : SharedCondition T where
  owner := none
  waiters := []
  own := own
  pc _ := .outside
  waited := []
  signalled := []

variable [DecidableEq T]

def goto (s : SharedCondition T) (t : T) (pc : CondPc T) : SharedCondition T :=
  { s with pc := Function.update s.pc t pc }

def setOwn (s : SharedCondition T) (t : T) (sema : Semaphore T) : SharedCondition T :=
  { s with own := Function.update s.own t sema }

def threadUnblock (s : SharedCondition T) : Option T → Option (SharedCondition T)
  | none => some s
  | some u => if s.pc u = .sleeping true then some (s.goto u (.sleeping false)) else none

def condWait (s : SharedCondition T) (t : T) : Option (SharedCondition T) :=
  if s.owner = some t then
    some ({ s with waiters := s.waiters ++ [t], waited := s.waited ++ [t] }.setOwn t
      (.semaInit 0) |>.goto t .queued)
  else none

def condSignal (s : SharedCondition T) (t : T) (broadcast : Bool) : Option (SharedCondition T) :=
  if s.owner = some t then
    some (match s.waiters with
      | [] => s.goto t .holding
      | w :: ws => { s with waiters := ws, signalled := s.signalled ++ [w] }.goto t (.signalling w broadcast))
  else none

def runPc (s : SharedCondition T) (t : T) : CondPc T → Option (SharedCondition T)
  | .outside | .holding | .sleeping true => some s
  | .acquiring => some (if s.owner = none then { s with owner := some t }.goto t .holding else s)
  | .queued => if s.owner = some t then some ({ s with owner := none }.goto t (.sleeping false)) else none
  | .sleeping false =>
    let r := (s.own t).semaDown t
    if r.1 then some ((s.setOwn t r.2).goto t (.sleeping true))
    else if s.owner = some t then none
    else some ((s.setOwn t r.2).goto t .acquiring)
  | .signalling w broadcast => do
    let r := (s.own w).semaUp
    let s ← s.threadUnblock r.1
    some ((s.setOwn w r.2).goto t (if broadcast then .broadcasting else .holding))
  | .broadcasting => if s.waiters = [] then some (s.goto t .holding) else s.condSignal t true

/-- A thread in the midst of a call only runs on, and it waits, signals and releases the lock only when its
`lock_acquire` has returned. `none` is a failed assertion. -/
def step (s : SharedCondition T) (move : T × CondMove) : Option (SharedCondition T) :=
  let t := move.1
  match move.2 with
  | .run => s.runPc t (s.pc t)
  | .lockAcquire =>
    if s.pc t = .outside then if s.owner = some t then none else some (s.goto t .acquiring) else some s
  | .lockRelease =>
    if s.pc t = .holding then if s.owner = some t then some ({ s with owner := none }.goto t .outside) else none
    else some s
  | .condWait => if s.pc t = .holding then s.condWait t else some s
  | .condSignal => if s.pc t = .holding then s.condSignal t false else some s
  | .condBroadcast => some (if s.pc t = .holding then s.goto t .broadcasting else s)

def Holds : CondPc T → Prop
  | .holding | .queued | .signalling .. | .broadcasting => True
  | .outside | .acquiring | .sleeping _ => False

def Place (waiters : List T) (target : Option T) (sema : Semaphore T) (t : T) : CondPc T → Prop
  | .queued => t ∈ waiters ∧ target ≠ some t ∧ sema = ⟨0, []⟩
  | .sleeping true => (t ∈ waiters ∨ target = some t) ∧ sema = ⟨0, [t]⟩
  | .sleeping false =>
    (t ∈ waiters ∨ target = some t) ∧ sema = ⟨0, []⟩ ∨ (t ∉ waiters ∧ target ≠ some t) ∧ sema = ⟨1, []⟩
  | .outside | .acquiring | .holding | .signalling .. | .broadcasting => t ∉ waiters ∧ target ≠ some t

structure Sound (s : SharedCondition T) (target : Option T) : Prop where
  inside : ∀ t, Holds (s.pc t) ↔ s.owner = some t
  nodup : s.waiters.Nodup
  fresh : ∀ w, target = some w → w ∉ s.waiters
  aim : ∀ w, target = some w ↔ ∃ t broadcast, s.pc t = .signalling w broadcast
  place : ∀ t, Place s.waiters target (s.own t) t (s.pc t)
  log : s.waited = s.signalled ++ s.waiters

variable {s : SharedCondition T} {t u w : T} {target : Option T}

@[simp] lemma goto_owner (pc : CondPc T) : (s.goto t pc).owner = s.owner := rfl

@[simp] lemma setOwn_owner (sema : Semaphore T) : (s.setOwn t sema).owner = s.owner := rfl

lemma goto_pc_self (pc : CondPc T) : (s.goto t pc).pc t = pc := Function.update_self ..

lemma goto_eq_self {pc : CondPc T} (h : s.pc t = pc) : s.goto t pc = s := by
  subst h
  simp [goto]

lemma goto_pc_of_ne (h : u ≠ t) (pc : CondPc T) : (s.goto t pc).pc u = s.pc u := Function.update_of_ne h ..

omit [DecidableEq T] in
lemma Place.congr {waiters waiters' : List T} {target' : Option T} {sema : Semaphore T} {pc : CondPc T}
    (h : Place waiters target sema t pc) (hwaiters : t ∈ waiters' ↔ t ∈ waiters)
    (htarget : target' = some t ↔ target = some t) : Place waiters' target' sema t pc := by
  cases pc with
  | sleeping blocked => cases blocked <;> simpa [Place, hwaiters, htarget] using h
  | _ => simpa [Place, hwaiters, htarget] using h

omit [DecidableEq T] in
lemma condInit_sound (own : T → Semaphore T) : (condInit own).Sound none := by
  refine ⟨fun t => ?_, List.nodup_nil, fun w h => absurd h (by simp), fun w => ?_, fun t => ?_, rfl⟩ <;>
    simp [condInit, Holds, Place]

lemma threadUnblock_owner {o : Option T} {s' : SharedCondition T} (h : s.threadUnblock o = some s') :
    s'.owner = s.owner := by
  cases o with
  | none => rw [Option.some_injective _ h]
  | some u =>
    simp only [threadUnblock] at h
    split at h
    · rw [← Option.some_injective _ h, goto_owner]
    · simp at h

lemma condWait_owner {s' : SharedCondition T} (h : s.condWait t = some s') : s'.owner = s.owner := by
  simp only [SharedCondition.condWait] at h
  split at h
  · rw [← Option.some_injective _ h, goto_owner, setOwn_owner]
  · simp at h

lemma condSignal_owner {broadcast : Bool} {s' : SharedCondition T} (h : s.condSignal t broadcast = some s') :
    s'.owner = s.owner := by
  simp only [SharedCondition.condSignal] at h
  split at h
  · rw [← Option.some_injective _ h]
    cases s.waiters <;> rfl
  · simp at h

lemma runPc_owner {s' : SharedCondition T} (h : s.runPc t (s.pc t) = some s') : OwnerStep t s.owner s'.owner := by
  cases hp : s.pc t with
  | signalling w broadcast =>
    simp only [hp, runPc, Option.bind_eq_bind, Option.bind_eq_some_iff] at h
    obtain ⟨s₁, hunblock, hs'⟩ := h
    rw [← Option.some_injective _ hs', goto_owner, setOwn_owner, threadUnblock_owner hunblock]
    exact .stay _
  | sleeping blocked => cases blocked <;> grind [runPc, OwnerStep, goto_owner, setOwn_owner]
  | _ => grind [runPc, OwnerStep, condSignal_owner, goto_owner]

lemma owner_step {s' : SharedCondition T} {move : T × CondMove} (h : s.step move = some s') :
    OwnerStep move.1 s.owner s'.owner := by
  -- a condition variable uses the lock as its owner alone allows
  obtain ⟨t, m⟩ := move
  cases m <;> simp only [step] at h <;>
    grind [OwnerStep, runPc_owner, condWait_owner, condSignal_owner, goto_owner]

namespace Sound

omit [DecidableEq T] in
lemma target_none (hs : s.Sound target) (howner : s.owner = some t)
    (ht : ∀ w broadcast, s.pc t ≠ .signalling w broadcast) :
    target = none := by
  rw [Option.eq_none_iff_forall_ne_some]
  intro w hw
  obtain ⟨u, broadcast, hu⟩ := (hs.aim w).mp hw
  have howner' := (hs.inside u).mp (hu ▸ trivial)
  obtain rfl : t = u := Option.some_injective _ (howner.symm.trans howner')
  exact ht w broadcast hu

omit [DecidableEq T] in
lemma target_sleeps (hs : s.Sound (some w)) :
    s.pc w = .sleeping true ∧ s.own w = ⟨0, [w]⟩ ∨ s.pc w = .sleeping false ∧ s.own w = ⟨0, []⟩ := by
  -- a thread that is being signalled sleeps, so its semaphore is still there
  have hplace := hs.place w
  have hfresh := hs.fresh w rfl
  cases hp : s.pc w with
  | sleeping blocked => cases blocked <;> simp_all [Place]
  | _ => simp_all [Place]

lemma alter (hs : s.Sound target) (pc : CondPc T) (owner : Option T) (sema : Semaphore T)
    (hself : Holds pc ↔ owner = some t) (hother : ∀ u, u ≠ t → (owner = some u ↔ s.owner = some u))
    (hold : ∀ w broadcast, s.pc t ≠ .signalling w broadcast) (hnew : ∀ w broadcast, pc ≠ .signalling w broadcast)
    (hplace : Place s.waiters target sema t pc) :
    (({ s with owner := owner }.setOwn t sema).goto t pc).Sound target := by
  refine ⟨fun u => ?_, hs.nodup, hs.fresh, fun w => (hs.aim w).trans ?_, fun u => ?_, hs.log⟩
  · rcases eq_or_ne u t with rfl | hne
    · rw [goto_pc_self]
      exact hself
    · rw [goto_pc_of_ne hne]
      exact (hs.inside u).trans (hother u hne).symm
  · refine exists_congr fun u => ?_
    rcases eq_or_ne u t with rfl | hne
    · simp [goto_pc_self, hold, hnew]
    · rw [goto_pc_of_ne hne]
      rfl
  · rcases eq_or_ne u t with rfl | hne
    · rw [goto_pc_self]
      simpa [goto, setOwn] using hplace
    · rw [goto_pc_of_ne hne]
      simpa [goto, setOwn, hne] using hs.place u

lemma keep (hs : s.Sound target) (pc : CondPc T) (owner : Option T)
    (hself : Holds pc ↔ owner = some t) (hother : ∀ u, u ≠ t → (owner = some u ↔ s.owner = some u))
    (hold : ∀ w broadcast, s.pc t ≠ .signalling w broadcast) (hnew : ∀ w broadcast, pc ≠ .signalling w broadcast)
    (hplace : Place s.waiters target (s.own t) t pc) : ({ s with owner := owner }.goto t pc).Sound target := by
  have h := hs.alter pc owner (s.own t) hself hother hold hnew hplace
  simpa [setOwn] using h

lemma condWait (hs : s.Sound target) (howner : s.owner = some t) (ht : s.pc t = .holding) :
    ∃ s', s.condWait t = some s' ∧ s'.Sound target := by
  obtain rfl := hs.target_none howner (by simp [ht])
  have hnot : t ∉ s.waiters := by simpa [ht, Place] using hs.place t
  refine ⟨_, by rw [SharedCondition.condWait, if_pos howner], fun u => ?_, ?_, fun w h => absurd h (by simp),
    fun w => (hs.aim w).trans (exists_congr fun u => ?_), fun u => ?_, ?_⟩
  · rcases eq_or_ne u t with rfl | hne
    · simpa [goto_pc_self, Holds] using howner
    · rw [goto_pc_of_ne hne]
      exact hs.inside u
  · exact hs.nodup.append (List.nodup_singleton t) (by simpa using hnot)
  · rcases eq_or_ne u t with rfl | hne
    · simp [goto_pc_self, ht]
    · rw [goto_pc_of_ne hne]
      rfl
  · rcases eq_or_ne u t with rfl | hne
    · rw [goto_pc_self]
      simp [goto, setOwn, Place, Semaphore.semaInit]
    · rw [goto_pc_of_ne hne]
      simp only [goto, setOwn, Function.update_of_ne hne]
      exact (hs.place u).congr (by simp [hne]) Iff.rfl
  · simp [goto, setOwn, hs.log]

lemma condSignal (hs : s.Sound target) (howner : s.owner = some t)
    (ht : s.pc t = .holding ∨ s.pc t = .broadcasting)
    (broadcast : Bool) : ∃ s' target', s.condSignal t broadcast = some s' ∧ s'.Sound target' := by
  have hold : ∀ w b, s.pc t ≠ .signalling w b := by rcases ht with ht | ht <;> simp [ht]
  obtain rfl := hs.target_none howner hold
  have hnot : t ∉ s.waiters := by
    have hplace := hs.place t
    rcases ht with ht | ht <;> simpa [ht, Place] using hplace
  cases hw : s.waiters with
  | nil =>
    refine ⟨s.goto t .holding, none, by simp [SharedCondition.condSignal, howner, hw], ?_⟩
    exact hs.keep .holding s.owner (by simp [Holds, howner]) (fun _ _ => Iff.rfl) hold (by simp)
      (by simp [Place, hnot])
  | cons w ws =>
    have hnodup := hs.nodup
    rw [hw, List.nodup_cons] at hnodup
    have hwt : w ≠ t := by
      rintro rfl
      simp [hw] at hnot
    refine ⟨{ s with waiters := ws, signalled := s.signalled ++ [w] }.goto t (.signalling w broadcast), some w,
      by simp [SharedCondition.condSignal, howner, hw], fun u => ?_, hnodup.2, fun v hv => ?_,
      fun v => ⟨fun hv => ?_, ?_⟩, fun u => ?_, by simp [goto, hs.log, hw]⟩
    · rcases eq_or_ne u t with rfl | hne
      · simpa [goto_pc_self, Holds] using howner
      · rw [goto_pc_of_ne hne]
        exact hs.inside u
    · obtain rfl := Option.some_injective _ hv
      exact hnodup.1
    · obtain rfl := Option.some_injective _ hv
      exact ⟨t, broadcast, goto_pc_self _⟩
    · rintro ⟨u, b, hu⟩
      rcases eq_or_ne u t with rfl | hne
      · rw [goto_pc_self] at hu
        cases hu
        rfl
      · rw [goto_pc_of_ne hne] at hu
        exact absurd ((hs.aim v).mpr ⟨u, b, hu⟩) (by simp)
    · rcases eq_or_ne u t with rfl | hne
      · rw [goto_pc_self]
        refine ⟨fun hu => hnot (hw ▸ List.mem_cons_of_mem _ hu), by simpa using hwt⟩
      · rw [goto_pc_of_ne hne]
        have hplace := hs.place u
        have hinside : ¬Holds (s.pc u) := by simp [hs.inside, howner, hne.symm]
        rw [hw] at hplace
        simp only [goto]
        rcases eq_or_ne u w with rfl | hne'
        · cases hp : s.pc u with
          | sleeping blocked => cases blocked <;> simp_all [Place]
          | _ => simp_all [Place, Holds]
        · exact hplace.congr (by simp [hne']) (by simp [hne'.symm])

lemma up (hs : s.Sound (some w)) {broadcast : Bool} (ht : s.pc t = .signalling w broadcast) (pc : CondPc T)
    (hpc : pc = .holding ∨ pc = .broadcasting) :
    (((s.goto w (.sleeping false)).setOwn w ⟨1, []⟩).goto t pc).Sound none := by
  have howner : s.owner = some t := (hs.inside t).mp (ht ▸ trivial)
  have hsleeps : ∃ blocked, s.pc w = .sleeping blocked := by
    rcases hs.target_sleeps with ⟨hp, -⟩ | ⟨hp, -⟩
    · exact ⟨true, hp⟩
    · exact ⟨false, hp⟩
  obtain ⟨blocked, hsleeps⟩ := hsleeps
  have hwt : w ≠ t := by
    rintro rfl
    simp [ht] at hsleeps
  have hfresh := hs.fresh w rfl
  have hnew : ∀ v b, pc ≠ .signalling v b := by rcases hpc with rfl | rfl <;> simp
  have hother : ∀ u, u ≠ t → ∀ v b, s.pc u ≠ .signalling v b := by
    intro u hne v b hu
    have hu' := (hs.inside u).mp (hu ▸ trivial)
    exact hne (Option.some_injective _ (hu'.symm.trans howner))
  refine ⟨fun u => ?_, hs.nodup, fun v h => absurd h (by simp), fun v => ⟨fun h => absurd h (by simp), ?_⟩,
    fun u => ?_, hs.log⟩
  · rcases eq_or_ne u t with rfl | hne
    · rw [goto_pc_self]
      rcases hpc with rfl | rfl <;> simpa [Holds] using howner
    · rw [goto_pc_of_ne hne]
      rcases eq_or_ne u w with rfl | hne'
      · have hu := hs.inside u
        rw [hsleeps] at hu
        simpa [setOwn, goto_pc_self, Holds] using hu
      · simpa [setOwn, goto_pc_of_ne hne'] using hs.inside u
  · rintro ⟨u, b, hu⟩
    rcases eq_or_ne u t with rfl | hne
    · rw [goto_pc_self] at hu
      exact absurd hu (hnew v b)
    · rw [goto_pc_of_ne hne] at hu
      rcases eq_or_ne u w with rfl | hne'
      · simp [setOwn, goto_pc_self] at hu
      · exact absurd (by simpa [setOwn, goto_pc_of_ne hne'] using hu) (hother u hne v b)
  · rcases eq_or_ne u t with rfl | hne
    · rw [goto_pc_self]
      have hplace := hs.place u
      rw [ht] at hplace
      rcases hpc with rfl | rfl <;> exact ⟨hplace.1, by simp⟩
    · rw [goto_pc_of_ne hne]
      rcases eq_or_ne u w with rfl | hne'
      · simp [goto, setOwn, Place, hfresh]
      · simp only [goto, setOwn, Function.update_of_ne hne']
        exact (hs.place u).congr Iff.rfl (by simp [hne'.symm])

lemma run (hs : s.Sound target) (t : T) : ∃ s' target', s.step (t, .run) = some s' ∧ s'.Sound target' := by
  have hplace := hs.place t
  have hinside := hs.inside t
  cases hp : s.pc t with
  | outside => exact ⟨s, target, by simp [step, hp, runPc], hs⟩
  | holding => exact ⟨s, target, by simp [step, hp, runPc], hs⟩
  | acquiring =>
    rw [hp] at hplace
    by_cases howner : s.owner = none
    · exact ⟨_, target, by simp [step, hp, runPc, howner], hs.keep .holding (some t) (by simp [Holds])
        (fun u hne => by simp [howner, hne.symm]) (by simp [hp]) (by simp) hplace⟩
    · exact ⟨s, target, by simp [step, hp, runPc, howner], hs⟩
  | queued =>
    rw [hp] at hplace
    have howner : s.owner = some t := hinside.mp (hp ▸ trivial)
    exact ⟨_, target, by simp [step, hp, runPc, howner], hs.keep (.sleeping false) none (by simp [Holds])
      (fun u hne => by simp [howner, hne.symm]) (by simp [hp]) (by simp) (.inl ⟨.inl hplace.1, hplace.2.2⟩)⟩
  | sleeping blocked =>
    rw [hp] at hplace hinside
    cases blocked with
    | true => exact ⟨s, target, by simp [step, hp, runPc], hs⟩
    | false =>
      rcases hplace with ⟨hwaits, hown⟩ | ⟨hgone, hown⟩
      · exact ⟨_, target, by simp [step, hp, runPc, hown, Semaphore.semaDown],
          hs.alter (.sleeping true) s.owner ⟨0,
            [t]⟩ hinside (fun _ _ => Iff.rfl) (by simp [hp]) (by simp) ⟨hwaits, rfl⟩⟩
      · have howner : s.owner ≠ some t := by simpa [Holds] using hinside
        exact ⟨_, target, by simp [step, hp, runPc, hown, Semaphore.semaDown, howner],
          hs.alter .acquiring s.owner ⟨0, []⟩ hinside (fun _ _ => Iff.rfl) (by simp [hp]) (by simp) hgone⟩
  | signalling w broadcast =>
    obtain rfl : target = some w := (hs.aim w).mpr ⟨t, broadcast, hp⟩
    have hsound := hs.up hp (if broadcast then .broadcasting else .holding) (by cases broadcast <;> simp)
    rcases hs.target_sleeps with ⟨hsleeps, hown⟩ | ⟨hsleeps, hown⟩
    · exact ⟨_, none, by simp [step, hp, runPc, hown, Semaphore.semaUp, threadUnblock, hsleeps], hsound⟩
    · rw [goto_eq_self hsleeps] at hsound
      exact ⟨_, none, by simp [step, hp, runPc, hown, Semaphore.semaUp, threadUnblock], hsound⟩
  | broadcasting =>
    rw [hp] at hplace
    have howner : s.owner = some t := hinside.mp (hp ▸ trivial)
    by_cases hw : s.waiters = []
    · exact ⟨s.goto t .holding,
        target, by simp [step, hp, runPc, hw], hs.keep .holding s.owner (by simp [Holds, howner])
        (fun _ _ => Iff.rfl) (by simp [hp]) (by simp) hplace⟩
    · obtain ⟨s', target', hsignal, hs'⟩ := hs.condSignal howner (.inr hp) true
      exact ⟨s', target', by simp [step, hp, runPc, hw, hsignal], hs'⟩

lemma step (hs : s.Sound target) (move : T × CondMove) :
    ∃ s' target', s.step move = some s' ∧ s'.Sound target' := by
  obtain ⟨t, m⟩ := move
  have hplace := hs.place t
  cases m with
  | run => exact hs.run t
  | lockAcquire =>
    by_cases hp : s.pc t = .outside
    · have howner : s.owner ≠ some t := fun h => by simpa [hp, Holds] using (hs.inside t).mpr h
      rw [hp] at hplace
      exact ⟨_, target, by
        simp [SharedCondition.step, hp, howner], hs.keep .acquiring s.owner (by simp [Holds, howner])
        (fun _ _ => Iff.rfl) (by simp [hp]) (by simp) hplace⟩
    · exact ⟨s, target, by simp [SharedCondition.step, hp], hs⟩
  | lockRelease =>
    by_cases hp : s.pc t = .holding
    · have howner : s.owner = some t := (hs.inside t).mp (hp ▸ trivial)
      rw [hp] at hplace
      exact ⟨_, target, by simp [SharedCondition.step, hp, howner], hs.keep .outside none (by simp [Holds])
        (fun u hne => by simp [howner, hne.symm]) (by simp [hp]) (by simp) hplace⟩
    · exact ⟨s, target, by simp [SharedCondition.step, hp], hs⟩
  | condWait =>
    by_cases hp : s.pc t = .holding
    · obtain ⟨s', hwait, hs'⟩ := hs.condWait ((hs.inside t).mp (hp ▸ trivial)) hp
      exact ⟨s', target, by simp [SharedCondition.step, hp, hwait], hs'⟩
    · exact ⟨s, target, by simp [SharedCondition.step, hp], hs⟩
  | condSignal =>
    by_cases hp : s.pc t = .holding
    · obtain ⟨s', target', hsignal, hs'⟩ := hs.condSignal ((hs.inside t).mp (hp ▸ trivial)) (.inl hp) false
      exact ⟨s', target', by simp [SharedCondition.step, hp, hsignal], hs'⟩
    · exact ⟨s, target, by simp [SharedCondition.step, hp], hs⟩
  | condBroadcast =>
    by_cases hp : s.pc t = .holding
    · have howner : s.owner = some t := (hs.inside t).mp (hp ▸ trivial)
      rw [hp] at hplace
      exact ⟨_, target, by simp [SharedCondition.step, hp], hs.keep .broadcasting s.owner (by simp [Holds, howner])
        (fun _ _ => Iff.rfl) (by simp [hp]) (by simp) hplace⟩
    · exact ⟨s, target, by simp [SharedCondition.step, hp], hs⟩

lemma play (hs : s.Sound target) (moves : List (T × CondMove)) :
    ∃ s' target', Lib.play SharedCondition.step s moves = some s' ∧ s'.Sound target' ∧
      OwnerRun (moves.map Prod.fst) s.owner s'.owner := by
  induction moves generalizing s target with
  | nil => exact ⟨s, target, rfl, hs, .nil _⟩
  | cons move moves ih =>
    obtain ⟨s₁, target₁, hstep, hs₁⟩ := hs.step move
    obtain ⟨s₂, target₂, hplay, hs₂, hrun⟩ := ih hs₁
    exact ⟨s₂, target₂, by rw [Lib.play, hstep, Option.bind_some, hplay], hs₂, .cons (owner_step hstep) hrun⟩

end Sound

def InWait : CondPc T → Prop
  | .queued | .sleeping _ => True
  | .outside | .acquiring | .holding | .signalling .. | .broadcasting => False

/-- What a condition variable gives its users: threads are signalled in the order in which they have called
`cond_wait`, a thread leaves `cond_wait` only after a signal of its own, one that sleeps has its signal still to
come or finds its semaphore up, and the semaphore of a thread that is being signalled is not gone. -/
structure Delivers (s : SharedCondition T) : Prop where
  inside : ∀ t, Holds (s.pc t) ↔ s.owner = some t
  fifo : s.waited = s.signalled ++ s.waiters
  returned : ∀ t, ¬InWait (s.pc t) → s.signalled.count t = s.waited.count t
  blocked : ∀ t, s.pc t = .sleeping true → t ∈ s.waiters ∨ ∃ u broadcast, s.pc u = .signalling t broadcast
  awake : ∀ t, s.pc t = .sleeping false →
    t ∈ s.waiters ∨ (∃ u broadcast, s.pc u = .signalling t broadcast) ∨ (s.own t).value = 1
  alive : ∀ t w broadcast, s.pc t = .signalling w broadcast → ∃ blocked, s.pc w = .sleeping blocked

lemma Sound.delivers (hs : s.Sound target) : s.Delivers := by
  refine ⟨hs.inside, hs.log, fun t ht => ?_, fun t ht => ?_, fun t ht => ?_, fun t w broadcast ht => ?_⟩
  · have hplace := hs.place t
    have hnot : t ∉ s.waiters := by
      cases hp : s.pc t <;> simp_all [Place, InWait]
    rw [hs.log, List.count_append, List.count_eq_zero_of_not_mem hnot, Nat.add_zero]
  · have hplace := hs.place t
    rw [ht] at hplace
    exact hplace.1.imp_right (hs.aim t).mp
  · have hplace := hs.place t
    rw [ht] at hplace
    rcases hplace with ⟨hwaits | htarget, -⟩ | ⟨-, hown⟩
    · exact .inl hwaits
    · exact .inr (.inl ((hs.aim t).mp htarget))
    · exact .inr (.inr (by rw [hown]))
  · obtain rfl : target = some w := (hs.aim w).mpr ⟨t, broadcast, ht⟩
    rcases hs.target_sleeps with ⟨hp, -⟩ | ⟨hp, -⟩
    · exact ⟨true, hp⟩
    · exact ⟨false, hp⟩

end SharedCondition

/-- Whatever the threads do and wherever they are preempted, no assertion of a condition variable fails, no signal
is lost or goes to a thread that has come later, and the lock is used as its owner alone allows. -/
theorem signals_delivered (T : Type) [DecidableEq T] (own : T → Semaphore T) (moves : List (T × CondMove)) :
    ∃ s, play SharedCondition.step (SharedCondition.condInit own) moves = some s ∧ s.Delivers ∧
      OwnerRun (moves.map Prod.fst) none s.owner := by
  obtain ⟨s, target, hplay, hs, hrun⟩ := (SharedCondition.condInit_sound own).play moves
  exact ⟨s, hplay, hs.delivers, hrun⟩

end CourseArchive.PintOS.Threads
