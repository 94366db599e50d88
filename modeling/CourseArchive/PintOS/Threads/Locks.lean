import CourseArchive.Lib.Runs

/-! Semaphores and locks (`threads/synch.c`) that threads use at the same time. Code that runs with interrupts off
is one step; elsewhere a thread may be preempted. -/

namespace CourseArchive.PintOS.Threads

open Lib

structure Semaphore (T : Type) where
  value : ℕ
  waiters : List T

namespace Semaphore

variable {T : Type}

def semaInit (value : ℕ) : Semaphore T := { value := value, waiters := [] }

/-- One turn of the loop of `sema_down`; the flag is on when the thread goes on to `thread_block`. -/
def semaDown (sema : Semaphore T) (t : T) : Bool × Semaphore T :=
  if sema.value = 0 then (true, { sema with waiters := sema.waiters ++ [t] })
  else (false, { sema with value := sema.value - 1 })

def semaTryDown (sema : Semaphore T) : Bool × Semaphore T :=
  if 0 < sema.value then (true, { sema with value := sema.value - 1 }) else (false, sema)

def semaUp (sema : Semaphore T) : Option T × Semaphore T :=
  (sema.waiters.head?, { value := sema.value + 1, waiters := sema.waiters.tail })

end Semaphore

/-- Where a thread is: `acquiring` is the loop of `sema_down`, `trying` and `resigning` are the places behind the
assertion of `lock_try_acquire` and of `lock_release`, `taking` and `releasing` those between the semaphore and the
field `holder`. -/
inductive LockPc
  | outside
  | acquiring (blocked : Bool)
  | trying
  | taking
  | holding
  | resigning
  | releasing
  deriving DecidableEq

structure SharedLock (T : Type) where
  semaphore : Semaphore T
  holder : Option T
  pc : T → LockPc

inductive OwnerStep {T : Type} (t : T) : Option T → Option T → Prop
  | stay (owner : Option T) : OwnerStep t owner owner
  | take : OwnerStep t none (some t)
  | give : OwnerStep t (some t) none

inductive OwnerRun {T : Type} : List T → Option T → Option T → Prop
  | nil (owner : Option T) : OwnerRun [] owner owner
  | cons {t : T} {ts : List T} {o o' o'' : Option T} :
    OwnerStep t o o' → OwnerRun ts o' o'' → OwnerRun (t :: ts) o o''

inductive LockMove
  | lockAcquire
  | lockTryAcquire
  | lockRelease
  | run

namespace SharedLock

variable {T : Type}

def lockInit (T : Type) : SharedLock T where
  semaphore := .semaInit 1
  holder := none
  pc _ := .outside

variable [DecidableEq T]

def goto (s : SharedLock T) (t : T) (pc : LockPc) : SharedLock T := { s with pc := Function.update s.pc t pc }

def threadUnblock (s : SharedLock T) : Option T → Option (SharedLock T)
  | none => some s
  | some u => if s.pc u = .acquiring true then some (s.goto u (.acquiring false)) else none

def lockHeldByCurrentThread (s : SharedLock T) (t : T) : Bool := s.holder = some t

def runPc (s : SharedLock T) (t : T) : LockPc → Option (SharedLock T)
  | .outside | .acquiring true | .holding => some s
  | .acquiring false =>
    let r := s.semaphore.semaDown t
    some ({ s with semaphore := r.2 }.goto t (if r.1 then .acquiring true else .taking))
  | .trying =>
    let r := s.semaphore.semaTryDown
    some ({ s with semaphore := r.2 }.goto t (if r.1 then .taking else .outside))
  | .taking => some ({ s with holder := some t }.goto t .holding)
  | .resigning => some ({ s with holder := none }.goto t .releasing)
  | .releasing => do
    let r := s.semaphore.semaUp
    let s ← s.threadUnblock r.1
    some ({ s with semaphore := r.2 }.goto t .outside)

/-- A thread in the midst of a call only runs on, and it releases the lock only when its `lock_acquire` has
returned. `none` is a failed assertion. -/
def step (s : SharedLock T) (move : T × LockMove) : Option (SharedLock T) :=
  let t := move.1
  match move.2 with
  | .run => s.runPc t (s.pc t)
  | .lockAcquire =>
    if s.pc t = .outside then
      if s.lockHeldByCurrentThread t then none else some (s.goto t (.acquiring false))
    else some s
  | .lockTryAcquire =>
    if s.pc t = .outside then
      if s.lockHeldByCurrentThread t then none else some (s.goto t .trying)
    else some s
  | .lockRelease =>
    if s.pc t = .holding then
      if s.lockHeldByCurrentThread t then some (s.goto t .resigning) else none
    else some s

def Inside : LockPc → Prop
  | .taking | .holding | .resigning | .releasing => True
  | .outside | .acquiring _ | .trying => False

def Named : LockPc → Prop
  | .holding | .resigning => True
  | .outside | .acquiring _ | .trying | .taking | .releasing => False

structure Sound (s : SharedLock T) (owner : Option T) : Prop where
  value : s.semaphore.value = if owner.isSome then 0 else 1
  inside : ∀ t, Inside (s.pc t) ↔ owner = some t
  holder : ∀ t, s.holder = some t ↔ Named (s.pc t)
  nodup : s.semaphore.waiters.Nodup
  blocked : ∀ t, t ∈ s.semaphore.waiters ↔ s.pc t = .acquiring true
  awake : owner = none → s.semaphore.waiters ≠ [] → ∃ t, s.pc t = .acquiring false

variable {s : SharedLock T} {t u : T} {owner : Option T}

@[simp] lemma goto_semaphore (pc : LockPc) : (s.goto t pc).semaphore = s.semaphore := rfl

@[simp] lemma goto_holder (pc : LockPc) : (s.goto t pc).holder = s.holder := rfl

@[simp] lemma goto_pc_self (pc : LockPc) : (s.goto t pc).pc t = pc := Function.update_self ..

lemma goto_pc_of_ne (h : u ≠ t) (pc : LockPc) : (s.goto t pc).pc u = s.pc u := Function.update_of_ne h ..

omit [DecidableEq T] in
lemma lockInit_sound : (lockInit T).Sound none := by
  refine ⟨rfl, fun t => ?_, fun t => ?_, List.nodup_nil, fun t => ?_, fun _ h => absurd rfl h⟩ <;>
    simp [lockInit, Inside, Named, Semaphore.semaInit]

namespace Sound

omit [DecidableEq T] in
lemma not_held (hs : s.Sound owner) (ht : s.pc t = .outside) : ¬s.holder = some t := by
  rw [hs.holder, ht]
  exact id

lemma inside_goto (hs : s.Sound owner) {pc : LockPc} (hpc : Inside pc ↔ Inside (s.pc t)) (u : T) :
    Inside ((s.goto t pc).pc u) ↔ owner = some u := by
  rcases eq_or_ne u t with rfl | hne
  · rw [goto_pc_self, hpc]
    exact hs.inside u
  · rw [goto_pc_of_ne hne]
    exact hs.inside u

lemma holder_goto (hs : s.Sound owner) {pc : LockPc} (hpc : Named pc ↔ Named (s.pc t)) (u : T) :
    s.holder = some u ↔ Named ((s.goto t pc).pc u) := by
  rcases eq_or_ne u t with rfl | hne
  · rw [goto_pc_self, hpc]
    exact hs.holder u
  · rw [goto_pc_of_ne hne]
    exact hs.holder u

lemma blocked_goto (hs : s.Sound owner) {pc : LockPc} (hpc : pc = .acquiring true ↔ s.pc t = .acquiring true)
    (u : T) :
    u ∈ s.semaphore.waiters ↔ (s.goto t pc).pc u = .acquiring true := by
  rcases eq_or_ne u t with rfl | hne
  · rw [goto_pc_self, hpc]
    exact hs.blocked u
  · rw [goto_pc_of_ne hne]
    exact hs.blocked u

lemma acquire (hs : s.Sound owner) (ht : s.pc t = .outside) : (s.goto t (.acquiring false)).Sound owner :=
  ⟨hs.value, hs.inside_goto (by simp [ht, Inside]), hs.holder_goto (by simp [ht, Named]), hs.nodup,
    hs.blocked_goto (by simp [ht]), fun _ _ => ⟨t, by simp⟩⟩

lemma pass (hs : s.Sound owner) {pc : LockPc} (hinside : Inside pc ↔ Inside (s.pc t))
    (hnamed : Named pc ↔ Named (s.pc t))
    (hfrom : ∀ blocked, s.pc t ≠ .acquiring blocked) (hto : ∀ blocked, pc ≠ .acquiring blocked) :
    (s.goto t pc).Sound owner := by
  -- a thread that does not wait for the lock goes on without a change of what the others rely on
  refine ⟨hs.value, hs.inside_goto hinside, hs.holder_goto hnamed, hs.nodup,
    hs.blocked_goto (iff_of_false (hto true) (hfrom true)), fun hown hwait => ?_⟩
  obtain ⟨u, hu⟩ := hs.awake hown hwait
  refine ⟨u, ?_⟩
  rwa [goto_pc_of_ne]
  rintro rfl
  exact hfrom false hu

lemma down (hs : s.Sound none) (ht : s.pc t = .trying ∨ s.pc t = .acquiring false) :
    ({ s with semaphore := { s.semaphore with value := s.semaphore.value - 1 } }.goto
      t .taking).Sound (some t) := by
  -- a thread that is awake takes the free lock
  refine ⟨by simp [hs.value], fun u => ?_, hs.holder_goto ?_, hs.nodup, hs.blocked_goto ?_,
    fun h => absurd h (by simp)⟩
  · rcases eq_or_ne u t with rfl | hne
    · simp [Inside]
    · rw [goto_pc_of_ne hne, hs.inside u]
      simp [hne.symm]
  · rcases ht with ht | ht <;> simp [ht, Named]
  · rcases ht with ht | ht <;> simp [ht]

lemma block (hs : s.Sound owner) (hown : owner ≠ none) (ht : s.pc t = .acquiring false) :
    ({ s with semaphore := { s.semaphore with waiters := s.semaphore.waiters ++ [t] } }.goto
      t (.acquiring true)).Sound owner := by
  have hnot : t ∉ s.semaphore.waiters := by simp [hs.blocked, ht]
  refine ⟨hs.value, hs.inside_goto (by simp [ht, Inside]), hs.holder_goto (by simp [ht, Named]), ?_, fun u => ?_,
    fun h => absurd h hown⟩
  · exact hs.nodup.append (List.nodup_singleton t) (by simpa using hnot)
  · rcases eq_or_ne u t with rfl | hne
    · simp
    · rw [goto_pc_of_ne hne]
      simpa [hne] using hs.blocked u

omit [DecidableEq T] in
lemma inside_of_named {pc : LockPc} (h : Named pc) : Inside pc := by
  cases pc with
  | holding | resigning => trivial
  | outside | acquiring _ | trying | taking | releasing => cases h

lemma store (hs : s.Sound (some t)) (pc : LockPc) (hpc : Inside pc) (holder : Option T)
    (hh : ∀ u, holder = some u ↔ u = t ∧ Named pc) : ({ s with holder := holder }.goto t pc).Sound (some t) := by
  have ht : Inside (s.pc t) := (hs.inside t).mpr rfl
  have hnot : ∀ {pc : LockPc}, Inside pc → pc ≠ .acquiring true := by
    rintro pc hin rfl
    exact hin
  refine ⟨hs.value, hs.inside_goto (iff_of_true hpc ht), fun u => ?_, hs.nodup,
    hs.blocked_goto (iff_of_false (hnot hpc) (hnot ht)), fun h => absurd h (by simp)⟩
  rcases eq_or_ne u t with rfl | hne
  · simp [hh]
  · rw [goto_pc_of_ne hne]
    have hout : ¬Inside (s.pc u) := by simp [hs.inside, hne.symm]
    simp only [goto_holder, hh, hne, false_and, false_iff]
    exact fun hu => hout (inside_of_named hu)

lemma up (hs : s.Sound (some t)) (ht : s.pc t = .releasing) :
    ∃ s', s.threadUnblock s.semaphore.waiters.head? = some s' ∧
      ({ s' with semaphore := s.semaphore.semaUp.2 }.goto t .outside).Sound none := by
  have hvalue : s.semaphore.value = 0 := hs.value
  have hinside : ∀ u, u ≠ t → ¬Inside (s.pc u) := fun u hne => by simp [hs.inside, hne.symm]
  have hholder : ∀ u, s.holder ≠ some u := by
    intro u hu
    rw [hs.holder] at hu
    rcases eq_or_ne u t with rfl | hne
    · simp [ht, Named] at hu
    · exact hinside u hne (inside_of_named hu)
  cases hw : s.semaphore.waiters with
  | nil =>
    refine ⟨s, rfl, by simp [Semaphore.semaUp, hvalue], fun u => ?_, fun u => ?_, by simp [Semaphore.semaUp, hw],
      fun u => ?_, fun _ h => absurd (by simp [Semaphore.semaUp, hw]) h⟩
    · rcases eq_or_ne u t with rfl | hne
      · simp [Inside]
      · simpa [goto_pc_of_ne hne] using hinside u hne
    · rcases eq_or_ne u t with rfl | hne
      · simp [hholder, Named]
      · simpa [goto_pc_of_ne hne] using hs.holder u
    · rcases eq_or_ne u t with rfl | hne
      · simp [Semaphore.semaUp, hw]
      · simpa [goto_pc_of_ne hne, Semaphore.semaUp, hw] using hs.blocked u
  | cons v vs =>
    have hnodup := hs.nodup
    rw [hw, List.nodup_cons] at hnodup
    have hv : s.pc v = .acquiring true := (hs.blocked v).mp (by simp [hw])
    have hvt : v ≠ t := by
      rintro rfl
      simp [ht] at hv
    refine ⟨s.goto v (.acquiring false), by simp [threadUnblock, hv], by
      simp [Semaphore.semaUp, hvalue], fun u => ?_,
      fun u => ?_, by simpa [Semaphore.semaUp, hw] using hnodup.2, fun u => ?_,
      fun _ _ => ⟨v, (goto_pc_of_ne hvt _).trans (goto_pc_self _)⟩⟩
    · rcases eq_or_ne u t with rfl | hne
      · simp [Inside]
      · rw [goto_pc_of_ne hne]
        rcases eq_or_ne u v with rfl | hne'
        · simp [Inside]
        · simpa [goto_pc_of_ne hne'] using hinside u hne
    · rcases eq_or_ne u t with rfl | hne
      · simp [hholder, Named]
      · rw [goto_pc_of_ne hne]
        rcases eq_or_ne u v with rfl | hne'
        · simp [hholder, Named]
        · simpa [goto_pc_of_ne hne'] using hs.holder u
    · have hb := hs.blocked u
      rw [hw, List.mem_cons] at hb
      rcases eq_or_ne u t with rfl | hne
      · simpa [Semaphore.semaUp, hw, ht, hvt.symm] using hb
      · rw [goto_pc_of_ne hne]
        rcases eq_or_ne u v with rfl | hne'
        · simpa [Semaphore.semaUp, hw] using hnodup.1
        · simpa [goto_pc_of_ne hne', Semaphore.semaUp, hw, hne'] using hb

lemma lockAcquire (hs : s.Sound owner) (t : T) :
    ∃ s', s.step (t, .lockAcquire) = some s' ∧ s'.Sound owner := by
  by_cases ht : s.pc t = .outside
  · exact ⟨_, by simp [step, ht, lockHeldByCurrentThread, hs.not_held ht], hs.acquire ht⟩
  · exact ⟨s, by simp [step, ht], hs⟩

lemma lockTryAcquire (hs : s.Sound owner) (t : T) :
    ∃ s', s.step (t, .lockTryAcquire) = some s' ∧ s'.Sound owner := by
  by_cases ht : s.pc t = .outside
  · refine ⟨s.goto t .trying, by simp [step, ht, lockHeldByCurrentThread, hs.not_held ht], ?_⟩
    exact hs.pass (by simp [ht, Inside]) (by simp [ht, Named]) (by simp [ht]) (by simp)
  · exact ⟨s, by simp [step, ht], hs⟩

lemma lockRelease (hs : s.Sound owner) (t : T) :
    ∃ s', s.step (t, .lockRelease) = some s' ∧ s'.Sound owner := by
  by_cases ht : s.pc t = .holding
  · have hheld : s.holder = some t := (hs.holder t).mpr (by simp [ht, Named])
    refine ⟨s.goto t .resigning, by simp [step, ht, lockHeldByCurrentThread, hheld], ?_⟩
    exact hs.pass (by simp [ht, Inside]) (by simp [ht, Named]) (by simp [ht]) (by simp)
  · exact ⟨s, by simp [step, ht], hs⟩

lemma run (hs : s.Sound owner) (t : T) :
    ∃ s' o, s.step (t, .run) = some s' ∧ s'.Sound o ∧ OwnerStep t owner o := by
  cases hp : s.pc t with
  | outside => exact ⟨s, owner, by simp [step, hp, runPc], hs, .stay _⟩
  | acquiring blocked =>
    cases blocked with
    | true => exact ⟨s, owner, by simp [step, hp, runPc], hs, .stay _⟩
    | false =>
      cases owner with
      | none =>
        have hvalue : s.semaphore.value = 1 := hs.value
        exact ⟨_, some t, by simp [step, hp, runPc, Semaphore.semaDown, hvalue], hs.down (.inr hp), .take⟩
      | some o =>
        have hvalue : s.semaphore.value = 0 := hs.value
        exact ⟨_, some o, by simp [step, hp, runPc, Semaphore.semaDown, hvalue], hs.block (by simp) hp, .stay _⟩
  | trying =>
    cases owner with
    | none =>
      have hvalue : s.semaphore.value = 1 := hs.value
      exact ⟨_, some t, by simp [step, hp, runPc, Semaphore.semaTryDown, hvalue], hs.down (.inl hp), .take⟩
    | some o =>
      have hvalue : s.semaphore.value = 0 := hs.value
      refine ⟨s.goto t .outside, some o, by simp [step, hp, runPc, Semaphore.semaTryDown, hvalue], ?_, .stay _⟩
      exact hs.pass (by simp [hp, Inside]) (by simp [hp, Named]) (by simp [hp]) (by simp)
  | taking =>
    obtain rfl : owner = some t := (hs.inside t).mp (hp ▸ trivial)
    refine ⟨_, some t, by simp [step, hp, runPc], hs.store .holding trivial (some t) ?_, .stay _⟩
    simp [eq_comm, Named]
  | resigning =>
    obtain rfl : owner = some t := (hs.inside t).mp (hp ▸ trivial)
    exact ⟨_, some t, by simp [step, hp, runPc], hs.store .releasing trivial none (by simp [Named]), .stay _⟩
  | holding => exact ⟨s, owner, by simp [step, hp, runPc], hs, .stay _⟩
  | releasing =>
    obtain rfl : owner = some t := (hs.inside t).mp (hp ▸ trivial)
    obtain ⟨s', hunblock, hs'⟩ := hs.up hp
    exact ⟨_, none, by simp [step, hp, runPc, Semaphore.semaUp, hunblock], hs', .give⟩

lemma step (hs : s.Sound owner) (move : T × LockMove) :
    ∃ s' o, s.step move = some s' ∧ s'.Sound o ∧ OwnerStep move.1 owner o := by
  obtain ⟨t, m⟩ := move
  cases m with
  | lockAcquire =>
    obtain ⟨s', hstep, hs'⟩ := hs.lockAcquire t
    exact ⟨s', owner, hstep, hs', .stay _⟩
  | lockTryAcquire =>
    obtain ⟨s', hstep, hs'⟩ := hs.lockTryAcquire t
    exact ⟨s', owner, hstep, hs', .stay _⟩
  | lockRelease =>
    obtain ⟨s', hstep, hs'⟩ := hs.lockRelease t
    exact ⟨s', owner, hstep, hs', .stay _⟩
  | run => exact hs.run t

lemma play (hs : s.Sound owner) (moves : List (T × LockMove)) :
    ∃ s' o, Lib.play SharedLock.step s moves = some s' ∧ s'.Sound o ∧ OwnerRun (moves.map Prod.fst) owner o := by
  induction moves generalizing s owner with
  | nil => exact ⟨s, owner, rfl, hs, .nil owner⟩
  | cons move moves ih =>
    obtain ⟨s₁, o₁, hstep, hs₁, hown⟩ := hs.step move
    obtain ⟨s₂, o₂, hplay, hs₂, hrun⟩ := ih hs₁
    exact ⟨s₂, o₂, by rw [Lib.play, hstep, Option.bind_some, hplay], hs₂, .cons hown hrun⟩

end Sound

/-- What a lock gives its users: only the owner is past the semaphore, `holder` names the thread that has come back
with the lock and has not yet taken itself out, and while the lock is free some thread that waits for it is
awake. -/
structure Guards (s : SharedLock T) (owner : Option T) : Prop where
  inside : ∀ t, Inside (s.pc t) ↔ owner = some t
  holder : ∀ t, s.holder = some t ↔ Named (s.pc t)
  free : s.semaphore.value = 0 ↔ owner ≠ none
  awake : owner = none → (∃ t, s.pc t = .acquiring true) → ∃ t, s.pc t = .acquiring false

omit [DecidableEq T] in
lemma Sound.guards (hs : s.Sound owner) : s.Guards owner := by
  refine ⟨hs.inside, hs.holder, ?_, fun hown hblocked => ?_⟩
  · cases owner <;> simp [hs.value]
  · obtain ⟨t, ht⟩ := hblocked
    exact hs.awake hown (List.ne_nil_of_mem ((hs.blocked t).mpr ht))

end SharedLock

/-- Whatever the threads do and wherever they are preempted, no assertion of a lock fails, and the lock behaves as
its owner alone. -/
theorem lock_refines_owner (T : Type) [DecidableEq T] (moves : List (T × LockMove)) :
    ∃ s owner, play SharedLock.step (SharedLock.lockInit T) moves = some s ∧ s.Guards owner ∧
      OwnerRun (moves.map Prod.fst) none owner := by
  obtain ⟨s, owner, hplay, hs, hrun⟩ := SharedLock.lockInit_sound.play moves
  exact ⟨s, owner, hplay, hs.guards, hrun⟩

end CourseArchive.PintOS.Threads
