import CourseArchive.Lib.Ownership
import CourseArchive.Lib.Runs

/-! Threads that use one pool of the page allocator at the same time. A thread may be preempted between any two
tests or changes of single bits: `palloc_get_multiple` scans and flips under the lock of the pool,
`palloc_free_multiple` takes no lock at all. -/

namespace CourseArchive.PintOS.Threads

open Lib

/-- Where a thread is. `testing cnt i j` is `bitmap_scan` at `i`, in the `j`-th turn of `bitmap_contains`;
`checking` is the assertion of `palloc_free_multiple`, and `flipping` and `clearing` are the loops of
`bitmap_set_multiple`. -/
inductive PoolPc
  | outside
  | waiting (cnt : ℕ)
  | testing (cnt i j : ℕ)
  | flipping (cnt idx k : ℕ)
  | checking (idx cnt k : ℕ)
  | clearing (idx cnt k : ℕ)
  deriving DecidableEq

structure SharedPool (T : Type) where
  bitCnt : ℕ
  bits : ℕ → Bool
  lock : Option T
  pc : T → PoolPc
  held : T → List Extent

inductive PoolMove (T : Type)
  | get (cnt : ℕ)
  | free (i : ℕ)
  | give (i : ℕ) (receiver : T)
  | run

namespace SharedPool

variable {T : Type} [DecidableEq T] (s : SharedPool T) (t : T)

def goto (pc : PoolPc) : SharedPool T := { s with pc := Function.update s.pc t pc }

def setBit (i : ℕ) (value : Bool) : SharedPool T := { s with bits := Function.update s.bits i value }

def setHeld (xs : List Extent) : SharedPool T := { s with held := Function.update s.held t xs }

/-- The thread goes on until it has looked at a bit, changed one, or taken or left the lock. `none` is a failed
assertion. -/
def runPc : PoolPc → Option (SharedPool T)
  | .outside => some s
  | .waiting cnt =>
    if s.lock = none then
      if cnt ≤ s.bitCnt then some ({ s with lock := some t }.goto t (.testing cnt 0 0))
      else some (s.goto t .outside)
    else some s
  | .testing cnt i j =>
    if j = cnt then some (s.goto t (.flipping cnt i 0))
    else if s.bits (i + j) then
      if i + 1 ≤ s.bitCnt - cnt then some (s.goto t (.testing cnt (i + 1) 0))
      else some ({ s with lock := none }.goto t .outside)
    else some (s.goto t (.testing cnt i (j + 1)))
  | .flipping cnt idx k =>
    if k = cnt then some (({ s with lock := none }.setHeld t (⟨idx, cnt⟩ :: s.held t)).goto t .outside)
    else some ((s.setBit (idx + k) true).goto t (.flipping cnt idx (k + 1)))
  | .checking idx cnt k =>
    if k = cnt then some (s.goto t (.clearing idx cnt 0))
    else if s.bits (idx + k) then some (s.goto t (.checking idx cnt (k + 1))) else none
  | .clearing idx cnt k =>
    if k = cnt then some (s.goto t .outside)
    else some ((s.setBit (idx + k) false).goto t (.clearing idx cnt (k + 1)))

def step (move : T × PoolMove T) : Option (SharedPool T) :=
  let t := move.1
  match move.2 with
  | .run => s.runPc t (s.pc t)
  | .get cnt => some (if s.pc t = .outside ∧ cnt ≠ 0 then s.goto t (.waiting cnt) else s)
  | .free i =>
    match (s.held t)[i]? with
    | some x =>
      some (if s.pc t = .outside then (s.setHeld t ((s.held t).eraseIdx i)).goto t (.checking x.start x.cnt 0)
        else s)
    | none => some s
  | .give i u =>
    match (s.held t)[i]? with
    | some x => some (if t = u then s else (s.setHeld t ((s.held t).eraseIdx i)).setHeld u (x :: s.held u))
    | none => some s

def start (T : Type) (bitCnt : ℕ) : SharedPool T where
  bitCnt := bitCnt
  bits _ := false
  lock := none
  pc _ := .outside
  held _ := []

def claim : PoolPc → List ℕ
  | .flipping _ idx k => (Extent.mk idx k).places
  | .checking idx cnt _ => (Extent.mk idx cnt).places
  | .clearing idx cnt k => (Extent.mk (idx + k) (cnt - k)).places
  | .outside | .waiting _ | .testing .. => []

def groups (xs : List Extent) : List ℕ := xs.flatMap Extent.places

def claims : T → List ℕ := fun t => claim (s.pc t) ++ groups (s.held t)

def Locked : PoolPc → Prop
  | .testing .. | .flipping .. => True
  | _ => False

def Clear (bits : ℕ → Bool) (bitCnt : ℕ) : PoolPc → Prop
  | .testing cnt i j => j ≤ cnt ∧ i + cnt ≤ bitCnt ∧ ∀ k < j, bits (i + k) = false
  | .flipping cnt idx k => k ≤ cnt ∧ idx + cnt ≤ bitCnt ∧ ∀ j, k ≤ j → j < cnt → bits (idx + j) = false
  | .checking idx cnt k | .clearing idx cnt k => k ≤ cnt ∧ idx + cnt ≤ bitCnt
  | .outside | .waiting _ => True

structure Sound : Prop where
  owns : Owns s.claims s.bits
  lock : ∀ t, Locked (s.pc t) → s.lock = some t
  clear : ∀ t, Clear s.bits s.bitCnt (s.pc t)
  inside : ∀ t, ∀ x ∈ s.held t, x.start + x.cnt ≤ s.bitCnt

variable {s t} {s' : SharedPool T} {bits' : ℕ → Bool} {n : ℕ} {pc : PoolPc} {xs : List Extent}

lemma clear_of_not_locked {bits : ℕ → Bool} (h : Clear bits n pc) (hl : ¬Locked pc) : Clear bits' n pc := by
  cases pc with
  | testing => exact absurd trivial hl
  | flipping => exact absurd trivial hl
  | outside => trivial
  | waiting => trivial
  | checking => exact h
  | clearing => exact h

lemma clear_of_cleared {bits : ℕ → Bool} (h : Clear bits n pc) (hb : ∀ i, bits i = false → bits' i = false) :
    Clear bits' n pc := by
  cases pc with
  | testing cnt i j => exact ⟨h.1, h.2.1, fun k hk => hb _ (h.2.2 k hk)⟩
  | flipping cnt idx k => exact ⟨h.1, h.2.1, fun j hj hj' => hb _ (h.2.2 j hj hj')⟩
  | outside => trivial
  | waiting => trivial
  | checking => exact h
  | clearing => exact h

lemma claims_eq (hpc : s'.pc = Function.update s.pc t pc) (hheld : s'.held = Function.update s.held t xs) :
    s'.claims = Function.update s.claims t (claim pc ++ groups xs) := by
  funext u
  rcases eq_or_ne u t with rfl | hne
  · simp [claims, hpc, hheld]
  · simp [claims, hpc, hheld, hne]

lemma Sound.next (hs : s.Sound) (t : T) (pc : PoolPc) (xs : List Extent) (hpc : s'.pc = Function.update s.pc t pc)
    (hheld : s'.held = Function.update s.held t xs)
    (hcnt : s'.bitCnt = s.bitCnt) (howns : Owns (Function.update s.claims t (claim pc ++ groups xs)) s'.bits)
    (hlock : ∀ u, u ≠ t → Locked (s.pc u) → s'.lock = some u) (hown : Locked pc → s'.lock = some t)
    (hother : ∀ u, u ≠ t → Clear s'.bits s.bitCnt (s.pc u)) (hclear : Clear s'.bits s.bitCnt pc)
    (hinside : ∀ x ∈ xs, x.start + x.cnt ≤ s.bitCnt) : s'.Sound where
  owns := by rwa [claims_eq hpc hheld]
  lock u hu := by
    rw [hpc] at hu
    rcases eq_or_ne u t with rfl | hne
    · rw [Function.update_self] at hu
      exact hown hu
    · rw [Function.update_of_ne hne] at hu
      exact hlock u hne hu
  clear u := by
    rw [hpc, hcnt]
    rcases eq_or_ne u t with rfl | hne
    · rwa [Function.update_self]
    · rw [Function.update_of_ne hne]
      exact hother u hne
  inside u x hx := by
    rw [hheld] at hx
    rw [hcnt]
    rcases eq_or_ne u t with rfl | hne
    · rw [Function.update_self] at hx
      exact hinside x hx
    · rw [Function.update_of_ne hne] at hx
      exact hs.inside u x hx

lemma Sound.goto (hs : s.Sound) (hclaim : claim pc = claim (s.pc t)) (hlock : Locked pc → Locked (s.pc t))
    (hclear : Clear s.bits s.bitCnt pc) : (s.goto t pc).Sound := by
  refine hs.next t pc (s.held t) rfl (Function.update_eq_self t s.held).symm rfl ?_ (fun u _ hu => hs.lock u hu)
    (fun hl => hs.lock t (hlock hl)) (fun u _ => hs.clear u) hclear (hs.inside t)
  rw [hclaim]
  exact hs.owns.perm (List.Perm.refl _)

omit [DecidableEq T] in
lemma Sound.lock_unique (hs : s.Sound) {u : T} (ht : Locked (s.pc t)) (hu : Locked (s.pc u)) : u = t :=
  Option.some_injective _ ((hs.lock u hu).symm.trans (hs.lock t ht))

lemma Sound.unlock (hs : s.Sound) (xs : List Extent) (ht : Locked (s.pc t)) (hperm : (s.claims t).Perm (groups xs))
    (hinside : ∀ x ∈ xs, x.start + x.cnt ≤ s.bitCnt) :
    (({ s with lock := none }.setHeld t xs).goto t .outside).Sound := by
  refine hs.next t .outside xs rfl rfl rfl (hs.owns.perm hperm) (fun u hne hu => ?_) (fun hl => hl.elim)
    (fun u _ => hs.clear u) trivial hinside
  exact absurd (hs.lock_unique ht hu) hne

lemma Sound.mark (hs : s.Sound) {cnt idx k : ℕ} (hpc : s.pc t = .flipping cnt idx k) (hk : k ≠ cnt) :
    ((s.setBit (idx + k) true).goto t (.flipping cnt idx (k + 1))).Sound := by
  have hclear := hs.clear t
  have hlocked : Locked (s.pc t) := hpc ▸ trivial
  rw [hpc] at hclear
  refine hs.next t (.flipping cnt idx (k + 1)) (s.held t) rfl (Function.update_eq_self t s.held).symm rfl
    (hs.owns.take (hclear.2.2 k le_rfl (by have := hclear.1; omega)) ?_) (fun u _ hu => hs.lock u hu)
    (fun _ => hs.lock t hlocked)
    (fun u hne => ?_) ⟨by have := hclear.1; omega, hclear.2.1, fun j hj hj' => ?_⟩ (hs.inside t)
  · simp only [claims, hpc, claim, Extent.places_grow, List.append_assoc, List.singleton_append]
    exact List.perm_middle
  · exact clear_of_not_locked (hs.clear u) fun hu => hne (hs.lock_unique hlocked hu)
  · change Function.update s.bits (idx + k) true (idx + j) = false
    rw [Function.update_of_ne (by omega)]
    exact hclear.2.2 j (by omega) hj'

lemma Sound.unmark (hs : s.Sound) {cnt idx k : ℕ} (hpc : s.pc t = .clearing idx cnt k) (hk : k ≠ cnt) :
    ((s.setBit (idx + k) false).goto t (.clearing idx cnt (k + 1))).Sound := by
  have hclear := hs.clear t
  rw [hpc] at hclear
  have hlt : k < cnt := lt_of_le_of_ne hclear.1 hk
  refine hs.next t (.clearing idx cnt (k + 1)) (s.held t) rfl (Function.update_eq_self t s.held).symm rfl
    (hs.owns.give ?_) (fun u _ hu => hs.lock u hu) (fun hl => hl.elim) (fun u _ => ?_)
    ⟨hlt, hclear.2⟩ (hs.inside t)
  · simp only [claims, hpc, claim, Extent.places_shrink hlt, List.cons_append]
    exact List.Perm.refl _
  · refine clear_of_cleared (hs.clear u) fun i hi => ?_
    by_cases heq : i = idx + k
    · exact heq ▸ Function.update_self ..
    · exact (Function.update_of_ne heq _ _).trans hi

lemma Sound.runPc (hs : s.Sound) : ∃ s', s.runPc t (s.pc t) = some s' ∧ s'.Sound := by
  have hclear := hs.clear t
  cases hpc : s.pc t with
  | outside => exact ⟨s, rfl, hs⟩
  | waiting cnt =>
    by_cases hlock : s.lock = none
    · by_cases hcnt : cnt ≤ s.bitCnt
      · refine ⟨_, (if_pos hlock).trans (if_pos hcnt), ?_⟩
        refine hs.next t (.testing cnt 0 0) (s.held t) rfl (Function.update_eq_self t s.held).symm rfl ?_
          (fun u _ hu => ?_) (fun _ => rfl) (fun u _ => hs.clear u) ⟨Nat.zero_le _, by omega, by simp⟩
          (hs.inside t)
        · refine hs.owns.perm ?_
          simp only [claims, hpc, claim]
          exact List.Perm.refl _
        · have hheld := hs.lock u hu
          rw [hlock] at hheld
          cases hheld
      · exact ⟨_, (if_pos hlock).trans (if_neg hcnt), hs.goto (by simp [hpc, claim]) (fun hl => hl.elim) trivial⟩
    · exact ⟨s, if_neg hlock, hs⟩
  | testing cnt i j =>
    have hlocked : Locked (s.pc t) := hpc ▸ trivial
    rw [hpc] at hclear
    obtain ⟨hj, hin, hfree⟩ := hclear
    by_cases hend : j = cnt
    · subst hend
      refine ⟨_, if_pos rfl, hs.goto ?_ (fun _ => hlocked) ⟨Nat.zero_le _, hin, fun k _ hk => hfree k hk⟩⟩
      simp [hpc, claim, Extent.places]
    · cases hbit : s.bits (i + j) with
      | true =>
        by_cases hlast : i + 1 ≤ s.bitCnt - cnt
        · refine ⟨_, (if_neg hend).trans ((if_pos hbit).trans (if_pos hlast)),
            hs.goto (by simp [hpc, claim]) (fun _ => hlocked) ?_⟩
          exact ⟨Nat.zero_le _, by omega, by simp⟩
        · refine ⟨_, (if_neg hend).trans ((if_pos hbit).trans (if_neg hlast)), ?_⟩
          have hsound := hs.unlock (s.held t) hlocked (by simp [claims, hpc, claim]) (hs.inside t)
          rwa [setHeld, Function.update_eq_self] at hsound
      | false =>
        refine ⟨_, (if_neg hend).trans (if_neg (by simp [hbit])),
          hs.goto (by simp [hpc, claim]) (fun _ => hlocked) ?_⟩
        refine ⟨by omega, hin, fun k hk => ?_⟩
        rcases Nat.lt_succ_iff_lt_or_eq.mp hk with hk | rfl
        · exact hfree k hk
        · exact hbit
  | flipping cnt idx k =>
    rw [hpc] at hclear
    by_cases hend : k = cnt
    · subst hend
      refine ⟨_, if_pos rfl, hs.unlock _ (hpc ▸ trivial) ?_ (List.forall_mem_cons.mpr ⟨hclear.2.1, hs.inside t⟩)⟩
      simp [claims, hpc, claim, groups]
    · exact ⟨_, if_neg hend, hs.mark hpc hend⟩
  | checking idx cnt k =>
    rw [hpc] at hclear
    by_cases hend : k = cnt
    · exact ⟨_, if_pos hend, hs.goto (by simp [hpc, claim]) (fun hl => hl.elim) ⟨Nat.zero_le _, hclear.2⟩⟩
    · have hlt : k < cnt := lt_of_le_of_ne hclear.1 hend
      have hused : s.bits (idx + k) = true := by
        refine hs.owns.used_of_mem (t := t) ?_
        simp only [claims, hpc, claim]
        exact List.mem_append_left _ (Extent.mem_places.mpr ⟨Nat.le_add_right _ _, by simp only; omega⟩)
      refine ⟨_, (if_neg hend).trans (if_pos hused),
        hs.goto (by simp [hpc, claim]) (fun hl => hl.elim) ⟨hlt, hclear.2⟩⟩
  | clearing idx cnt k =>
    by_cases hend : k = cnt
    · refine ⟨_, if_pos hend, hs.goto ?_ (fun hl => hl.elim) trivial⟩
      simp [hpc, claim, hend, Extent.places]
    · exact ⟨_, if_neg hend, hs.unmark hpc hend⟩

omit [DecidableEq T] in
lemma groups_perm {i : ℕ} {x : Extent} (hi : xs[i]? = some x) :
    (groups xs).Perm (x.places ++ groups (xs.eraseIdx i)) := by
  obtain ⟨hlt, rfl⟩ := List.getElem?_eq_some_iff.mp hi
  exact ((List.getElem_cons_eraseIdx_perm hlt).symm.flatMap_right Extent.places)

lemma Sound.free (hs : s.Sound) {i : ℕ} {x : Extent} (hi : (s.held t)[i]? = some x) (hpc : s.pc t = .outside) :
    ((s.setHeld t ((s.held t).eraseIdx i)).goto t (.checking x.start x.cnt 0)).Sound := by
  have hx := hs.inside t x (List.mem_of_getElem? hi)
  refine hs.next t (.checking x.start x.cnt 0) ((s.held t).eraseIdx i) rfl rfl rfl (hs.owns.perm ?_)
    (fun u _ hu => hs.lock u hu) (fun hl => hl.elim) (fun u _ => hs.clear u) ⟨Nat.zero_le _, hx⟩
    fun y hy => hs.inside t y (List.mem_of_mem_eraseIdx hy)
  simp only [claims, hpc, claim, List.nil_append]
  exact groups_perm hi

lemma Sound.give (hs : s.Sound) {i : ℕ} {x : Extent} {u : T} (hi : (s.held t)[i]? = some x) (hne : t ≠ u) :
    ((s.setHeld t ((s.held t).eraseIdx i)).setHeld u (x :: s.held u)).Sound := by
  have hperm : (s.claims t).Perm (x.places ++ (claim (s.pc t) ++ groups ((s.held t).eraseIdx i))) :=
    ((groups_perm hi).append_left _).trans (List.perm_append_comm_assoc ..)
  have howns := hs.owns.transfer hne hperm
  have hu : (x.places ++ s.claims u).Perm (claim (s.pc u) ++ groups (x :: s.held u)) :=
    List.perm_append_comm_assoc ..
  have hclaims : ((s.setHeld t ((s.held t).eraseIdx i)).setHeld u (x :: s.held u)).claims =
      Function.update
      (Function.update (Function.update s.claims t (claim (s.pc t) ++ groups ((s.held t).eraseIdx i))) u
        (x.places ++ s.claims u)) u (claim (s.pc u) ++ groups (x :: s.held u)) := by
    funext v
    rcases eq_or_ne v u with rfl | hvu
    · simp [claims, setHeld]
    · rcases eq_or_ne v t with rfl | hvt
      · simp [claims, setHeld, hvu]
      · simp [claims, setHeld, hvu, hvt]
  refine ⟨?_, hs.lock, hs.clear, fun v y hy => ?_⟩
  · rw [hclaims]
    exact howns.perm (by rwa [Function.update_self])
  · simp only [setHeld] at hy
    rcases eq_or_ne v u with rfl | hvu
    · rw [Function.update_self] at hy
      rcases List.mem_cons.mp hy with rfl | hy
      · exact hs.inside t y (List.mem_of_getElem? hi)
      · exact hs.inside v y hy
    · rw [Function.update_of_ne hvu] at hy
      rcases eq_or_ne v t with rfl | hvt
      · rw [Function.update_self] at hy
        exact hs.inside v y (List.mem_of_mem_eraseIdx hy)
      · rw [Function.update_of_ne hvt] at hy
        exact hs.inside v y hy

lemma Sound.step (hs : s.Sound) (move : T × PoolMove T) : ∃ s', s.step move = some s' ∧ s'.Sound := by
  obtain ⟨t, move⟩ := move
  cases move with
  | run => exact hs.runPc
  | get cnt =>
    refine ⟨_, rfl, ?_⟩
    split
    · next hcall => exact hs.goto (by simp [hcall.1, claim]) (fun hl => hl.elim) trivial
    · exact hs
  | free i =>
    cases hi : (s.held t)[i]? with
    | none => exact ⟨s, by simp only [SharedPool.step, hi], hs⟩
    | some x =>
      refine ⟨_, by simp only [SharedPool.step, hi]; rfl, ?_⟩
      split
      · next hpc => exact hs.free hi hpc
      · exact hs
  | give i u =>
    cases hi : (s.held t)[i]? with
    | none => exact ⟨s, by simp only [SharedPool.step, hi], hs⟩
    | some x =>
      refine ⟨_, by simp only [SharedPool.step, hi]; rfl, ?_⟩
      split
      · exact hs
      · next hne => exact hs.give hi hne

omit [DecidableEq T] in
lemma start_sound (n : ℕ) : (start T n).Sound :=
  ⟨Owns.start, fun _ hl => hl.elim, fun _ => trivial, fun _ _ hx => absurd hx List.not_mem_nil⟩

/-- No page is handed out twice; every page in use is marked, and once no thread has pages or is in a call, none
is. -/
structure Exclusive (s : SharedPool T) : Prop where
  own : ∀ t, (s.held t).Pairwise fun x y => ∀ i, x.Has i → ¬y.Has i
  others : ∀ t u, t ≠ u → ∀ x ∈ s.held t, ∀ y ∈ s.held u, ∀ i, x.Has i → ¬y.Has i
  marked : ∀ t, ∀ x ∈ s.held t, x.start + x.cnt ≤ s.bitCnt ∧ ∀ i, x.Has i → s.bits i = true
  returned : (∀ t, s.pc t = .outside ∧ s.held t = []) → ∀ i, s.bits i = false

omit [DecidableEq T] in
lemma mem_claims {x : Extent} {i : ℕ} (hx : x ∈ s.held t) (hi : x.Has i) : i ∈ s.claims t :=
  List.mem_append_right _ (List.mem_flatMap.mpr ⟨x, hx, Extent.mem_places.mpr hi⟩)

omit [DecidableEq T] in
lemma Sound.exclusive (hs : s.Sound) : s.Exclusive where
  own t := by
    have hnodup := (List.nodup_append.mp (hs.owns.nodup t)).2.1
    rw [groups, List.nodup_flatMap] at hnodup
    refine hnodup.2.imp fun {x y} hxy i hx hy => ?_
    exact hxy (Extent.mem_places.mpr hx) (Extent.mem_places.mpr hy)
  others t u hne x hx y hy i hxi hyi := hs.owns.disjoint t u hne (mem_claims hx hxi) (mem_claims hy hyi)
  marked t x hx := ⟨hs.inside t x hx, fun _ hi => hs.owns.used_of_mem (mem_claims hx hi)⟩
  returned hall i := by
    rw [← Bool.not_eq_true, hs.owns.used_iff i]
    rintro ⟨t, hi⟩
    simp [claims, claim, groups, hall t] at hi

end SharedPool

open SharedPool

/-- In every interleaving of the calls of any threads, bit by bit, no assertion fails and no page has two
owners. -/
theorem pages_never_shared (T : Type) [DecidableEq T] (bitCnt : ℕ) (moves : List (T × PoolMove T)) :
    ∃ s, play SharedPool.step (start T bitCnt) moves = some s ∧ s.Exclusive := by
  have hall : AllOk SharedPool.step anyMove (start T bitCnt) moves := by
    generalize start T bitCnt = s
    induction moves generalizing s with
    | nil => trivial
    | cons move moves ih =>
      refine ⟨trivial, ?_⟩
      cases s.step move with
      | none => trivial
      | some s' => exact ih s'
  obtain ⟨s, hplay, hs⟩ := play_of_allOk Sound (fun s move hs _ => hs.step move) moves (start_sound bitCnt) hall
  exact ⟨s, hplay, hs.exclusive⟩

end CourseArchive.PintOS.Threads
