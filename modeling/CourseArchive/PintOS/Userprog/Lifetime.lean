import CourseArchive.PintOS.Userprog.Process

/-! When the records of `userprog/process.c` are freed once and not touched afterwards. -/

namespace CourseArchive.PintOS

open Lib

namespace ParentPc

def own : ParentPc → Option ℕ
  | create i | freeUncreated i | initExited i | initOrphan i | initExitStatus i | initWaitExitSema i
  | downStartSema i | checkTid i | freeUnloaded i | pushBack i | freeWaited _ i _ => some i
  | _ => none

def unborn : ParentPc → Option ℕ
  | create i | freeUncreated i => some i
  | _ => none

def ahead : ParentPc → List ℕ
  | search _ it | exitTest it => it
  | searchNext _ i it | exitFree i it | exitOrphan i it | exitNext i it => i :: it
  | testExited _ i | downWaitExitSema _ i | retestExited _ i | takeStatus _ i | remove _ i _ => [i]
  | _ => []

def leaving : ParentPc → Bool
  | exitTest _ | exitFree .. | exitOrphan .. | exitNext .. | gone => true
  | _ => false

def passed (pc : ParentPc) (i : ℕ) : Bool := pc.leaving && !decide (i ∈ pc.ahead)

def Onward (pc pc' : ParentPc) : Prop :=
  (∀ i ∈ pc'.own, i ∈ pc.own) ∧ (∀ i ∈ pc'.unborn, i ∈ pc.unborn) ∧ (pc.leaving = true → pc'.leaving = true) ∧
    ∀ i it, pc' ≠ exitFree i it

end ParentPc

def ChildPc.isDone : ChildPc → Bool
  | done _ => true
  | _ => false

def carefulParent (s : Family) : ParentPc → Bool
  | .freeUnloaded i | .freeWaited _ i _ => (s.child i).isDone
  | .exitTest (i :: _) => !(s.infos i).exited
  | _ => true

def carefulChild (s : Family) (i : ℕ) : ChildPc → Bool
  | .freeOwn _ => s.parent.passed i
  | _ => true

/-- The parent frees a record only when its child is past all its statements, its walk in `process_exit` meets no
child that has exited, and a child frees its own record only behind that walk. -/
def careful (s : Family) : Move → Bool
  | .parent .. => carefulParent s s.parent
  | .child i _ => carefulChild s i (s.child i)
  | _ => true

def Careful (s : Family) (m : Move) : Prop := careful s m = true

instance (s : Family) (m : Move) : Decidable (Careful s m) := inferInstanceAs (Decidable (_ = true))

namespace Family

variable {s : Family} {i : ℕ} {is : List ℕ}

lemma touch_live (h : s.slots i = .live) : s.touch i = s := if_pos h

lemma load_live {stale : ThreadAdditionalInfo} (h : s.slots i = .live) : s.load stale i = s.infos i := if_pos h

lemma store_live {f : ThreadAdditionalInfo → ThreadAdditionalInfo} (h : s.slots i = .live) :
    s.store i f = { s with infos := Function.update s.infos i (f (s.infos i)) } := if_pos h

lemma free_live (h : s.slots i = .live) : s.free i = { s with slots := Function.update s.slots i .freed } :=
  if_pos h

lemma touchAll_live (h : ∀ i ∈ is, s.slots i = .live) : s.touchAll is = s := by
  induction is with
  | nil => rfl
  | cons i is ih =>
    rw [touchAll, List.foldl_cons, touch_live (h i (by simp))]
    exact ih fun j hj => h j (by simp [hj])

end Family

lemma neighbours_subset {l : List ℕ} {i j : ℕ} (h : j ∈ neighbours l i) : j ∈ l := by
  obtain ⟨⟨a, b⟩, hab, he⟩ := List.mem_filterMap.mp h
  have ha := (List.of_mem_zip hab).1
  have hb := List.mem_of_mem_tail (List.of_mem_zip hab).2
  dsimp only at he
  split at he
  · exact Option.some_injective _ he ▸ hb
  · split at he
    · exact Option.some_injective _ he ▸ ha
    · cases he

structure Owned (s : Family) : Prop where
  clean : s.misuse = []
  child : ∀ i, s.child i = .absent ∨ (s.child i).isDone = true ∨ s.slots i = .live
  own : ∀ i ∈ s.parent.own, s.slots i = .live ∧ i ∉ s.children
  ahead : ∀ i ∈ s.parent.ahead, s.slots i = .live
  listed : s.parent.leaving = false → ∀ i ∈ s.children, s.slots i = .live
  nodup : s.children.Nodup
  unborn : ∀ i ∈ s.parent.unborn, s.child i = .absent ∨ (s.child i).isDone = true
  keeps : ∀ i it, s.parent ≠ .exitFree i it

lemma Owned.goto {s : Family} (h : Owned s) (infos : ℕ → ThreadAdditionalInfo) (log : List Event) (pc : ParentPc)
    (hon : s.parent.Onward pc) (hahead : ∀ i ∈ pc.ahead, s.slots i = .live) :
    Owned { s with infos := infos, log := log, parent := pc } where
  clean := h.clean
  child := h.child
  own i hi := h.own i (hon.1 i hi)
  ahead := hahead
  listed hl := h.listed (by
    cases hs : s.parent.leaving
    · rfl
    · exact absurd (hon.2.2.1 hs) (by simp [hl]))
  nodup := h.nodup
  unborn i hi := h.unborn i (hon.2.1 i hi)
  keeps := hon.2.2.2

lemma Owned.release {s : Family} (h : Owned s) {i : ℕ} (log : List Event) (hi : i ∈ s.parent.own)
    (hleave : s.parent.leaving = false) (hc : s.child i = .absent ∨ (s.child i).isDone = true) :
    Owned { s with slots := Function.update s.slots i .freed, log := log, parent := .idle } where
  clean := h.clean
  child j := by
    by_cases hj : j = i
    · subst hj
      exact hc.imp_right Or.inl
    · simpa only [Function.update_of_ne hj] using h.child j
  own := nofun
  ahead := nofun
  listed _ j hj := by
    have hji : j ≠ i := fun he => (h.own i hi).2 (he ▸ hj)
    simpa only [Function.update_of_ne hji] using h.listed hleave j hj
  nodup := h.nodup
  unborn := nofun
  keeps := nofun

lemma Owned.not_unborn {s : Family} (h : Owned s) {i : ℕ} (ha : s.child i ≠ .absent)
    (hd : (s.child i).isDone = false) : i ∉ s.parent.unborn := by
  intro hi
  rcases h.unborn i hi with hu | hu
  · exact ha hu
  · rw [hu] at hd
    cases hd

lemma Owned.childGoto {s : Family} (h : Owned s) (infos : ℕ → ThreadAdditionalInfo) {i : ℕ} (pc : ChildPc)
    (hi : s.slots i = .live ∨ pc.isDone = true) (hb : i ∉ s.parent.unborn) :
    Owned { s with infos := infos, child := Function.update s.child i pc } where
  clean := h.clean
  child j := by
    by_cases hj : j = i
    · subst hj
      simp only [Function.update_self]
      exact hi.elim (fun hl => Or.inr (Or.inr hl)) fun hd => Or.inr (Or.inl hd)
    · simpa only [Function.update_of_ne hj] using h.child j
  own := h.own
  ahead := h.ahead
  listed := h.listed
  nodup := h.nodup
  unborn j hj := by
    have hji : j ≠ i := fun he => hb (he ▸ hj)
    simpa only [Function.update_of_ne hji] using h.unborn j hj
  keeps := h.keeps

lemma Owned.execute {s : Family} (h : Owned s) {i : ℕ} (info : ThreadAdditionalInfo) (hi : s.slots i = .unused)
    (hp : s.parent = .idle) :
    Owned { s with slots := Function.update s.slots i .live, infos := Function.update s.infos i info,
                   parent := .create i } where
  clean := h.clean
  child j := by
    by_cases hj : j = i
    · subst hj
      exact Or.inr (Or.inr (Function.update_self ..))
    · simpa only [Function.update_of_ne hj] using h.child j
  own j hj := by
    obtain rfl : i = j := Option.some_injective _ hj
    refine ⟨Function.update_self .., fun hm => ?_⟩
    have := h.listed (by rw [hp]; rfl) i hm
    rw [hi] at this
    cases this
  ahead := nofun
  listed _ j hj := by
    have hl := h.listed (by rw [hp]; rfl) j hj
    by_cases hji : j = i
    · subst hji
      exact Function.update_self ..
    · simpa only [Function.update_of_ne hji] using hl
  nodup := h.nodup
  unborn j hj := by
    obtain rfl : i = j := Option.some_injective _ hj
    simpa [hi] using h.child i
  keeps := nofun

lemma Owned.pushBack {s : Family} (h : Owned s) {i : ℕ} (log : List Event) (hp : s.parent = .pushBack i) :
    Owned { s with children := s.children ++ [i], log := log, parent := .idle } where
  clean := h.clean
  child := h.child
  own := nofun
  ahead := nofun
  listed _ j hj := by
    rcases List.mem_append.mp hj with hj | hj
    · exact h.listed (by rw [hp]; rfl) j hj
    · obtain rfl := List.mem_singleton.mp hj
      exact (h.own j (by rw [hp]; rfl)).1
  nodup := by
    refine List.nodup_append'.mpr ⟨h.nodup, List.nodup_singleton i, ?_⟩
    rw [List.disjoint_singleton]
    exact (h.own i (by rw [hp]; rfl)).2
  unborn := nofun
  keeps := nofun

lemma Owned.remove {s : Family} (h : Owned s) {childTid status : ℤ} {i : ℕ}
    (hp : s.parent = .remove childTid i status) :
    Owned { s with children := s.children.erase i, parent := .freeWaited childTid i status } where
  clean := h.clean
  child := h.child
  own j hj := by
    obtain rfl : i = j := Option.some_injective _ hj
    exact ⟨h.ahead i (by simp [hp, ParentPc.ahead]), h.nodup.not_mem_erase⟩
  ahead := nofun
  listed _ j hj := h.listed (by rw [hp]; rfl) j (List.mem_of_mem_erase hj)
  nodup := h.nodup.erase i
  unborn := nofun
  keeps := nofun

lemma Owned.touched {s : Family} (h : Owned s) {i : ℕ} {pc : ParentPc} (hi : s.slots i = .live)
    (hon : s.parent.Onward pc) (hahead : ∀ j ∈ pc.ahead, s.slots j = .live) : Owned ((s.touch i).goto pc) := by
  -- statements that only read a record that is still there, with what follows from them
  rw [Family.touch_live hi]
  exact h.goto s.infos s.log pc hon hahead

lemma Owned.stored {s : Family} (h : Owned s) {i : ℕ} {pc : ParentPc}
    (f : ThreadAdditionalInfo → ThreadAdditionalInfo)
    (hi : s.slots i = .live) (hon : s.parent.Onward pc) (hahead : ∀ j ∈ pc.ahead, s.slots j = .live) :
    Owned ((s.store i f).goto pc) := by
  rw [Family.store_live hi]
  exact h.goto _ s.log pc hon hahead

lemma Owned.freed {s : Family} (h : Owned s) {i : ℕ} (e : Event) (hi : i ∈ s.parent.own)
    (hleave : s.parent.leaving = false)
    (hc : s.child i = .absent ∨ (s.child i).isDone = true) : Owned (((s.free i).event e).goto .idle) := by
  rw [Family.free_live (h.own i hi).1]
  exact h.release _ hi hleave hc

section ParentStep

variable {s t : Family} {created : Bool} {stale : ThreadAdditionalInfo} {childTid exitStatus : ℤ} {i : ℕ}
  {it : List ℕ}

attribute [local simp] ParentPc.Onward ParentPc.own ParentPc.unborn ParentPc.ahead ParentPc.leaving

lemma Owned.createStep (h : Owned s) (hp : s.parent = .create i) (e : parentStep s created stale = some t) :
    Owned t := by
  have hl := (h.own i (by simp [hp])).1
  cases created with
  | true =>
    simp only [parentStep, hp, if_true, Option.some.injEq] at e
    subst e
    exact (h.goto s.infos s.log (.initExited i) (by simp [hp]) (by simp)).childGoto s.infos .loading (Or.inl hl)
      (by simp)
  | false =>
    simp only [parentStep, hp, Bool.false_eq_true, if_false, Option.some.injEq] at e
    subst e
    exact h.goto s.infos s.log _ (by simp [hp]) (by simp)

lemma Owned.pushBackStep (h : Owned s) (hp : s.parent = .pushBack i) (e : parentStep s created stale = some t) :
    Owned t := by
  have htouch : s.touchAll (s.children.getLast?.toList ++ [i]) = s := by
    apply Family.touchAll_live
    intro j hj
    simp only [List.mem_append, Option.mem_toList, List.mem_singleton] at hj
    rcases hj with hj | rfl
    · exact h.listed (by simp [hp]) j (List.mem_of_getLast? hj)
    · exact (h.own j (by simp [hp])).1
  simp only [parentStep, hp, htouch, Option.some.injEq] at e
  subst e
  exact h.pushBack _ hp

lemma Owned.searchStep (h : Owned s) (hp : s.parent = .search childTid it)
    (e : parentStep s created stale = some t) :
    Owned t := by
  have hahead := h.ahead
  rw [hp] at hahead
  cases it with
  | nil =>
    simp only [parentStep, hp, Option.some.injEq] at e
    subst e
    exact h.goto s.infos _ _ (by simp [hp]) (by simp)
  | cons i it =>
    have hi := hahead i (by simp)
    simp only [parentStep, hp] at e
    split at e <;> obtain rfl := Option.some_injective _ e
    · exact h.touched hi (by simp [hp]) (by simpa using hi)
    · exact h.touched hi (by simp [hp]) hahead

lemma Owned.retestStep (h : Owned s) (hp : s.parent = .retestExited childTid i)
    (e : parentStep s created stale = some t) :
    Owned t := by
  have hi := h.ahead i (by simp [hp])
  simp only [parentStep, hp] at e
  split at e <;> obtain rfl := Option.some_injective _ e
  · exact h.touched hi (by simp [hp]) (by simpa using hi)
  · rw [Family.touch_live hi]
    exact h.goto s.infos _ _ (by simp [hp]) (by simp)

lemma Owned.removeStep (h : Owned s) (hp : s.parent = .remove childTid i exitStatus)
    (e : parentStep s created stale = some t) : Owned t := by
  have htouch : s.touchAll (i :: neighbours s.children i) = s := by
    apply Family.touchAll_live
    intro j hj
    rcases List.mem_cons.mp hj with rfl | hj
    · exact h.ahead j (by simp [hp])
    · exact h.listed (by simp [hp]) j (neighbours_subset hj)
  simp only [parentStep, hp, htouch, Option.some.injEq] at e
  subst e
  exact h.remove hp

lemma Owned.exitTestStep (h : Owned s) (hc : carefulParent s s.parent = true) (hp : s.parent = .exitTest it)
    (e : parentStep s created stale = some t) : Owned t := by
  -- the walk of `process_exit` turns from a child to the record of the next one
  have hahead := h.ahead
  rw [hp] at hahead hc
  cases it with
  | nil =>
    simp only [parentStep, hp, Option.some.injEq] at e
    subst e
    exact h.goto s.infos s.log _ (by simp [hp]) (by simp)
  | cons i it =>
    have hi := hahead i (by simp)
    have hx : (s.infos i).exited = false := by simpa [carefulParent] using hc
    simp only [parentStep, hp, Family.load_live hi, hx, Bool.false_eq_true, if_false, Option.some.injEq] at e
    subst e
    exact h.touched hi (by simp [hp]) hahead

lemma Owned.parentStep (h : Owned s) (hc : carefulParent s s.parent = true)
    (e : parentStep s created stale = some t) :
    Owned t := by
  have hown := h.own
  have hahead := h.ahead
  cases hp : s.parent with
  | idle | gone => simp [PintOS.parentStep, hp] at e
  | create i => exact h.createStep hp e
  | freeUncreated i =>
    simp only [PintOS.parentStep, hp, Option.some.injEq] at e
    subst e
    exact h.freed _ (by simp [hp]) (by simp [hp]) (h.unborn i (by simp [hp]))
  | initExited i | initOrphan i | initExitStatus i | initWaitExitSema i =>
    simp only [PintOS.parentStep, hp, Option.some.injEq] at e
    subst e
    exact h.stored _ (hown i (by simp [hp])).1 (by simp [hp]) (by simp)
  | downStartSema i =>
    simp only [PintOS.parentStep, hp, Option.ite_none_left_eq_some, Option.some.injEq] at e
    obtain ⟨-, rfl⟩ := e
    exact h.stored _ (hown i (by simp [hp])).1 (by simp [hp]) (by simp)
  | checkTid i =>
    simp only [PintOS.parentStep, hp] at e
    split at e <;> obtain rfl := Option.some_injective _ e <;>
      exact h.touched (hown i (by simp [hp])).1 (by simp [hp]) (by simp)
  | freeUnloaded i | freeWaited childTid i exitStatus =>
    rw [hp] at hc
    simp only [PintOS.parentStep, hp, Option.some.injEq] at e
    subst e
    exact h.freed _ (by simp [hp]) (by simp [hp]) (Or.inr hc)
  | pushBack i => exact h.pushBackStep hp e
  | search childTid it => exact h.searchStep hp e
  | searchNext childTid i it | exitNext i it =>
    rw [hp] at hahead
    simp only [PintOS.parentStep, hp, Option.some.injEq] at e
    subst e
    exact h.touched (hahead i (by simp)) (by simp [hp]) fun j hj => hahead j (List.mem_cons_of_mem i hj)
  | testExited childTid i =>
    rw [hp] at hahead
    simp only [PintOS.parentStep, hp] at e
    split at e <;> obtain rfl :=
      Option.some_injective _ e <;> exact h.touched (hahead i (by simp)) (by simp [hp]) hahead
  | downWaitExitSema childTid i =>
    rw [hp] at hahead
    simp only [PintOS.parentStep, hp, Option.ite_none_left_eq_some, Option.some.injEq] at e
    obtain ⟨-, rfl⟩ := e
    exact h.stored _ (hahead i (by simp)) (by simp [hp]) hahead
  | retestExited childTid i => exact h.retestStep hp e
  | takeStatus childTid i =>
    rw [hp] at hahead
    simp only [PintOS.parentStep, hp, Option.some.injEq] at e
    subst e
    exact h.touched (hahead i (by simp)) (by simp [hp]) hahead
  | remove childTid i exitStatus => exact h.removeStep hp e
  | exitTest it => exact h.exitTestStep hc hp e
  | exitFree i it => exact absurd hp (h.keeps i it)
  | exitOrphan i it =>
    rw [hp] at hahead
    simp only [PintOS.parentStep, hp, Option.some.injEq] at e
    subst e
    exact h.stored _ (hahead i (by simp)) (by simp [hp]) hahead

end ParentStep

lemma Owned.freeOwn {s : Family} (h : Owned s) {i : ℕ} (status : Option ℤ)
    (hpass : s.parent.leaving = true ∧ i ∉ s.parent.ahead) (hb : i ∉ s.parent.unborn) :
    Owned { s with slots := Function.update s.slots i .freed, child := Function.update s.child i (.done status) }
    where
  clean := h.clean
  child j := by
    by_cases hj : j = i
    · subst hj
      simp [ChildPc.isDone]
    · simpa only [Function.update_of_ne hj] using h.child j
  own j hj := by
    have hl := hpass.1
    cases hp : s.parent <;> simp [hp, ParentPc.own, ParentPc.leaving] at hj hl
  ahead j hj := by
    have hji : j ≠ i := fun he => hpass.2 (he ▸ hj)
    simpa only [Function.update_of_ne hji] using h.ahead j hj
  listed hl := absurd hpass.1 (by simp [hl])
  nodup := h.nodup
  unborn j hj := by
    have hji : j ≠ i := fun he => hb (he ▸ hj)
    simpa only [Function.update_of_ne hji] using h.unborn j hj
  keeps := h.keeps

lemma Owned.childStep {s t : Family} (h : Owned s) {i : ℕ} {stale : ThreadAdditionalInfo}
    (hc : carefulChild s i (s.child i) = true) (e : childStep s i stale = some t) : Owned t := by
  have hchild := h.child i
  cases hp : s.child i with
  | absent | loading | running | done status => simp [PintOS.childStep, hp] at e
  | storeTid | upStartSema success | storeExitStatus status | setExited status | upWaitExitSema status =>
    have hi : s.slots i = .live := by simpa [hp, ChildPc.isDone] using hchild
    simp only [PintOS.childStep, hp, Family.store_live hi, Family.childGoto, Option.some.injEq] at e
    subst e
    exact h.childGoto _ _ (Or.inl hi) (h.not_unborn (by simp [hp]) (by rw [hp]; rfl))
  | testOrphan status =>
    have hi : s.slots i = .live := by simpa [hp, ChildPc.isDone] using hchild
    simp only [PintOS.childStep, hp, Family.touch_live hi, Family.childGoto, Option.some.injEq] at e
    subst e
    exact h.childGoto s.infos _ (Or.inl hi) (h.not_unborn (by simp [hp]) (by rw [hp]; rfl))
  | freeOwn status =>
    have hi : s.slots i = .live := by simpa [hp, ChildPc.isDone] using hchild
    simp only [PintOS.childStep, hp, Family.free_live hi, Family.childGoto, Option.some.injEq] at e
    subst e
    have hpass : s.parent.leaving = true ∧ i ∉ s.parent.ahead := by
      simpa [hp, carefulChild, ParentPc.passed] using hc
    exact h.freeOwn status hpass (h.not_unborn (by simp [hp]) (by rw [hp]; rfl))

lemma Owned.step {s t : Family} (h : Owned s) {m : Move} (hm : Careful s m) (e : step s m = some t) : Owned t := by
  cases m with
  | execute i garbage =>
    simp only [PintOS.step, Option.ite_none_right_eq_some, Family.goto, Option.some.injEq] at e
    obtain ⟨⟨hp, hi⟩, rfl⟩ := e
    exact h.execute _ hi hp
  | wait childTid =>
    simp only [PintOS.step, Option.ite_none_right_eq_some, Family.goto, Option.some.injEq] at e
    obtain ⟨hp, rfl⟩ := e
    exact h.goto _ _ _ (by simp [hp, ParentPc.Onward, ParentPc.own, ParentPc.unborn, ParentPc.leaving])
      (h.listed (by rw [hp]; rfl))
  | leave =>
    simp only [PintOS.step, Option.ite_none_right_eq_some, Family.goto, Option.some.injEq] at e
    obtain ⟨hp, rfl⟩ := e
    exact h.goto _ _ _ (by simp [hp, ParentPc.Onward, ParentPc.own, ParentPc.unborn, ParentPc.leaving])
      (h.listed (by rw [hp]; rfl))
  | parent created stale => exact h.parentStep hm e
  | load i success | exit i status | kill i =>
    simp only [PintOS.step, Option.ite_none_right_eq_some, Family.childGoto, Option.some.injEq] at e
    obtain ⟨hp, rfl⟩ := e
    have hi : s.slots i = .live := by simpa [hp, ChildPc.isDone] using h.child i
    exact h.childGoto s.infos _ (Or.inl hi) (h.not_unborn (by simp [hp]) (by rw [hp]; rfl))
  | child i stale => exact h.childStep hm e

lemma newFamily_owned : Owned newFamily where
  clean := rfl
  child _ := Or.inl rfl
  own := nofun
  ahead := nofun
  listed _ := nofun
  nodup := List.nodup_nil
  unborn := nofun
  keeps := nofun

/-- In a run of careful steps every record is freed at most once and never touched after that. -/
theorem records_outlive_their_use {s : Family} (h : Reaches step Careful newFamily s) : s.misuse = [] :=
  (h.invariant Owned (fun _ _ _ hs hm e => hs.step hm e) newFamily_owned).clean

def clutter : ThreadAdditionalInfo := ⟨-858993460, true, true, -858993460, 3, 3⟩

def parentMoves (n : ℕ) : List Move := List.replicate n (.parent true clutter)

def childMoves (i n : ℕ) : List Move := List.replicate n (.child i clutter)

def startMoves (i : ℕ) : List Move :=
  .execute i clutter :: parentMoves 5 ++ .load i true :: childMoves i 2 ++ parentMoves 3

def carefulMoves : List Move :=
  startMoves 3 ++ startMoves 5 ++ .exit 3 7 :: childMoves 3 4 ++ .wait 3 :: parentMoves 6 ++
    .leave :: parentMoves 4 ++ .kill 5 :: childMoves 5 4

theorem records_outlive_their_use_of_two : ∃ s, play step newFamily carefulMoves = some s ∧ s.misuse = [] ∧
    s.log = [.executed 3, .executed 5, .waited 3 7] ∧ s.slots 3 = .freed ∧ s.slots 5 = .freed := by
  have hok : AllOk step Careful newFamily carefulMoves := by decide
  have hend : ((play step newFamily carefulMoves).map fun s => (s.log, s.slots 3, s.slots 5)) =
      some ([.executed 3, .executed 5, .waited 3 7], .freed, .freed) := by decide
  obtain ⟨s, hs, he⟩ := Option.map_eq_some_iff.mp hend
  simp only [Prod.mk.injEq] at he
  exact ⟨s, hs, records_outlive_their_use (reaches_of_allOk _ hok hs), he⟩

def earlyFree : List Move :=
  startMoves 3 ++ .exit 3 7 :: childMoves 3 2 ++ .wait 3 :: parentMoves 6 ++ childMoves 3 1

theorem record_touched_after_free : ¬ ∀ s, Reaches step anyMove newFamily s → s.misuse = [] := by
  intro h
  have hend : (play step newFamily earlyFree).map Family.misuse = some [.afterFree 3] := by decide
  obtain ⟨s, hs, he⟩ := Option.map_eq_some_iff.mp hend
  rw [h s (reaches_of_play _ hs)] at he
  cases he

end CourseArchive.PintOS
