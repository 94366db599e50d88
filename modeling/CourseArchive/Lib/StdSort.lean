import Mathlib.Data.List.Basic
import Mathlib.Data.List.Sort
import Mathlib.Tactic

/-! What may be relied on of `std::sort`, and of finding and erasing the first match. -/

namespace CourseArchive.Lib

variable {α : Type}

structure StrictWeakOrder (less : α → α → Bool) : Prop where
  irrefl : ∀ a, less a a = false
  trans : ∀ a b c, less a b → less b c → less a c
  between : ∀ a b c, less a c → less a b ∨ less b c

structure StrictWeakOn (less : α → α → Bool) (xs : List α) : Prop where
  irrefl : ∀ a ∈ xs, less a a = false
  trans : ∀ a ∈ xs, ∀ b ∈ xs, ∀ c ∈ xs, less a b → less b c → less a c
  between : ∀ a ∈ xs, ∀ b ∈ xs, ∀ c ∈ xs, less a c → less a b ∨ less b c

lemma StrictWeakOrder.on {less : α → α → Bool} (h : StrictWeakOrder less) (xs : List α) : StrictWeakOn less xs :=
  ⟨fun a _ => h.irrefl a, fun a _ b _ c _ => h.trans a b c, fun a _ b _ c _ => h.between a b c⟩

lemma StrictWeakOn.attach {less : α → α → Bool} {xs : List α} (h : StrictWeakOn less xs) :
    StrictWeakOrder fun a b : {x // x ∈ xs} => less a.1 b.1 :=
  ⟨fun a => h.irrefl a a.2, fun a b c => h.trans a a.2 b b.2 c c.2, fun a b c => h.between a a.2 b b.2 c c.2⟩

lemma StrictWeakOn.asymm {less : α → α → Bool} {xs : List α} (h : StrictWeakOn less xs) {a b : α} (ha : a ∈ xs)
    (hb : b ∈ xs) (hab : less a b = true) : less b a = false := by
  by_contra hba
  have := h.trans a ha b hb a ha hab (by simpa using hba)
  rw [h.irrefl a ha] at this
  cases this

lemma StrictWeakOn.of_key {κ : Type*} [LinearOrder κ] (key : α → κ) {less : α → α → Bool} {xs : List α}
    (h : ∀ a ∈ xs, ∀ b ∈ xs, (less a b = true ↔ key a < key b)) : StrictWeakOn less xs where
  irrefl a ha := by
    by_contra hn
    exact lt_irrefl _ ((h a ha a ha).mp (by simpa using hn))
  trans a ha b hb c hc hab hbc := (h a ha c hc).mpr (((h a ha b hb).mp hab).trans ((h b hb c hc).mp hbc))
  between a ha b hb c hc hac := by
    rw [h a ha b hb, h b hb c hc]
    by_contra hn
    push Not at hn
    exact absurd ((h a ha c hc).mp hac) (not_lt_of_ge (hn.2.trans hn.1))

/-- What the standard promises of `std::sort`: a range on which the comparison is a strict weak order is rearranged
into order, with the elements that it does not tell apart in any order. Of other ranges nothing is known. -/
structure StdSort where
  sort : {α : Type} → (α → α → Bool) → List α → List α
  perm : ∀ {α : Type} (less : α → α → Bool) (xs : List α), StrictWeakOn less xs → (sort less xs).Perm xs
  ordered : ∀ {α : Type} (less : α → α → Bool) (xs : List α), StrictWeakOn less xs →
    (sort less xs).Pairwise fun a b => less b a = false

/-- More than the standard promises: every range is only rearranged. -/
def StdSort.Rearranges (S : StdSort) : Prop :=
  ∀ {α : Type} (less : α → α → Bool) (xs : List α), (S.sort less xs).Perm xs

def StdSort.Natural (S : StdSort) : Prop := ∀ {α β : Type} (f : α → β) (less : β → β → Bool) (xs : List α),
  (S.sort (fun a b => less (f a) (f b)) xs).map f = S.sort less (xs.map f)

lemma pairwise_insertionSort {less : α → α → Bool} (h : StrictWeakOrder less) (xs : List α) :
    (xs.insertionSort fun a b => less b a = false).Pairwise fun a b => less b a = false := by
  have htotal : Std.Total fun a b => less b a = false := ⟨fun a b => by
    cases hba : less b a
    · exact .inl rfl
    · cases hab : less a b
      · exact .inr rfl
      · exact absurd (h.trans a b a hab hba) (by simp [h.irrefl])⟩
  have htrans : IsTrans _ fun a b => less b a = false := ⟨fun a b c hab hbc => by
    by_contra hca
    rcases h.between c b a (by simpa using hca) with hcb | hba
    · simp [hcb] at hbc
    · simp [hba] at hab⟩
  exact List.pairwise_insertionSort _ xs

lemma map_insertionSort {β : Type} (f : α → β) (less : β → β → Bool) (xs : List α) :
    (xs.insertionSort fun a b => less (f b) (f a) = false).map f = (xs.map f).insertionSort fun a b =>
    less b a = false :=
  List.map_insertionSort _ (fun a b => less b a = false) f xs fun _ _ _ _ => Iff.rfl

def insertionSorting : StdSort where
  sort less xs := xs.insertionSort fun a b => less b a = false
  perm _ xs _ := List.perm_insertionSort _ xs
  ordered less xs h := by
    -- the range as a list of its own elements, among which the comparison is a strict weak order
    have hsort := map_insertionSort Subtype.val less xs.attach
    rw [List.attach_map_subtype_val] at hsort
    rw [← hsort]
    exact List.pairwise_map.mpr (pairwise_insertionSort h.attach xs.attach)

lemma insertionSorting_rearranges : insertionSorting.Rearranges := fun _ xs => List.perm_insertionSort _ xs

lemma insertionSorting_natural : insertionSorting.Natural := map_insertionSort

open Classical in
noncomputable def rotatingSort (k : ℕ) : StdSort where
  sort less xs := if StrictWeakOn less xs then insertionSorting.sort less xs else xs.rotate k
  perm less xs h := by
    rw [if_pos h]
    exact insertionSorting.perm less xs h
  ordered less xs h := by
    rw [if_pos h]
    exact insertionSorting.ordered less xs h

lemma rotatingSort_rearranges (k : ℕ) : (rotatingSort k).Rearranges := by
  intro α less xs
  simp only [rotatingSort]
  split
  · exact insertionSorting_rearranges less xs
  · exact xs.rotate_perm k

lemma rotatingSort_sort {less : α → α → Bool} {xs : List α} (h : ¬StrictWeakOn less xs) (k : ℕ) :
    (rotatingSort k).sort less xs = xs.rotate k := if_neg h

lemma exists_sort_head {less : α → α → Bool} {xs : List α} (h : ¬StrictWeakOn less xs) {a : α} (ha : a ∈ xs) :
    ∃ S : StdSort, S.Rearranges ∧ ∃ rest, S.sort less xs = a :: rest := by
  -- every element of a range that cannot be sorted may come out first
  obtain ⟨k, hk, rfl⟩ := List.getElem_of_mem ha
  refine ⟨rotatingSort k, rotatingSort_rearranges k, (xs.rotate k).tail, ?_⟩
  rw [rotatingSort_sort h, List.rotate_eq_drop_append_take hk.le, List.drop_eq_getElem_cons hk]
  rfl

lemma exists_sort_disordered {κ : Type*} [LinearOrder κ] {key : α → κ} {less : α → α → Bool} {xs : List α}
    (h : ¬StrictWeakOn less xs) (hkey : ∃ a ∈ xs, ∃ b ∈ xs, key a ≠ key b) :
    ∃ S : StdSort, S.Rearranges ∧ ∃ a rest, S.sort less xs = a :: rest ∧ ∃ b ∈ rest, key b < key a := by
  have hpair : ∃ a ∈ xs, ∃ b ∈ xs, key b < key a := by
    obtain ⟨a, ha, b, hb, hne⟩ := hkey
    rcases hne.lt_or_gt with hlt | hlt
    · exact ⟨b, hb, a, ha, hlt⟩
    · exact ⟨a, ha, b, hb, hlt⟩
  obtain ⟨a, ha, b, hb, hlt⟩ := hpair
  obtain ⟨S, hS, rest, hsort⟩ := exists_sort_head h ha
  refine ⟨S, hS, a, rest, hsort, b, ?_, hlt⟩
  have hmem := (hS less xs).mem_iff.mpr hb
  rw [hsort, List.mem_cons] at hmem
  exact hmem.resolve_left fun he => absurd hlt (he ▸ lt_irrefl _)

lemma perm_cons_eraseP {p : α → Bool} {xs : List α} {a : α} (h : xs.find? p = some a) :
    xs.Perm (a :: xs.eraseP p) := by
  obtain ⟨ha, pre, post, rfl, hpre⟩ := List.find?_eq_some_iff_append.mp h
  have he : (pre ++ a :: post).eraseP p = pre ++ post := by
    rw [List.eraseP_append_right _ (by simpa using hpre), List.eraseP_cons_of_pos ha]
  rw [he]
  exact List.perm_middle

end CourseArchive.Lib
