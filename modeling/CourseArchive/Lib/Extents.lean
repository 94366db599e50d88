import CourseArchive.Lib.Memory

/-! A store of numbered places in which runs of consecutive places are taken and given back. -/

namespace CourseArchive.Lib

structure Extent where
  start : ℕ
  cnt : ℕ
  deriving DecidableEq

namespace Extent

def Has (x : Extent) (i : ℕ) : Prop := x.start ≤ i ∧ i < x.start + x.cnt

def Apart (x y : Extent) : Prop := x.start + x.cnt ≤ y.start ∨ y.start + y.cnt ≤ x.start

instance (x : Extent) (i : ℕ) : Decidable (x.Has i) := inferInstanceAs (Decidable (_ ∧ _))

instance (x y : Extent) : Decidable (x.Apart y) := inferInstanceAs (Decidable (_ ∨ _))

variable {x y z : Extent} {i : ℕ}

lemma Apart.symm (h : x.Apart y) : y.Apart x := Or.symm h

lemma Apart.not_has (h : x.Apart y) (hi : x.Has i) : ¬y.Has i := by
  simp only [Apart, Has] at *
  omega

lemma apart_of_not_has (hx : 0 < x.cnt) (hy : 0 < y.cnt) (h : ∀ i, x.Has i → ¬y.Has i) : x.Apart y := by
  by_contra hnot
  simp only [Apart, not_or, not_le] at hnot
  refine h (max x.start y.start) ⟨le_max_left _ _, max_lt (by omega) hnot.1⟩ ⟨le_max_right _ _,
    max_lt hnot.2 (by omega)⟩

end Extent

def AgreeOn (x : Extent) (m m' : Memory) : Prop := ∀ i, x.Has i → m' i = m i

def ChangedIn (x : Extent) (m m' : Memory) : Prop := ∀ i, ¬x.Has i → m' i = m i

section Changes

variable {x y : Extent} {m m' m'' : Memory} {a n : ℕ}

lemma AgreeOn.trans (h : AgreeOn x m m') (h' : AgreeOn x m' m'') :
    AgreeOn x m m'' := fun i hi => (h' i hi).trans (h i hi)

lemma AgreeOn.load (h : AgreeOn x m m') (hlow : x.start ≤ a) (hhigh : a + n ≤ x.start + x.cnt) :
    m'.load a n = m.load a n :=
  Memory.load_congr fun i hi hi' => h i ⟨by omega, by omega⟩

lemma AgreeOn.bytes (h : AgreeOn x m m') (hlow : x.start ≤ a) (hhigh : a + n ≤ x.start + x.cnt) :
    m'.bytes a n = m.bytes a n :=
  Memory.bytes_congr fun i hi => h (a + i) ⟨by omega, by omega⟩

lemma ChangedIn.agree (h : ChangedIn x m m') (hap : x.Apart y) :
    AgreeOn y m m' := fun i hi => h i fun hx => hap.not_has hx hi

lemma ChangedIn.trans (h : ChangedIn x m m') (h' : ChangedIn x m' m'') : ChangedIn x m m'' :=
  fun i hi => (h' i hi).trans (h i hi)

lemma changedIn_fill (b : UInt8) (hlow : x.start ≤ a) (hhigh : a + n ≤ x.start + x.cnt) :
    ChangedIn x m (m.fill a n b) :=
  fun i hi => if_neg fun hin => hi ⟨by omega, by omega⟩

lemma changedIn_store (v : ℕ) (hlow : x.start ≤ a) (hhigh : a + n ≤ x.start + x.cnt) :
    ChangedIn x m (m.store a n v) :=
  fun i hi => if_neg fun hin => hi ⟨by omega, by omega⟩

lemma changedIn_copy (b : ℕ) (hlow : x.start ≤ a) (hhigh : a + n ≤ x.start + x.cnt) :
    ChangedIn x m (m.copy a b n) :=
  fun i hi => if_neg fun hin => hi ⟨by omega, by omega⟩

end Changes

structure Taken (used : ℕ → Bool) (n : ℕ) (xs : List Extent) : Prop where
  apart : xs.Pairwise Extent.Apart
  nonempty : ∀ x ∈ xs, 0 < x.cnt
  inside : ∀ x ∈ xs, x.start + x.cnt ≤ n
  used_iff : ∀ i < n, used i = true ↔ ∃ x ∈ xs, x.Has i

namespace Taken

variable {used used' : ℕ → Bool} {n : ℕ} {x y : Extent} {xs ys : List Extent}

lemma nil (h : ∀ i < n, used i = false) : Taken used n [] :=
  ⟨.nil, by simp, by simp, fun i hi => by simp [h i hi]⟩

lemma perm (h : Taken used n xs) (hp : xs.Perm ys) : Taken used n ys where
  apart := (hp.pairwise_iff Extent.Apart.symm).mp h.apart
  nonempty y hy := h.nonempty y (hp.mem_iff.mpr hy)
  inside y hy := h.inside y (hp.mem_iff.mpr hy)
  used_iff i hi := by simp [h.used_iff i hi, hp.mem_iff]

lemma used_of_mem (h : Taken used n xs) (hx : x ∈ xs) {i : ℕ} (hi : x.Has i) : used i = true :=
  (h.used_iff i (hi.2.trans_le (h.inside x hx))).mpr ⟨x, hx, hi⟩

lemma take (h : Taken used n xs) (hpos : 0 < x.cnt) (hin : x.start + x.cnt ≤ n)
    (hfree : ∀ i, x.Has i → used i = false)
    (hset : ∀ i, used' i = if x.Has i then true else used i) : Taken used' n (x :: xs) where
  apart := by
    refine List.pairwise_cons.mpr ⟨fun y hy => ?_, h.apart⟩
    refine Extent.apart_of_not_has hpos (h.nonempty y hy) fun i hi hi' => ?_
    have hused := h.used_of_mem hy hi'
    rw [hfree i hi] at hused
    cases hused
  nonempty := List.forall_mem_cons.mpr ⟨hpos, h.nonempty⟩
  inside := List.forall_mem_cons.mpr ⟨hin, h.inside⟩
  used_iff i hi := by
    rw [hset i, List.exists_mem_cons_iff, ← h.used_iff i hi]
    by_cases hx : x.Has i <;> simp [hx]

lemma release (h : Taken used n (x :: xs)) (hset : ∀ i, used' i = if x.Has i then false else used i) :
    Taken used' n xs where
  apart := h.apart.of_cons
  nonempty y hy := h.nonempty y (List.mem_cons_of_mem x hy)
  inside y hy := h.inside y (List.mem_cons_of_mem x hy)
  used_iff i hi := by
    have hother : x.Has i → ¬∃ y ∈ xs, y.Has i := by
      rintro hx ⟨y, hy, hi'⟩
      exact (List.rel_of_pairwise_cons h.apart hy).not_has hx hi'
    rw [hset i]
    by_cases hx : x.Has i
    · simpa [hx] using hother hx
    · simp [hx, h.used_iff i hi]

end Taken

end CourseArchive.Lib
