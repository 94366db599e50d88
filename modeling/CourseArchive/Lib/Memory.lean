import Mathlib.Tactic

/-! Byte-addressed memory with little-endian loads and stores. -/

namespace CourseArchive.Lib

abbrev Memory := ℕ → UInt8

namespace Memory

def load (m : Memory) (a : ℕ) : ℕ → ℕ
  | 0 => 0
  | k + 1 => (m a).toNat + 256 * load m (a + 1) k

def store (m : Memory) (a k v : ℕ) : Memory := fun x =>
  if a ≤ x ∧ x < a + k then UInt8.ofNat (v / 256 ^ (x - a)) else m x

def fill (m : Memory) (a n : ℕ) (b : UInt8) : Memory := fun x =>
  if a ≤ x ∧ x < a + n then b else m x

def copy (m : Memory) (a b n : ℕ) : Memory := fun x =>
  if a ≤ x ∧ x < a + n then m (b + (x - a)) else m x

def bytes (m : Memory) (a n : ℕ) : List UInt8 := (List.range n).map fun i => m (a + i)

structure Word where
  addr : ℕ
  width : ℕ
  value : ℕ

namespace Word

def Covers (w : Word) (x : ℕ) : Prop := w.addr ≤ x ∧ x < w.addr + w.width

def byte (w : Word) (x : ℕ) : UInt8 := UInt8.ofNat (w.value / 256 ^ (x - w.addr))

def Apart (v w : Word) : Prop := v.addr + v.width ≤ w.addr ∨ w.addr + w.width ≤ v.addr

instance (w : Word) (x : ℕ) : Decidable (w.Covers x) := inferInstanceAs (Decidable (_ ∧ _))

end Word

def writes (m : Memory) (ws : List Word) : Memory := ws.foldl (fun m w => m.store w.addr w.width w.value) m

variable {m m' : Memory}

lemma load_congr {a k : ℕ} (h : ∀ x, a ≤ x → x < a + k → m x = m' x) : load m a k = load m' a k := by
  induction k generalizing a with
  | zero => rfl
  | succ k ih =>
    rw [load, load, h a le_rfl (by omega), ih fun x hx hx' => h x (by omega) (by omega)]

lemma load_bytes (m : Memory) (a k v : ℕ)
    (h : ∀ i < k, m (a + i) = UInt8.ofNat (v / 256 ^ i)) : load m a k = v % 256 ^ k := by
  induction k generalizing a v with
  | zero => simp [load, Nat.mod_one]
  | succ k ih =>
    have htail : load m (a + 1) k = v / 256 % 256 ^ k := by
      apply ih
      intro i hi
      rw [show a + 1 + i = a + (i + 1) by omega, h (i + 1) (by omega), Nat.div_div_eq_div_mul, pow_succ']
    have hhead := h 0 (by omega)
    simp only [add_zero, pow_zero, Nat.div_one] at hhead
    rw [load, htail, hhead, UInt8.toNat_ofNat', pow_succ' 256 k, Nat.mod_mul]

@[simp] lemma load_store (a k v : ℕ) : load (store m a k v) a k = v % 256 ^ k := by
  apply load_bytes
  intro i hi
  simp [store, hi]

lemma load_store_of_disjoint {a b k j v : ℕ} (h : a + k ≤ b ∨ b + j ≤ a) :
    load (store m a k v) b j = load m b j := by
  apply load_congr
  intro x hx hx'
  simp only [store]
  rw [if_neg (by omega)]

lemma load_fill_of_disjoint {a b n j : ℕ} {c : UInt8} (h : a + n ≤ b ∨ b + j ≤ a) :
    load (fill m a n c) b j = load m b j := by
  apply load_congr
  intro x hx hx'
  simp only [fill]
  rw [if_neg (by omega)]

@[simp] lemma length_bytes (m : Memory) (a n : ℕ) : (bytes m a n).length = n := by simp [bytes]

lemma getElem_bytes {a n i : ℕ} (hi : i < (bytes m a n).length) : (bytes m a n)[i] = m (a + i) := by simp [bytes]

lemma bytes_congr {a b n : ℕ} (h : ∀ i < n, m (a + i) = m' (b + i)) : bytes m a n = bytes m' b n := by
  apply List.ext_getElem (by simp)
  intro i hi hi'
  rw [getElem_bytes, getElem_bytes]
  exact h i (by simpa using hi)

lemma bytes_add (m : Memory) (a k n : ℕ) : bytes m a (k + n) = bytes m a k ++ bytes m (a + k) n := by
  simp [bytes, List.range_add, Nat.add_assoc]

lemma take_bytes {a k n : ℕ} (h : k ≤ n) : (bytes m a n).take k = bytes m a k := by
  obtain ⟨j, rfl⟩ := Nat.exists_eq_add_of_le h
  rw [bytes_add, List.take_left' (length_bytes m a k)]

lemma bytes_eq_replicate {a n : ℕ} {c : UInt8} (h : ∀ i < n, m (a + i) = c) :
    bytes m a n = List.replicate n c := by
  refine List.eq_replicate_iff.mpr ⟨length_bytes m a n, fun b hb => ?_⟩
  obtain ⟨i, hi, rfl⟩ := List.mem_map.mp hb
  exact h i (List.mem_range.mp hi)

lemma bytes_fill_one (m : Memory) (a i n : ℕ) (c : UInt8) :
    bytes (fill m (a + i) 1 c) a n = (bytes m a n).set i c := by
  apply List.ext_getElem (by simp)
  intro j hj hj'
  rw [getElem_bytes, List.getElem_set, getElem_bytes, fill]
  by_cases hij : i = j
  · rw [if_pos hij, if_pos (by omega)]
  · rw [if_neg hij, if_neg (by omega)]

lemma load_ne_zero_iff {a k : ℕ} : load m a k ≠ 0 ↔ ∃ i < k, m (a + i) ≠ 0 := by
  induction k generalizing a with
  | zero => simp [load]
  | succ k ih =>
    have hhead : (m a).toNat ≠ 0 ↔ m a ≠ 0 := not_congr (UInt8.toNat_inj (b := 0))
    have hsum : load m a (k + 1) ≠ 0 ↔ (m a).toNat ≠ 0 ∨ load m (a + 1) k ≠ 0 := by
      rw [load]
      omega
    rw [hsum, hhead, ih, Nat.exists_lt_succ_left, add_zero]
    simp only [Nat.add_comm _ 1, ← Nat.add_assoc]

lemma fill_zero (m : Memory) (a n : ℕ) : fill m a n 0 = store m a n 0 := by
  funext x
  simp [fill, store]

section Writes

variable {ws : List Word} {w : Word} {x : ℕ}

@[simp] lemma writes_cons : writes m (w :: ws) = writes (m.store w.addr w.width w.value) ws := rfl

lemma writes_append (vs : List Word) : writes m (vs ++ ws) = writes (writes m vs) ws := List.foldl_append

lemma writes_outside (h : ∀ w ∈ ws, ¬ w.Covers x) : writes m ws x = m x := by
  induction ws generalizing m with
  | nil => rfl
  | cons w ws ih =>
    obtain ⟨hw, hws⟩ := List.forall_mem_cons.mp h
    rw [writes_cons, ih hws]
    exact if_neg hw

lemma writes_inside (hp : ws.Pairwise Word.Apart) (hw : w ∈ ws) (hx : w.Covers x) : writes m ws x = w.byte x := by
  induction ws generalizing m with
  | nil => simp at hw
  | cons v ws ih =>
    obtain ⟨hv, hp⟩ := List.pairwise_cons.mp hp
    rw [writes_cons]
    rcases List.mem_cons.mp hw with rfl | hw
    · -- no later word reaches the byte
      rw [writes_outside fun u hu => ?_]
      · exact if_pos hx
      · have := hv u hu
        simp only [Word.Apart, Word.Covers] at *
        omega
    · exact ih hp hw

lemma writes_ne_zero_iff (hp : ws.Pairwise Word.Apart) :
    writes m ws x ≠ 0 ↔ (∃ w ∈ ws, w.Covers x ∧ w.byte x ≠ 0) ∨ (∀ w ∈ ws, ¬ w.Covers x) ∧ m x ≠ 0 := by
  by_cases hc : ∃ w ∈ ws, w.Covers x
  · obtain ⟨w, hw, hx⟩ := hc
    have hno : ¬ ∀ w ∈ ws, ¬ w.Covers x := fun h => h w hw hx
    constructor
    · intro hne
      exact Or.inl ⟨w, hw, hx, writes_inside hp hw hx ▸ hne⟩
    · rintro (⟨v, hv, hvx, hne⟩ | ⟨h, -⟩)
      · rwa [writes_inside hp hv hvx]
      · exact (hno h).elim
  · have hno : ∀ w ∈ ws, ¬ w.Covers x := fun w hw hx => hc ⟨w, hw, hx⟩
    rw [writes_outside hno]
    constructor
    · exact fun hne => Or.inr ⟨hno, hne⟩
    · rintro (⟨w, hw, hx, -⟩ | ⟨-, hne⟩)
      · exact (hno w hw hx).elim
      · exact hne

end Writes

end Memory

end CourseArchive.Lib
