import Mathlib.Tactic

/-! Bitmaps (`lib/kernel/bitmap.c`). -/

namespace CourseArchive.PintOS

structure Bitmap where
  bitCnt : ℕ
  bits : ℕ → Bool

namespace Bitmap

def elemCnt (bitCnt : ℕ) : ℕ := (bitCnt + 31) / 32

def byteCnt (bitCnt : ℕ) : ℕ := 4 * elemCnt bitCnt

/-- `bitmap_create`; the unused bits of the last element are what `malloc` left there. -/
def create (bitCnt : ℕ) (leftover : ℕ → Bool) : Bitmap where
  bitCnt := bitCnt
  bits i := if i < bitCnt then false else leftover i

def setMultiple (b : Bitmap) (start cnt : ℕ) (value : Bool) : Bitmap :=
  { b with bits := fun i => if start ≤ i ∧ i < start + cnt then value else b.bits i }

def InBounds (b : Bitmap) (start cnt : ℕ) : Prop := start ≤ b.bitCnt ∧ start + cnt ≤ b.bitCnt

instance (b : Bitmap) (start cnt : ℕ) : Decidable (b.InBounds start cnt) :=
  inferInstanceAs (Decidable (_ ∧ _))

def contains (b : Bitmap) (start cnt : ℕ) (value : Bool) : Bool :=
  (List.range cnt).any fun i => b.bits (start + i) == value

def all (b : Bitmap) (start cnt : ℕ) : Bool := !b.contains start cnt false

def scanFrom (b : Bitmap) (cnt : ℕ) (value : Bool) : ℕ → ℕ → Option ℕ
  | 0, _ => none
  | fuel + 1, i => if !b.contains i cnt !value then some i else scanFrom b cnt value fuel (i + 1)

def scan (b : Bitmap) (start cnt : ℕ) (value : Bool) : Option ℕ :=
  if cnt ≤ b.bitCnt then b.scanFrom cnt value (b.bitCnt - cnt + 1 - start) start else none

def toBytes (b : Bitmap) : List UInt8 :=
  (List.range (byteCnt b.bitCnt)).map fun j => UInt8.ofNat (Nat.ofBits fun i : Fin 8 => b.bits (8 * j + i))

def freeCnt (b : Bitmap) : ℕ := ((Finset.range b.bitCnt).filter fun i => b.bits i = false).card

@[simp] lemma toBytes_length (b : Bitmap) : b.toBytes.length = byteCnt b.bitCnt := by
  simp [toBytes]

lemma scanFrom_some {b : Bitmap} {fuel i j : ℕ} (h : b.scanFrom 1 false fuel i = some j) :
    i ≤ j ∧ j < i + fuel ∧ b.bits j = false := by
  induction fuel generalizing i with
  | zero => cases h
  | succ fuel ih =>
    rw [scanFrom] at h
    split at h
    · next hc =>
      obtain rfl := Option.some_injective _ h
      refine ⟨le_rfl, by omega, ?_⟩
      simpa [contains] using hc
    · obtain ⟨h₁, h₂, h₃⟩ := ih h
      exact ⟨by omega, by omega, h₃⟩

lemma scanFrom_none {b : Bitmap} {fuel i : ℕ} (h : b.scanFrom 1 false fuel i = none) {j : ℕ} (hi : i ≤ j)
    (hj : j < i + fuel) : b.bits j = true := by
  induction fuel generalizing i with
  | zero => omega
  | succ fuel ih =>
    rw [scanFrom] at h
    split at h
    · cases h
    · next hc =>
      rcases Nat.eq_or_lt_of_le hi with rfl | hlt
      · simpa [contains] using hc
      · exact ih h hlt (by omega)

lemma exists_of_freeCnt_pos {b : Bitmap} (h : 0 < b.freeCnt) : ∃ i < b.bitCnt, b.bits i = false := by
  obtain ⟨i, hi⟩ := Finset.card_pos.mp h
  simp only [Finset.mem_filter, Finset.mem_range] at hi
  exact ⟨i, hi⟩

lemma scan_of_freeCnt_pos {b : Bitmap} (h : 0 < b.freeCnt) :
    ∃ i, b.scan 0 1 false = some i ∧ i < b.bitCnt ∧ b.bits i = false := by
  obtain ⟨j, hj, hfree⟩ := exists_of_freeCnt_pos h
  rw [scan, if_pos (by omega)]
  cases hs : b.scanFrom 1 false (b.bitCnt - 1 + 1 - 0) 0 with
  | none =>
    have hset := scanFrom_none hs (Nat.zero_le j) (by omega)
    rw [hfree] at hset
    cases hset
  | some i =>
    obtain ⟨-, hlt, hi⟩ := scanFrom_some hs
    exact ⟨i, rfl, by omega, hi⟩

lemma bits_setMultiple_one (b : Bitmap) (i j : ℕ) (v : Bool) :
    (b.setMultiple i 1 v).bits j = if j = i then v else b.bits j := by
  simp only [setMultiple]
  congr 1
  rw [eq_iff_iff]
  omega

lemma freeCnt_setMultiple {b : Bitmap} {i : ℕ} (hi : i < b.bitCnt) (hf : b.bits i = false) :
    (b.setMultiple i 1 true).freeCnt + 1 = b.freeCnt := by
  have hmem : i ∈ (Finset.range b.bitCnt).filter fun i => b.bits i = false := by simp [hi, hf]
  have herase : (Finset.range b.bitCnt).filter (fun j => (b.setMultiple i 1 true).bits j = false) =
      ((Finset.range b.bitCnt).filter fun j => b.bits j = false).erase i := by
    ext j
    simp only [Finset.mem_filter, Finset.mem_range, Finset.mem_erase, bits_setMultiple_one]
    by_cases hj : j = i <;> simp [hj]
  rw [freeCnt, freeCnt, ← Finset.card_erase_add_one hmem, ← herase]
  rfl

end Bitmap

end CourseArchive.PintOS
