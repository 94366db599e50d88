import CourseArchive.Lib.Block

/-! Byte arrays kept in blocks: byte `p` stands in the block at place `p / w`. -/

namespace CourseArchive.Lib

open Function

variable {κ : Type*} {w : ℕ}

def byteAt (flat : κ → Block w) (place : ℕ → κ) (p : ℕ) : UInt8 := (flat (place (p / w))).byte (p % w)

def bytesFrom (flat : κ → Block w) (place : ℕ → κ) (p n : ℕ) : List UInt8 :=
  (List.range n).map fun i => byteAt flat place (p + i)

structure Stored (place : ℕ → κ) (cnt off : ℕ) (buf : List UInt8) (flat flat' : κ → Block w) : Prop where
  others : ∀ {x}, (∀ i < cnt, x ≠ place i) → flat' x = flat x
  bytes : ∀ {p}, p / w < cnt → byteAt flat' place p =
    if off ≤ p ∧ p < off + buf.length then buf.getD (p - off) 0 else byteAt flat place p

variable {flat flat' flat'' : κ → Block w} {place : ℕ → κ} {cnt off : ℕ} {buf : List UInt8}

@[simp] lemma bytesFrom_zero (p : ℕ) : bytesFrom flat place p 0 = [] := rfl

lemma bytesFrom_add (p m n : ℕ) :
    bytesFrom flat place p (m + n) = bytesFrom flat place p m ++ bytesFrom flat place (p + m) n := by
  simp only [bytesFrom, List.range_add, List.map_append, List.map_map]
  congr 1
  apply List.map_congr_left
  intro i _
  simp only [comp_apply, Nat.add_assoc]

lemma div_add_of_le {p i : ℕ} (h : p % w + i < w) : (p + i) / w = p / w ∧ (p + i) % w = p % w + i := by
  have hw : 0 < w := by omega
  have hp : p + i = p % w + i + w * (p / w) := by
    have := Nat.mod_add_div p w
    omega
  rw [hp, Nat.add_mul_div_left _ _ hw, Nat.div_eq_of_lt h, Nat.zero_add, Nat.add_mul_mod_self_left,
    Nat.mod_eq_of_lt h]
  exact ⟨rfl, rfl⟩

lemma slice_eq_bytesFrom {p n : ℕ} (h : p % w + n ≤ w) :
    (flat (place (p / w))).slice (p % w) n = bytesFrom flat place p n := by
  apply List.map_congr_left
  intro i hi
  have hi' := List.mem_range.mp hi
  obtain ⟨hdiv, hmod⟩ := div_add_of_le (by omega : p % w + i < w)
  rw [byteAt, hdiv, hmod]

namespace Stored

lemma nil (flat : κ → Block w) (place : ℕ → κ) (cnt off : ℕ) : Stored place cnt off [] flat flat where
  others _ := rfl
  bytes {p} _ := by
    rw [if_neg]
    simp only [List.length_nil]
    omega

lemma append {buf' : List UInt8} (h : Stored place cnt off buf flat flat')
    (h' : Stored place cnt (off + buf.length) buf' flat' flat'') :
    Stored place cnt off (buf ++ buf') flat flat'' where
  others hx := (h'.others hx).trans (h.others hx)
  bytes {p} hp := by
    rw [h'.bytes hp, h.bytes hp]
    simp only [List.length_append, List.getD_eq_getElem?_getD]
    by_cases h₁ : p < off
    · rw [if_neg (by omega), if_neg (by omega), if_neg (by omega)]
    by_cases h₂ : p < off + buf.length
    · rw [if_neg (by omega), if_pos (by omega), if_pos (by omega), List.getElem?_append_left (by omega)]
    by_cases h₃ : p < off + buf.length + buf'.length
    · rw [if_pos (by omega), if_pos (by omega), List.getElem?_append_right (by omega)]
      congr 2
      omega
    · rw [if_neg (by omega), if_neg (by omega), if_neg (by omega)]

lemma patch [DecidableEq κ] (hinj : ∀ {i j}, i < cnt → j < cnt → place i = place j → i = j) (hoff : off / w < cnt)
    (hbuf : off % w + buf.length ≤ w) (hw : 0 < w) : Stored place cnt off buf flat
      (update flat (place (off / w)) ((flat (place (off / w))).patch (off % w) buf)) where
  others hx := update_of_ne (hx _ hoff) _ _
  bytes {p} hp := by
    have hp' := Nat.mod_add_div p w
    have hoff' := Nat.mod_add_div off w
    rw [byteAt, byteAt]
    by_cases he : p / w = off / w
    · rw [he] at hp'
      rw [he, update_self, Block.byte_patch _ _ _ (Nat.mod_lt p hw)]
      by_cases hin : off ≤ p ∧ p < off + buf.length
      · rw [if_pos hin, if_pos (by omega)]
        congr 1
        omega
      · rw [if_neg hin, if_neg (by omega)]
    · rw [update_of_ne fun hpl => he (hinj hp hoff hpl), if_neg]
      rintro ⟨h₁, h₂⟩
      -- within the buffer, `p` stands in the block of `off`
      obtain ⟨i, rfl⟩ := Nat.exists_eq_add_of_le h₁
      exact he (div_add_of_le (by omega)).1

lemma congr_place {place' : ℕ → κ} (h : Stored place cnt off buf flat flat') (hp : ∀ i < cnt, place' i = place i) :
    Stored place' cnt off buf flat flat' where
  others hx := h.others fun i hi => hp i hi ▸ hx i hi
  bytes {p} hc := by
    have hb := h.bytes hc
    rw [byteAt, byteAt, hp _ hc]
    exact hb

end Stored

end CourseArchive.Lib
