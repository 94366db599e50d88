import CourseArchive.Lib.Positive
import Mathlib.Tactic

/-! Point updates of tables, and fixed-size byte blocks with their slices and their little-endian words. -/

namespace CourseArchive.Lib

section Tables

variable {κ ν : Type} [DecidableEq κ]

/-- `Function.update` without the cast of its dependent form, which gets in the way of evaluation. -/
def put (f : κ → ν) (k : κ) (v : ν) : κ → ν := fun x => if x = k then v else f x

lemma put_eq_update (f : κ → ν) (k : κ) (v : ν) : put f k v = Function.update f k v := by
  funext x
  simp [put, Function.update_apply]

lemma put_apply (f : κ → ν) (k x : κ) (v : ν) : put f k v x = if x = k then v else f x := rfl

@[simp] lemma put_self (f : κ → ν) (k : κ) (v : ν) : put f k v k = v := if_pos rfl

lemma put_of_ne (f : κ → ν) {k x : κ} (v : ν) (h : x ≠ k) : put f k v x = f x := if_neg h

end Tables

abbrev Block (n : ℕ) := Fin n → UInt8

def wordByte (w : UInt32) (j : ℕ) : UInt8 := UInt8.ofNat (w.toNat / 256 ^ j)

def wordOfBytes (a b c d : UInt8) : UInt32 :=
  UInt32.ofNat (a.toNat + 256 * b.toNat + 65536 * c.toNat + 16777216 * d.toNat)

lemma wordByte_toNat (w : UInt32) (j : ℕ) : (wordByte w j).toNat = w.toNat / 256 ^ j % 256 := by
  simp [wordByte]

@[simp] lemma wordOfBytes_wordByte (w : UInt32) :
    wordOfBytes (wordByte w 0) (wordByte w 1) (wordByte w 2) (wordByte w 3) = w := by
  have hw := w.toNat_lt
  apply UInt32.toNat_inj.mp
  simp only [wordOfBytes, wordByte_toNat, UInt32.toNat_ofNat']
  omega

namespace Block

variable {n : ℕ}

def ofBytes (f : ℕ → UInt8) : Block n := fun i => f i

def byte (b : Block n) (i : ℕ) : UInt8 := if h : i < n then b ⟨i, h⟩ else 0

@[simp] lemma byte_ofBytes (f : ℕ → UInt8) {i : ℕ} (h : i < n) :
    (ofBytes f : Block n).byte i = f i := by
  simp [byte, ofBytes, h]

def slice (b : Block n) (off len : ℕ) : List UInt8 :=
  (List.range len).map fun k => b.byte (off + k)

@[simp] lemma slice_length (b : Block n) (off len : ℕ) : (b.slice off len).length = len := by
  simp [slice]

def patch (b : Block n) (off : ℕ) (xs : List UInt8) : Block n :=
  ofBytes fun i => if off ≤ i ∧ i < off + xs.length then xs.getD (i - off) 0 else b.byte i

lemma byte_patch (b : Block n) (off : ℕ) (xs : List UInt8) {i : ℕ} (h : i < n) :
    (b.patch off xs).byte i =
      if off ≤ i ∧ i < off + xs.length then xs.getD (i - off) 0 else b.byte i :=
  byte_ofBytes _ h

def word (b : Block n) (k : ℕ) : UInt32 :=
  wordOfBytes (b.byte (4 * k)) (b.byte (4 * k + 1)) (b.byte (4 * k + 2)) (b.byte (4 * k + 3))

def ofWordList (ws : List UInt32) : Block n := ofBytes fun i => wordByte (ws.getD (i / 4) 0) (i % 4)

def ofWords (w : ℕ → UInt32) : Block n := ofWordList ((List.range ((n + 3) / 4)).map w)

lemma byte_ofWords (w : ℕ → UInt32) {i : ℕ} (h : i < n) :
    (ofWords w : Block n).byte i = wordByte (w (i / 4)) (i % 4) := by
  rw [ofWords, ofWordList, byte_ofBytes _ h, List.getD_eq_getElem?_getD, List.getElem?_map,
    List.getElem?_range (by omega)]
  rfl

@[simp] lemma word_ofWords (w : ℕ → UInt32) {k : ℕ} (h : 4 * k + 3 < n) :
    (ofWords w : Block n).word k = w k := by
  have hd : ∀ j < 4, (4 * k + j) / 4 = k ∧ (4 * k + j) % 4 = j := by omega
  rw [word, byte_ofWords w (by omega), byte_ofWords w (by omega), byte_ofWords w (by omega),
    byte_ofWords w h, (hd 1 (by omega)).1, (hd 2 (by omega)).1, (hd 3 (by omega)).1,
    (hd 1 (by omega)).2, (hd 2 (by omega)).2, (hd 3 (by omega)).2]
  simp [Nat.mul_mod_right]

end Block

end CourseArchive.Lib
