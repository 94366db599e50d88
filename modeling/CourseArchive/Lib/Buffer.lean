import CourseArchive.Lib.Positive
import Mathlib.Tactic

/-! Buffers filled from the front, and numbers in network byte order inside them. -/

namespace CourseArchive.Lib

/-- A byte buffer. What `data` says from `length` on is the memory behind the buffer. -/
structure Buffer where
  length : ℕ
  data : ℕ → UInt8

def bytes (s : String) : List UInt8 := s.toList.map fun c => UInt8.ofNat c.toNat

def store (data : ℕ → UInt8) (off : ℕ) (bytes : List UInt8) : ℕ → UInt8 :=
  fun k => if off ≤ k then bytes.getD (k - off) (data k) else data k

def Buffer.memcpy (b : Buffer) (off : ℤ) (bytes : List UInt8) : Option Buffer :=
  if 0 ≤ off ∧ off + bytes.length ≤ b.length then some { b with data := store b.data off.toNat bytes } else none

def be16 (x : UInt16) : List UInt8 := [UInt8.ofNat (x.toNat / 256), UInt8.ofNat x.toNat]

def be32 (x : UInt32) : List UInt8 :=
  [UInt8.ofNat (x.toNat / 16777216), UInt8.ofNat (x.toNat / 65536), UInt8.ofNat (x.toNat / 256),
    UInt8.ofNat x.toNat]

def get16 (data : ℕ → UInt8) (off : ℕ) : UInt16 :=
  UInt16.ofNat ((data off).toNat * 256 + (data (off + 1)).toNat)

def get32 (data : ℕ → UInt8) (off : ℕ) : UInt32 :=
  UInt32.ofNat ((data off).toNat * 16777216 + (data (off + 1)).toNat * 65536 +
    (data (off + 2)).toNat * 256 + (data (off + 3)).toNat)

lemma get16_congr {data data' : ℕ → UInt8} {off : ℕ} (h : ∀ k, off ≤ k → k < off + 2 → data' k = data k) :
    get16 data' off = get16 data off := by
  rw [get16, get16, h off (by omega) (by omega), h (off + 1) (by omega) (by omega)]

lemma get32_congr {data data' : ℕ → UInt8} {off : ℕ} (h : ∀ k, off ≤ k → k < off + 4 → data' k = data k) :
    get32 data' off = get32 data off := by
  rw [get32, get32, h off (by omega) (by omega), h (off + 1) (by omega) (by omega),
    h (off + 2) (by omega) (by omega),
    h (off + 3) (by omega) (by omega)]

@[simp] lemma length_be16 (x : UInt16) : (be16 x).length = 2 := rfl

@[simp] lemma length_be32 (x : UInt32) : (be32 x).length = 4 := rfl

lemma store_apply_of_lt {data : ℕ → UInt8} {off k : ℕ} {bytes : List UInt8} (h : k < off) :
    store data off bytes k = data k := by
  rw [store, if_neg (by omega)]

lemma store_apply_add {data : ℕ → UInt8} {off k : ℕ} {bytes : List UInt8} (h : k < bytes.length) :
    store data off bytes (off + k) = bytes[k] := by
  simp [store, List.getD, h]

lemma store_apply_of_le {data : ℕ → UInt8} {off k : ℕ} {bytes : List UInt8} (h : off + bytes.length ≤ k) :
    store data off bytes k = data k := by
  rw [store, if_pos (by omega), List.getD, List.getElem?_eq_none (by omega), Option.getD_none]

lemma store_apply_of_outside {data : ℕ → UInt8} {off k : ℕ} {bytes : List UInt8}
    (h : k < off ∨ off + bytes.length ≤ k) :
    store data off bytes k = data k := by
  rcases h with h | h
  · exact store_apply_of_lt h
  · exact store_apply_of_le h

def Holds (data : ℕ → UInt8) (off : ℕ) (bytes : List UInt8) : Prop :=
  ∀ k (hk : k < bytes.length), data (off + k) = bytes[k]

namespace Holds

variable {data data' : ℕ → UInt8} {off : ℕ} {xs ys : List UInt8}

lemma nil : Holds data off [] := fun _ hk => absurd hk (by simp)

lemma append_iff : Holds data off (xs ++ ys) ↔ Holds data off xs ∧ Holds data (off + xs.length) ys := by
  constructor
  · intro h
    refine ⟨fun k hk => ?_, fun k hk => ?_⟩
    · rw [h k (by simp; omega), List.getElem_append_left hk]
    · rw [Nat.add_assoc, h (xs.length + k) (by simp; omega), List.getElem_append_right (by omega)]
      simp
  · rintro ⟨hx, hy⟩ k hk
    rcases lt_or_ge k xs.length with h | h
    · rw [List.getElem_append_left h, hx k h]
    · obtain ⟨j, rfl⟩ := Nat.exists_eq_add_of_le h
      rw [List.getElem_append_right h, ← Nat.add_assoc, hy j (by simpa using hk)]
      simp

lemma append (hx : Holds data off xs) (hy : Holds data (off + xs.length) ys) : Holds data off (xs ++ ys) :=
  append_iff.mpr ⟨hx, hy⟩

lemma store (bytes : List UInt8) : Holds (store data off bytes) off bytes :=
  fun _ hk => store_apply_add hk

lemma congr (h : Holds data off xs) (he : ∀ k, off ≤ k → k < off + xs.length → data' k = data k) :
    Holds data' off xs := fun k hk => by rw [he _ (by omega) (by omega), h k hk]

lemma store_of_le (h : Holds data off xs) {o : ℕ} {bytes : List UInt8} (ho : off + xs.length ≤ o) :
    Holds (Lib.store data o bytes) off xs :=
  h.congr fun _ _ hk => store_apply_of_lt (by omega)

lemma store_of_ge (h : Holds data off xs) {o : ℕ} {bytes : List UInt8} (ho : o + bytes.length ≤ off) :
    Holds (Lib.store data o bytes) off xs :=
  h.congr fun _ hk _ => store_apply_of_le (by omega)

lemma get16 {x : UInt16} (h : Holds data off (be16 x)) : get16 data off = x := by
  have h₀ := h 0 (by simp)
  have h₁ := h 1 (by simp)
  simp only [be16, List.getElem_cons_zero, List.getElem_cons_succ, Nat.add_zero] at h₀ h₁
  have hx := x.toNat_lt
  rw [Lib.get16, h₀, h₁, ← UInt16.toNat_inj]
  simp only [UInt16.toNat_ofNat', UInt8.toNat_ofNat']
  omega

lemma get32 {x : UInt32} (h : Holds data off (be32 x)) : get32 data off = x := by
  have h₀ := h 0 (by simp)
  have h₁ := h 1 (by simp)
  have h₂ := h 2 (by simp)
  have h₃ := h 3 (by simp)
  simp only [be32, List.getElem_cons_zero, List.getElem_cons_succ, Nat.add_zero] at h₀ h₁ h₂ h₃
  have hx := x.toNat_lt
  rw [Lib.get32, h₀, h₁, h₂, h₃, ← UInt32.toNat_inj]
  simp only [UInt32.toNat_ofNat', UInt8.toNat_ofNat']
  omega

end Holds

structure Filled (b : Buffer) (n : ℕ) (bytes : List UInt8) : Prop where
  length : b.length = n
  holds : Holds b.data 0 bytes

namespace Filled

variable {b b' : Buffer} {n : ℕ} {bs : List UInt8}

lemma memcpy (h : Filled b n bs) (off : ℤ) (more : List UInt8) (ho : off = bs.length)
    (hn : bs.length + more.length ≤ n) :
    ∃ b', b.memcpy off more = some b' ∧ Filled b' n (bs ++ more) := by
  subst ho
  refine ⟨{ b with data := store b.data bs.length more }, ?_, h.length, ?_⟩
  · rw [Buffer.memcpy, if_pos ⟨by omega, by have := h.length; omega⟩, Int.toNat_natCast]
  · refine .append (h.holds.store_of_le (by omega)) ?_
    rw [Nat.zero_add]
    exact .store more

end Filled

lemma Buffer.memcpy_inv {b b' : Buffer} {off : ℤ} {bytes : List UInt8} (h : b.memcpy off bytes = some b') :
    0 ≤ off ∧ off + bytes.length ≤ b.length ∧ b'.length = b.length := by
  rw [Buffer.memcpy] at h
  split at h
  · obtain rfl := Option.some_injective _ h
    exact ⟨by tauto, by tauto, rfl⟩
  · cases h

end CourseArchive.Lib
