import CourseArchive.PintOS.Filesys.Directory

/-! Where an inode of up to `maxSectors` sectors keeps its data, its index blocks and its counters. -/

namespace CourseArchive.PintOS

open Lib

/-! Conversions to and from `off_t` and `size_t`. -/

lemma offT_eq {x : ℤ} (h : 0 ≤ x) (h' : x < 2 ^ 31) : offT x = x := by
  rw [offT, Int.bmod_def]
  omega

lemma offT_natCast {n : ℕ} (h : n < 2 ^ 31) : offT n = n := offT_eq (by omega) (by exact_mod_cast h)

lemma sizeT_natCast {n : ℕ} (h : n < 2 ^ 32) : sizeT n = n := by
  rw [sizeT]
  omega

lemma bytesToSectors_natCast {n : ℕ} (h : n + 511 < 2 ^ 31) :
    bytesToSectors n = (n + 511) / 512 := by
  have hoff : offT ((n : ℤ) + ((512 : ℕ) - 1)) = ((n + 511 : ℕ) : ℤ) := by
    have he : (n : ℤ) + ((512 : ℕ) - 1) = ((n + 511 : ℕ) : ℤ) := by push_cast; ring
    rw [he, offT_natCast h]
  rw [bytesToSectors, blockSectorSize, hoff, ← Int.ofNat_tdiv, sizeT_natCast (by omega)]

lemma toNat_ofInt {x : ℤ} (h : 0 ≤ x) (h' : x < 2 ^ 31) : ((UInt32.ofInt x).toNat : ℤ) = x := by
  obtain ⟨n, rfl⟩ := Int.eq_ofNat_of_zero_le h
  have he : UInt32.ofInt (n : ℤ) = UInt32.ofNat n := by
    apply UInt32.toNat_inj.mp
    simp [UInt32.ofInt]
    omega
  rw [he, UInt32.toNat_ofNat']
  omega

/-! The disk image of an inode. -/

structure InodeData.Storable (d : InodeData) : Prop where
  length_nonneg : 0 ≤ d.length
  length_lt : d.length < 2 ^ 31
  direct_lt : d.directBlkIdx < 2 ^ 32
  indirect_lt : d.indirectBlkIdx < 2 ^ 32
  double_lt : d.doubleIndirectBlkIdx < 2 ^ 32
  ptrs_eq : ∀ i, inodeBlockPtrs ≤ i → d.ptrs i = 0

lemma InodeData.word_toSector (d : InodeData) {i : ℕ} (h : i < 128) : d.toSector.word i =
    if i = 0 then UInt32.ofInt d.length
    else if i = 1 then inodeMagic
    else if i = 2 then UInt32.ofNat d.directBlkIdx
    else if i = 3 then UInt32.ofNat d.indirectBlkIdx
    else if i = 4 then UInt32.ofNat d.doubleIndirectBlkIdx
    else if i = 5 then (if d.isDir then 1 else 0)
    else if i = 6 then d.parent
    else if i < 7 + inodeBlockPtrs then d.ptrs (i - 7)
    else 0 := by
  rw [toSector, Block.word_ofWords _ (by simp only [blockSectorSize]; omega)]

lemma InodeData.ofSector_toSector (d : InodeData) (h : d.Storable) : ofSector d.toSector = d := by
  have hdir : (d.toSector.byte 20 != 0) = d.isDir := by
    rw [toSector, Block.byte_ofWords _ (by decide)]
    change (wordByte (if d.isDir then 1 else 0) 0 != 0) = d.isDir
    cases d.isDir <;> decide
  have hptrs : (fun i => if i < inodeBlockPtrs then d.toSector.word (7 + i) else 0) = d.ptrs := by
    funext i
    split
    · next hi =>
      simp only [inodeBlockPtrs] at hi
      rw [word_toSector _ (by omega)]
      simp only [inodeBlockPtrs]
      rw [if_neg (by omega), if_neg (by omega), if_neg (by omega), if_neg (by omega), if_neg (by omega),
        if_neg (by omega), if_neg (by omega), if_pos (by omega), Nat.add_sub_cancel_left]
    · next hi => exact (h.ptrs_eq i (Nat.le_of_not_lt hi)).symm
  have hlen : offT (d.toSector.word 0).toNat = d.length := by
    rw [word_toSector _ (by omega), if_pos rfl, toNat_ofInt h.length_nonneg h.length_lt,
      offT_eq h.length_nonneg h.length_lt]
  have hword : ∀ n : ℕ, n < 2 ^ 32 → (UInt32.ofNat n).toNat = n := by
    intro n hn
    rw [UInt32.toNat_ofNat', Nat.mod_eq_of_lt hn]
  rw [ofSector, hlen, hdir, hptrs, word_toSector _ (by omega), word_toSector _ (by omega),
    word_toSector _ (by omega), word_toSector _ (by omega)]
  simp [hword _ h.direct_lt, hword _ h.indirect_lt, hword _ h.double_lt]

end CourseArchive.PintOS

namespace CourseArchive.PintOS.Filesys

open Lib

abbrev maxSectors : ℕ := 1290

def indexCnt (n : ℕ) : ℕ := (n - 10 + 127) / 128

def sectorsOf (len : ℕ) : ℕ := (len + 511) / 512

structure Layout where
  cnt : ℕ
  data : ℕ → BlockSector
  index : ℕ → BlockSector

namespace Layout

def ptrs (L : Layout) (i : ℕ) : BlockSector :=
  if i < 10 then (if i < L.cnt then L.data i else 0)
  else if i - 10 < indexCnt L.cnt then L.index (i - 10) else 0

def inodeData (L : Layout) (length : ℤ) (isDir : Bool) (parent : BlockSector) : InodeData where
  length := length
  directBlkIdx := min L.cnt 10 + (L.cnt - 10) / 128
  indirectBlkIdx := (L.cnt - 10) % 128
  doubleIndirectBlkIdx := 0
  isDir := isDir
  parent := parent
  ptrs := L.ptrs

def Indexed (flat : BlockSector → Sector) (L : Layout) : Prop :=
  ∀ j w, w < 128 → 10 + 128 * j + w < L.cnt → (flat (L.index j)).word w = L.data (10 + 128 * j + w)

lemma ptrs_direct (L : Layout) {i : ℕ} (h : i < 10) (hi : i < L.cnt) : L.ptrs i = L.data i := by
  rw [ptrs, if_pos h, if_pos hi]

lemma ptrs_index (L : Layout) {j : ℕ} (h : 10 + 128 * j < L.cnt) : L.ptrs (10 + j) = L.index j := by
  have hj : 10 + j - 10 < indexCnt L.cnt := by
    simp only [indexCnt]
    omega
  rw [ptrs, if_neg (by omega), if_pos hj, Nat.add_sub_cancel_left]

end Layout

lemma indexCnt_le {n : ℕ} (h : n ≤ maxSectors) : indexCnt n ≤ 10 := by
  simp only [indexCnt, maxSectors] at *
  omega

lemma lt_indexCnt {j n : ℕ} : j < indexCnt n ↔ 10 + 128 * j < n := by
  simp only [indexCnt]
  omega

lemma indexCnt_mono {m n : ℕ} (h : m ≤ n) : indexCnt m ≤ indexCnt n := by
  simp only [indexCnt]
  omega

end CourseArchive.PintOS.Filesys
