import CourseArchive.PintOS.Filesys.BlockMap.Capacity

/-! Where the pointers of an inode lead, up to the double-indirect ones. -/

namespace CourseArchive.PintOS.Filesys

open Lib

structure MappedInode where
  inode : InodeData
  cnt : ℕ

namespace MappedInode

def place (f : MappedInode) (flat : BlockSector → Sector) (i : ℕ) : BlockSector :=
  if i < directBlocks then f.inode.ptrs i
  else if i < maxSectors then
    (flat (f.inode.ptrs (directBlocks + (i - directBlocks) / indirectBlockPtrs))).word
    ((i - directBlocks) % indirectBlockPtrs)
  else
    (flat ((flat (f.inode.ptrs doubleIndirectIndex)).word ((i - maxSectors) / indirectBlockPtrs))).word
      ((i - maxSectors) % indirectBlockPtrs)

def IsIndex (f : MappedInode) (flat : BlockSector → Sector) (x : BlockSector) : Prop :=
  (∃ j < directBlocks, directBlocks + indirectBlockPtrs * j < f.cnt ∧ x = f.inode.ptrs (directBlocks + j)) ∨
  maxSectors < f.cnt ∧ (x = f.inode.ptrs doubleIndirectIndex ∨
    ∃ j < indirectBlockPtrs, maxSectors + indirectBlockPtrs * j < f.cnt ∧
    x = (flat (f.inode.ptrs doubleIndirectIndex)).word j)

def byte (f : MappedInode) (flat : BlockSector → Sector) (p : ℕ) : UInt8 := byteAt flat (f.place flat) p

def bytes (f : MappedInode) (flat : BlockSector → Sector) (p n : ℕ) : List UInt8 :=
  bytesFrom flat (f.place flat) p n

variable {f : MappedInode} {flat flat' : BlockSector → Sector} {x : BlockSector} {i : ℕ}

lemma isIndex_single (h₁ : directBlocks ≤ i) (h₂ : i < maxSectors) (h : i < f.cnt) :
    f.IsIndex flat (f.inode.ptrs (directBlocks + (i - directBlocks) / indirectBlockPtrs)) := by
  simp only [directBlocks, maxSectors, indirectBlockPtrs] at *
  exact .inl ⟨_, by simp only [directBlocks]; omega, by simp only [directBlocks, indirectBlockPtrs]; omega, rfl⟩

lemma isIndex_double (h : maxSectors < f.cnt) : f.IsIndex flat (f.inode.ptrs doubleIndirectIndex) :=
  .inr ⟨h, .inl rfl⟩

lemma isIndex_inner (h₁ : maxSectors ≤ i) (h₂ : i < capacity) (h : i < f.cnt) :
    f.IsIndex flat ((flat (f.inode.ptrs doubleIndirectIndex)).word ((i - maxSectors) / indirectBlockPtrs)) := by
  simp only [maxSectors, capacity, indirectBlockPtrs] at *
  refine .inr ⟨by simp only [maxSectors]; omega, .inr ⟨_, ?_, ?_, rfl⟩⟩
  · simp only [indirectBlockPtrs]
    omega
  · simp only [maxSectors, indirectBlockPtrs]
    omega

lemma place_congr (hcap : f.cnt ≤ capacity) (h : ∀ {x}, f.IsIndex flat x → flat' x = flat x) (hi : i < f.cnt) :
    f.place flat' i = f.place flat i := by
  simp only [place]
  by_cases hd : i < directBlocks
  · rw [if_pos hd, if_pos hd]
  rw [if_neg hd, if_neg hd]
  by_cases hm : i < maxSectors
  · rw [if_pos hm, if_pos hm, h (isIndex_single (by omega) hm hi)]
  · rw [if_neg hm, if_neg hm, h (isIndex_double (by omega)), h (isIndex_inner (by omega) (by omega) hi)]

lemma isIndex_congr (h : ∀ {x}, f.IsIndex flat x → flat' x = flat x) : f.IsIndex flat' x ↔ f.IsIndex flat x := by
  rw [IsIndex, IsIndex]
  refine or_congr_right (and_congr_right fun hbig => ?_)
  rw [h (isIndex_double hbig)]

lemma byteToSector_follows (f : MappedInode) (flat : BlockSector → Sector) {I : Filesys → Prop} {s : Filesys}
    (hread : ∀ {x s}, I s → f.IsIndex flat x → Returns (blockRead x) s fun v t => v = flat x ∧ I t)
    (hcap : f.cnt ≤ capacity) {length : ℤ} {pos : ℕ} (hlen : pos < length) (hpos : pos / 512 < f.cnt) (h : I s) :
    Returns (byteToSector f.inode length pos) s fun x t => x = f.place flat (pos / 512) ∧ I t := by
  -- `byte_to_sector` follows the pointers, over any states in which the index blocks are what `flat` has of them
  have hmax : directBlocks + indirectBlocksCount = maxSectors := rfl
  rw [byteToSector, if_neg (by omega), place, hmax]
  simp only [blockSectorSize]
  by_cases hd : pos / 512 < directBlocks
  · rw [if_pos hd, if_pos hd]
    exact Returns.pure ⟨rfl, h⟩
  rw [if_neg hd, if_neg hd]
  by_cases hm : pos / 512 < maxSectors
  · rw [if_pos hm, if_pos hm]
    have hidx : (pos - 512 * directBlocks) / (512 * indirectBlockPtrs) + directBlocks =
        directBlocks + (pos / 512 - directBlocks) / indirectBlockPtrs := by
      simp only [directBlocks, indirectBlockPtrs]
      omega
    have hword :
      (pos - 512 * directBlocks) % (512 * indirectBlockPtrs) / 512 =
      (pos / 512 - directBlocks) % indirectBlockPtrs := by
      simp only [directBlocks, indirectBlockPtrs]
      omega
    rw [hidx, hword]
    refine (hread h (isIndex_single (by omega) hm hpos)).bind ?_
    rintro v t ⟨rfl, ht⟩
    exact Returns.pure ⟨rfl, ht⟩
  · rw [if_neg hm, if_neg hm]
    have hidx : (pos - 512 * maxSectors) / (512 * indirectBlockPtrs) =
      (pos / 512 - maxSectors) / indirectBlockPtrs := by
      simp only [indirectBlockPtrs, maxSectors]
      omega
    have hword :
      (pos - 512 * maxSectors) % (512 * indirectBlockPtrs) / 512 =
      (pos / 512 - maxSectors) % indirectBlockPtrs := by
      simp only [indirectBlockPtrs, maxSectors]
      omega
    refine (hread h (isIndex_double (by omega))).bind ?_
    rintro outer t ⟨rfl, ht⟩
    simp only [hidx, hword]
    rw [if_neg (by simp only [capacity, maxSectors, indirectBlockPtrs] at *; omega)]
    refine (hread ht (isIndex_inner (by omega) (by omega) hpos)).bind ?_
    rintro inner v ⟨rfl, hv⟩
    exact Returns.pure ⟨rfl, hv⟩

end MappedInode

end CourseArchive.PintOS.Filesys
