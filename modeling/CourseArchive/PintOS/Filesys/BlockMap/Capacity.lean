import CourseArchive.PintOS.Filesys.BlockMap.Requests

/-! The counters of an inode, how far growth can move them, and the length that a write leaves. -/

namespace CourseArchive.PintOS.Filesys

open Lib

abbrev capacity : ℕ := 17674

structure Counted (inode : InodeData) (c : ℕ) : Prop where
  direct : inode.directBlkIdx = min c 10 + min ((c - 10) / 128) 10
  indirect : inode.indirectBlkIdx = if c < maxSectors then (c - 10) % 128 else (c - maxSectors) / 128
  double : inode.doubleIndirectBlkIdx = if c < maxSectors then 0 else (c - maxSectors) % 128

variable {alloc : Allocator} {s : Filesys} {inode : InodeData} {c new : ℕ}

lemma fillSlots_counts {limit fuel : ℕ} (slots : Slots) (hnew : 0 < slots.newSectors)
    (hfuel : limit ≤ slots.index + fuel) :
    Ensures (fillSlots alloc limit fuel slots) s fun r _ =>
      r.index = slots.index + min slots.newSectors (limit - slots.index) ∧
      r.newSectors = slots.newSectors - min slots.newSectors (limit - slots.index) := by
  induction fuel generalizing slots s with
  | zero => exact Ensures.pure (by omega)
  | succ fuel ih =>
    rw [fillSlots]
    split
    · refine Ensures.bind (P := fun _ _ => True) (fun _ _ _ => trivial) fun ptr t _ => ?_
      refine Ensures.bind (P := fun _ _ => True) (fun _ _ _ => trivial) fun _ v _ => ?_
      rw [if_neg (by omega)]
      simp only
      split
      · exact Ensures.pure (by simp only; omega)
      · refine (ih ⟨_, _, _⟩ (by simp only; omega) (by simp only; omega)).mono fun r _ hr => ?_
        simp only at hr
        omega
    · exact Ensures.pure (by omega)

lemma counted_iff {d i b : ℕ} (hd : min c 10 + min ((c - 10) / 128) 10 = d)
    (hi : (if c < maxSectors then (c - 10) % 128 else (c - maxSectors) / 128) = i)
    (hb : (if c < maxSectors then 0 else (c - maxSectors) % 128) = b) :
    Counted inode c ↔ inode.directBlkIdx = d ∧ inode.indirectBlkIdx = i ∧ inode.doubleIndirectBlkIdx = b := by
  subst hd hi hb
  exact ⟨fun h => ⟨h.direct, h.indirect, h.double⟩, fun ⟨h₁, h₂, h₃⟩ => ⟨h₁, h₂, h₃⟩⟩

lemma counted_iff_direct (hc : c ≤ 10) : Counted inode c ↔ inode.directBlkIdx = c ∧ inode.indirectBlkIdx = 0 ∧
    inode.doubleIndirectBlkIdx = 0 := by
  have hlt : c < maxSectors := by
    simp only [maxSectors]
    omega
  refine counted_iff (by omega) ?_ (if_pos hlt)
  rw [if_pos hlt]
  omega

lemma counted_iff_indirect {j w : ℕ} (hw : w < 128) (hle : 128 * j + w ≤ 1280) : Counted inode (10 + 128 * j + w) ↔
    inode.directBlkIdx = 10 + j ∧ inode.indirectBlkIdx = w ∧ inode.doubleIndirectBlkIdx = 0 := by
  refine counted_iff (by omega) ?_ ?_
  · simp only [maxSectors]
    split <;> omega
  · simp only [maxSectors]
    split <;> omega

lemma counted_iff_double (hc : maxSectors ≤ c) : Counted inode c ↔ inode.directBlkIdx = 20 ∧
    inode.indirectBlkIdx = (c - maxSectors) / 128 ∧ inode.doubleIndirectBlkIdx = (c - maxSectors) % 128 := by
  have hnot : ¬ c < maxSectors := Nat.not_lt.mpr hc
  refine counted_iff ?_ (if_neg hnot) (if_neg hnot)
  simp only [maxSectors] at hc
  omega

structure Counts (c new top : ℕ) (inode : InodeData) (left : ℕ) : Prop where
  counted : Counted inode (c + min new (top - c))
  left : left = new - min new (top - c)

lemma Counted.full {top : ℕ} (h : Counted inode c) (htop : top ≤ c) : Counts c new top inode new where
  counted := by rwa [show c + min new (top - c) = c by omega]
  left := by omega

lemma Counts.trans {c' new' mid top left : ℕ} {inode' : InodeData} (h : Counts c new mid inode new')
    (h' : Counts c' new' top inode' left) (hc : c' = c + min new (mid - c)) (hmid : mid ≤ top) :
    Counts c new top inode' left := by
  have htaken : min new (mid - c) + min new' (top - c') = min new (top - c) := by
    rw [h.left, hc, ← Nat.sub_sub, min_add_min_rest new (Nat.sub_le_sub_right hmid c)]
  refine ⟨?_, ?_⟩
  · rw [← htaken, ← Nat.add_assoc, ← hc]
    exact h'.counted
  · rw [h'.left, ← htaken, ← Nat.sub_sub, ← h.left]

lemma Counts.done {mid top : ℕ} (h : Counts c new mid inode 0) (hmid : mid ≤ top) : Counts c new top inode 0 := by
  have hleft := h.left
  have hcounted := h.counted
  refine ⟨?_, by omega⟩
  rwa [show c + min new (top - c) = c + min new (mid - c) by omega]

lemma mapAlloc_counts (h : Counted inode c) (hnew : 0 < new) :
    Ensures (mapAlloc alloc inode new) s fun r _ => Counts c new 10 r.1 r.2 := by
  have hdirect := h.direct
  refine (fillSlots_counts ⟨inode.ptrs, inode.directBlkIdx, new⟩ hnew (by simp only [directBlocks]; omega)).bind ?_
  rintro slots t ⟨hidx, hleft⟩
  simp only [directBlocks] at hidx hleft
  by_cases hc : 10 ≤ c
  · have hroom : 10 - inode.directBlkIdx = 10 - c := by omega
    rw [hroom] at hidx hleft
    refine Ensures.pure ⟨?_, hleft⟩
    rw [Nat.sub_eq_zero_of_le hc, Nat.min_zero, Nat.add_zero] at hidx ⊢
    exact ⟨hidx.trans hdirect, h.indirect, h.double⟩
  · obtain ⟨hd, hi, hb⟩ := (counted_iff_direct (by omega)).mp h
    rw [hd] at hidx hleft
    exact Ensures.pure ⟨(counted_iff_direct (by omega)).mpr ⟨hidx, hi, hb⟩, hleft⟩

lemma indexBlock_ensures (fresh : Bool) (ptr : BlockSector) :
    Ensures (indexBlock alloc fresh ptr) s fun _ _ => True := fun _ _ _ => trivial

lemma inodeGrowIndirectBlock_counts (h : Counted inode c) (hnew : 0 < new) (hc : 10 ≤ c) (hc' : c < maxSectors) :
    Ensures (inodeGrowIndirectBlock alloc inode new) s fun r _ =>
      Counts c new (c + (128 - (c - 10) % 128)) r.1 r.2 := by
  obtain ⟨j, w, hw, rfl⟩ : ∃ j w, w < 128 ∧ c = 10 + 128 * j + w :=
    ⟨(c - 10) / 128, (c - 10) % 128, Nat.mod_lt _ (by decide), by omega⟩
  simp only [maxSectors] at hc'
  obtain ⟨hd, hi, hb⟩ := (counted_iff_indirect hw (by omega)).mp h
  have hroom : 10 + 128 * j + w + (128 - (10 + 128 * j + w - 10) % 128) - (10 + 128 * j + w) = 128 - w := by omega
  rw [inodeGrowIndirectBlock]
  refine (indexBlock_ensures _ _).bind ?_
  rintro ⟨ptr, block⟩ t -
  refine (fillSlots_counts ⟨block, inode.indirectBlkIdx,
    new⟩ hnew (by simp only [indirectBlockPtrs]; omega)).bind ?_
  rintro slots v ⟨hidx, hleft⟩
  simp only [indirectBlockPtrs, hi] at hidx hleft
  refine Ensures.bind (P := fun _ _ => True) (fun _ _ _ => trivial) fun _ v _ => ?_
  split
  case isTrue hfull =>
    refine Ensures.pure ⟨?_, by rw [hroom]; exact hleft⟩
    rw [hidx] at hfull
    have hnext : 10 + 128 * j + w + min new (128 - w) = 10 + 128 * (j + 1) + 0 := by
      rw [Nat.add_assoc, hfull]
      rfl
    rw [hroom, hnext, counted_iff_indirect (by decide) (by omega)]
    exact ⟨congrArg (· + 1) hd, rfl, hb⟩
  case isFalse hfull =>
    refine Ensures.pure ⟨?_, by rw [hroom]; exact hleft⟩
    simp only [indirectBlockPtrs] at hfull
    rw [hroom, Nat.add_assoc, counted_iff_indirect (by omega) (by omega)]
    exact ⟨hd, hidx, hb⟩

lemma growIndirectBlocks_counts {fuel : ℕ} (h : Counted inode c) (hnew : 0 < new) (hc : 10 ≤ c) :
    Ensures (growIndirectBlocks alloc fuel inode new) s fun r _ => Counts c new maxSectors r.1 r.2 := by
  induction fuel generalizing inode c new s with
  | zero =>
    rw [growIndirectBlocks]
    split
    · exact Ensures.throw
    · refine Ensures.pure (h.full ?_)
      have hdirect := h.direct
      simp only [doubleIndirectIndex, maxSectors] at *
      omega
  | succ fuel ih =>
    have hdirect := h.direct
    rw [growIndirectBlocks]
    split
    case isTrue hlt =>
      have hc' : c < maxSectors := by
        simp only [doubleIndirectIndex, maxSectors] at *
        omega
      refine (inodeGrowIndirectBlock_counts h hnew hc hc').bind ?_
      rintro ⟨inode', new'⟩ t hcounts
      simp only at hcounts ⊢
      have htop : c + (128 - (c - 10) % 128) ≤ maxSectors := by
        simp only [maxSectors] at *
        omega
      split
      case isTrue hz =>
        subst hz
        exact Ensures.pure (hcounts.done htop)
      case isFalse hz =>
        exact (ih hcounts.counted (by omega) (by omega)).mono fun r v hr => hcounts.trans hr rfl htop
    case isFalse hlt =>
      refine Ensures.pure (h.full ?_)
      simp only [doubleIndirectIndex, maxSectors] at *
      omega

lemma lvl2_counts (h : Counted inode c) (hnew : 0 < new) (hc : maxSectors ≤ c) (hc' : c < capacity)
    (block : IndirectBlock) :
    Ensures (inodeGrowDoubleIndirectBlockLvl2 alloc inode new block) s fun r _ =>
      Counts c new (c + (128 - (c - maxSectors) % 128)) r.1 r.2.1 := by
  obtain ⟨hdirect, hindirect, hdouble⟩ := (counted_iff_double hc).mp h
  rw [inodeGrowDoubleIndirectBlockLvl2]
  refine (indexBlock_ensures _ _).bind ?_
  rintro ⟨ptr, inner⟩ t -
  simp only [mapAllocIndirect, bind_assoc, pure_bind]
  refine (fillSlots_counts ⟨inner, inode.doubleIndirectBlkIdx,
    new⟩ hnew (by simp only [indirectBlockPtrs]; omega)).bind ?_
  rintro slots v ⟨hidx, hleft⟩
  simp only [indirectBlockPtrs] at hidx hleft
  refine Ensures.bind (P := fun _ _ => True) (fun _ _ _ => trivial) fun _ w _ => ?_
  rw [hdouble] at hidx hleft
  obtain ⟨d, rfl⟩ := Nat.exists_eq_add_of_le hc
  rw [Nat.add_sub_cancel_left] at hindirect hidx hleft ⊢
  have hroom : maxSectors + d + (128 - d % 128) - (maxSectors + d) = 128 - d % 128 := Nat.add_sub_cancel_left _ _
  have hbig : maxSectors ≤ maxSectors + d + min new (128 - d % 128) := by omega
  have hmore : maxSectors + d + min new (128 - d % 128) - maxSectors = d + min new (128 - d % 128) := by omega
  split
  case isTrue hfull =>
    simp only [indirectBlockPtrs] at hfull
    refine Ensures.pure ⟨?_, by rw [hroom]; exact hleft⟩
    rw [hroom, counted_iff_double hbig, hmore]
    exact ⟨hdirect, by simp only; omega, by simp only; omega⟩
  case isFalse hfull =>
    simp only [indirectBlockPtrs] at hfull
    refine Ensures.pure ⟨?_, by rw [hroom]; exact hleft⟩
    rw [hroom, counted_iff_double hbig, hmore]
    exact ⟨hdirect, by simp only; omega, by simp only; omega⟩

lemma growInnerBlocks_counts {fuel : ℕ} (h : Counted inode c) (hnew : 0 < new) (hc : maxSectors ≤ c)
    (block : IndirectBlock) :
    Ensures (growInnerBlocks alloc fuel inode new block) s fun r _ => Counts c new capacity r.1 r.2.1 := by
  have hfull : ¬ inode.indirectBlkIdx < indirectBlockPtrs → capacity ≤ c := by
    have hindirect := h.indirect
    simp only [maxSectors, capacity, indirectBlockPtrs] at *
    rw [if_neg (by omega)] at hindirect
    omega
  induction fuel generalizing inode c new s block with
  | zero =>
    rw [growInnerBlocks]
    split
    case isTrue hlt => exact Ensures.throw
    case isFalse hlt => exact Ensures.pure (h.full (hfull hlt))
  | succ fuel ih =>
    rw [growInnerBlocks]
    split
    case isTrue hlt =>
      have hc' : c < capacity := by
        have hindirect := h.indirect
        simp only [maxSectors, capacity, indirectBlockPtrs] at *
        rw [if_neg (by omega)] at hindirect
        omega
      refine (lvl2_counts h hnew hc hc' block).bind ?_
      rintro ⟨inode', new', block'⟩ t hcounts
      simp only at hcounts ⊢
      have htop : c + (128 - (c - maxSectors) % 128) ≤ capacity := by
        simp only [maxSectors, capacity] at *
        omega
      split
      case isTrue hz =>
        subst hz
        exact Ensures.pure (hcounts.done htop)
      case isFalse hz =>
        have hcounted := hcounts.counted
        refine (ih hcounted (by omega) (by omega) block' fun hlt' => ?_).mono fun r v hr =>
          hcounts.trans hr rfl htop
        have hindirect := hcounted.indirect
        simp only [maxSectors, capacity, indirectBlockPtrs] at *
        rw [if_neg (by omega)] at hindirect
        omega
    case isFalse hlt => exact Ensures.pure (h.full (hfull hlt))

lemma inodeGrowDoubleIndirectBlock_counts (h : Counted inode c) (hnew : 0 < new) (hc : maxSectors ≤ c) :
    Ensures (inodeGrowDoubleIndirectBlock alloc inode new) s fun r _ => Counts c new capacity r.1 r.2 := by
  rw [inodeGrowDoubleIndirectBlock]
  refine (indexBlock_ensures _ _).bind ?_
  rintro ⟨ptr, block⟩ t -
  have h' : Counted { inode with ptrs := put inode.ptrs inode.directBlkIdx ptr } c :=
    ⟨h.direct, h.indirect, h.double⟩
  refine (growInnerBlocks_counts h' hnew hc block).bind ?_
  rintro ⟨inode', new', block'⟩ v hcounts
  refine Ensures.bind (P := fun _ _ => True) (fun _ _ _ => trivial) fun _ w _ => ?_
  exact Ensures.pure hcounts

lemma growBeyondDirect_counts (h : Counted inode c) (hnew : 0 < new) (hc : 10 ≤ c) :
    Ensures (growBeyondDirect alloc inode new) s fun r _ => Counts c new capacity r.1 r.2 := by
  have hle : maxSectors ≤ capacity := by decide
  rw [growBeyondDirect]
  refine (growIndirectBlocks_counts h hnew hc).bind ?_
  rintro ⟨inode', new'⟩ t hcounts
  simp only at hcounts ⊢
  split
  case isTrue hz =>
    subst hz
    exact Ensures.pure (hcounts.done hle)
  case isFalse hz =>
    have hfull : maxSectors ≤ c + min new (maxSectors - c) := by
      have := hcounts.left
      omega
    have hdirect : inode'.directBlkIdx = doubleIndirectIndex := ((counted_iff_double hfull).mp hcounts.counted).1
    rw [if_pos hdirect]
    exact (inodeGrowDoubleIndirectBlock_counts hcounts.counted (by omega) hfull).mono
      fun r v hr => hcounts.trans hr rfl hle

/-- The length that growth to `n` bytes ends at. Near `2 ^ 31` the rounding up to sectors overflows. -/
def grownLength (n : ℕ) : ℕ :=
  if n ≤ 512 * capacity then n
  else 512 * capacity - (512 - n % 512) % 512 - (if n + 511 ≤ 2 ^ 31 then 0 else 512)

def sectorsLeft (n c : ℕ) : ℕ :=
  sizeT (bytesToSectors n - (c : ℤ)) - min (sizeT (bytesToSectors n - (c : ℤ))) (capacity - c)

lemma newSectors_wrap {n m : ℕ} (hm : n + 511 + m = 2 ^ 32) (hlarge : 2 ^ 31 ≤ n + 511) (hn : n < 2 ^ 31)
    (hc : c ≤ 2 ^ 31) : sizeT (bytesToSectors n - (c : ℤ)) = 2 ^ 32 - m / 512 - c := by
  -- the rounded-up length is negative as an `off_t`, and the count of sectors wraps
  have hoff : offT ((n : ℤ) + ((512 : ℕ) - 1)) = -(m : ℤ) := by
    rw [offT, Int.bmod_def]
    omega
  have hsectors : bytesToSectors n = 2 ^ 32 - m / 512 := by
    rw [bytesToSectors, blockSectorSize, hoff, Int.neg_tdiv, ← Int.ofNat_tdiv, sizeT]
    omega
  rw [hsectors, sizeT]
  omega

lemma offT_sectorsLeft {n c : ℕ} (hc : c ≤ capacity) (hlt : c ≤ sectorsOf n) (hn : n < 2 ^ 31) :
    offT (n - (sectorsLeft n c : ℤ) * (blockSectorSize : ℕ)) = grownLength n := by
  simp only [capacity, sectorsOf] at hc hlt
  rcases Nat.lt_or_ge (n + 511) (2 ^ 31) with hsmall | hlarge
  · have hnew : sizeT (bytesToSectors n - (c : ℤ)) = (n + 511) / 512 - c := by
      rw [bytesToSectors_natCast hsmall, ← Nat.cast_sub hlt, sizeT_natCast (by omega)]
    have hleft : sectorsLeft n c = (n + 511) / 512 - capacity := by
      rw [sectorsLeft, hnew]
      simp only [capacity]
      omega
    rw [hleft, grownLength]
    simp only [capacity, blockSectorSize]
    split
    · rw [offT_eq (by omega) (by omega)]
      omega
    · rw [if_pos (by omega), offT_eq (by omega) (by omega)]
      omega
  · obtain ⟨m, hm⟩ : ∃ m, n + 511 + m = 2 ^ 32 := ⟨2 ^ 32 - (n + 511), by omega⟩
    have hnew := newSectors_wrap (c := c) hm hlarge hn (by omega)
    have hleft : sectorsLeft n c = 2 ^ 32 - m / 512 - capacity := by
      rw [sectorsLeft, hnew]
      simp only [capacity]
      omega
    have hwrap : ((n : ℤ) - ((2 ^ 32 - m / 512 - capacity : ℕ) : ℤ) * (blockSectorSize : ℕ)) =
        ((n + 512 * (m / 512) + 512 * capacity : ℕ) - 2 ^ 32 : ℤ) - 511 * 2 ^ 32 := by
      simp only [capacity, blockSectorSize]
      omega
    have hvalue : ((n + 512 * (m / 512) + 512 * capacity : ℕ) - 2 ^ 32 : ℤ) = grownLength n := by
      rw [grownLength, if_neg (by simp only [capacity]; omega)]
      simp only [capacity]
      split <;> omega
    have hbound : grownLength n < 2 ^ 31 := by
      rw [grownLength, if_neg (by simp only [capacity]; omega)]
      simp only [capacity]
      omega
    rw [hleft, hwrap, hvalue, offT, Int.bmod_def]
    omega

lemma inodeGrow_length {len n : ℕ} (h : Counted inode (sectorsOf len)) (hlen : inode.length = len)
    (hcap : len ≤ 512 * capacity) (hlt : len < n) (hn : n < 2 ^ 31) :
    Ensures (inodeGrow alloc inode n) s fun r _ => r.1 = grownLength n := by
  have hcnt : sectorsOf len ≤ capacity := by
    simp only [sectorsOf, capacity] at *
    omega
  have hmono : sectorsOf len ≤ sectorsOf n := Nat.div_le_div_right (by omega)
  have hsectors : bytesToSectors inode.length = sectorsOf len := by
    rw [hlen, bytesToSectors_natCast (by simp only [capacity] at hcap; omega)]
    rfl
  have hresult := offT_sectorsLeft hcnt hmono hn
  obtain ⟨new, hnew⟩ : ∃ new, sizeT (bytesToSectors n - (sectorsOf len : ℤ)) = new := ⟨_, rfl⟩
  rw [sectorsLeft, hnew] at hresult
  have hdone : new - min new (capacity - sectorsOf len) = 0 → (n : ℤ) = grownLength n := by
    intro hz
    rw [← hresult, hz, Nat.cast_zero, zero_mul, sub_zero, offT_natCast hn]
  rw [inodeGrow, hsectors, hnew]
  split
  case isTrue hz => exact Ensures.pure (hdone (by omega))
  case isFalse hz =>
    refine (mapAlloc_counts h (by omega)).bind ?_
    rintro ⟨inode', new'⟩ t hcounts
    simp only at hcounts ⊢
    split
    case isTrue hz' =>
      subst hz'
      exact Ensures.pure (hdone (hcounts.done (by decide)).left.symm)
    case isFalse hz' =>
      have hleft := hcounts.left
      refine (growBeyondDirect_counts hcounts.counted (by omega) (by omega)).bind ?_
      rintro ⟨inode'', new''⟩ v hcounts'
      have hall := (hcounts.trans hcounts' rfl (by decide)).left
      refine Ensures.pure ?_
      simp only at hall ⊢
      rw [hall, hresult]

/-! The write itself moves no length. -/

lemma onDisk_openInodes {α : Type} (m : Comp CachedDisk Fault α) :
    Ensures (onDisk m) s fun _ t => t.openInodes = s.openInodes := by
  intro a t h
  simp only [onDisk] at h
  split at h
  · cases h
    rfl
  · cases h

lemma blockRead_openInodes (x : BlockSector) : Ensures (blockRead x) s fun _ t => t.openInodes = s.openInodes := by
  refine (onDisk_openInodes _).bind fun data t ht => ?_
  rintro _ v ⟨⟩
  exact ht

lemma byteToSector_openInodes (length : ℤ) (pos : ℕ) :
    Ensures (byteToSector inode length pos) s fun _ t => t.openInodes = s.openInodes := by
  rw [byteToSector]
  split
  · exact Ensures.pure rfl
  split
  · exact Ensures.pure rfl
  split
  · exact (blockRead_openInodes _).bind fun _ t ht => Ensures.pure ht
  · refine (blockRead_openInodes _).bind fun outer t ht => ?_
    refine Ensures.ite (fun _ => ?_) fun _ => ?_
    · rintro _ _ ⟨⟩
    · exact (blockRead_openInodes _).bind fun _ v hv => Ensures.pure (hv.trans ht)

lemma writeFrom_ensures (k : BlockSector) {fuel offset : ℕ} {buffer : List UInt8} (hf : buffer.length ≤ fuel) :
    Ensures (writeFrom k inode fuel buffer offset) s fun n t =>
      n = min buffer.length (inode.length - offset).toNat ∧ t.openInodes = s.openInodes := by
  induction fuel generalizing s buffer offset with
  | zero => exact Ensures.pure ⟨by omega, rfl⟩
  | succ fuel ih =>
    rw [writeFrom]
    split
    case isTrue hnil =>
      subst hnil
      exact Ensures.pure ⟨by simp, rfl⟩
    case isFalse hne =>
      have hpos : 0 < buffer.length := List.length_pos_iff.mpr hne
      refine (byteToSector_openInodes _ _).bind fun x t ht => ?_
      have hchunk : chunkSize inode.length buffer.length offset =
          min buffer.length (min (inode.length - offset).toNat (512 - offset % 512)) := rfl
      refine Ensures.ite (fun hz => Ensures.pure ⟨by omega, ht⟩) fun hz => ?_
      refine Ensures.bind (P := fun _ v => v.openInodes = s.openInodes) ?_ fun _ v hv => ?_
      · rintro _ v ⟨⟩
        exact ht
      refine (onDisk_openInodes _).bind fun _ w hw => ?_
      refine (ih (by rw [List.length_drop]; omega)).bind fun n z hn => Ensures.pure ⟨?_, ?_⟩
      · rw [hn.1, List.length_drop]
        omega
      · rw [hn.2, hw, hv]

lemma writeOut_ensures {k : BlockSector} {i : Inode} {buffer : List UInt8} {offset : ℕ}
    (ho : s.openInodes k = some i) (hb : buffer.length < 2 ^ 31) : Ensures (writeOut k buffer offset) s fun n t =>
      n = min buffer.length (i.length - offset).toNat ∧ ∃ i', t.openInodes k = some i' ∧ i'.length = i.length := by
  have hsize : (offT buffer.length).toNat = buffer.length := by rw [offT_natCast hb, Int.toNat_natCast]
  intro n t hrun
  rw [writeOut, bind_ok (getInode_run ho), hsize, List.take_length] at hrun
  obtain ⟨written, v, hwrite, hrun⟩ := bind_inv hrun
  obtain ⟨hn, hopen⟩ := writeFrom_ensures k le_rfl _ _ hwrite
  rw [bind_ok (getInode_run (hopen ▸ ho))] at hrun
  obtain ⟨rfl, rfl⟩ :
    (written : ℤ) = n ∧
    { v with openInodes := put v.openInodes k (some { i with readLength := i.length }) } = t := by
    simpa [setInode, bind_modify, pure_run] using hrun
  exact ⟨by exact_mod_cast hn, _, put_self _ _ _, rfl⟩

lemma extendTo_ensures {k : BlockSector} {i : Inode} {len n : ℕ} (ho : s.openInodes k = some i)
    (h : Counted i.toInodeData (sectorsOf len)) (hlen : i.length = len) (hcap : len ≤ 512 * capacity)
    (hlt : len < n) (hn : n < 2 ^ 31) : Ensures (extendTo alloc k n) s fun _ t =>
      ∃ i', t.openInodes k = some i' ∧ i'.length = grownLength n := by
  intro _ t hrun
  rw [extendTo, bind_ok (getInode_run ho)] at hrun
  obtain ⟨_, u, -, hrun⟩ := bind_inv hrun
  obtain ⟨⟨length, data⟩, v, hgrow, hrun⟩ := bind_inv hrun
  have hlength := inodeGrow_length h hlen hcap hlt hn _ _ hgrow
  obtain ⟨-, rfl⟩ :
    True ∧
      { v with openInodes := put v.openInodes k (some { i with toInodeData := { data with length := length } }) } =
        t := by
    simpa [setInode, modify_run] using hrun
  exact ⟨_, put_self _ _ _, hlength⟩

def shortfall (n : ℕ) : ℕ := (512 - n % 512) % 512 + (if n + 511 ≤ 2 ^ 31 then 0 else 512)

lemma grownLength_eq {n : ℕ} (h : 512 * capacity < n) : grownLength n = 512 * capacity - shortfall n := by
  rw [grownLength, if_neg (by omega), shortfall]
  omega

def LengthAfter (len offset : ℕ) (n length : ℤ) : Prop :=
  length = if 0 < n then max (len : ℤ) (offset + n) else len

/-- A write that ends inside the file, one of at least a byte that ends inside the capacity, or one beyond it whose
short growth does not matter. -/
def EndsWell (len offset size : ℕ) : Prop :=
  offset + size ≤ len ∨ (0 < size ∧ offset + size ≤ 512 * capacity) ∨
    512 * capacity < offset + size ∧
      if 0 < size ∧ offset + shortfall (offset + size) < 512 * capacity then
        len + shortfall (offset + size) ≤ 512 * capacity
      else len + shortfall (offset + size) = 512 * capacity

lemma lengthAfter_iff {len offset size : ℕ} (hlt : len < offset + size) :
    LengthAfter len offset (min size ((grownLength (offset + size) : ℤ) - offset).toNat : ℕ)
        (grownLength (offset + size)) ↔ EndsWell len offset size := by
  have hbound : shortfall (offset + size) ≤ 1023 := by
    rw [shortfall]
    split <;> omega
  rw [LengthAfter, EndsWell]
  rcases Nat.lt_or_ge (512 * capacity) (offset + size) with hbig | hsmall
  · rw [grownLength_eq hbig]
    simp only [capacity] at *
    split <;> split <;> omega
  · rw [grownLength, if_pos hsmall]
    split <;> omega

/-- The inode keeps its sectors as `L` says, no call has its lock, and the device has room for the sectors that it
needs for `n` bytes, which its direct and single-indirect pointers reach. -/
structure RoomFor (s : Filesys) (u : Usage) (k : BlockSector) (i : Inode) (L : Layout) (len n : ℕ) : Prop where
  tables : Tables s u
  mapFile : MapFile s u
  other : k ≠ freeMapSector
  claims : Claims u k L
  mapped : Mapped i.toInodeData L
  cnt : L.cnt = sectorsOf len
  unlocked : i.locked = false
  reach : max len n ≤ 512 * maxSectors
  free : sectorsUsed (sectorsOf n) ≤ s.freeMap.freeCnt + sectorsUsed (sectorsOf len)

section Returning

variable {u : Usage} {k : BlockSector} {i : Inode} {L : Layout} {len n offset : ℕ} {buffer : List UInt8}

lemma Tables.setInode (h : Tables s u) (i : Option Inode) :
    Tables { s with openInodes := put s.openInodes k i } u :=
  ⟨h.usable, h.plain, h.raw, h.marked, h.size⟩

lemma MapFile.setInode (h : MapFile s u) (hk : k ≠ freeMapSector) (i : Option Inode) :
    MapFile { s with openInodes := put s.openInodes k i } u := by
  intro f hf
  obtain ⟨inode, L, hopen⟩ := h f hf
  refine ⟨inode, L, { hopen with opened := ?_, room := hopen.room }⟩
  rw [← hopen.opened]
  exact put_of_ne _ _ (by rw [hopen.sector]; exact hk.symm)

lemma extendTo_grows (h : RoomFor s u k i L len n) (hlen : i.length = len) (hle : len ≤ n) {j : Option Inode} :
    Returns (inodeGrow freeMapAllocate i.toInodeData n) { s with openInodes := put s.openInodes k j } fun r t =>
      r.1 = n ∧ ∃ u' L', L'.cnt = sectorsOf n ∧ Mapped r.2 L' ∧ Tables t u' ∧ Claims u' k L' := by
  have hreach := h.reach
  refine (inodeGrow_returns (h.tables.setInode j) (h.mapFile.setInode h.other j) h.other h.claims h.mapped hlen
    h.cnt hle
    (by omega) h.free).mono ?_
  rintro r t ⟨hr, u', L', hcnt, hi, hg⟩
  exact ⟨hr, u', L', hcnt, hi, hg.evolves.tables, hg.claims⟩

lemma extendTo_returns (h : RoomFor s u k i L len n) (ho : s.openInodes k = some i) (hlen : i.length = len)
    (hle : len ≤ n) :
    Returns (extendTo freeMapAllocate k n) s fun _ t => ∃ u' L' i', t.openInodes k = some i' ∧ i'.length = n ∧
      L'.cnt = sectorsOf n ∧ Mapped i'.toInodeData L' ∧ Tables t u' ∧ Claims u' k L' := by
  have hset : put s.openInodes k (some i) = s.openInodes := by
    rw [put_eq_update, ← ho, Function.update_eq_self]
  rw [extendTo]
  refine Returns.after (getInode_run ho) ?_
  obtain ⟨j, hj⟩ : ∃ j, (if i.isDir then Pure.pure () else inodeLock k : FsM Unit) s =
      .ok ((), { s with openInodes := put s.openInodes k j }) := by
    by_cases hdir : i.isDir
    · exact ⟨some i, by rw [if_pos hdir, hset]; rfl⟩
    · refine ⟨some { i with locked := true }, ?_⟩
      rw [if_neg hdir, inodeLock, bind_ok (getInode_run ho), if_neg (by simp [h.unlocked])]
      rfl
  refine Returns.after hj ((extendTo_grows h hlen hle).bind ?_)
  rintro ⟨length, data⟩ t ⟨rfl, u', L', hcnt, hi, ht, hL⟩
  refine Returns.modify_end ⟨u', L', _, put_self _ _ _, rfl, hcnt, ?_, ht.setInode _, hL⟩
  exact ⟨hi.direct, hi.indirect, hi.double, hi.ptrs_data, hi.ptrs_index⟩

lemma writeOut_returns (ho : s.openInodes k = some i) (hlen : i.length = len) (ht : Tables s u) (hL : Claims u k L)
    (hi : Mapped i.toInodeData L) (hc : L.cnt = sectorsOf len) (hcap : len ≤ 512 * maxSectors)
    (hin : offset + buffer.length ≤ len) : Returns (writeOut k buffer offset) s fun n _ => n = buffer.length := by
  simp only [maxSectors] at hcap
  have hb : buffer.length < 2 ^ 31 := by omega
  have hsize : (offT buffer.length).toNat = buffer.length := by rw [offT_natCast hb, Int.toNat_natCast]
  rw [writeOut, hsize, List.take_length]
  refine Returns.after (getInode_run ho) ?_
  refine (ht.writeFrom hL hi (by simp only [hc, sectorsOf, maxSectors]; omega) hlen
    (by simp only [hc, sectorsOf]; omega) le_rfl).bind ?_
  rintro n t ⟨hn, -, hk, -⟩
  refine Returns.after (getInode_run (by rw [hk.openInodes]; exact ho)) ?_
  refine Returns.modify_bind (Returns.pure ?_)
  have hall : n = buffer.length := by omega
  exact_mod_cast hall

lemma writeAt_returns (h : RoomFor s u k i L len (offset + buffer.length)) (ho : s.openInodes k = some i)
    (hdeny : i.denyWriteCnt = 0) (hlen : i.length = len) :
    ∃ t, inodeWriteAt k buffer offset s = .ok (buffer.length, t) := by
  have hreach := h.reach
  simp only [maxSectors] at hreach
  have hb : buffer.length < 2 ^ 31 := by omega
  have hoff : offT (offset + offT buffer.length) = (offset + buffer.length : ℕ) := by
    rw [offT_natCast hb, ← Nat.cast_add, offT_natCast (by omega)]
  have hreturns : Returns (inodeWriteAt k buffer offset) s fun n _ => n = buffer.length := by
    rw [inodeWriteAt, inodeWriteAtWith]
    refine Returns.after (getInode_run ho) ?_
    rw [if_neg (by simp [hdeny]), hoff, hlen]
    refine Returns.ite (fun hlt => ?_) fun hge => ?_
    · have hlt : len < offset + buffer.length := by exact_mod_cast hlt
      refine (extendTo_returns h ho hlen hlt.le).bind ?_
      rintro _ t ⟨u', L', i', ho', hlen', hcnt, hi, ht, hL⟩
      exact writeOut_returns ho' hlen' ht hL hi hcnt (by simp only [maxSectors]; omega) le_rfl
    · exact writeOut_returns ho hlen h.tables h.claims h.mapped h.cnt (by simp only [maxSectors]; omega) (by omega)
  obtain ⟨n, t, hrun, rfl⟩ := hreturns
  exact ⟨t, hrun⟩

end Returning

lemma writeAt_length (s t : Filesys) (k : BlockSector) (i : Inode) (buffer : List UInt8) (len offset : ℕ) (n : ℤ)
    (ho : s.openInodes k = some i) (hdeny : i.denyWriteCnt = 0) (hlen : i.length = len)
    (hcap : len ≤ 512 * capacity)
    (h : Counted i.toInodeData (sectorsOf len)) (hsize : offset + buffer.length < 2 ^ 31)
    (hrun : inodeWriteAt k buffer offset s = .ok (n, t)) :
    ∃ i', t.openInodes k = some i' ∧ (LengthAfter len offset n i'.length ↔ EndsWell len offset buffer.length) := by
  have hb : buffer.length < 2 ^ 31 := by omega
  have hoff : offT (offset + offT buffer.length) = (offset + buffer.length : ℕ) := by
    rw [offT_natCast hb, ← Nat.cast_add, offT_natCast hsize]
  rw [inodeWriteAt, inodeWriteAtWith, bind_ok (getInode_run ho), if_neg (by simp [hdeny]), hoff, hlen] at hrun
  split at hrun
  case isTrue hlt =>
    have hlt : len < offset + buffer.length := by exact_mod_cast hlt
    obtain ⟨_, v, hextend, hrun⟩ := bind_inv hrun
    obtain ⟨i₁, ho₁, hlen₁⟩ := extendTo_ensures ho h hlen hcap hlt hsize _ _ hextend
    obtain ⟨hn, i', ho', hlen'⟩ := writeOut_ensures ho₁ hb _ _ hrun
    refine ⟨i', ho', ?_⟩
    rw [hn, hlen', hlen₁]
    exact lengthAfter_iff hlt
  case isFalse hge =>
    obtain ⟨hn, i', ho', hlen'⟩ := writeOut_ensures ho hb _ _ hrun
    refine ⟨i', ho', iff_of_true ?_ (.inl (by omega))⟩
    rw [LengthAfter, hn, hlen', hlen]
    split <;> omega

theorem write_length_iff (s : Filesys) (k : BlockSector) (i : Inode) (buffer : List UInt8) (len offset : ℕ)
    (ho : s.openInodes k = some i) (hdeny : i.denyWriteCnt = 0) (hlen : i.length = len)
    (hcap : len ≤ 512 * capacity)
    (h : Counted i.toInodeData (sectorsOf len)) (hsize : offset + buffer.length < 2 ^ 31) :
    (∀ n t, inodeWriteAt k buffer offset s = .ok (n, t) →
      ∃ i', t.openInodes k = some i' ∧ (LengthAfter len offset n i'.length ↔ EndsWell len offset buffer.length)) ∧
    ∀ u L, RoomFor s u k i L len (offset + buffer.length) →
      ∃ t, inodeWriteAt k buffer offset s = .ok (buffer.length, t) :=
  ⟨fun n t hrun => writeAt_length s t k i buffer len offset n ho hdeny hlen hcap h hsize hrun,
    fun _ _ hroom => writeAt_returns hroom ho hdeny hlen⟩

/-! A file of one byte. -/

def oneByteLayout : Layout := ⟨1, fun _ => 3, fun _ => 0⟩

def oneByte : Filesys where
  disk := ⟨⟨4096, fun _ => zeros⟩, fun _ => ⟨zeros, 0, false, false, false, 0⟩, 0, 0, 0⟩
  freeMap := ⟨4096, fun i => i < 4⟩
  freeMapFile := none
  openInodes :=
    put (fun _ => none) 2 (some ⟨oneByteLayout.inodeData 1 false rootDirSector, 2, 1, false, 0, 1, false⟩)
  junk := fun _ => zeros
  log := []

def oneByteUsage : Usage where
  flat := fun _ => zeros
  role x := if x = 3 then .data 2 0 else .free
  stale := fun _ => False

lemma oneByte_roomFor : RoomFor oneByte oneByteUsage 2
    ⟨oneByteLayout.inodeData 1 false rootDirSector, 2, 1, false, 0, 1, false⟩ oneByteLayout 1 2 where
  tables := by
    refine ⟨⟨fun _ => rfl, fun _ h => ?_⟩, fun _ i h => ?_, fun _ => rfl, fun {x} hx => ?_, rfl⟩
    · cases h
    · cases h
    · obtain rfl : x = 3 := by
        by_contra hne
        simp [oneByteUsage, hne] at hx
      exact ⟨by decide, by change (3 : UInt32) < 4096; decide⟩
  mapFile := by
    rintro f ⟨⟩
  other := by decide
  claims := by
    refine ⟨fun {i} hi => ?_, fun hj => absurd hj (Nat.not_lt_zero _), fun j w _ hj => ?_⟩
    · obtain rfl := Nat.lt_one_iff.mp hi
      rfl
    · simp only [oneByteLayout] at hj
      omega
  mapped := oneByteLayout.inodeData_mapped _ _ _
  cnt := rfl
  unlocked := rfl
  reach := by decide
  free := by
    change sectorsUsed (sectorsOf 1) ≤ _
    exact Nat.le_add_left _ _

theorem write_length_iff_append : ∃ t i', inodeWriteAt 2 [7] 1 oneByte = .ok (1, t) ∧ t.openInodes 2 = some i' ∧
    LengthAfter 1 1 1 i'.length := by
  obtain ⟨hlength, hreturns⟩ :=
    write_length_iff oneByte 2 ⟨oneByteLayout.inodeData 1 false rootDirSector, 2, 1, false, 0, 1, false⟩
    [7] 1 1 rfl rfl rfl (by decide) ⟨by decide, by decide, by decide⟩ (by decide)
  obtain ⟨t, hrun⟩ := hreturns oneByteUsage oneByteLayout oneByte_roomFor
  obtain ⟨i', ho, hiff⟩ := hlength 1 t hrun
  exact ⟨t, i', hrun, ho, hiff.mpr (.inr (.inl (by decide)))⟩

theorem empty_write_lengthens :
    (inodeWriteAt 2 [] 5 oneByte).toOption.map (fun r => (r.1, (r.2.openInodes 2).map (·.length))) =
    some (0, some 5) ∧ ¬ LengthAfter 1 5 0 5 := by
  refine ⟨by decide, ?_⟩
  rw [LengthAfter]
  decide

end CourseArchive.PintOS.Filesys
