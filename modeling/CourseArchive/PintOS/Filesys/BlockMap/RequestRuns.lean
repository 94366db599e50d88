import CourseArchive.Lib.Runs
import CourseArchive.PintOS.Filesys.BlockMap.IndexCounters

/-! Runs of growth requests, also beyond the capacity: what the counters, the length and the free map say after
each. -/

namespace CourseArchive.PintOS.Filesys

open Lib Function CachedDisk

def request (σ : InodeData × Filesys) (size : ℕ) : Option (InodeData × Filesys) := (growBy σ.1 size σ.2).toOption

def asked (σ : InodeData × Filesys) (size : ℕ) : ℕ := σ.1.length.toNat + size

def Roomy (s : Filesys) (σ : InodeData × Filesys) (size : ℕ) : Prop :=
  sectorsTaken (min (sectorsOf (asked σ size)) capacity) ≤ s.freeMap.freeCnt

/-- What is added to round the new length up to sectors takes it to `2 ^ 31` at most. -/
def Rounds (σ : InodeData × Filesys) (size : ℕ) : Prop := asked σ size + 511 ≤ 2 ^ 31

structure Agree (s : Filesys) (σ : InodeData × Filesys) : Prop where
  nonneg : 0 ≤ σ.1.length
  counted : Counted σ.1 (sectorsOf σ.1.length.toNat)
  allocated : σ.2.freeMap.freeCnt + sectorsOf σ.1.length.toNat + {x | IsIndexSector σ.2 σ.1 x}.ncard =
    s.freeMap.freeCnt
  direct : σ.1.directBlkIdx ≤ 20
  indirect : σ.1.indirectBlkIdx < 128 ∨ σ.1.indirectBlkIdx = 128 ∧ sectorsOf σ.1.length.toNat = capacity
  double : σ.1.doubleIndirectBlkIdx < 128

variable {s t : Filesys} {u : Usage} {k : BlockSector} {inode : InodeData} {c len n total : ℕ}

lemma counted_inj {c' : ℕ} (h : Counted inode c) (h' : Counted inode c') : c = c' := by
  obtain ⟨hd, hi, hb⟩ := h
  obtain ⟨hd', hi', hb'⟩ := h'
  simp only [maxSectors] at *
  by_cases hc : c < 1290 <;> by_cases hc' : c' < 1290
  · rw [if_pos hc] at hi
    rw [if_pos hc'] at hi'
    omega
  · rw [if_pos hc] at hi hb
    rw [if_neg hc'] at hi' hb'
    omega
  · rw [if_neg hc] at hi hb
    rw [if_pos hc'] at hi' hb'
    omega
  · rw [if_neg hc] at hi hb
    rw [if_neg hc'] at hi' hb'
    omega

lemma lt_indexBlocks {j : ℕ} (hj : j < 10) : j < indexBlocks c ↔ 10 + 128 * j < c := by
  rw [indexBlocks, indexCnt]
  simp only [maxSectors]
  split <;> omega

lemma lt_indexBlocks_inner {j : ℕ} (hc : maxSectors < c) : 11 + j < indexBlocks c ↔ maxSectors + 128 * j < c := by
  rw [indexBlocks, if_neg (by omega), innerCnt]
  omega

lemma indexSectors_eq (h : Tables s u) (hs : Sized u k inode c) (hc : bytesToSectors inode.length = c) :
    {x | IsIndexSector s inode x} = indexPtr u.flat inode '' (Finset.range (indexBlocks c)) := by
  ext x
  simp only [Set.mem_ofPred_eq, IsIndexSector, hc, directBlocks, indirectBlockPtrs, doubleIndirectIndex,
    Set.mem_image, Finset.coe_range, Set.mem_Iio]
  constructor
  · rintro (⟨j, hj, hlt, rfl⟩ | ⟨hmax, rfl | ⟨j, hj, hlt, rfl⟩⟩)
    · exact ⟨j, (lt_indexBlocks hj).mpr hlt, indexPtr_inode _ _ (by omega)⟩
    · have hmore := le_indexBlocks hmax.le
      refine ⟨10, ?_, indexPtr_inode _ _ (by omega)⟩
      rw [indexBlocks, if_neg (by omega)]
      omega
    · refine ⟨11 + j, (lt_indexBlocks_inner hmax).mpr hlt, ?_⟩
      rw [indexPtr_outer, h.raw (by rw [hs.role_outer hmax]; exact Role.raw_index _ _)]
  · rintro ⟨i, hi, rfl⟩
    rcases Nat.lt_or_ge i 10 with hlt | hge
    · exact Or.inl ⟨i, hlt, (lt_indexBlocks hlt).mp hi, indexPtr_inode _ _ (by omega)⟩
    · have hmax : maxSectors < c := by
        by_contra hle
        have hcnt := indexCnt_le (Nat.le_of_not_lt hle)
        rw [indexBlocks, if_pos (by omega)] at hi
        omega
      refine Or.inr ⟨hmax, ?_⟩
      rcases Nat.eq_or_lt_of_le hge with rfl | hgt
      · exact Or.inl (indexPtr_inode _ _ (by omega))
      · obtain ⟨j, rfl⟩ : ∃ j, i = 11 + j := ⟨i - 11, by omega⟩
        have hlt := (lt_indexBlocks_inner hmax).mp hi
        have hle := hs.le
        refine Or.inr ⟨j, by simp only [maxSectors, capacity] at *; omega, hlt, ?_⟩
        rw [indexPtr_outer, h.raw (by rw [hs.role_outer hmax]; exact Role.raw_index _ _)]

lemma ncard_indexSectors (h : Tables s u) (hs : Sized u k inode c) (hc : bytesToSectors inode.length = c) :
    {x | IsIndexSector s inode x}.ncard = indexBlocks c := by
  have hinj : Set.InjOn (indexPtr u.flat inode) (Finset.range (indexBlocks c)) := by
    intro i hi j hj he
    have hr := hs.indexed i (Finset.mem_range.mp hi)
    rw [he, hs.indexed j (Finset.mem_range.mp hj)] at hr
    cases hr
    rfl
  rw [indexSectors_eq h hs hc, hinj.ncard_image, Set.ncard_coe_finset, Finset.card_range]

lemma sectors_after (hc : c ≤ capacity) (hle : c ≤ sectorsOf n) (hn : n < 2 ^ 31) :
    c + min (sizeT (bytesToSectors n - (c : ℤ))) (capacity - c) = min (sectorsOf n) capacity := by
  rcases Nat.lt_or_ge (n + 511) (2 ^ 31) with hsmall | hlarge
  · have hnew : sizeT (bytesToSectors n - (c : ℤ)) = sectorsOf n - c := by
      rw [bytesToSectors_natCast hsmall]
      change sizeT ((sectorsOf n : ℤ) - c) = _
      have hbound : sectorsOf n < 2 ^ 32 := by
        rw [sectorsOf]
        omega
      rw [← Nat.cast_sub hle, sizeT_natCast (by omega)]
    rw [hnew]
    omega
  · obtain ⟨m, hm⟩ : ∃ m, n + 511 + m = 2 ^ 32 := ⟨2 ^ 32 - (n + 511), by omega⟩
    simp only [capacity, sectorsOf] at *
    rw [newSectors_wrap hm hlarge hn (by omega)]
    omega

lemma InOrder.withLength (h : InOrder k total s inode c) (length : ℤ) :
    InOrder k total s { inode with length := length } c := by
  obtain ⟨u, ht, hm, hs, htotal⟩ := h
  refine ⟨u, ht, hm,
    ⟨⟨hs.counted.direct, hs.counted.indirect, hs.counted.double⟩, hs.le, fun hc => ?_, hs.indexed⟩, htotal⟩
  obtain ⟨L, hcnt, hi, hL⟩ := hs.single hc
  exact ⟨L, hcnt, ⟨hi.direct, hi.indirect, hi.double, hi.ptrs_data, hi.ptrs_index⟩, hL⟩

structure Served (total : ℕ) (σ : InodeData × Filesys) (len : ℕ) : Prop where
  length : σ.1.length = len
  cap : len ≤ 512 * capacity
  order : InOrder rootDirSector total σ.2 σ.1 (sectorsOf len)

lemma grownLength_le (n : ℕ) : grownLength n ≤ 512 * capacity := by
  rw [grownLength]
  split <;> omega

lemma sectorsOf_grownLength_iff (hn : n < 2 ^ 31) :
    sectorsOf (grownLength n) = min (sectorsOf n) capacity ↔ n + 511 ≤ 2 ^ 31 := by
  rw [grownLength]
  simp only [sectorsOf, capacity]
  split
  · omega
  · split <;> omega

namespace Served

variable {σ : InodeData × Filesys} {size : ℕ}

lemma bytesToSectors_eq (h : Served total σ len) : bytesToSectors σ.1.length = sectorsOf len := by
  have hcap := h.cap
  rw [h.length, bytesToSectors_natCast (by simp only [capacity] at hcap; omega)]
  rfl

lemma sectors_le (h : Served total σ len) : sectorsOf len ≤ capacity := by
  have hcap := h.cap
  rw [sectorsOf]
  omega

lemma counted (h : Served total σ len) : Counted σ.1 (sectorsOf len) := by
  obtain ⟨u, -, -, hs, -⟩ := h.order
  exact hs.counted

lemma inodeGrow_ensures (h : Served total σ len) (hn : len + size < 2 ^ 31) :
    Ensures (inodeGrow freeMapAllocate σ.1 (len + size : ℕ)) σ.2 fun r _ => r.1 = grownLength (len + size) := by
  rcases Nat.eq_zero_or_pos size with rfl | hpos
  · have hz : sizeT 0 = 0 := rfl
    rw [inodeGrow, h.length, Nat.add_zero, Int.sub_self, if_pos hz, grownLength, if_pos h.cap]
    exact Ensures.pure rfl
  · exact inodeGrow_length h.counted h.length h.cap (by omega) hn

lemma request_returns (h : Served total σ len) (hn : len + size < 2 ^ 31)
    (hroom : sectorsTaken (min (sectorsOf (len + size)) capacity) ≤ total) : ∃ τ, request σ size = some τ ∧
      τ.1.length = grownLength (len + size) ∧
      InOrder rootDirSector total τ.2 τ.1 (min (sectorsOf (len + size)) capacity) := by
  have hoff : offT (σ.1.length + size) = (len + size : ℕ) := by
    rw [h.length, ← Nat.cast_add, offT_natCast hn]
  have hle : sectorsOf len ≤ sectorsOf (len + size) := Nat.div_le_div_right (by omega)
  have hafter := sectors_after h.sectors_le hle hn
  rw [← h.bytesToSectors_eq] at hafter
  have hgrow :=
    inodeGrow_inOrder (n := (len + size : ℕ)) (by decide) h.order rfl (by rwa [← h.bytesToSectors_eq, hafter])
  obtain ⟨⟨length, data⟩, t, hrun, ht, hlength⟩ := hgrow.and_ensures (h.inodeGrow_ensures hn)
  rw [← h.bytesToSectors_eq, hafter] at ht
  refine ⟨({ data with length := length }, t), ?_, hlength, ht.withLength length⟩
  rw [request, growBy, hoff, bind_ok hrun]
  rfl

lemma agree (h : Served s.freeMap.freeCnt σ len) : Agree s σ := by
  obtain ⟨u, ht, -, hs, htotal⟩ := h.order
  have hlen : σ.1.length.toNat = len := by
    rw [h.length, Int.toNat_natCast]
  have hle := hs.le
  obtain ⟨hdirect, hindirect, hdouble⟩ := hs.counted
  refine ⟨?_, ?_, ?_, ?_, ?_, ?_⟩
  · rw [h.length]
    exact Int.natCast_nonneg len
  · rw [hlen]
    exact hs.counted
  · rw [hlen, ncard_indexSectors ht hs h.bytesToSectors_eq, Nat.add_assoc]
    exact htotal
  · omega
  · rw [hlen]
    simp only [maxSectors, capacity] at *
    split at hindirect <;> omega
  · split at hdouble <;> omega

lemma next (h : Served s.freeMap.freeCnt σ len) (hroom : Roomy s σ size) (hr : Rounds σ size) :
    ∃ τ, request σ size = some τ ∧ ∃ len', Served s.freeMap.freeCnt τ len' := by
  have hn : asked σ size = len + size := by
    rw [asked, h.length, Int.toNat_natCast]
  rw [Rounds, hn] at hr
  rw [Roomy, hn] at hroom
  obtain ⟨τ, hrun, hlength, ht⟩ := h.request_returns (by omega) hroom
  exact ⟨τ, hrun, _, hlength, grownLength_le _, by rwa [(sectorsOf_grownLength_iff (by omega)).mpr hr]⟩

end Served

lemma Empty.served (hi : Empty inode) (h : Tables s u) (hm : MapFile s u) :
    Served s.freeMap.freeCnt (inode, s) 0 := by
  have hg := GrownTo.refl h hi
  refine ⟨hi.length, Nat.zero_le _, u, h, hm,
    Sized.of_layout (Nat.zero_le _) ⟨?_, ?_, ?_⟩ hg.mapped hg.grown.claims, ?_⟩
  · exact hi.direct
  · exact hi.indirect
  · exact hi.double
  · rfl

/-- As long as no rounding overflows, every request returns and leaves counters, length and free map in agreement.
The first request whose length is rounded up past an `off_t` returns too, but takes a sector more than the length
has. -/
theorem counters_agree_iff (s : Filesys) (u : Usage) (inode : InodeData) (sizes : List ℕ) (h : Tables s u)
    (hm : MapFile s u) (hi : Empty inode)
    (hok : AllOk request (fun σ size => Roomy s σ size ∧ Rounds σ size) (inode, s) sizes) :
    ∃ σ, play request (inode, s) sizes = some σ ∧ Agree s σ ∧ ∀ size, Roomy s σ size → asked σ size < 2 ^ 31 →
      ∃ τ, request σ size = some τ ∧ (Agree s τ ↔ Rounds σ size) := by
  obtain ⟨σ, hplay, len, hσ⟩ := play_of_allOk (fun σ => ∃ len, Served s.freeMap.freeCnt σ len)
    (fun σ size ⟨len, hσ⟩ ⟨hroom, hr⟩ => hσ.next hroom hr) sizes ⟨0, hi.served h hm⟩ hok
  refine ⟨σ, hplay, hσ.agree, fun size hroom hn => ?_⟩
  have hasked : asked σ size = len + size := by
    rw [asked, hσ.length, Int.toNat_natCast]
  rw [Roomy, hasked] at hroom
  rw [hasked] at hn
  rw [Rounds, hasked]
  obtain ⟨τ, hrun, hlength, ht⟩ := hσ.request_returns hn hroom
  refine ⟨τ, hrun, ?_⟩
  rw [← sectorsOf_grownLength_iff hn]
  constructor
  · intro ha
    have hcounted := ha.counted
    rw [hlength, Int.toNat_natCast] at hcounted
    obtain ⟨u', -, -, hs, -⟩ := ht
    exact counted_inj hcounted hs.counted
  · intro he
    exact Served.agree ⟨hlength, grownLength_le _, by rwa [he]⟩

lemma allOk_of_sum {σ : InodeData × Filesys} (sizes : List ℕ) (hs : Served s.freeMap.freeCnt σ len)
    (hroom : sectorsTaken capacity ≤ s.freeMap.freeCnt) (hsum : len + sizes.sum + 511 ≤ 2 ^ 31) :
    AllOk request (fun σ size => Roomy s σ size ∧ Rounds σ size) σ sizes := by
  induction sizes generalizing σ len with
  | nil => trivial
  | cons size sizes ih =>
    rw [List.sum_cons] at hsum
    have hasked : asked σ size = len + size := by
      rw [asked, hs.length, Int.toNat_natCast]
    have hroomy : Roomy s σ size := (sectorsTaken_mono (min_le_right _ _)).trans hroom
    have hrounds : Rounds σ size := by
      rw [Rounds, hasked]
      omega
    have hn : len + size < 2 ^ 31 := by omega
    obtain ⟨τ, hrun, hlength, ht⟩ := hs.request_returns hn (hasked ▸ hroomy)
    have hgrown : grownLength (len + size) ≤ len + size := by
      rw [grownLength]
      split <;> omega
    rw [← (sectorsOf_grownLength_iff hn).mpr (hasked ▸ hrounds)] at ht
    refine ⟨⟨hroomy, hrounds⟩, ?_⟩
    rw [hrun]
    exact ih ⟨hlength, grownLength_le _, ht⟩ (by omega)

/-! A device with room for the largest file, with the free-map file open in the sectors 2 to 9. -/

def largeLayout : Layout := ⟨8, fun i => UInt32.ofNat (2 + i), fun _ => 0⟩

def largeMapInode : Inode where
  toInodeData := largeLayout.inodeData 4096 false rootDirSector
  sector := freeMapSector
  openCnt := 1
  removed := false
  denyWriteCnt := 0
  readLength := 4096
  locked := false

def large : Filesys where
  disk := ⟨⟨32768, fun _ => zeros⟩, fun _ => ⟨zeros, 0, false, false, false, 0⟩, 0, 0, 0⟩
  freeMap := ⟨32768, fun i => i < 10⟩
  freeMapFile := some (fileOpen freeMapSector)
  openInodes := put (fun _ => none) freeMapSector (some largeMapInode)
  junk := fun _ => zeros
  log := []

def largeUsage : Usage where
  flat := fun _ => zeros
  role x :=
    if x.toNat < 2 then .inode x else if x.toNat < 10 then .data freeMapSector (x.toNat - 2) else .free
  stale := fun _ => False

lemma large_tables : Tables large largeUsage where
  usable := ⟨fun _ => rfl, nofun⟩
  plain := fun _ => nofun
  raw := fun _ => rfl
  marked {x} hx := by
    have hlt : x.toNat < 10 := by
      by_contra hge
      simp only [largeUsage] at hx
      rw [if_neg (by omega), if_neg hge] at hx
      exact hx rfl
    exact ⟨decide_eq_true hlt, UInt32.lt_iff_toNat_lt.mpr (hlt.trans (by decide))⟩
  size := rfl

lemma large_mapFile : MapFile large largeUsage := by
  rintro f ⟨⟩
  refine ⟨largeMapInode, largeLayout, rfl, rfl, rfl, rfl, largeLayout.inodeData_mapped _ _ _,
    ⟨?_, ?_, ?_⟩, by decide, by decide, by decide⟩
  · intro i hi
    have hi : i < 8 := hi
    have hsector : (UInt32.ofNat (2 + i)).toNat = 2 + i := by
      rw [UInt32.toNat_ofNat']
      omega
    simp only [largeUsage, largeLayout, hsector]
    rw [if_neg (by omega), if_pos (by omega), Nat.add_sub_cancel_left]
    rfl
  · intro j hj
    exact absurd hj (Nat.not_lt_zero j)
  · intro j w _ hj
    simp only [largeLayout] at hj
    omega

lemma large_freeCnt : sectorsTaken capacity ≤ large.freeMap.freeCnt := by
  have hsub : Finset.Ico 10 32768 ⊆ (Finset.range 32768).filter fun i => large.freeMap.bits i = false := by
    intro i hi
    simp only [Finset.mem_Ico] at hi
    simp [large, hi.1, hi.2]
  have hcard : 32758 ≤ large.freeMap.freeCnt := (Nat.card_Ico 10 32768).symm.le.trans (Finset.card_le_card hsub)
  exact le_trans (by decide) hcard

theorem counters_agree_iff_large :
    ∃ σ, play request (emptyInode, large) [660480, 1000000000, 7] = some σ ∧ Agree large σ ∧
    ∀ size, Roomy large σ size → asked σ size < 2 ^ 31 →
    ∃ τ, request σ size = some τ ∧ (Agree large τ ↔ Rounds σ size) :=
  counters_agree_iff large largeUsage emptyInode [660480, 1000000000, 7] large_tables large_mapFile
  emptyInode_empty
    (allOk_of_sum _ (emptyInode_empty.served large_tables large_mapFile) large_freeCnt (by decide))

theorem rounding_overflows : ∃ τ, Tables large largeUsage ∧ MapFile large largeUsage ∧ Empty emptyInode ∧
    Roomy large (emptyInode, large) (2 ^ 31 - 1) ∧ play request (emptyInode, large) [2 ^ 31 - 1] = some τ ∧
    τ.1.length = 9048575 ∧ Counted τ.1 17674 ∧ ¬ Agree large τ := by
  -- the length that is returned takes one sector less than there are
  have hroom : sectorsTaken (min (sectorsOf (0 + (2 ^ 31 - 1))) capacity) ≤ large.freeMap.freeCnt :=
    (sectorsTaken_mono (min_le_right _ _)).trans large_freeCnt
  obtain ⟨τ, hrun, hlength, u, -, -, hs, -⟩ :=
    (emptyInode_empty.served large_tables large_mapFile).request_returns (by decide) hroom
  have hcounted : Counted τ.1 17674 := hs.counted
  have hlen : τ.1.length = 9048575 := hlength
  refine ⟨τ, large_tables, large_mapFile, emptyInode_empty, hroom, ?_, hlen, hcounted, fun ha => ?_⟩
  · rw [play, hrun]
    rfl
  · have hagree := ha.counted
    rw [hlen] at hagree
    exact absurd (counted_inj hcounted hagree) (by decide)

end CourseArchive.PintOS.Filesys
