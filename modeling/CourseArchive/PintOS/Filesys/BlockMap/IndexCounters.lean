import CourseArchive.PintOS.Filesys.BlockMap.Capacity

/-! The counters of an inode after any growth requests, up to its capacity. -/

namespace CourseArchive.PintOS.Filesys

open Lib Function CachedDisk

def innerCnt (c : ℕ) : ℕ := (c - maxSectors + 127) / 128

def indexBlocks (c : ℕ) : ℕ := if c ≤ maxSectors then indexCnt c else 11 + innerCnt c

def sectorsTaken (c : ℕ) : ℕ := c + indexBlocks c

def indexPtr (flat : BlockSector → Sector) (inode : InodeData) (i : ℕ) : BlockSector :=
  if i < 11 then inode.ptrs (10 + i) else (flat (inode.ptrs 20)).word (i - 11)

def innerOf (u : Usage) (k y : BlockSector) : Prop := ∃ i, u.role y = .index k (11 + i)

def Inner (u : Usage) (k : BlockSector) (c : ℕ) (outer : IndirectBlock) : Prop :=
  ∀ i < innerCnt c, u.role (outer i) = .index k (11 + i)

structure Sized (u : Usage) (k : BlockSector) (inode : InodeData) (c : ℕ) : Prop where
  counted : Counted inode c
  le : c ≤ capacity
  single : c ≤ maxSectors → ∃ L, L.cnt = c ∧ Mapped inode L ∧ Claims u k L
  indexed : ∀ i < indexBlocks c, u.role (indexPtr u.flat inode i) = .index k i

variable {s t v : Filesys} {u u' u'' : Usage} {k : BlockSector} {inode : InodeData} {c new : ℕ}
  {outer : IndirectBlock}

lemma sectorsTaken_of_le (h : c ≤ maxSectors) : sectorsTaken c = sectorsUsed c := by
  rw [sectorsTaken, indexBlocks, if_pos h, sectorsUsed]

lemma indexPtr_inode (flat : BlockSector → Sector) (inode : InodeData) {i : ℕ} (h : i < 11) :
    indexPtr flat inode i = inode.ptrs (10 + i) := if_pos h

lemma indexPtr_outer (flat : BlockSector → Sector) (inode : InodeData) (i : ℕ) :
    indexPtr flat inode (11 + i) = (flat (inode.ptrs 20)).word i := by
  rw [indexPtr, if_neg (by omega), Nat.add_sub_cancel_left]

lemma Sized.of_layout {L : Layout} (hc : L.cnt ≤ maxSectors) (h : Counted inode L.cnt) (hi : Mapped inode L)
    (hL : Claims u k L) : Sized u k inode L.cnt := by
  refine ⟨h, hc.trans (by decide), fun _ => ⟨L, rfl, hi, hL⟩, fun i hlt => ?_⟩
  have hcnt := indexCnt_le hc
  rw [indexBlocks, if_pos hc] at hlt
  rw [indexPtr_inode _ _ (by omega), hi.ptrs_index (lt_indexCnt.mp hlt)]
  exact hL.index hlt

lemma Sized.role_outer (h : Sized u k inode c) (hc : maxSectors < c) : u.role (inode.ptrs 20) = .index k 10 := by
  refine h.indexed 10 ?_
  rw [indexBlocks, if_neg (by omega)]
  omega

lemma Sized.role_inner (h : Sized u k inode c) (hc : maxSectors < c) :
    Inner u k c (u.flat (inode.ptrs 20)).word := by
  intro i hi
  rw [← indexPtr_outer u.flat inode i]
  refine h.indexed (11 + i) ?_
  rw [indexBlocks, if_neg (by omega)]
  omega

lemma Inner.evolves {w : BlockSector → Prop} (h : Inner u k c outer) (he : Evolves w s u t u') :
    Inner u' k c outer := by
  intro i hi
  have hr := h i hi
  exact (he.role (by simp [hr])).trans hr

lemma innerOf_of_evolves {w : BlockSector → Prop} (he : Evolves w s u t u') {y : BlockSector}
    (hy : u.role y ≠ .free) (h : innerOf u' k y) : innerOf u k y := by
  obtain ⟨i, hi⟩ := h
  exact ⟨i, (he.role hy).symm.trans hi⟩

def innerTaken (d : ℕ) : ℕ := d + (d + 127) / 128

abbrev innerRoom : ℕ := 16384

structure InnerGrown (k : BlockSector) (s : Filesys) (u : Usage) (inode : InodeData) (d : ℕ) (t : Filesys)
    (u' : Usage) (inode' : InodeData) (outer : IndirectBlock) (e : ℕ) : Prop where
  evolves : Evolves (innerOf u k) s u t u'
  ptrs : inode'.ptrs = inode.ptrs
  inner : Inner u' k (maxSectors + e) outer
  free : t.freeMap.freeCnt + innerTaken e = s.freeMap.freeCnt + innerTaken d

lemma InnerGrown.refl {d : ℕ} (h : Tables s u) (hinner : Inner u k (maxSectors + d) outer) :
    InnerGrown k s u inode d s u inode outer d := ⟨Evolves.refl h, rfl, hinner, rfl⟩

lemma InnerGrown.trans {d d' e : ℕ} {inode' inode'' : InodeData} {outer' : IndirectBlock}
    (h : InnerGrown k s u inode d t u' inode' outer d') (h' : InnerGrown k t u' inode' d' v u'' inode'' outer' e) :
    InnerGrown k s u inode d v u'' inode'' outer' e where
  evolves := h.evolves.trans_of h'.evolves (innerOf_of_evolves h.evolves)
  ptrs := h'.ptrs.trans h.ptrs
  inner := h'.inner
  free := by
    have hfree := h.free
    have hfree' := h'.free
    omega

lemma owner_of_innerOf (hk : k ≠ freeMapSector) (y : BlockSector) (h : innerOf u k y) :
    (u.role y).owner ≠ some freeMapSector := by
  obtain ⟨i, hi⟩ := h
  exact owner_of_isIndexOf hk y ⟨11 + i, hi⟩

lemma innerTaken_add {d m : ℕ} (hm : 0 < m) (hroom : m ≤ 128 - d % 128) :
    innerTaken (d + m) = innerTaken d + (m + if d % 128 = 0 then 1 else 0) := by
  simp only [innerTaken]
  split <;> omega

lemma lvl2_grows {d : ℕ} (h : Tables s u) (hm : MapFile s u) (hc : Counted inode (maxSectors + d)) (hnew : 0 < new)
    (hinner : Inner u k (maxSectors + d) outer)
    (hfree : innerTaken (d + min new (128 - d % 128)) ≤ s.freeMap.freeCnt + innerTaken d) :
    Returns (inodeGrowDoubleIndirectBlockLvl2 freeMapAllocate inode new outer) s fun r t => ∃ u',
      InnerGrown k s u inode d t u' r.1 r.2.2 (d + min new (128 - d % 128)) := by
  obtain ⟨-, hindirect, hdouble⟩ := (counted_iff_double (Nat.le_add_right _ _)).mp hc
  rw [Nat.add_sub_cancel_left] at hindirect hdouble
  have htaken := innerTaken_add (d := d) (m := min new (128 - d % 128)) (by omega) (min_le_right _ _)
  have hptr : decide (d % 128 = 0) = false → u.role (outer (d / 128)) = .index k (11 + d / 128) := by
    intro hz
    refine hinner (d / 128) ?_
    rw [decide_eq_false_iff_not] at hz
    rw [innerCnt, Nat.add_sub_cancel_left]
    omega
  rw [inodeGrowDoubleIndirectBlockLvl2, hindirect, hdouble]
  refine (indexBlock_evolves h hm (fun hz => ?_) hptr).bind ?_
  · rw [decide_eq_true_eq] at hz
    rw [if_pos hz] at htaken
    omega
  rintro ⟨ptr, block⟩ t ⟨u₁, he, hrole, -, -, hcnt⟩
  simp only [decide_eq_true_eq] at hrole hcnt
  simp only [mapAllocIndirect, bind_assoc, pure_bind]
  have hroles : ∀ i, Role.data k (maxSectors + d + i) ≠ .free := by simp
  refine (fillSlots_returns ⟨block, d % 128,
    new⟩ hroles he.tables (he.mapFile h (fun _ => False.elim) hm) (by simp) hnew
    (by simp only [indirectBlockPtrs]; omega)).bind ?_
  rintro slots v ⟨hidx, -, u₂, hf⟩
  simp only [indirectBlockPtrs] at hidx
  have hcount := hf.free
  simp only at hcount
  have hev := he.trans hf.evolves
  have hptr₂ : u₂.role ptr = .index k (11 + d / 128) := (hf.evolves.role (by simp [hrole])).trans hrole
  refine (hf.evolves.tables.blockWrite (hf.evolves.tables.contained (by simp [hptr₂])) _).bind ?_
  rintro _ w ⟨hw, hk, hp⟩
  have hall := (hev.weaken (w := innerOf u k)).write (fun hr => ⟨d / 128, (hev.role hr).symm.trans hptr₂⟩) hw hk hp
  have hinner' : Inner (u₂.set ptr (Block.ofWords block)) k (maxSectors + (d + min new (128 - d % 128)))
      (put outer (d / 128) ptr) := by
    intro i hi
    rw [innerCnt, Nat.add_sub_cancel_left] at hi
    rw [Usage.set_role]
    by_cases hlast : i = d / 128
    · rw [hlast, put_self, hptr₂]
    · rw [put_of_ne _ _ hlast]
      refine hinner.evolves hev i ?_
      rw [innerCnt, Nat.add_sub_cancel_left]
      omega
  have hcnt' :
    w.freeMap.freeCnt + innerTaken (d + min new (128 - d % 128)) = s.freeMap.freeCnt + innerTaken d := by
    rw [hk.freeMap]
    omega
  split
  · exact Returns.pure ⟨_, hall, rfl, hinner', hcnt'⟩
  · exact Returns.pure ⟨_, hall, rfl, hinner', hcnt'⟩

lemma sectorsTaken_double (d : ℕ) :
    sectorsTaken (maxSectors + d) = 1300 + (if 0 < d then 1 else 0) + innerTaken d := by
  rw [sectorsTaken, indexBlocks, innerCnt, Nat.add_sub_cancel_left, indexCnt, innerTaken]
  simp only [maxSectors]
  split <;> split <;> omega

lemma sectorsTaken_mono {e : ℕ} (h : c ≤ e) : sectorsTaken c ≤ sectorsTaken e := by
  have hidx := indexCnt_mono h
  have hle : c ≤ maxSectors → indexCnt c ≤ 10 := indexCnt_le
  rw [sectorsTaken, sectorsTaken, indexBlocks, indexBlocks, innerCnt, innerCnt]
  split <;> split <;> omega

lemma le_indexBlocks (h : maxSectors ≤ c) : 10 ≤ indexBlocks c := by
  rw [indexBlocks, indexCnt]
  simp only [maxSectors] at *
  split <;> omega

lemma innerTaken_mono {d e : ℕ} (h : d ≤ e) : innerTaken d ≤ innerTaken e := by
  simp only [innerTaken]
  omega

lemma growInner_grows {fuel d : ℕ} (h : Tables s u) (hm : MapFile s u) (hk : k ≠ freeMapSector)
    (hc : Counted inode (maxSectors + d)) (hd : d ≤ innerRoom) (hnew : 0 < new)
    (hinner : Inner u k (maxSectors + d) outer) (hfuel : 128 ≤ fuel + d / 128)
    (hfree : innerTaken (d + min new (innerRoom - d)) ≤ s.freeMap.freeCnt + innerTaken d) :
    Returns (growInnerBlocks freeMapAllocate fuel inode new outer) s fun r t => ∃ u',
      InnerGrown k s u inode d t u' r.1 r.2.2 (d + min new (innerRoom - d)) := by
  induction fuel generalizing s u inode d new outer with
  | zero =>
    obtain rfl : d = innerRoom := by
      simp only [innerRoom] at *
      omega
    have hindirect := ((counted_iff_double (Nat.le_add_right _ _)).mp hc).2.1
    rw [Nat.add_sub_cancel_left] at hindirect
    rw [growInnerBlocks, if_neg (by rw [hindirect]; decide), Nat.sub_self, Nat.min_zero]
    exact Returns.pure ⟨u, InnerGrown.refl h hinner⟩
  | succ fuel ih =>
    have hindirect := ((counted_iff_double (Nat.le_add_right _ _)).mp hc).2.1
    rw [Nat.add_sub_cancel_left] at hindirect
    rw [growInnerBlocks]
    by_cases hlt : d < innerRoom
    · rw [if_pos (by simp only [indirectBlockPtrs, innerRoom] at *; omega)]
      have hroom : 128 - d % 128 ≤ innerRoom - d := by
        simp only [innerRoom] at *
        omega
      have hsum := min_add_min_rest new hroom
      have hone := innerTaken_mono (by omega : d + min new (128 - d % 128) ≤ d + min new (innerRoom - d))
      have hlt' : maxSectors + d < capacity := by
        simp only [maxSectors, capacity, innerRoom] at *
        omega
      refine ((lvl2_grows h hm hc hnew hinner (hone.trans hfree)).and_ensures
        (lvl2_counts hc hnew (Nat.le_add_right _ _) hlt' outer)).bind ?_
      rintro ⟨inode', left, outer'⟩ t ⟨⟨u₁, hg⟩, hcounted, hleft⟩
      rw [Nat.add_sub_cancel_left, Nat.add_sub_cancel_left, Nat.add_assoc] at hcounted
      rw [Nat.add_sub_cancel_left, Nat.add_sub_cancel_left] at hleft
      simp only at hg hcounted hleft ⊢
      by_cases hz : left = 0
      · rw [if_pos hz]
        refine Returns.pure ⟨u₁, ?_⟩
        rwa [show d + min new (innerRoom - d) = d + min new (128 - d % 128) by omega]
      · rw [if_neg hz]
        have hrest : d + min new (128 - d % 128) + min left (innerRoom - (d + min new (128 - d % 128))) =
            d + min new (innerRoom - d) := by
          rw [Nat.add_assoc, ← Nat.sub_sub, hleft, hsum]
        have hcount := hg.free
        refine (ih hg.evolves.tables (hg.evolves.mapFile h (owner_of_innerOf hk) hm) hcounted (by omega) (by omega)
          hg.inner (by omega) (by rw [hrest]; omega)).mono ?_
        rintro r v ⟨u₂, hg'⟩
        rw [hrest] at hg'
        exact ⟨u₂, hg.trans hg'⟩
    · obtain rfl : d = innerRoom := by omega
      rw [if_neg (by rw [hindirect]; decide), Nat.sub_self, Nat.min_zero]
      exact Returns.pure ⟨u, InnerGrown.refl h hinner⟩

def InOrder (k : BlockSector) (total : ℕ) (s : Filesys) (inode : InodeData) (c : ℕ) : Prop :=
  ∃ u, Tables s u ∧ MapFile s u ∧ Sized u k inode c ∧ s.freeMap.freeCnt + sectorsTaken c = total

def Fills (k : BlockSector) (grow : InodeData → ℕ → FsM (InodeData × ℕ)) (low top : ℕ) : Prop :=
  ∀ ⦃total s inode c new⦄, InOrder k total s inode c → low ≤ c → 0 < new →
    sectorsTaken (c + min new (top - c)) ≤ total →
    Returns (grow inode new) s fun r t =>
      r.2 = new - min new (top - c) ∧ InOrder k total t r.1 (c + min new (top - c))

lemma Sized.direct (h : Sized u k inode c) (hc : maxSectors ≤ c) : inode.directBlkIdx = 20 :=
  ((counted_iff_double hc).mp h.counted).1

lemma fills_mapAlloc (hk : k ≠ freeMapSector) : Fills k (mapAlloc freeMapAllocate) 0 10 := by
  rintro total s inode c new ⟨u, h, hm, hs, htotal⟩ - hnew hfree
  rcases Nat.lt_or_ge maxSectors c with hbig | hsmall
  · have hroom : 10 - c = 0 := by
      simp only [maxSectors] at hbig
      omega
    rw [hroom, Nat.min_zero, Nat.add_zero]
    exact ⟨_, s, mapAlloc_full _ (by rw [hs.direct hbig.le]; decide) new s, rfl, u, h, hm, hs, htotal⟩
  · obtain ⟨L, rfl, hi, hL⟩ := hs.single hsmall
    have hle : L.cnt + min new (10 - L.cnt) ≤ maxSectors := by
      simp only [maxSectors] at *
      omega
    have hidx := indexCnt_mono (Nat.le_add_right L.cnt (min new (10 - L.cnt)))
    rw [sectorsTaken_of_le hsmall] at htotal
    rw [sectorsTaken_of_le hle] at hfree
    refine ((mapAlloc_returns h hm hL hi hsmall hnew (by simp only [sectorsUsed] at *; omega)).and_ensures
      (mapAlloc_counts hs.counted hnew)).mono ?_
    rintro r t ⟨⟨hleft, u', L', hcnt, hi', hg⟩, hcounts⟩
    have hcount := hg.free
    rw [hcnt] at hcount
    have hs' := Sized.of_layout (hcnt ▸ hle) (hcnt ▸ hcounts.counted) hi' hg.claims
    refine ⟨hleft, u', hg.evolves.tables, hg.evolves.mapFile h (owner_of_isIndexOf hk) hm, hcnt ▸ hs', ?_⟩
    rw [sectorsTaken_of_le hle]
    omega

lemma fills_growIndirectBlocks (hk : k ≠ freeMapSector) :
    Fills k (growIndirectBlocks freeMapAllocate directBlocks) 10 maxSectors := by
  rintro total s inode c new ⟨u, h, hm, hs, htotal⟩ hlow hnew hfree
  rcases Nat.lt_or_ge maxSectors c with hbig | hsmall
  · rw [Nat.sub_eq_zero_of_le hbig.le, Nat.min_zero, Nat.add_zero]
    exact ⟨_, s, growIndirectBlocks_full _ _ (by rw [hs.direct hbig.le]) new s, rfl, u, h, hm, hs, htotal⟩
  · obtain ⟨L, rfl, hi, hL⟩ := hs.single hsmall
    have hle : L.cnt + min new (maxSectors - L.cnt) ≤ maxSectors := by omega
    rw [sectorsTaken_of_le hsmall] at htotal
    rw [sectorsTaken_of_le hle] at hfree
    refine ((growIndirectBlocks_returns h hm hk hL hi hlow hsmall (by simp only [directBlocks]; omega) hnew
      (by omega)).and_ensures (growIndirectBlocks_counts hs.counted hnew hlow)).mono ?_
    rintro r t ⟨⟨hleft, u', L', hcnt, hi', hg⟩, hcounts⟩
    have hcount := hg.free
    rw [hcnt] at hcount
    have hs' := Sized.of_layout (hcnt ▸ hle) (hcnt ▸ hcounts.counted) hi' hg.claims
    refine ⟨hleft, u', hg.evolves.tables, hg.evolves.mapFile h (owner_of_isIndexOf hk) hm, hcnt ▸ hs', ?_⟩
    rw [sectorsTaken_of_le hle]
    omega

lemma fills_double (hk : k ≠ freeMapSector) :
    Fills k (inodeGrowDoubleIndirectBlock freeMapAllocate) maxSectors capacity := by
  rintro total s inode c new ⟨u, h, hm, hs, htotal⟩ hlow hnew hfree
  obtain ⟨d, rfl⟩ := Nat.exists_eq_add_of_le hlow
  obtain ⟨hdirect, hindirect, hdouble⟩ := (counted_iff_double hlow).mp hs.counted
  rw [Nat.add_sub_cancel_left] at hindirect hdouble
  have hcap : capacity = maxSectors + innerRoom := rfl
  have hlarge : 0 < innerRoom := by decide
  have hroom : capacity - (maxSectors + d) = innerRoom - d := by omega
  have hd : d ≤ innerRoom := by
    have hle := hs.le
    omega
  have hpos : 0 < d + min new (innerRoom - d) := by omega
  rw [hroom, Nat.add_assoc, sectorsTaken_double, if_pos hpos] at hfree
  rw [sectorsTaken_double] at htotal
  have hfresh : decide (inode.doubleIndirectBlkIdx = 0 ∧ inode.indirectBlkIdx = 0) = decide (d = 0) :=
    decide_eq_decide.mpr (by omega)
  have hmore : decide (d = 0) = false → maxSectors < maxSectors + d := by
    intro hz
    rw [decide_eq_false_iff_not] at hz
    omega
  rw [inodeGrowDoubleIndirectBlock, hfresh, hdirect]
  refine (indexBlock_evolves h hm (fun hz => ?_) fun hz => hs.role_outer (hmore hz)).bind ?_
  · rw [decide_eq_true_eq] at hz
    have hmono := innerTaken_mono (Nat.le_add_right d (min new (innerRoom - d)))
    rw [if_neg (by omega)] at htotal
    omega
  rintro ⟨ptr, block⟩ t ⟨u₁, he, hrole, -, hread, hcnt⟩
  simp only [decide_eq_true_eq] at hrole hread hcnt ⊢
  have hinner : Inner u₁ k (maxSectors + d) block := by
    by_cases hz : d = 0
    · subst hz
      exact fun i hi => absurd hi (Nat.not_lt_zero i)
    · obtain ⟨-, rfl⟩ := hread (decide_eq_false hz)
      exact (hs.role_inner (hmore (decide_eq_false hz))).evolves he
  have hcounted : Counted { inode with directBlkIdx := 20, ptrs := put inode.ptrs 20 ptr } (maxSectors + d) :=
    ⟨hdirect.symm.trans hs.counted.direct, hs.counted.indirect, hs.counted.double⟩
  have hfree' : innerTaken (d + min new (innerRoom - d)) ≤ t.freeMap.freeCnt + innerTaken d := by
    split at hcnt <;> split at htotal <;> omega
  refine ((growInner_grows he.tables (he.mapFile h (fun _ => False.elim) hm) hk hcounted hd hnew hinner
    (Nat.le_add_right indirectBlockPtrs (d / 128)) hfree').and_ensures
    (growInnerBlocks_counts hcounted hnew hlow block)).bind ?_
  rintro ⟨inode', left, block'⟩ v ⟨⟨u₂, hg⟩, hcounted', hleft⟩
  rw [hroom] at hcounted' hleft ⊢
  have hev : Evolves (isIndexOf u k) s u v u₂ := by
    refine he.weaken.trans_of hg.evolves ?_
    rintro y hy ⟨i, hi⟩
    exact ⟨11 + i, (he.role hy).symm.trans hi⟩
  have hptr : u₂.role ptr = .index k 10 := (hg.evolves.role (by simp [hrole])).trans hrole
  refine (hg.evolves.tables.blockWrite (hg.evolves.tables.contained (by simp [hptr])) (Block.ofWords block')).bind
    ?_
  rintro _ w ⟨hw, hkept, hp⟩
  have hall := hev.write (fun hr => ⟨10, (hev.role hr).symm.trans hptr⟩) hw hkept hp
  have hcount := hg.free
  have hptrs : inode'.ptrs = put inode.ptrs 20 ptr := hg.ptrs
  rw [Nat.add_assoc] at hcounted' ⊢
  refine Returns.pure ⟨hleft, _, hall.tables, hall.mapFile h (owner_of_isIndexOf hk) hm,
    ⟨hcounted', by omega, fun hle => absurd hle (by omega), fun i hi => ?_⟩, ?_⟩
  · rw [Usage.set_role]
    rcases Nat.lt_trichotomy i 10 with hlt | rfl | hgt
    · have hr := hs.indexed i (Nat.lt_of_lt_of_le hlt (le_indexBlocks hlow))
      rw [indexPtr_inode _ _ (by omega)] at hr ⊢
      rw [hptrs, put_of_ne _ _ (by omega)]
      exact (hev.role (by simp [hr])).trans hr
    · rw [indexPtr_inode _ _ (by omega), hptrs, put_self, hptr]
    · obtain ⟨i, rfl⟩ : ∃ i', i = 11 + i' := ⟨i - 11, by omega⟩
      have hi' : i < innerCnt (maxSectors + (d + min new (innerRoom - d))) := by
        rw [indexBlocks, if_neg (by omega)] at hi
        omega
      have hlt : i < 128 := by
        rw [innerCnt, Nat.add_sub_cancel_left] at hi'
        simp only [innerRoom] at *
        omega
      rw [indexPtr_outer, hptrs, put_self, Usage.set_flat_self,
        Block.word_ofWords _ (by simp only [blockSectorSize]; omega)]
      exact hg.inner i hi'
  · rw [sectorsTaken_double, if_pos hpos, hkept.freeMap]
    split at hcnt <;> split at htotal <;> omega

lemma Fills.level {grow : InodeData → ℕ → FsM (InodeData × ℕ)} {low mid top total : ℕ} (hg : Fills k grow low mid)
    (hmid : mid ≤ top) (h : InOrder k total s inode c) (hlow : low ≤ c) (hnew : 0 < new)
    (hfree : sectorsTaken (c + min new (top - c)) ≤ total) : Returns (grow inode new) s fun r t =>
      (r.2 = 0 → 0 = new - min new (top - c) ∧ InOrder k total t r.1 (c + min new (top - c))) ∧
      (r.2 ≠ 0 → ∃ c', mid ≤ c' ∧ InOrder k total t r.1 c' ∧ c' + min r.2 (top - c') = c + min new (top - c) ∧
        r.2 - min r.2 (top - c') = new - min new (top - c)) := by
  have hsum := min_add_min_rest new (Nat.sub_le_sub_right hmid c)
  have hmono := sectorsTaken_mono (by omega : c + min new (mid - c) ≤ c + min new (top - c))
  refine (hg h hlow hnew (hmono.trans hfree)).mono ?_
  rintro ⟨inode', left⟩ t ⟨hleft, ht⟩
  refine ⟨fun hz => ⟨?_, ?_⟩, fun hz => ⟨_, ?_, ht, ?_, ?_⟩⟩
  · simp only at hleft hz
    omega
  · simp only at hleft hz
    rwa [show c + min new (top - c) = c + min new (mid - c) by omega]
  · simp only at hleft hz
    omega
  · simp only at hleft ⊢
    rw [hleft, ← Nat.sub_sub, Nat.add_assoc, hsum]
  · simp only at hleft ⊢
    rw [hleft, ← Nat.sub_sub, Nat.sub_sub new, hsum]

lemma fills_beyondDirect (hk : k ≠ freeMapSector) : Fills k (growBeyondDirect freeMapAllocate) 10 capacity := by
  intro total s inode c new h hlow hnew hfree
  rw [growBeyondDirect]
  refine ((fills_growIndirectBlocks hk).level (by decide) h hlow hnew hfree).bind ?_
  rintro ⟨inode', left⟩ t ⟨hdone, hmore⟩
  simp only at hdone hmore ⊢
  by_cases hz : left = 0
  · rw [if_pos hz]
    obtain ⟨hleft, ht⟩ := hdone hz
    exact Returns.pure ⟨hz.trans hleft, ht⟩
  · obtain ⟨c', hmid, ht, hsum, hleft⟩ := hmore hz
    have hdirect : inode'.directBlkIdx = doubleIndirectIndex := by
      obtain ⟨u, -, -, hs, -⟩ := ht
      exact hs.direct hmid
    rw [if_neg hz, if_pos hdirect, ← hsum, ← hleft]
    exact fills_double hk ht hmid (by omega) (by rwa [hsum])

lemma inodeGrow_inOrder {total : ℕ} (hk : k ≠ freeMapSector) (h : InOrder k total s inode c) {n : ℤ}
    (hnew : sizeT (bytesToSectors n - bytesToSectors inode.length) = new)
    (hfree : sectorsTaken (c + min new (capacity - c)) ≤ total) :
    Returns (inodeGrow freeMapAllocate inode n) s fun r t =>
      InOrder k total t r.2 (c + min new (capacity - c)) := by
  rw [inodeGrow, hnew]
  by_cases hz : new = 0
  · subst hz
    rw [if_pos rfl, Nat.zero_min]
    exact Returns.pure h
  rw [if_neg hz]
  refine ((fills_mapAlloc hk).level (by decide) h (Nat.zero_le _) (by omega) hfree).bind ?_
  rintro ⟨inode', left⟩ t ⟨hdone, hmore⟩
  simp only at hdone hmore ⊢
  by_cases hz' : left = 0
  · rw [if_pos hz']
    exact Returns.pure (hdone hz').2
  · obtain ⟨c', hmid, ht, hsum, -⟩ := hmore hz'
    rw [if_neg hz', ← hsum]
    refine (fills_beyondDirect hk ht hmid (by omega) (by rwa [hsum])).bind ?_
    rintro ⟨inode'', left'⟩ v ⟨-, hv⟩
    exact Returns.pure hv

end CourseArchive.PintOS.Filesys
