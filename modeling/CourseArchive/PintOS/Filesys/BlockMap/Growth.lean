import CourseArchive.PintOS.Filesys.BlockMap.Allocation

/-! Growth of an inode through its direct and its single-indirect pointers. -/

namespace CourseArchive.PintOS.Filesys

open Lib Function CachedDisk

def Usage.assign (u : Usage) (x : BlockSector) (r : Role) : Usage := { u with role := update u.role x r }

@[simp] lemma Usage.assign_role_self (u : Usage) (x : BlockSector) (r : Role) : (u.assign x r).role x = r := by
  simp [assign]

lemma Usage.assign_role_of_ne (u : Usage) {x y : BlockSector} (r : Role) (h : y ≠ x) :
    (u.assign x r).role y = u.role y := by
  simp [assign, h]

def Usage.Loose (u : Usage) (w : BlockSector → Prop) (x : BlockSector) : Prop :=
  u.role x = .free ∨ (u.role x).owner = some freeMapSector ∨ w x

/-- What was in use stays in use for the same, and keeps its bytes unless `w` allows them to change. -/
structure Evolves (w : BlockSector → Prop) (s : Filesys) (u : Usage) (t : Filesys) (u' : Usage) : Prop where
  tables : Tables t u'
  keeps : Keeps s t
  role : ∀ {y}, u.role y ≠ .free → u'.role y = u.role y
  flat : ∀ {y}, u.role y ≠ .free → ¬ w y → u'.flat y = u.flat y
  disk : Preserves (u.Loose w) s.disk t.disk

def untouched (_ : BlockSector) : Prop := False

def isIndexOf (u : Usage) (k y : BlockSector) : Prop := ∃ j, u.role y = .index k j

def sectorsUsed (n : ℕ) : ℕ := n + indexCnt n

variable {s t v : Filesys} {u u' u'' : Usage} {x k : BlockSector} {L L' L'' : Layout} {w : BlockSector → Prop}

namespace Evolves

lemma refl (h : Tables s u) : Evolves w s u s u :=
  ⟨h, Keeps.refl s, fun _ => rfl, fun _ _ => rfl, Preserves.refl s.disk⟩

lemma loose {w' : BlockSector → Prop} (h : Evolves w s u t u') (hw : ∀ {y}, u.role y ≠ .free → w' y → w y)
    (y : BlockSector) (hy : u'.Loose w' y) : u.Loose w y := by
  by_cases hr : u.role y = .free
  · exact Or.inl hr
  · rw [Usage.Loose, h.role hr] at hy
    exact hy.imp_right (Or.imp_right (hw hr))

lemma trans_of {w' : BlockSector → Prop} (h : Evolves w s u t u') (h' : Evolves w' t u' v u'')
    (hw : ∀ {y}, u.role y ≠ .free → w' y → w y) : Evolves w s u v u'' where
  tables := h'.tables
  keeps := h.keeps.trans h'.keeps
  role hy := (h'.role (by rwa [h.role hy])).trans (h.role hy)
  flat hy hnot := (h'.flat (by rwa [h.role hy]) (mt (hw hy) hnot)).trans (h.flat hy hnot)
  disk := h.disk.trans (h'.disk.mono (h.loose hw))

lemma trans (h : Evolves w s u t u') (h' : Evolves w t u' v u'') : Evolves w s u v u'' := h.trans_of h' fun _ => id

lemma write (h : Evolves w s u t u') {y : BlockSector} {b : Sector} (hw : u.role y ≠ .free → w y)
    (ht : Tables v (u'.set y b)) (hk : KeepsMap t v) (hp : Preserves (· = y) t.disk v.disk) :
    Evolves w s u v (u'.set y b) := by
  refine ⟨ht, h.keeps.trans hk.toKeeps, h.role, fun {x} hx hnot => ?_, h.disk.trans (hp.mono ?_)⟩
  · have hne : x ≠ y := by
      rintro rfl
      exact hnot (hw hx)
    rw [Usage.set_flat_of_ne _ _ hne, h.flat hx hnot]
  · rintro x rfl
    exact or_iff_not_imp_left.mpr fun hx => Or.inr (hw hx)

lemma weaken (h : Evolves untouched s u t u') : Evolves w s u t u' :=
  ⟨h.tables, h.keeps, h.role, fun hy _ => h.flat hy id, h.disk.mono fun _ =>
    Or.imp_right (Or.imp_right False.elim)⟩

lemma mapFile (h : Evolves w s u t u') (hs : Tables s u) (hw : ∀ y, w y → (u.role y).owner ≠ some freeMapSector)
    (hm : MapFile s u) : MapFile t u' := by
  refine hm.frame h.keeps (hs.bitCnt_eq h.tables h.keeps) fun y hy => ?_
  have hr : u.role y ≠ .free := by
    intro hr
    rw [hr] at hy
    cases hy
  exact ⟨h.role hr, h.flat hr fun hwy => hw y hwy hy⟩

end Evolves

lemma owner_of_isIndexOf (hk : k ≠ freeMapSector) (y : BlockSector) (h : isIndexOf u k y) :
    (u.role y).owner ≠ some freeMapSector := by
  obtain ⟨j, hj⟩ := h
  rw [hj]
  exact fun he => hk (Option.some_injective _ he)

lemma Tables.assign (h : Tables s u) (hx : u.role x = .free) (hb : s.freeMap.bits x.toNat = true)
    (hc : s.disk.device.Contains x) (r : Role) : Tables s (u.assign x r) := by
  have hraw : ∀ {y}, ((u.assign x r).role y).Raw → (u.role y).Raw := by
    intro y hy
    by_cases he : y = x
    · rw [he, hx]
      exact Role.raw_free
    · rwa [u.assign_role_of_ne r he] at hy
  refine ⟨h.usable, fun hy => h.plain (hraw hy), fun hy => h.raw (hraw hy), fun {y} hy => ?_, h.size⟩
  by_cases he : y = x
  · rw [he]
    exact ⟨hb, hc⟩
  · rw [u.assign_role_of_ne r he] at hy
    exact h.marked hy

lemma allocateInto_returns (h : Tables s u) (hm : MapFile s u) (hf : 0 < s.freeMap.freeCnt) (slot : BlockSector)
    (r : Role) : Returns (allocateInto freeMapAllocate slot) s fun x t =>
      Evolves untouched s u t (u.assign x r) ∧ u.role x = .free ∧ AllocatedSince s t x ∧
      t.freeMap.freeCnt + 1 = s.freeMap.freeCnt := by
  refine (h.freeMapAllocate hm hf).bind ?_
  rintro _ t ⟨x, rfl, ha, ht, hp⟩
  have hx := h.unmarked ha.free
  have hlt : x.toNat < s.freeMap.bitCnt := by
    rw [h.size]
    exact UInt32.lt_iff_toNat_lt.mp ha.contained
  refine Returns.pure ⟨⟨ht.assign hx ?_ ?_ r, ha.keeps, ?_, fun _ _ => rfl, hp.mono fun _ => Or.inr ∘ Or.inl⟩, hx,
    ha.logged, ?_⟩
  · rw [ha.freeMap, Bitmap.bits_setMultiple_one, if_pos rfl]
  · rw [Device.Contains, ha.keeps.size]
    exact ha.contained
  · intro y hy
    refine u.assign_role_of_ne r ?_
    rintro rfl
    exact hy hx
  · rw [ha.freeMap]
    exact Bitmap.freeCnt_setMultiple hlt ha.free

/-! The loop over the slots of one table. -/

structure Filled (s : Filesys) (u : Usage) (slots : Slots) (r : ℕ → Role) (t : Filesys) (u' : Usage)
    (slots' : Slots) : Prop where
  evolves : Evolves untouched s u t u'
  filled : ∀ i, slots.index ≤ i → i < slots'.index →
    u'.role (slots'.ptrs i) = r i ∧ AllocatedSince s t (slots'.ptrs i)
  others : ∀ i, ¬ (slots.index ≤ i ∧ i < slots'.index) → slots'.ptrs i = slots.ptrs i
  free : t.freeMap.freeCnt + (slots'.index - slots.index) = s.freeMap.freeCnt

lemma Filled.refl (h : Tables s u) (slots : Slots) (r : ℕ → Role) : Filled s u slots r s u slots :=
  ⟨Evolves.refl h, fun _ h₁ h₂ => absurd h₂ (Nat.not_lt.mpr h₁), fun _ _ => rfl, by simp⟩

lemma fillSlots_returns {limit fuel : ℕ} (slots : Slots) {r : ℕ → Role} (hr : ∀ i, r i ≠ .free) (h : Tables s u)
    (hm : MapFile s u) (hfuel : limit ≤ fuel + slots.index) (hnew : 0 < slots.newSectors)
    (hfree : min slots.newSectors (limit - slots.index) ≤ s.freeMap.freeCnt) :
    Returns (fillSlots freeMapAllocate limit fuel slots) s fun slots' t =>
      slots'.index = slots.index + min slots.newSectors (limit - slots.index) ∧
      slots'.newSectors = slots.newSectors - min slots.newSectors (limit - slots.index) ∧
      ∃ u', Filled s u slots r t u' slots' := by
  induction fuel generalizing s u slots with
  | zero => exact Returns.pure ⟨by omega, by omega, u, Filled.refl h slots r⟩
  | succ fuel ih =>
    rw [fillSlots]
    by_cases hlt : slots.index < limit
    · rw [if_pos hlt]
      refine (allocateInto_returns h hm (by omega) (slots.ptrs slots.index) (r slots.index)).bind ?_
      rintro x t ⟨he, hx, hlog, hcnt⟩
      have hrole := u.assign_role_self x (r slots.index)
      refine (he.tables.blockWrite (he.tables.contained (by rw [hrole]; exact hr _)) zeros).bind ?_
      rintro _ v ⟨hv, hk, hp⟩
      have hev := he.write (fun hr => hr hx) hv hk hp
      have hcnt' : v.freeMap.freeCnt + 1 = s.freeMap.freeCnt := by rw [hk.freeMap, hcnt]
      have hone : Filled s u slots r v ((u.assign x (r slots.index)).set x zeros)
          ⟨put slots.ptrs slots.index x, slots.index + 1, slots.newSectors - 1⟩ := by
        refine ⟨hev, fun i h₁ h₂ => ?_, fun i hi => put_of_ne _ _ (by simp at hi; omega), by simp [hcnt']⟩
        obtain rfl : i = slots.index := by simp at h₂; omega
        simp only [put_self]
        exact ⟨hrole, hlog.later hk.toKeeps⟩
      rw [if_neg (by omega)]
      by_cases hone' : slots.newSectors - 1 = 0
      · rw [if_pos hone']
        exact Returns.pure ⟨by simp; omega, by simp; omega, _, hone⟩
      · rw [if_neg hone']
        refine (ih _ hv (hev.mapFile h (fun _ => False.elim) hm) (by simp; omega) (by simp; omega)
          (by simp; omega)).mono ?_
        rintro slots' z ⟨hi, hn, u', hz⟩
        simp only at hi hn
        refine ⟨by omega, by omega, u', hone.evolves.trans hz.evolves, ?_, ?_, ?_⟩
        · intro i h₁ h₂
          by_cases he : i = slots.index
          · subst he
            have hkept := hz.others slots.index (by simp)
            simp only [put_self] at hkept
            rw [hkept]
            refine ⟨(hz.evolves.role ?_).trans hrole, (hlog.later hk.toKeeps).later hz.evolves.keeps⟩
            rw [Usage.set_role, hrole]
            exact hr _
          · obtain ⟨h₃, h₄⟩ := hz.filled i (by simp; omega) h₂
            exact ⟨h₃, h₄.earlier hev.keeps⟩
        · intro i hi
          rw [hz.others i (by simp only; omega)]
          exact put_of_ne _ _ (by omega)
        · have hzf := hz.free
          simp only at hzf
          omega
    · rw [if_neg hlt]
      exact Returns.pure ⟨by omega, by omega, u, Filled.refl h slots r⟩

/-! One more table of an inode. -/

structure Grown (k : BlockSector) (s : Filesys) (u : Usage) (L : Layout) (t : Filesys) (u' : Usage) (L' : Layout) :
    Prop where
  evolves : Evolves (isIndexOf u k) s u t u'
  claims : Claims u' k L'
  cnt : L.cnt ≤ L'.cnt
  data : ∀ {i}, i < L.cnt → L'.data i = L.data i
  fresh : ∀ {i}, L.cnt ≤ i → i < L'.cnt → AllocatedSince s t (L'.data i)
  free : t.freeMap.freeCnt + sectorsUsed L'.cnt = s.freeMap.freeCnt + sectorsUsed L.cnt

namespace Grown

lemma refl (h : Tables s u) (hL : Claims u k L) : Grown k s u L s u L :=
  ⟨Evolves.refl h, hL, le_rfl, fun _ => rfl, fun h₁ h₂ => absurd h₂ (Nat.not_lt.mpr h₁), rfl⟩

lemma isIndexOf_iff (h : Grown k s u L t u' L') {y : BlockSector} (hy : u.role y ≠ .free) :
    isIndexOf u' k y ↔ isIndexOf u k y := by
  rw [isIndexOf, isIndexOf, h.evolves.role hy]

lemma trans (h : Grown k s u L t u' L') (h' : Grown k t u' L' v u'' L'') : Grown k s u L v u'' L'' where
  evolves := h.evolves.trans_of h'.evolves fun hy => (h.isIndexOf_iff hy).mp
  claims := h'.claims
  cnt := h.cnt.trans h'.cnt
  data hi := (h'.data (hi.trans_le h.cnt)).trans (h.data hi)
  fresh {i} h₁ h₂ := by
    by_cases hi : i < L'.cnt
    · rw [h'.data hi]
      exact (h.fresh h₁ hi).later h'.evolves.keeps
    · exact (h'.fresh (Nat.le_of_not_lt hi) h₂).earlier h.evolves.keeps
  free := by
    have h₁ := h.free
    have h₂ := h'.free
    omega

end Grown

lemma indexCnt_of_le {n : ℕ} (h : n ≤ 10) : indexCnt n = 0 := by
  simp only [indexCnt]
  omega

lemma mapAlloc_full (alloc : Allocator) {inode : InodeData} (hd : 10 ≤ inode.directBlkIdx) (new : ℕ)
    (s : Filesys) :
    mapAlloc alloc inode new s = .ok ((inode, new), s) := by
  rw [mapAlloc, fillSlots, if_neg (by simpa using hd)]
  rfl

lemma growIndirectBlocks_full (alloc : Allocator) (fuel : ℕ) {inode : InodeData} (hd : 20 ≤ inode.directBlkIdx)
    (new : ℕ) (s : Filesys) : growIndirectBlocks alloc fuel inode new s = .ok ((inode, new), s) := by
  have hge : ¬ inode.directBlkIdx < doubleIndirectIndex := Nat.not_lt.mpr hd
  cases fuel with
  | zero =>
    rw [growIndirectBlocks, if_neg hge]
    rfl
  | succ fuel =>
    rw [growIndirectBlocks, if_neg hge]
    rfl

lemma mapAlloc_returns (h : Tables s u) (hm : MapFile s u) (hL : Claims u k L) {inode : InodeData}
    (hi : Mapped inode L) (hc : L.cnt ≤ maxSectors) {new : ℕ} (hnew : 0 < new)
    (hfree : min new (10 - L.cnt) ≤ s.freeMap.freeCnt) :
    Returns (mapAlloc freeMapAllocate inode new) s fun r t => r.2 = new - min new (10 - L.cnt) ∧
      ∃ u' L', L'.cnt = L.cnt + min new (10 - L.cnt) ∧ Mapped r.1 L' ∧ Grown k s u L t u' L' := by
  have hdirect := hi.direct
  simp only [maxSectors] at hc
  by_cases hlt : L.cnt < 10
  · have hcnt : inode.directBlkIdx = L.cnt := by omega
    have hroles : ∀ i, Role.data k i ≠ .free := by simp
    refine (fillSlots_returns ⟨inode.ptrs, inode.directBlkIdx,
      new⟩ hroles h hm (by simp) hnew (by simp only [directBlocks, hcnt]; exact hfree)).bind ?_
    rintro slots t ⟨hidx, hns, u', hf⟩
    simp only [directBlocks, hcnt] at hidx hns
    have hfilled := hf.filled
    have hothers := hf.others
    have hcount := hf.free
    simp only [hcnt] at hfilled hothers hcount
    have hrole : ∀ i < slots.index, u'.role (slots.ptrs i) = .data k i := by
      intro i hlt'
      by_cases hold : i < L.cnt
      · rw [hothers i (by omega), hi.ptrs_data (by omega) hold]
        exact (hf.evolves.role (by simp [hL.data hold])).trans (hL.data hold)
      · exact (hfilled i (by omega) hlt').1
    refine Returns.pure ⟨hns, u', ⟨slots.index, slots.ptrs, L.index⟩, hidx, ⟨?_, ?_, hi.double, ?_, ?_⟩,
      hf.evolves.weaken, ⟨fun hlt' => hrole _ hlt', ?_, ?_⟩, ?_, ?_, ?_, ?_⟩
    · simp only
      omega
    · have hind := hi.indirect
      simp only
      omega
    · exact fun _ _ => rfl
    · intro j hj
      simp only at hj
      omega
    · intro j hj
      rw [indexCnt_of_le (by simp only; omega)] at hj
      omega
    · intro j w _ hj
      simp only at hj
      omega
    · simp only
      omega
    · intro i hold
      simp only
      rw [hothers i (by omega), hi.ptrs_data (by omega) hold]
    · exact fun h₁ h₂ => (hfilled _ h₁ h₂).2
    · simp only [sectorsUsed]
      rw [indexCnt_of_le (by omega), indexCnt_of_le (by omega)]
      omega
  · exact ⟨_, s, mapAlloc_full _ (by omega) new s, by simp only; omega, u, L, by omega, hi, Grown.refl h hL⟩

lemma KeepsMap.evolves (h : KeepsMap s t) (ht : Tables t u) (hd : t.disk = s.disk) : Evolves w s u t u :=
  ⟨ht, h.toKeeps, fun _ => rfl, fun _ _ => rfl, hd ▸ Preserves.refl t.disk⟩

lemma indexBlock_evolves (h : Tables s u) (hm : MapFile s u) {fresh : Bool} {ptr : BlockSector} {j : ℕ}
    (hfree : fresh = true → 0 < s.freeMap.freeCnt) (hptr : fresh = false → u.role ptr = .index k j) :
    Returns (indexBlock freeMapAllocate fresh ptr) s fun r t => ∃ u', Evolves untouched s u t u' ∧
      u'.role r.1 = .index k j ∧ (fresh = true → u.role r.1 = .free) ∧
      (fresh = false → r.1 = ptr ∧ r.2 = (u.flat ptr).word) ∧
      t.freeMap.freeCnt + (if fresh then 1 else 0) = s.freeMap.freeCnt := by
  refine (uninitialised_returns s).bind ?_
  rintro garbage t ⟨-, rfl⟩
  have hk := KeepsMap.consume s
  have hev : Evolves untouched s u _ u := hk.evolves h.consume rfl
  cases fresh with
  | true =>
    simp only [if_true]
    refine (allocateInto_returns h.consume (hev.mapFile h (fun _ => False.elim) hm) (hfree rfl) _
      (.index k j)).bind ?_
    rintro y v ⟨he, hy, -, hcnt⟩
    exact Returns.pure ⟨_, hev.trans he, u.assign_role_self y _, fun _ => hy, nofun, hcnt⟩
  | false =>
    have hrole := hptr rfl
    simp only [Bool.false_eq_true, if_false]
    refine (h.consume.blockRead (by rw [hrole]; exact Role.raw_index k j) (h.contained (by simp [hrole]))).bind ?_
    rintro b v ⟨rfl, hv, hk', hd⟩
    exact Returns.pure ⟨u, (hk.trans hk').evolves hv hd, hrole, nofun,
      fun _ => ⟨rfl, rfl⟩, by rw [hk'.freeMap]; rfl⟩

lemma indexBlock_returns (h : Tables s u) (hm : MapFile s u) (hL : Claims u k L) {inode : InodeData}
    (hi : Mapped inode L) {j w : ℕ} (hw : w < 128) (hc : L.cnt = 10 + 128 * j + w)
    (hfree : w = 0 → 0 < s.freeMap.freeCnt) :
    Returns (indexBlock freeMapAllocate (w = 0) (inode.ptrs (10 + j))) s fun r t =>
      ∃ u', Evolves untouched s u t u' ∧ u'.role r.1 = .index k j ∧ (w ≠ 0 → r.1 = L.index j) ∧
        (∀ i < w, r.2 i = L.data (10 + 128 * j + i)) ∧
        t.freeMap.freeCnt + (if w = 0 then 1 else 0) = s.freeMap.freeCnt := by
  have hold : w ≠ 0 → inode.ptrs (10 + j) = L.index j ∧ u.role (L.index j) = .index k j := fun hz =>
    ⟨hi.ptrs_index (by omega), hL.index (lt_indexCnt.mpr (by omega))⟩
  have hptr : decide (w = 0) = false → u.role (inode.ptrs (10 + j)) = .index k j := by
    intro hz
    obtain ⟨hptr, hrole⟩ := hold (by simpa using hz)
    rw [hptr, hrole]
  refine (indexBlock_evolves h hm (by simpa using hfree) hptr).mono ?_
  rintro r t ⟨u', he, hrole, -, hread, hcnt⟩
  refine ⟨u', he, hrole, fun hz => ?_, fun i hlt => ?_, by simpa using hcnt⟩
  · rw [(hread (by simpa using hz)).1, (hold hz).1]
  · have hz : w ≠ 0 := Nat.ne_zero_of_lt hlt
    rw [(hread (by simpa using hz)).2, (hold hz).1]
    exact hL.indexed j i (by omega) (by omega)

def Layout.extend (L : Layout) (j : ℕ) (y : BlockSector) (ptrs : ℕ → BlockSector) (n : ℕ) : Layout where
  cnt := n
  data i := if i < L.cnt then L.data i else ptrs (i - (10 + 128 * j))
  index := update L.index j y

section Extend

variable {ptrs : ℕ → BlockSector} {y : BlockSector} {j w e : ℕ}

lemma Layout.extend_data_old {n i : ℕ} (h : i < L.cnt) : (L.extend j y ptrs n).data i = L.data i := if_pos h

lemma Layout.extend_data {n i : ℕ} (hc : L.cnt = 10 + 128 * j + w)
    (hold : ∀ i < w, ptrs i = L.data (10 + 128 * j + i)) :
    (L.extend j y ptrs n).data (10 + 128 * j + i) = ptrs i := by
  simp only [extend]
  split
  · exact (hold i (by omega)).symm
  · rw [Nat.add_sub_cancel_left]

lemma Claims.extend (hL : Claims u k L) (hc : L.cnt = 10 + 128 * j + w) (he : e ≤ 128)
    (hev : Evolves untouched s u t u') (hy : u'.role y = .index k j)
    (hold : ∀ i < w, ptrs i = L.data (10 + 128 * j + i))
    (hnew : ∀ i, w ≤ i → i < e → u'.role (ptrs i) = .data k (10 + 128 * j + i)) :
    Claims (u'.set y (Block.ofWords ptrs)) k (L.extend j y ptrs (10 + 128 * j + e)) := by
  have hdata : ∀ {i}, i < L.cnt → u'.role (L.data i) = .data k i := by
    intro i hi
    exact (hev.role (by simp [hL.data hi])).trans (hL.data hi)
  have hindex : ∀ {j'}, j' < j → u'.role (L.index j') = .index k j' := by
    intro j' hj'
    have hr := hL.index (lt_indexCnt.mpr (by omega : 10 + 128 * j' < L.cnt))
    exact (hev.role (by simp [hr])).trans hr
  refine ⟨fun {i} hi => ?_, fun {j'} hj' => ?_, fun j' w' hw' hlt => ?_⟩
  · by_cases hlt : i < L.cnt
    · rw [Layout.extend_data_old hlt, Usage.set_role, hdata hlt]
    · obtain ⟨d, rfl⟩ : ∃ d, i = 10 + 128 * j + d := ⟨i - (10 + 128 * j), by omega⟩
      simp only [Layout.extend] at hi
      rw [Layout.extend_data hc hold, Usage.set_role]
      exact hnew d (by omega) (by omega)
  · have hle : j' ≤ j := by
      have hlt := lt_indexCnt.mp hj'
      simp only [Layout.extend] at hlt
      omega
    rcases Nat.eq_or_lt_of_le hle with rfl | hlt
    · simpa [Layout.extend] using hy
    · simpa [Layout.extend, hlt.ne] using hindex hlt
  · simp only [Layout.extend] at hlt
    by_cases hj' : j' = j
    · subst hj'
      rw [Layout.extend_data hc hold]
      simp only [Layout.extend, update_self, Usage.set_flat_self]
      exact Block.word_ofWords _ (by simp only [blockSectorSize]; omega)
    · have hlt' : j' < j := by omega
      have hne : L.index j' ≠ y := by
        rintro rfl
        have hr := hindex hlt'
        rw [hy] at hr
        exact hj' (by cases hr; rfl)
      have hr := hL.index (lt_indexCnt.mpr (by omega : 10 + 128 * j' < L.cnt))
      rw [Layout.extend_data_old (by omega)]
      simp only [Layout.extend, update_of_ne hj']
      rw [Usage.set_flat_of_ne _ _ hne, hev.flat (by simp [hr]) id]
      exact hL.indexed j' w' hw' (by omega)

lemma sectorsUsed_extend (hw : w < 128) (hwe : w < e) (he : e ≤ 128) :
    sectorsUsed (10 + 128 * j + e) =
      sectorsUsed (10 + 128 * j + w) + (e - w) + (if w = 0 then 1 else 0) := by
  simp only [sectorsUsed, indexCnt]
  split <;> omega

end Extend

lemma inodeGrowIndirectBlock_returns (h : Tables s u) (hm : MapFile s u) (hL : Claims u k L) {inode : InodeData}
    (hi : Mapped inode L) {j w : ℕ} (hw : w < 128) (hc : L.cnt = 10 + 128 * j + w) {new : ℕ} (hnew : 0 < new)
    (hfree : min new (128 - w) + (if w = 0 then 1 else 0) ≤ s.freeMap.freeCnt) :
    Returns (inodeGrowIndirectBlock freeMapAllocate inode new) s fun r t => r.2 = new - min new (128 - w) ∧
      ∃ u' L', L'.cnt = L.cnt + min new (128 - w) ∧ Mapped r.1 L' ∧ Grown k s u L t u' L' := by
  have hdirect : inode.directBlkIdx = 10 + j := by
    have hd := hi.direct
    omega
  have hindirect : inode.indirectBlkIdx = w := by
    have hd := hi.indirect
    omega
  rw [inodeGrowIndirectBlock, hdirect, hindirect]
  refine (indexBlock_returns h hm hL hi hw hc (by rintro rfl; omega)).bind ?_
  rintro ⟨y, block⟩ t ⟨u₁, he, hy, hold, hblock, hcnt⟩
  simp only at hy hold hblock
  have hroles : ∀ i, Role.data k (10 + 128 * j + i) ≠ .free := by simp
  refine (fillSlots_returns ⟨block, w, new⟩ hroles he.tables (he.mapFile h (fun _ => False.elim) hm) (by simp) hnew
    (by simp only [indirectBlockPtrs]; omega)).bind ?_
  rintro slots v ⟨hidx, hns, u₂, hf⟩
  simp only [indirectBlockPtrs] at hidx hns
  have hfilled := hf.filled
  have hothers := hf.others
  have hcount := hf.free
  simp only at hfilled hothers hcount
  have hy₂ : u₂.role y = .index k j := (hf.evolves.role (by simp [hy])).trans hy
  have hev := he.trans hf.evolves
  refine (hf.evolves.tables.blockWrite (hf.evolves.tables.contained (by simp [hy₂]))
    (Block.ofWords slots.ptrs)).bind ?_
  rintro _ z ⟨hz, hk, hp⟩
  obtain ⟨e, hidx⟩ : ∃ e, slots.index = e := ⟨_, rfl⟩
  have hold' : ∀ i < w, slots.ptrs i = L.data (10 + 128 * j + i) := by
    intro i hlt
    rw [hothers i (by omega), hblock i hlt]
  have hkind : u.role y ≠ .free → isIndexOf u k y := fun hr => ⟨j, (hev.role hr).symm.trans hy₂⟩
  have hgrown :
    Grown k s u L z (u₂.set y (Block.ofWords slots.ptrs)) (L.extend j y slots.ptrs (10 + 128 * j + e)) := by
    refine ⟨hev.weaken.write hkind hz hk hp,
      hL.extend hc (by omega) hev hy₂ hold' fun i h₁ h₂ => (hfilled i h₁ (by omega)).1, by
      simp only [Layout.extend]; omega,
      Layout.extend_data_old, fun {i} h₁ h₂ => ?_, ?_⟩
    · obtain ⟨d, rfl⟩ : ∃ d, i = 10 + 128 * j + d := ⟨i - (10 + 128 * j), by omega⟩
      simp only [Layout.extend] at h₂
      rw [Layout.extend_data hc hold']
      exact ((hfilled d (by omega) (by omega)).2.earlier he.keeps).later hk.toKeeps
    · simp only [Layout.extend]
      rw [hk.freeMap, sectorsUsed_extend hw (by omega) (by omega), hc]
      omega
  have hptrs : ∀ {i}, i < 10 → i < 10 + 128 * j + e → put inode.ptrs (10 + j) y i =
      (L.extend j y slots.ptrs (10 + 128 * j + e)).data i := by
    intro i h₁ h₂
    rw [put_of_ne _ _ (by omega), Layout.extend_data_old (by omega), hi.ptrs_data h₁ (by omega)]
  have hindex : ∀ {j'}, 10 + 128 * j' < 10 + 128 * j + e → put inode.ptrs (10 + j) y (10 + j') =
      (L.extend j y slots.ptrs (10 + 128 * j + e)).index j' := by
    intro j' hlt
    by_cases hj' : j' = j
    · simp [hj', Layout.extend]
    · simp only [Layout.extend, update_of_ne hj']
      rw [put_of_ne _ _ (by omega), hi.ptrs_index (by omega)]
  by_cases hfull : slots.index = 128
  · rw [if_pos hfull]
    refine Returns.pure ⟨hns, _,
      _, by simp only [Layout.extend]; omega, ⟨?_, ?_, hi.double, hptrs, hindex⟩, hgrown⟩
    · simp only [Layout.extend]
      omega
    · simp only [Layout.extend]
      omega
  · rw [if_neg hfull]
    refine Returns.pure ⟨hns, _,
      _, by simp only [Layout.extend]; omega, ⟨?_, ?_, hi.double, hptrs, hindex⟩, hgrown⟩
    · simp only [Layout.extend]
      omega
    · simp only [Layout.extend]
      omega

lemma sectorsUsed_mono {m n : ℕ} (h : m ≤ n) : sectorsUsed m ≤ sectorsUsed n :=
  Nat.add_le_add h (indexCnt_mono h)

lemma min_add_min_rest (new : ℕ) {room total : ℕ} (h : room ≤ total) :
    min new room + min (new - min new room) (total - min new room) = min new total := by
  -- what a block of `room` entries takes first, and the following blocks then, is what all of them would take
  rcases le_total new room with hle | hle
  · rw [min_eq_left hle, Nat.sub_self, Nat.zero_min, Nat.add_zero, min_eq_left (hle.trans h)]
  · rw [min_eq_right hle, Nat.sub_min_sub_right, Nat.add_sub_cancel' (le_min hle h)]

lemma growIndirectBlocks_returns {fuel : ℕ} (h : Tables s u) (hm : MapFile s u) (hk : k ≠ freeMapSector)
    (hL : Claims u k L) {inode : InodeData} (hi : Mapped inode L) (hc : 10 ≤ L.cnt) (hc' : L.cnt ≤ maxSectors)
    (hfuel : 10 ≤ fuel + (L.cnt - 10) / 128) {new : ℕ} (hnew : 0 < new)
    (hfree : sectorsUsed (L.cnt + min new (maxSectors - L.cnt)) ≤ s.freeMap.freeCnt + sectorsUsed L.cnt) :
    Returns (growIndirectBlocks freeMapAllocate fuel inode new) s fun r t =>
      r.2 = new - min new (maxSectors - L.cnt) ∧
      ∃ u' L', L'.cnt = L.cnt + min new (maxSectors - L.cnt) ∧ Mapped r.1 L' ∧ Grown k s u L t u' L' := by
  have hdirect := hi.direct
  simp only [maxSectors] at hc' hfree ⊢
  induction fuel generalizing s u L inode new with
  | zero =>
    exact ⟨_, s,
      growIndirectBlocks_full _ _ (by omega) new s, by simp only; omega, u, L, by omega, hi, Grown.refl h hL⟩
  | succ fuel ih =>
    by_cases hlt : L.cnt < 1290
    · obtain ⟨j, w, hw, hj, hcnt⟩ : ∃ j w, w < 128 ∧ j < 10 ∧ L.cnt = 10 + 128 * j + w :=
        ⟨(L.cnt - 10) / 128, (L.cnt - 10) % 128, Nat.mod_lt _ (by decide), by omega, by omega⟩
      rw [growIndirectBlocks, if_pos (by simp only [doubleIndirectIndex]; omega)]
      have hroom : 128 - w ≤ 1290 - L.cnt := by omega
      have hblock := sectorsUsed_extend (j := j) hw (by omega : w < w + min new (128 - w)) (by omega)
      have hmono := sectorsUsed_mono (by omega :
        10 + 128 * j + (w + min new (128 - w)) ≤ L.cnt + min new (1290 - L.cnt))
      rw [← hcnt] at hblock
      refine (inodeGrowIndirectBlock_returns h hm hL hi hw hcnt hnew (by omega)).bind ?_
      rintro ⟨inode', new'⟩ t ⟨rfl, u', L', hcnt', hi', hg⟩
      simp only at hi' ⊢
      by_cases hz : new - min new (128 - w) = 0
      · rw [if_pos hz]
        exact Returns.pure ⟨by simp only; omega, u', L', by omega, hi', hg⟩
      · rw [if_neg hz]
        have htaken :
          min new (128 - w) + min (new - min new (128 - w)) (1290 - L'.cnt) = min new (1290 - L.cnt) := by
          rw [hcnt', ← Nat.sub_sub, min_add_min_rest new hroom]
        have hsum : L'.cnt + min (new - min new (128 - w)) (1290 - L'.cnt) = L.cnt + min new (1290 - L.cnt) := by
          rw [← htaken, hcnt', Nat.add_assoc]
        have hcount := hg.free
        refine (ih hg.evolves.tables (hg.evolves.mapFile h (owner_of_isIndexOf hk) hm) hg.claims hi' (by omega)
          (by omega) (by omega) (by omega) (by rw [hsum]; omega) hi'.direct).mono ?_
        rintro r v ⟨hr, u'', L'', hcnt'', hi'', hg'⟩
        exact ⟨by rw [hr, Nat.sub_sub, htaken], u'', L'', hcnt''.trans hsum, hi'', hg.trans hg'⟩
    · exact ⟨_, s, growIndirectBlocks_full _ _ (by omega) new s, by simp only; omega, u, L, by omega, hi,
        Grown.refl h hL⟩

lemma newSectors_eq {len len' : ℕ} (hle : len ≤ len') (hlt : len' + 511 < 2 ^ 31) :
    sizeT ((bytesToSectors len' : ℤ) - bytesToSectors len) = sectorsOf len' - sectorsOf len := by
  have hmono : sectorsOf len ≤ sectorsOf len' := Nat.div_le_div_right (by omega)
  have hbound : sectorsOf len' < 2 ^ 32 := by
    simp only [sectorsOf]
    omega
  rw [bytesToSectors_natCast (by omega), bytesToSectors_natCast (by omega)]
  change sizeT ((sectorsOf len' : ℤ) - (sectorsOf len : ℕ)) = _
  rw [← Nat.cast_sub hmono, sizeT_natCast (by omega)]

lemma inodeGrow_returns (h : Tables s u) (hm : MapFile s u) (hk : k ≠ freeMapSector) (hL : Claims u k L)
    {inode : InodeData} (hi : Mapped inode L) {len len' : ℕ} (hlen : inode.length = len)
    (hc : L.cnt = sectorsOf len) (hle : len ≤ len') (hlt : len' ≤ 512 * maxSectors)
    (hfree : sectorsUsed (sectorsOf len') ≤ s.freeMap.freeCnt + sectorsUsed (sectorsOf len)) :
    Returns (inodeGrow freeMapAllocate inode len') s fun r t => r.1 = len' ∧
      ∃ u' L', L'.cnt = sectorsOf len' ∧ Mapped r.2 L' ∧ Grown k s u L t u' L' := by
  have hmono : sectorsOf len ≤ sectorsOf len' := Nat.div_le_div_right (by omega)
  have hmax : sectorsOf len' ≤ 1290 := by
    simp only [sectorsOf, maxSectors] at *
    omega
  rw [inodeGrow, hlen, newSectors_eq hle (by simp only [maxSectors] at hlt; omega)]
  by_cases hz : sectorsOf len' - sectorsOf len = 0
  · rw [if_pos hz]
    exact Returns.pure ⟨rfl, u, L, by omega, hi, Grown.refl h hL⟩
  rw [if_neg hz]
  have hneed : sectorsOf len' - sectorsOf len ≤ s.freeMap.freeCnt := by
    have hidx := indexCnt_mono hmono
    simp only [sectorsUsed] at hfree
    omega
  refine (mapAlloc_returns h hm hL hi (by simp only [maxSectors]; omega) (by omega) (by omega)).bind ?_
  rintro ⟨inode', new'⟩ t ⟨rfl, u', L', hcnt, hi', hg⟩
  simp only at hi' ⊢
  by_cases hz' : sectorsOf len' - sectorsOf len - min (sectorsOf len' - sectorsOf len) (10 - L.cnt) = 0
  · rw [if_pos hz']
    exact Returns.pure ⟨rfl, u', L', by omega, hi', hg⟩
  · rw [if_neg hz', growBeyondDirect, bind_assoc]
    have hcount := hg.free
    rw [hc] at hcount
    have htotal : L'.cnt + min (sectorsOf len' - sectorsOf len - min (sectorsOf len' - sectorsOf len) (10 - L.cnt))
        (maxSectors - L'.cnt) = sectorsOf len' := by
      simp only [maxSectors]
      omega
    refine (growIndirectBlocks_returns hg.evolves.tables (hg.evolves.mapFile h (owner_of_isIndexOf hk) hm) hk
      hg.claims hi' (by omega) (by simp only [maxSectors]; omega) (by simp only [directBlocks]; omega) (by omega)
      (by rw [htotal]; omega)).bind ?_
    rintro ⟨inode'', new''⟩ v ⟨rfl, u'', L'', hcnt'', hi'', hg'⟩
    simp only at hi'' ⊢
    have hdone : sectorsOf len' - sectorsOf len - min (sectorsOf len' - sectorsOf len) (10 - L.cnt) -
        min (sectorsOf len' - sectorsOf len - min (sectorsOf len' - sectorsOf len) (10 - L.cnt))
          (maxSectors - L'.cnt) = 0 := by
      simp only [maxSectors]
      omega
    rw [if_pos hdone, hdone]
    refine Returns.pure ⟨?_, u'', L'', by rw [hcnt'', htotal], hi'', hg.trans hg'⟩
    simp only [maxSectors] at hlt
    simp [offT_natCast (by omega : len' < 2 ^ 31)]

end CourseArchive.PintOS.Filesys
