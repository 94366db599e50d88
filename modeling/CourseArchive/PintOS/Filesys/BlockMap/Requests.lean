import CourseArchive.PintOS.Filesys.BlockMap.Growth

/-! Growth requests, one after the other, and the sectors that `byte_to_sector` finds after them. -/

namespace CourseArchive.PintOS.Filesys

open Lib Function CachedDisk

/-- What `inode_write_at` does with the inode when a write ends `size` bytes past the end. -/
def growBy (inode : InodeData) (size : ℕ) : FsM InodeData := do
  let (length, data) ← inodeGrow freeMapAllocate inode (offT (inode.length + size))
  return { data with length := length }

def growAll (inode : InodeData) (sizes : List ℕ) : FsM InodeData := sizes.foldlM growBy inode

def sectorAt (s : Filesys) (inode : InodeData) (pos : ℕ) : Option BlockSector :=
  (byteToSector inode inode.length pos s).toOption.map Prod.fst

def IsIndexSector (s : Filesys) (inode : InodeData) (x : BlockSector) : Prop :=
  (∃ j < directBlocks, directBlocks + indirectBlockPtrs * j < bytesToSectors inode.length ∧
    x = inode.ptrs (directBlocks + j)) ∨
  maxSectors < bytesToSectors inode.length ∧ (x = inode.ptrs doubleIndirectIndex ∨
    ∃ j < indirectBlockPtrs, maxSectors + indirectBlockPtrs * j < bytesToSectors inode.length ∧
      x = (s.disk.device.sectors (inode.ptrs doubleIndirectIndex)).word j)

structure WellMapped (s t : Filesys) (inode : InodeData) : Prop where
  found : ∀ p : ℕ, p < inode.length → 512 ∣ p → ∃ x, sectorAt t inode p = some x ∧ AllocatedSince s t x ∧
    t.freeMap.bits x.toNat = true ∧ ¬ IsIndexSector t inode x
  distinct : ∀ p q : ℕ, p < inode.length → q < inode.length → 512 ∣ p → 512 ∣ q →
    sectorAt t inode p = sectorAt t inode q → p = q

/-- The requests `sizes` and then `size` take effect, each leaves the block map in order, and the last one moves
no sector. -/
def GrowthMaps (s : Filesys) (inode : InodeData) (sizes : List ℕ) (size : ℕ) : Prop :=
  ∃ i₁ t₁ i₂ t₂, growAll inode sizes s = .ok (i₁, t₁) ∧ growBy i₁ size t₁ = .ok (i₂, t₂) ∧
    i₁.length = sizes.sum ∧ i₂.length = (sizes.sum + size : ℕ) ∧ WellMapped s t₁ i₁ ∧ WellMapped s t₂ i₂ ∧
    ∀ p : ℕ, p < i₁.length → 512 ∣ p → sectorAt t₂ i₂ p = sectorAt t₁ i₁ p

def noSectors : Layout := ⟨0, fun _ => 0, fun _ => 0⟩

structure Empty (inode : InodeData) : Prop where
  length : inode.length = 0
  direct : inode.directBlkIdx = 0
  indirect : inode.indirectBlkIdx = 0
  double : inode.doubleIndirectBlkIdx = 0

structure GrownTo (s : Filesys) (u : Usage) (n : ℕ) (inode : InodeData) (t : Filesys) (u' : Usage) (L : Layout) :
    Prop where
  length : inode.length = n
  cnt : L.cnt = sectorsOf n
  mapped : Mapped inode L
  grown : Grown rootDirSector s u noSectors t u' L

variable {s t v : Filesys} {u u' u'' : Usage} {L L' : Layout} {inode inode' : InodeData} {n : ℕ}

lemma sectorAt_eq {p : ℕ} {x : BlockSector} {Q : Filesys → Prop}
    (h : Returns (byteToSector inode inode.length p) s fun y t => y = x ∧ Q t) : sectorAt s inode p = some x := by
  obtain ⟨y, t, hy, rfl, -⟩ := h
  simp [sectorAt, hy, Except.toOption]

namespace GrownTo

lemma refl (h : Tables s u) (hi : Empty inode) : GrownTo s u 0 inode s u noSectors where
  length := hi.length
  cnt := rfl
  mapped := ⟨hi.direct, hi.indirect, hi.double, fun _ h => absurd h (Nat.not_lt_zero _),
    fun h => absurd h (Nat.not_lt_zero _)⟩
  grown := Grown.refl h ⟨fun h => absurd h (Nat.not_lt_zero _), fun h => absurd h (Nat.not_lt_zero _),
    fun _ _ _ h => absurd h (Nat.not_lt_zero _)⟩

lemma mapFile (h : GrownTo s u n inode t u' L) (hs : Tables s u) (hm : MapFile s u) : MapFile t u' :=
  h.grown.evolves.mapFile hs (owner_of_isIndexOf (by decide)) hm

lemma growBy_returns (h : GrownTo s u n inode t u' L) (hs : Tables s u) (hm : MapFile s u) {size : ℕ}
    (hcap : n + size ≤ 512 * maxSectors) (hfree : sectorsUsed (sectorsOf (n + size)) ≤ s.freeMap.freeCnt) :
    Returns (growBy inode size) t fun inode' v => ∃ u'' L', GrownTo s u (n + size) inode' v u'' L' ∧
      Grown rootDirSector t u' L v u'' L' := by
  have hoff : offT (inode.length + size) = (n + size : ℕ) := by
    simp only [maxSectors] at hcap
    rw [h.length, ← Nat.cast_add, offT_natCast (by omega)]
  have hcount := h.grown.free
  have hzero : sectorsUsed noSectors.cnt = 0 := rfl
  rw [h.cnt] at hcount
  rw [growBy, hoff]
  refine (inodeGrow_returns h.grown.evolves.tables (h.mapFile hs hm) (by decide) h.grown.claims h.mapped h.length
    h.cnt (Nat.le_add_right n size) hcap (by omega)).bind ?_
  rintro ⟨length, data⟩ v ⟨rfl, u'', L', hcnt, hi, hg⟩
  refine Returns.pure ⟨u'', L', ⟨rfl, hcnt, ?_, h.grown.trans hg⟩, hg⟩
  exact ⟨hi.direct, hi.indirect, hi.double, hi.ptrs_data, hi.ptrs_index⟩

lemma growAll_returns (sizes : List ℕ) (h : GrownTo s u n inode t u' L) (hs : Tables s u) (hm : MapFile s u)
    (hcap : n + sizes.sum ≤ 512 * maxSectors)
    (hfree : sectorsUsed (sectorsOf (n + sizes.sum)) ≤ s.freeMap.freeCnt) :
    Returns (growAll inode sizes) t fun inode' v => ∃ u'' L', GrownTo s u (n + sizes.sum) inode' v u'' L' := by
  induction sizes generalizing n inode t u' L with
  | nil => exact Returns.pure ⟨u', L, h⟩
  | cons size sizes ih =>
    rw [List.sum_cons, ← Nat.add_assoc] at hcap hfree ⊢
    have hmono : sectorsUsed (sectorsOf (n + size)) ≤ sectorsUsed (sectorsOf (n + size + sizes.sum)) :=
      sectorsUsed_mono (Nat.div_le_div_right (by omega))
    rw [growAll, List.foldlM_cons]
    refine (h.growBy_returns hs hm (by omega) (hmono.trans hfree)).bind ?_
    rintro inode' v ⟨u'', L', hv, -⟩
    exact ih hv hcap hfree

variable (h : GrownTo s u n inode t u' L) (hcap : n ≤ 512 * maxSectors)

include h hcap

lemma sectorAt {p : ℕ} (hp : p < n) : sectorAt t inode p = some (L.data (p / 512)) := by
  have hcnt := h.cnt
  simp only [sectorsOf, maxSectors] at hcnt hcap
  refine sectorAt_eq
    (h.grown.evolves.tables.byteToSector h.grown.claims h.mapped (by simp only [maxSectors]; omega) ?_ ?_)
  · rw [h.length]
    exact_mod_cast hp
  · omega

lemma wellMapped : WellMapped s t inode := by
  have hcnt := h.cnt
  have hclaims := h.grown.claims
  have hsectors : bytesToSectors inode.length = L.cnt := by
    simp only [maxSectors] at hcap
    rw [h.length, bytesToSectors_natCast (by omega), h.cnt]
    rfl
  simp only [sectorsOf, maxSectors] at hcnt hcap
  have hlt : ∀ {p : ℕ}, (p : ℤ) < inode.length → p < n := by
    intro p hp
    rw [h.length] at hp
    exact_mod_cast hp
  refine ⟨fun p hp _ => ?_, fun p q hp hq hdp hdq he => ?_⟩
  · have hpn := hlt hp
    have hi : p / 512 < L.cnt := by omega
    refine ⟨_, h.sectorAt hcap hpn, h.grown.fresh (Nat.zero_le _) hi,
      (h.grown.evolves.tables.marked (by simp [hclaims.data hi])).1, ?_⟩
    rintro (⟨j, -, hj, he⟩ | ⟨hbig, -⟩)
    · simp only [directBlocks, indirectBlockPtrs, hsectors] at hj he
      rw [h.mapped.ptrs_index hj] at he
      exact hclaims.data_ne_index hi (lt_indexCnt.mpr hj) he
    · simp only [maxSectors] at hbig
      omega
  · have hpn := hlt hp
    have hqn := hlt hq
    rw [h.sectorAt hcap hpn, h.sectorAt hcap hqn] at he
    have hpq := hclaims.data_inj (by omega) (by omega) (Option.some_injective _ he)
    omega

end GrownTo

/-- Requests for up to `maxSectors` sectors in all leave every position with a sector of its own, in use and not
one of the index blocks, and move no sector. -/
theorem growth_maps_blocks (s : Filesys) (u : Usage) (inode : InodeData) (sizes : List ℕ) (size : ℕ)
    (h : Tables s u) (hm : MapFile s u) (hi : Empty inode) (hcap : sizes.sum + size ≤ 512 * maxSectors)
    (hfree : sectorsUsed (sectorsOf (sizes.sum + size)) ≤ s.freeMap.freeCnt) : GrowthMaps s inode sizes size := by
  have hmono : sectorsUsed (sectorsOf sizes.sum) ≤ sectorsUsed (sectorsOf (sizes.sum + size)) :=
    sectorsUsed_mono (Nat.div_le_div_right (by omega))
  obtain ⟨i₁, t₁, h₁, u₁, L₁, hg₁⟩ := (GrownTo.refl h hi).growAll_returns sizes h hm (by omega)
    (by rw [Nat.zero_add]; omega)
  rw [Nat.zero_add] at hg₁
  obtain ⟨i₂, t₂, h₂, u₂, L₂, hg₂, hstep⟩ := hg₁.growBy_returns h hm hcap hfree
  have hcap₁ : sizes.sum ≤ 512 * maxSectors := by omega
  refine ⟨i₁, t₁, i₂, t₂, h₁, h₂, hg₁.length, hg₂.length, hg₁.wellMapped hcap₁, hg₂.wellMapped hcap, ?_⟩
  intro p hp _
  rw [hg₁.length] at hp
  have hpn : p < sizes.sum := by exact_mod_cast hp
  have hcnt := hg₁.cnt
  simp only [sectorsOf] at hcnt
  rw [hg₁.sectorAt hcap₁ hpn, hg₂.sectorAt hcap (by omega), hstep.data (by omega)]

/-! Beyond `maxSectors`. -/

section LostPointers

variable {b : Sector} {new : ℕ}

lemma lvl2_returns (inode : InodeData) (h : Tables s u) (hm : MapFile s u) (hd : inode.doubleIndirectBlkIdx = 0)
    (hj : ∀ n, s.junk n = b) (hnew : 0 < new) (hlt : new < 128) (hfree : new + 1 ≤ s.freeMap.freeCnt)
    (outer : IndirectBlock) :
    Returns (inodeGrowDoubleIndirectBlockLvl2 freeMapAllocate inode new outer) s fun r t => ∃ q u',
      r = ({ inode with doubleIndirectBlkIdx := new }, 0, put outer inode.indirectBlkIdx q) ∧
      Evolves untouched s u t u' ∧ u.role q = .free ∧ u'.role q = .index rootDirSector 11 ∧
      u'.flat q = Block.ofWords b.word := by
  rw [inodeGrowDoubleIndirectBlockLvl2, hd]
  simp only [indexBlock, bind_assoc, decide_true, if_true]
  refine (uninitialised_returns s).bind ?_
  rintro garbage t ⟨rfl, rfl⟩
  have hev := (KeepsMap.consume s).evolves (w := untouched) h.consume rfl
  have hmap := hev.mapFile h (fun _ => False.elim) hm
  refine (allocateInto_returns h.consume hmap (by simp only; omega) (outer inode.indirectBlkIdx)
    (.index rootDirSector 11)).bind ?_
  rintro q t ⟨he, hq, -, hcnt⟩
  simp only [pure_bind, mapAllocIndirect, bind_assoc]
  have hroles : ∀ i, Role.data rootDirSector (1290 + i) ≠ .free := by simp
  refine (fillSlots_returns ⟨(s.junk 0).word, 0,
    new⟩ hroles he.tables (he.mapFile h.consume (fun _ => False.elim) hmap) (by simp) hnew ?_).bind ?_
  · simp only [indirectBlockPtrs]
    simp only at hcnt
    omega
  rintro slots v ⟨hidx, hns, u₁, hf⟩
  have hindex : slots.index = new := by
    simp only [indirectBlockPtrs] at hidx
    omega
  have hleft : slots.newSectors = 0 := by
    simp only [indirectBlockPtrs] at hns
    omega
  have hrole : u₁.role q = .index rootDirSector 11 := by
    rw [hf.evolves.role (by simp), Usage.assign_role_self]
  refine (hf.evolves.tables.blockWrite (hf.evolves.tables.contained (by simp [hrole])) _).bind ?_
  rintro _ w ⟨hw, hk, hp⟩
  have hall := hev.trans (he.trans hf.evolves)
  rw [hindex, hleft, if_neg (by simp only [indirectBlockPtrs]; omega)]
  refine Returns.pure ⟨q, _, rfl, hall.write (fun hr => hr hq) hw hk hp, hq, hrole, ?_⟩
  rw [Usage.set_flat_self, hj]

lemma sectorAt_double (h : Tables s u) {q : BlockSector} {m n j : ℕ} (hj : j < 128)
    (hlen : (512 * (1290 + j) : ℕ) < inode.length) (hp : u.role (inode.ptrs 20) = .index rootDirSector m)
    (hpq : (u.flat (inode.ptrs 20)).word 0 = q) (hq : u.role q = .index rootDirSector n) :
    sectorAt s inode (512 * (1290 + j)) = some ((u.flat q).word j) := by
  refine sectorAt_eq (Q := fun _ => True) ?_
  have hidx : (512 * (1290 + j) - 512 * (10 + 1280)) / (512 * 128) = 0 := by omega
  have hword : (512 * (1290 + j) - 512 * (10 + 1280)) % (512 * 128) / 512 = j := by omega
  simp only [byteToSector, blockSectorSize, directBlocks, indirectBlocksCount, indirectBlockPtrs,
    doubleIndirectIndex]
  rw [if_neg (by omega), if_neg (by omega), if_neg (by omega), hidx, hword]
  refine (h.blockRead (by rw [hp]; exact Role.raw_index _ _) (h.contained (by simp [hp]))).bind ?_
  rintro outer t ⟨rfl, ht, -, -⟩
  rw [if_neg (by decide), hpq]
  refine (ht.blockRead (by rw [hq]; exact Role.raw_index _ _) (ht.contained (by simp [hq]))).bind ?_
  rintro inner v ⟨rfl, -, -, -⟩
  exact Returns.pure ⟨rfl, trivial⟩

lemma growInnerBlocks_done {alloc : Allocator} (fuel : ℕ) {block block' : IndirectBlock}
    (hi : inode.indirectBlkIdx < 128)
    (h : inodeGrowDoubleIndirectBlockLvl2 alloc inode new block s = .ok ((inode', 0, block'), t)) :
    growInnerBlocks alloc (fuel + 1) inode new block s = .ok ((inode', 0, block'), t) := by
  rw [growInnerBlocks, if_pos hi, bind_ok h]
  rfl

lemma lost_pointers (h : Tables s u) (hm : MapFile s u) (hd : inode.directBlkIdx = 20)
    (hi : inode.indirectBlkIdx = 0) (hdd : inode.doubleIndirectBlkIdx = 0)
    (hlen : inode.length = (512 * 1290 : ℕ)) (hj : ∀ n, s.junk n = b) (hnew : 0 < new) (hlt : new < 128)
    (hfree : new + 2 ≤ s.freeMap.freeCnt) :
    Returns (growBy inode (512 * new)) s fun i t => i.length = (512 * (1290 + new) : ℕ) ∧
      ∀ j < new, sectorAt t i (512 * (1290 + j)) = some (b.word j) := by
  -- an inode that grows past `maxSectors` finds there what its kernel stack held: `map_alloc_indirect` was given a
  -- copy of the inner block
  have hoff : offT (inode.length + (512 * new : ℕ)) = (512 * (1290 + new) : ℕ) := by
    rw [hlen, ← Nat.cast_add, offT_natCast (by omega), Nat.mul_add]
  have hnewSectors : sizeT ((bytesToSectors (512 * (1290 + new) : ℕ) : ℤ) - bytesToSectors (512 * 1290 : ℕ)) =
      new := by
    rw [newSectors_eq (by omega) (by omega)]
    simp only [sectorsOf]
    omega
  have hz : ¬ new = 0 := by omega
  have hd₁ : 10 ≤ inode.directBlkIdx := by omega
  have hd₂ : 20 ≤ inode.directBlkIdx := by omega
  rw [growBy, hoff, inodeGrow, hlen, hnewSectors, if_neg hz, bind_assoc]
  refine Returns.after (mapAlloc_full _ hd₁ new s) ?_
  simp only [if_neg hz, growBeyondDirect, bind_assoc]
  refine Returns.after (growIndirectBlocks_full _ _ hd₂ new s) ?_
  simp only [if_neg hz, hd, if_true, inodeGrowDoubleIndirectBlock, indexBlock, hdd, hi, and_self, decide_true,
    bind_assoc]
  refine (uninitialised_returns s).bind ?_
  rintro garbage t ⟨-, rfl⟩
  have hev := (KeepsMap.consume s).evolves (w := untouched) h.consume rfl
  have hmap := hev.mapFile h (fun _ => False.elim) hm
  refine (allocateInto_returns h.consume hmap (by simp only; omega) (inode.ptrs 20) (.index rootDirSector 10)).bind
    ?_
  rintro p t ⟨he, -, -, hcnt⟩
  have hjunk : ∀ n, t.junk n = b := by
    intro n
    obtain ⟨m, hm'⟩ := (hev.trans he).keeps.junk
    rw [hm', hj]
  simp only at hcnt
  simp only [pure_bind]
  obtain ⟨_, v, hrun, q, u₁, rfl, he₁, hq, hq₁, hflat⟩ := lvl2_returns { inode with ptrs := put inode.ptrs 20 p }
    he.tables (he.mapFile h.consume (fun _ => False.elim) hmap) hdd hjunk hnew hlt (by omega) garbage.word
  simp only [hd, hi, hdd] at hrun
  refine Returns.after (growInnerBlocks_done 127 (by simp) hrun) ?_
  have hp₁ : u₁.role p = .index rootDirSector 10 := (he₁.role (by simp)).trans (u.assign_role_self p _)
  have hqp : q ≠ p := by
    rintro rfl
    simp at hq
  refine (he₁.tables.blockWrite (he₁.tables.contained (by simp [hp₁])) _).bind ?_
  rintro _ w ⟨hw, -⟩
  have hlength : offT (((512 * (1290 + new) : ℕ) : ℤ) - (0 : ℕ) * (blockSectorSize : ℕ)) =
      (512 * (1290 + new) : ℕ) := by
    rw [Nat.cast_zero, zero_mul, sub_zero, offT_natCast (by omega)]
  simp only [hlength]
  refine Returns.pure ⟨rfl, fun j hj' => ?_⟩
  have hpos : (512 * (1290 + j) : ℕ) < ((512 * (1290 + new) : ℕ) : ℤ) := by exact_mod_cast (by omega)
  have hlt₁ : j < 128 := by omega
  refine (sectorAt_double hw hlt₁ ?_ (m := 10) (q := q) ?_ ?_ hq₁).trans ?_
  · exact hpos
  · simpa using hp₁
  · simp only [put_self, Usage.set_flat_self]
    exact (Block.word_ofWords _ (by decide)).trans (put_self _ _ _)
  · rw [Usage.set_flat_of_ne _ _ hqp, hflat, Block.word_ofWords _ (by simp only [blockSectorSize]; omega)]

end LostPointers

/-! A device just formatted, with the free-map file open in sector 2. -/

def mapLayout : Layout := ⟨1, fun _ => 2, fun _ => 0⟩

def mapInode : Inode where
  toInodeData := mapLayout.inodeData 512 false rootDirSector
  sector := freeMapSector
  openCnt := 1
  removed := false
  denyWriteCnt := 0
  readLength := 512
  locked := false

def formatted : Filesys where
  disk := ⟨⟨4096, fun _ => zeros⟩, fun _ => ⟨zeros, 0, false, false, false, 0⟩, 0, 0, 0⟩
  freeMap := ⟨4096, fun i => i < 3⟩
  freeMapFile := some (fileOpen freeMapSector)
  openInodes := put (fun _ => none) freeMapSector (some mapInode)
  junk := fun _ => zeros
  log := []

def formattedUsage : Usage where
  flat := fun _ => zeros
  role x := if x = 0 then .inode 0 else if x = 1 then .inode 1 else if x = 2 then .data freeMapSector 0 else .free
  stale := fun _ => False

def emptyInode : InodeData := ⟨0, 0, 0, 0, false, rootDirSector, fun _ => 0⟩

lemma formatted_tables : Tables formatted formattedUsage where
  usable := ⟨fun _ => rfl, nofun⟩
  plain := fun _ => nofun
  raw := fun _ => rfl
  marked {x} hx := by
    have hlt : x < 3 := by
      by_contra hge
      have h₀ : x ≠ 0 := by rintro rfl; exact hge (by decide)
      have h₁ : x ≠ 1 := by rintro rfl; exact hge (by decide)
      have h₂ : x ≠ 2 := by rintro rfl; exact hge (by decide)
      simp [formattedUsage, h₀, h₁, h₂] at hx
    have hlt' : x.toNat < 3 := UInt32.lt_iff_toNat_lt.mp hlt
    exact ⟨decide_eq_true hlt', UInt32.lt_trans hlt (by decide)⟩
  size := rfl

lemma formatted_mapFile : MapFile formatted formattedUsage := by
  rintro f ⟨⟩
  refine ⟨mapInode, mapLayout, rfl, rfl, rfl, rfl, mapLayout.inodeData_mapped _ _ _,
    ⟨?_, ?_, ?_⟩, by decide, by decide, by decide⟩
  · intro i hi
    obtain rfl := Nat.lt_one_iff.mp hi
    rfl
  · intro j hj
    exact absurd hj (Nat.not_lt_zero j)
  · intro j w _ hj
    simp only [mapLayout] at hj
    omega

lemma formatted_freeCnt : 4093 ≤ formatted.freeMap.freeCnt := by
  have hsub : Finset.Ico 3 4096 ⊆ (Finset.range 4096).filter fun i => formatted.freeMap.bits i = false := by
    intro i hi
    simp only [Finset.mem_Ico] at hi
    simp [formatted, hi.1, hi.2]
  exact (Nat.card_Ico 3 4096).symm.le.trans (Finset.card_le_card hsub)

lemma emptyInode_empty : Empty emptyInode := ⟨rfl, rfl, rfl, rfl⟩

theorem growth_maps_blocks_formatted : GrowthMaps formatted emptyInode [600, 100000] 5000 :=
  growth_maps_blocks formatted formattedUsage emptyInode [600, 100000] 5000 formatted_tables formatted_mapFile
    emptyInode_empty (by decide) (le_trans (by decide) formatted_freeCnt)

theorem growth_loses_pointers : sectorsOf (512 * 1290 + 1024) ≤ 10 + 10 * 128 + 128 * 128 ∧
    sectorsUsed (sectorsOf (512 * 1290 + 1024)) + 1 ≤ formatted.freeMap.freeCnt ∧
    ¬ GrowthMaps formatted emptyInode [512 * 1290] 1024 := by
  refine ⟨by decide, le_trans (by decide) formatted_freeCnt, ?_⟩
  rintro ⟨i₁, t₁, i₂, t₂, h₁, h₂, -, hlen, -, hwell, -⟩
  have hfree := formatted_freeCnt
  obtain ⟨i, t, hi, u, L, hg⟩ := (GrownTo.refl formatted_tables emptyInode_empty).growAll_returns [512 * 1290]
    formatted_tables formatted_mapFile (by decide) (le_trans (by decide) hfree)
  rw [h₁] at hi
  obtain ⟨rfl, rfl⟩ : i₁ = i ∧ t₁ = t := by simpa using hi
  have hcnt : L.cnt = 1290 := hg.cnt
  have hcount := hg.grown.free
  have hused : sectorsUsed L.cnt = 1300 := by
    rw [hcnt]
    rfl
  have hzero : sectorsUsed noSectors.cnt = 0 := rfl
  have hjunk : ∀ n, t₁.junk n = zeros := by
    intro n
    obtain ⟨m, hm⟩ := hg.grown.evolves.keeps.junk
    rw [hm]
    rfl
  have hdirect := hg.mapped.direct
  have hindirect := hg.mapped.indirect
  obtain ⟨i, t, hi, -, hlost⟩ := lost_pointers hg.grown.evolves.tables
    (hg.mapFile formatted_tables formatted_mapFile) (by omega) (by omega)
    hg.mapped.double hg.length hjunk Nat.two_pos (by decide) (by omega)
  rw [h₂] at hi
  obtain ⟨rfl, rfl⟩ : i₂ = i ∧ t₂ = t := by simpa using hi
  have hsame := hwell.distinct (512 * 1290) (512 * 1291) (by rw [hlen]; decide) (by rw [hlen]; decide) (by decide)
    (by decide) ((hlost 0 (by decide)).trans (hlost 1 (by decide)).symm)
  omega

end CourseArchive.PintOS.Filesys
