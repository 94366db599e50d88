import CourseArchive.PintOS.Filesys.BlockMap.Pointers

/-! Deallocation: `inode_deallocate` gives the sectors of an inode back to the free map, one after the other. -/

namespace CourseArchive.PintOS.Filesys

open Lib Function CachedDisk

namespace MappedInode

def sectors (f : MappedInode) (flat : BlockSector → Sector) : List BlockSector :=
  (List.range f.cnt).map (f.place flat)

def indexBlocks (f : MappedInode) (flat : BlockSector → Sector) : List BlockSector :=
  (List.range (min (indexCnt f.cnt) directBlocks)).map (fun j => f.inode.ptrs (directBlocks + j)) ++
    if maxSectors < f.cnt then
      (List.range (indexCnt f.cnt - directBlocks)).map (flat (f.inode.ptrs doubleIndirectIndex)).word ++
        [f.inode.ptrs doubleIndirectIndex]
    else []

lemma mem_indexBlocks {f : MappedInode} {flat : BlockSector → Sector} (hcap : f.cnt ≤ capacity) {x : BlockSector} :
    x ∈ f.indexBlocks flat ↔ f.IsIndex flat x := by
  have hsingle :
    ∀ j, j < min (indexCnt f.cnt) directBlocks ↔
      j < directBlocks ∧ directBlocks + indirectBlockPtrs * j < f.cnt := by
    intro j
    simp only [indexCnt, directBlocks, indirectBlockPtrs]
    omega
  have hinner : ∀ j, maxSectors < f.cnt →
      (j < indexCnt f.cnt - directBlocks ↔
        j < indirectBlockPtrs ∧ maxSectors + indirectBlockPtrs * j < f.cnt) := by
    intro j hbig
    simp only [indexCnt, directBlocks, indirectBlockPtrs, maxSectors, capacity] at *
    omega
  by_cases hbig : maxSectors < f.cnt
  · rw [indexBlocks, IsIndex, if_pos hbig]
    simp only [List.mem_append, List.mem_map, List.mem_range, List.mem_singleton, hsingle, hinner _ hbig]
    grind
  · rw [indexBlocks, IsIndex, if_neg hbig]
    simp only [List.append_nil, List.mem_map, List.mem_range, hsingle]
    grind

end MappedInode

def Marked (b : Bitmap) (x : BlockSector) : Prop := x.toNat < b.bitCnt ∧ b.bits x.toNat = true

inductive Releases : List BlockSector → Filesys → Filesys → Prop
  | done {s t : Filesys} : t.freeMap = s.freeMap → Releases [] s t
  | release {x : BlockSector} {xs : List BlockSector} {s u v t : Filesys} : u.freeMap = s.freeMap →
      freeMapRelease x u = .ok ((), v) → Releases xs v t → Releases (x :: xs) s t

structure FreeMapFile (w : BlockSector → Prop) (flat : BlockSector → Sector) (s : Filesys) (file : File)
    (inode : Inode) (cnt : ℕ) : Prop where
  mounted : s.freeMapFile = some file
  opened : s.openInodes file.inode = some inode
  capacity : cnt ≤ capacity
  length : inode.length ≤ blockSectorSize * cnt
  room : Bitmap.byteCnt s.freeMap.bitCnt ≤ inode.length
  index : ∀ {x}, MappedInode.IsIndex ⟨inode.toInodeData, cnt⟩ flat x → w x
  apart : ∀ {i}, i < cnt → ¬ w (MappedInode.place ⟨inode.toInodeData, cnt⟩ flat i)
  data : ∀ {i}, i < cnt → s.disk.device.Contains (MappedInode.place ⟨inode.toInodeData, cnt⟩ flat i)

/-- The device has `flat` in the sectors `w`, no write to them waits in the cache, and the free-map file can be
written. -/
structure Ready (w : BlockSector → Prop) (flat : BlockSector → Sector) (s : Filesys) : Prop where
  usable : s.disk.Usable
  plain : ∀ {x}, w x → s.disk.Plain x
  raw : ∀ {x}, w x → s.disk.device.sectors x = flat x
  contained : ∀ {x}, w x → s.disk.device.Contains x
  mapFile : ∃ file inode cnt, FreeMapFile w flat s file inode cnt

variable {w : BlockSector → Prop} {flat : BlockSector → Sector} {s t v : Filesys} {x : BlockSector}
  {xs ys : List BlockSector}

lemma FreeMapFile.keep {file : File} {inode : Inode} {cnt : ℕ} (h : FreeMapFile w flat s file inode cnt)
    (hk : KeepsMap s t) :
    FreeMapFile w flat t file inode cnt where
  mounted := hk.freeMapFile.trans h.mounted
  opened := by rw [hk.openInodes, h.opened]
  capacity := h.capacity
  length := h.length
  room := by rw [hk.freeMap]; exact h.room
  index := h.index
  apart := h.apart
  data {i} hi := by
    rw [Device.Contains, hk.size]
    exact h.data hi

namespace Ready

lemma contained_withDisk {d : CachedDisk} (h : Ready w flat s) (hd : d.device.size = s.disk.device.size)
    (hx : w x) :
    d.device.Contains x := by
  rw [Device.Contains, hd]
  exact h.contained hx

lemma keep (h : Ready w flat s) (hk : KeepsMap s t) (hd : t.disk = s.disk) : Ready w flat t := by
  obtain ⟨file, inode, cnt, hf⟩ := h.mapFile
  refine ⟨?_, ?_, ?_, ?_, file, inode, cnt, hf.keep hk⟩
  · rw [hd]
    exact h.usable
  · rw [hd]
    exact h.plain
  · rw [hd]
    exact h.raw
  · rw [hd]
    exact h.contained

lemma blockRead (h : Ready w flat s) (hx : w x) :
    Returns (blockRead x) s fun b t => b = flat x ∧ Ready w flat t ∧ KeepsMap s t := by
  have hk := KeepsMap.logged s (.rawRead x (s.disk.clashes x (flat x)))
  exact ⟨flat x, _, blockRead_run (h.contained hx) (h.raw hx), rfl, h.keep hk rfl, hk⟩

lemma cacheWrite (h : Ready w flat s) {off : ℕ} {buf : List UInt8} (hx : s.disk.device.Contains x) (hw : ¬ w x)
    (hn : off + buf.length ≤ blockSectorSize) :
    Returns (onDisk (cacheWrite x off buf)) s fun _ t => Ready w flat t ∧ KeepsMap s t := by
  refine (onDisk_returns (write_through h.usable hx hn)).mono ?_
  rintro _ t ⟨d, rfl, hd⟩
  obtain ⟨file, inode, cnt, hf⟩ := h.mapFile
  have hk := KeepsMap.withDisk (s := s) hd.size
  refine ⟨⟨hd.usable, fun {y} hy => hd.plain ?_ (h.plain hy), fun hy => (hd.sectors (h.plain hy)).trans (h.raw hy),
    fun hy => h.contained_withDisk hd.size hy, file, inode, cnt, hf.keep hk⟩, hk⟩
  rintro rfl
  exact hw hy

lemma writeFrom {file : File} {inode : Inode} {cnt : ℕ} (h : Ready w flat s)
    (hf : FreeMapFile w flat s file inode cnt)
    {length fuel : ℕ} (hlength : inode.length = length) {buffer : List UInt8} (hb : buffer.length ≤ fuel) :
    Returns (writeFrom file.inode inode.toInodeData fuel buffer 0) s fun _ t => Ready w flat t ∧ KeepsMap s t := by
  have hlen := hf.length
  simp only [blockSectorSize] at hlen
  refine Returns.mono (writeFrom_loop (I := fun _ t => Ready w flat t ∧ KeepsMap s t) hlength ?_ hb
    ⟨h, KeepsMap.refl s⟩) fun _ _ => And.right
  rintro done buf t ⟨ht, hk⟩ hlt hn
  have hi : (0 + done.length) / 512 < cnt := by omega
  refine (MappedInode.byteToSector_follows ⟨inode.toInodeData, cnt⟩ flat
    (I := fun t => Ready w flat t ∧ KeepsMap s t) ?_ hf.capacity (by exact_mod_cast hlt) hi ⟨ht, hk⟩).mono ?_
  · rintro x u ⟨hu, hk'⟩ hx
    refine (hu.blockRead (hf.index hx)).mono ?_
    rintro b v ⟨rfl, hv, hk''⟩
    exact ⟨rfl, hv, hk'.trans hk''⟩
  · rintro x u ⟨rfl, hu, hk'⟩
    have hlog :=
      KeepsMap.logged u
      (.dataWrite file.inode (MappedInode.place ⟨inode.toInodeData, cnt⟩ flat ((0 + done.length) / 512)))
    refine ((hu.keep hlog rfl).cacheWrite ((hf.keep (hk'.trans hlog)).data hi) (hf.apart hi) hn).mono ?_
    rintro _ v ⟨hv, hk''⟩
    exact ⟨hv, hk'.trans (hlog.trans hk'')⟩

lemma writeMap (h : Ready w flat s) (alloc : Allocator) :
    Returns (bitmapWriteWith alloc) s fun _ t => Ready w flat t ∧ t.freeMap = s.freeMap := by
  obtain ⟨file, inode, cnt, hf⟩ := h.mapFile
  have hcap := hf.capacity
  have hlen := hf.length
  have hroom := hf.room
  simp only [blockSectorSize, capacity] at hlen hcap
  obtain ⟨length, hlength⟩ := Int.eq_ofNat_of_zero_le (by omega : 0 ≤ inode.length)
  have hbytes : offT s.freeMap.toBytes.length = Bitmap.byteCnt s.freeMap.bitCnt := by
    rw [Bitmap.toBytes_length, offT_natCast (by omega)]
  have hnew : offT (((0 : ℕ) : ℤ) + offT s.freeMap.toBytes.length) = Bitmap.byteCnt s.freeMap.bitCnt := by
    rw [hbytes, Nat.cast_zero, zero_add, offT_natCast (by omega)]
  refine Returns.get_bind ?_
  simp only [hf.mounted]
  refine Returns.bind (P := fun _ t => Ready w flat t ∧ t.freeMap = s.freeMap) ?_ fun _ t ht => Returns.pure ht
  rw [fileWriteAtWith, inodeWriteAtWith]
  refine Returns.after (getInode_run hf.opened) ?_
  refine Returns.ite (fun _ => Returns.pure ⟨h, rfl⟩) fun _ => ?_
  rw [hnew, if_neg (by omega), writeOut]
  refine Returns.after (getInode_run hf.opened) ?_
  refine (h.writeFrom hf hlength (by rw [List.length_take, hbytes]; omega)).bind ?_
  rintro n t ⟨ht, hk⟩
  have hft := hf.keep hk
  refine Returns.after (getInode_run hft.opened) ?_
  refine Returns.modify_bind
    (Returns.pure ⟨⟨ht.usable, ht.plain, ht.raw, ht.contained, file, { inode with readLength := inode.length },
    cnt, ?_⟩, hk.freeMap⟩)
  exact ⟨hft.mounted, put_self _ _ _, hft.capacity, hft.length, hft.room, hft.index, hft.apart, hft.data⟩

lemma release (h : Ready w flat s) (hx : Marked s.freeMap x) :
    Returns (freeMapRelease x) s fun _ t => Ready w flat t ∧
    t.freeMap = s.freeMap.setMultiple x.toNat 1 false := by
  obtain ⟨hlt, hbit⟩ := hx
  have hbounds : s.freeMap.InBounds x.toNat 1 := ⟨by omega, by omega⟩
  have hall : s.freeMap.all x.toNat 1 = true := by simp [Bitmap.all, Bitmap.contains, hbit]
  refine Returns.get_bind ?_
  rw [if_neg (by simpa using hbounds), if_neg (by simp [hall])]
  refine Returns.modify_bind ?_
  obtain ⟨file, inode, cnt, hf⟩ := h.mapFile
  have hcleared : Ready w flat { s with freeMap := s.freeMap.setMultiple x.toNat 1 false } :=
    ⟨h.usable, h.plain, h.raw, h.contained, file, inode, cnt, hf.mounted, hf.opened, hf.capacity, hf.length,
      hf.room, hf.index, hf.apart, hf.data⟩
  exact (hcleared.writeMap freeMapAllocate).bind fun _ t ht => Returns.pure ht

end Ready

structure Due (b : Bitmap) (xs : List BlockSector) : Prop where
  nodup : xs.Nodup
  marked : ∀ x ∈ xs, Marked b x

structure Freed (w : BlockSector → Prop) (flat : BlockSector → Sector) (xs : List BlockSector) (s t : Filesys) :
    Prop where
  ready : Ready w flat t
  releases : Releases xs s t
  bitCnt : t.freeMap.bitCnt = s.freeMap.bitCnt
  bits : ∀ n, t.freeMap.bits n = if n ∈ xs.map UInt32.toNat then false else s.freeMap.bits n

namespace Releases

lemma after (h : Releases xs s t) (hs : s.freeMap = v.freeMap) : Releases xs v t := by
  cases h with
  | done he => exact done (he.trans hs)
  | release hu hx hr => exact release (hu.trans hs) hx hr

lemma append (h : Releases xs s t) (h' : Releases ys t v) : Releases (xs ++ ys) s v := by
  induction h with
  | done he => exact h'.after he
  | release hu hx _ ih => exact release hu hx (ih h')

end Releases

namespace Freed

lemma nil (h : Ready w flat t) (he : t.freeMap = s.freeMap) : Freed w flat [] s t :=
  ⟨h, .done he, by rw [he], fun n => by simp [he]⟩

lemma after (h : Freed w flat xs s t) (hs : s.freeMap = v.freeMap) : Freed w flat xs v t :=
  ⟨h.ready, h.releases.after hs, by rw [← hs, h.bitCnt], fun n => by rw [← hs, h.bits]⟩

lemma trans (h : Freed w flat xs s t) (h' : Freed w flat ys t v) : Freed w flat (xs ++ ys) s v where
  ready := h'.ready
  releases := h.releases.append h'.releases
  bitCnt := h'.bitCnt.trans h.bitCnt
  bits n := by
    rw [h'.bits, h.bits, List.map_append]
    by_cases hx : n ∈ xs.map UInt32.toNat
    · rw [if_pos hx, ite_self, if_pos (List.mem_append_left _ hx)]
    · simp only [List.mem_append, hx, false_or, if_false]

lemma due (h : Freed w flat xs s t) (hd : Due s.freeMap (xs ++ ys)) : Due t.freeMap ys where
  nodup := (List.nodup_append.mp hd.nodup).2.1
  marked y hy := by
    obtain ⟨hlt, hbit⟩ := hd.marked y (List.mem_append_right _ hy)
    refine ⟨by rwa [h.bitCnt], ?_⟩
    rw [h.bits, if_neg, hbit]
    intro hmem
    obtain ⟨x, hx, he⟩ := List.mem_map.mp hmem
    exact (List.nodup_append.mp hd.nodup).2.2 x hx y hy (UInt32.toNat_inj.mp he)

end Freed

lemma Due.left {b : Bitmap} (h : Due b (xs ++ ys)) : Due b xs :=
  ⟨(List.nodup_append.mp h.nodup).1, fun x hx => h.marked x (List.mem_append_left _ hx)⟩

lemma Ready.freeMapRelease (h : Ready w flat s) (hx : Marked s.freeMap x) :
    Returns (freeMapRelease x) s fun _ t => Freed w flat [x] s t := by
  obtain ⟨_, t, hrun, ht, hmap⟩ := h.release hx
  refine ⟨_, t, hrun, ht, .release rfl hrun (.done rfl), by rw [hmap]; rfl, fun n => ?_⟩
  rw [hmap, Bitmap.bits_setMultiple_one]
  simp

lemma Ready.releaseAll (h : Ready w flat s) (hd : Due s.freeMap xs) :
    Returns (releaseAll xs) s fun _ t => Freed w flat xs s t := by
  induction xs generalizing s with
  | nil => exact Returns.pure (.nil h rfl)
  | cons x xs ih =>
    rw [Filesys.releaseAll]
    refine (h.freeMapRelease (hd.marked x List.mem_cons_self)).bind ?_
    intro _ t ht
    exact (ih ht.ready (ht.due hd)).mono fun _ v hv => ht.trans hv

/-! The sectors that index blocks stand for. -/

def blockOrder (flat : BlockSector → Sector) (ptr : BlockSector) (dataPtrs : ℕ) : List BlockSector :=
  (List.range dataPtrs).map (flat ptr).word ++ [ptr]

def blocksOrder (flat : BlockSector → Sector) : List BlockSector → ℕ → List BlockSector
  | [], _ => []
  | ptr :: ptrs, dataPtrs =>
    blockOrder flat ptr (min dataPtrs indirectBlockPtrs) ++ blocksOrder flat ptrs
    (dataPtrs - min dataPtrs indirectBlockPtrs)

def doubleOrder (flat : BlockSector → Sector) (ptr : BlockSector) (indirectPtrs dataPtrs : ℕ) : List BlockSector :=
  blocksOrder flat ((List.range indirectPtrs).map (flat ptr).word) dataPtrs ++ [ptr]

lemma Ready.deallocateIndirectBlock (h : Ready w flat s) {ptr : BlockSector} (hw : w ptr) {dataPtrs : ℕ}
    (hd : Due s.freeMap (blockOrder flat ptr dataPtrs)) :
    Returns (inodeDeallocateIndirectBlock ptr dataPtrs) s fun _ t =>
      Freed w flat (blockOrder flat ptr dataPtrs) s t := by
  rw [inodeDeallocateIndirectBlock]
  refine (h.blockRead hw).bind ?_
  rintro block t ⟨rfl, ht, hk⟩
  rw [← hk.freeMap] at hd
  refine (ht.releaseAll hd.left).bind ?_
  intro _ u hu
  refine (hu.ready.freeMapRelease ((hu.due hd).marked ptr (List.mem_singleton_self _))).mono ?_
  exact fun _ v hv => (hu.trans hv).after hk.freeMap

lemma Ready.deallocateIndirectBlocks (h : Ready w flat s) {ptrs : List BlockSector} (hw : ∀ ptr ∈ ptrs, w ptr)
    {dataPtrs : ℕ} (hd : Due s.freeMap (blocksOrder flat ptrs dataPtrs)) :
    Returns (deallocateIndirectBlocks ptrs dataPtrs) s fun left t =>
      left = dataPtrs - indirectBlockPtrs * ptrs.length ∧ Freed w flat (blocksOrder flat ptrs dataPtrs) s t := by
  induction ptrs generalizing s dataPtrs with
  | nil => exact Returns.pure ⟨by simp, .nil h rfl⟩
  | cons ptr ptrs ih =>
    rw [Filesys.deallocateIndirectBlocks]
    refine (h.deallocateIndirectBlock (hw ptr List.mem_cons_self) hd.left).bind ?_
    intro _ t ht
    refine (ih ht.ready (fun p hp => hw p (List.mem_cons_of_mem _ hp)) (ht.due hd)).mono ?_
    rintro left v ⟨rfl, hv⟩
    refine ⟨?_, ht.trans hv⟩
    simp only [List.length_cons, indirectBlockPtrs]
    omega

lemma Ready.deallocateDoubleIndirectBlock (h : Ready w flat s) {ptr : BlockSector} (hw : w ptr)
    {indirectPtrs dataPtrs : ℕ}
    (hle : indirectPtrs ≤ indirectBlockPtrs) (hinner : ∀ j < indirectPtrs, w ((flat ptr).word j))
    (hd : Due s.freeMap (doubleOrder flat ptr indirectPtrs dataPtrs)) :
    Returns (inodeDeallocateDoubleIndirectBlock ptr indirectPtrs dataPtrs) s fun _ t =>
      Freed w flat (doubleOrder flat ptr indirectPtrs dataPtrs) s t := by
  rw [inodeDeallocateDoubleIndirectBlock]
  refine (h.blockRead hw).bind ?_
  rintro block t ⟨rfl, ht, hk⟩
  rw [← hk.freeMap] at hd
  rw [if_neg (by omega)]
  refine (ht.deallocateIndirectBlocks ?_ hd.left).bind ?_
  · intro p hp
    obtain ⟨j, hj, rfl⟩ := List.mem_map.mp hp
    exact hinner j (List.mem_range.mp hj)
  · rintro left u ⟨-, hu⟩
    refine (hu.ready.freeMapRelease ((hu.due hd).marked ptr (List.mem_singleton_self _))).mono ?_
    exact fun _ v hv => (hu.trans hv).after hk.freeMap

lemma blocksOrder_perm (flat : BlockSector → Sector) (ptrs : List BlockSector) (dataPtrs : ℕ) :
    (blocksOrder flat ptrs dataPtrs).Perm ((List.range (min dataPtrs (indirectBlockPtrs * ptrs.length))).map
      (fun i => (flat (ptrs.getD (i / indirectBlockPtrs) 0)).word (i % indirectBlockPtrs)) ++ ptrs) := by
  simp only [indirectBlockPtrs]
  induction ptrs generalizing dataPtrs with
  | nil => simp [blocksOrder]
  | cons ptr ptrs ih =>
    obtain ⟨m, hm⟩ : ∃ m, m = min dataPtrs 128 := ⟨_, rfl⟩
    have hsplit : min dataPtrs (128 * (ptr :: ptrs).length) = m + min (dataPtrs - m) (128 * ptrs.length) := by
      rw [List.length_cons]
      omega
    have hfirst : (List.range m).map (fun i => (flat ((ptr :: ptrs).getD (i / 128) 0)).word (i % 128)) =
        (List.range m).map (flat ptr).word := by
      apply List.map_congr_left
      intro i hi
      have hlt : i < 128 := by
        have := List.mem_range.mp hi
        omega
      rw [Nat.div_eq_of_lt hlt, Nat.mod_eq_of_lt hlt]
      rfl
    have hrest : (List.range (min (dataPtrs - m) (128 * ptrs.length))).map
        ((fun i => (flat ((ptr :: ptrs).getD (i / 128) 0)).word (i % 128)) ∘ fun i => m + i) =
        (List.range (min (dataPtrs - m) (128 * ptrs.length))).map
        (fun i => (flat (ptrs.getD (i / 128) 0)).word (i % 128)) := by
      apply List.map_congr_left
      intro i hi
      obtain rfl : m = 128 := by
        have := List.mem_range.mp hi
        omega
      simp only [comp_apply]
      rw [Nat.add_div_left _ (by decide), Nat.add_mod_left]
      rfl
    rw [hsplit, List.range_add, List.map_append, List.map_map, hfirst, hrest, blocksOrder, blockOrder,
      indirectBlockPtrs, ← hm]
    simp only [List.append_assoc, List.singleton_append]
    refine List.Perm.append_left _ ?_
    exact ((ih (dataPtrs - m)).cons ptr).trans List.perm_middle.symm

lemma blocksOrder_range_perm (flat : BlockSector → Sector) (p : ℕ → BlockSector) (n dataPtrs : ℕ) :
    (blocksOrder flat ((List.range n).map p) dataPtrs).Perm
    ((List.range (min dataPtrs (indirectBlockPtrs * n))).map
      (fun i => (flat (p (i / indirectBlockPtrs))).word (i % indirectBlockPtrs)) ++ (List.range n).map p) := by
  have hperm := blocksOrder_perm flat ((List.range n).map p) dataPtrs
  rw [List.length_map, List.length_range] at hperm
  refine hperm.trans (List.Perm.append_right _ (List.Perm.of_eq (List.map_congr_left fun i hi => ?_)))
  have hlt : i / indirectBlockPtrs < n := by
    have := List.mem_range.mp hi
    simp only [indirectBlockPtrs] at *
    omega
  rw [List.getD_eq_getElem?_getD, List.getElem?_map, List.getElem?_range hlt]
  rfl

namespace MappedInode

variable {f : MappedInode}

def releaseOrder (f : MappedInode) (flat : BlockSector → Sector) : List BlockSector :=
  (List.range (min f.cnt directBlocks)).map f.inode.ptrs ++
    (blocksOrder flat ((List.range (min (indexCnt f.cnt) directBlocks)).map fun j =>
      f.inode.ptrs (directBlocks + j))
      (f.cnt - directBlocks) ++
    if maxSectors < f.cnt then
      doubleOrder flat (f.inode.ptrs doubleIndirectIndex) (indexCnt f.cnt - directBlocks) (f.cnt - maxSectors)
    else [])

lemma sectors_eq (flat : BlockSector → Sector) : f.sectors flat =
    (List.range (min f.cnt 10)).map f.inode.ptrs ++
    ((List.range (min (f.cnt - 10) 1280)).map (fun i => (flat (f.inode.ptrs (10 + i / 128))).word (i % 128)) ++
    (List.range (f.cnt - 1290)).map
      (fun i => (flat ((flat (f.inode.ptrs 20)).word (i / 128))).word (i % 128))) := by
  have hsplit : f.cnt = min f.cnt 10 + (min (f.cnt - 10) 1280 + (f.cnt - 1290)) := by omega
  rw [sectors]
  nth_rw 1 [hsplit]
  rw [List.range_add, List.range_add, List.map_append, List.map_map, List.map_append, List.map_map]
  refine congrArg₂ (· ++ ·) (List.map_congr_left fun i hi => ?_)
    (congrArg₂ (· ++ ·) (List.map_congr_left fun i hi => ?_) (List.map_congr_left fun i hi => ?_))
  · have hlt := List.mem_range.mp hi
    rw [place, if_pos (by simp only [directBlocks]; omega)]
  · have hlt := List.mem_range.mp hi
    have hpos : min f.cnt 10 + i = 10 + i := by omega
    rw [comp_apply, hpos, place, if_neg (by simp only [directBlocks]; omega),
      if_pos (by simp only [maxSectors]; omega)]
    simp only [directBlocks, indirectBlockPtrs, Nat.add_sub_cancel_left]
  · have hlt := List.mem_range.mp hi
    have hpos : min f.cnt 10 + (min (f.cnt - 10) 1280 + i) = 1290 + i := by omega
    simp only [comp_apply]
    rw [hpos, place, if_neg (by simp only [directBlocks]; omega), if_neg (by simp only [maxSectors]; omega)]
    simp only [maxSectors, indirectBlockPtrs, doubleIndirectIndex, Nat.add_sub_cancel_left]

lemma releaseOrder_perm (flat : BlockSector → Sector) :
    (f.releaseOrder flat).Perm (f.sectors flat ++ f.indexBlocks flat) := by
  -- each sector of the block map and each index block is in the order once
  have hsingle : min (f.cnt - 10) (128 * min (indexCnt f.cnt) 10) = min (f.cnt - 10) 1280 := by
    simp only [indexCnt]
    omega
  have hinner : min (f.cnt - 1290) (128 * (indexCnt f.cnt - 10)) = f.cnt - 1290 := by
    simp only [indexCnt]
    omega
  have hblocks :=
    blocksOrder_range_perm flat (fun j => f.inode.ptrs (10 + j)) (min (indexCnt f.cnt) 10) (f.cnt - 10)
  have hdouble := blocksOrder_range_perm flat (flat (f.inode.ptrs 20)).word (indexCnt f.cnt - 10) (f.cnt - 1290)
  simp only [indirectBlockPtrs, hsingle, hinner] at hblocks hdouble
  rw [sectors_eq, releaseOrder, indexBlocks, List.append_assoc]
  simp only [directBlocks, maxSectors, doubleIndirectIndex]
  refine List.Perm.append_left _ ?_
  by_cases hbig : 1290 < f.cnt
  · rw [if_pos hbig, if_pos hbig, doubleOrder]
    refine (hblocks.append (hdouble.append_right _)).trans ?_
    simp only [List.append_assoc]
    exact List.Perm.append_left _ (List.perm_append_comm_assoc _ _ _)
  · have hnone : f.cnt - 1290 = 0 := by omega
    rw [if_neg hbig, if_neg hbig, hnone]
    simpa using hblocks

end MappedInode

lemma indirectSectors_eq {length : ℕ} (hcap : length ≤ blockSectorSize * capacity) :
    (if (length : ℤ) ≤ blockSectorSize * directBlocks then 0
      else sizeT ((offT (length - blockSectorSize * directBlocks + (blockSectorSize * indirectBlockPtrs - 1))).tdiv
        (blockSectorSize * indirectBlockPtrs))) = indexCnt (sectorsOf length) := by
  simp only [blockSectorSize, directBlocks, indirectBlockPtrs, capacity, indexCnt, sectorsOf] at *
  split
  · omega
  · obtain ⟨d, rfl⟩ : ∃ d, length = 5120 + d := ⟨length - 5120, by omega⟩
    have hsum : ((5120 + d : ℕ) : ℤ) - (512 : ℕ) * (10 : ℕ) + ((512 : ℕ) * (128 : ℕ) - 1) = (d + 65535 : ℕ) := by
      push_cast
      ring
    have hdiv : ((512 : ℕ) : ℤ) * (128 : ℕ) = (65536 : ℕ) := by norm_num
    rw [hsum, offT_natCast (by omega), hdiv, ← Int.ofNat_tdiv, sizeT_natCast (by omega)]
    omega

lemma Due.perm {b : Bitmap} (h : Due b xs) (hp : ys.Perm xs) : Due b ys :=
  ⟨hp.nodup_iff.mpr h.nodup, fun y hy => h.marked y (hp.mem_iff.mp hy)⟩

lemma Ready.deallocate (h : Ready w flat s) {inode : InodeData} {length c : ℕ} (hlen : inode.length = length)
    (hcap : length ≤ blockSectorSize * capacity) (hc : sectorsOf length = c)
    (hindex : ∀ x, MappedInode.IsIndex ⟨inode, c⟩ flat x → w x)
    (hd : Due s.freeMap (MappedInode.releaseOrder ⟨inode, c⟩ flat)) :
    Returns (inodeDeallocate inode) s fun _ t => Freed w flat (MappedInode.releaseOrder ⟨inode, c⟩ flat) s t := by
  have hsectors : bytesToSectors length = c := by
    simp only [blockSectorSize, capacity] at hcap
    exact (bytesToSectors_natCast (by omega)).trans hc
  have hcnt : c ≤ capacity := by
    simp only [blockSectorSize, capacity, sectorsOf] at *
    omega
  have hindirect := indirectSectors_eq hcap
  rw [hc] at hindirect
  have hbig : ((blockSectorSize : ℕ) : ℤ) * ((directBlocks : ℕ) + (indirectBlocksCount : ℕ)) < length ↔
    maxSectors < c := by
    simp only [blockSectorSize, directBlocks, indirectBlocksCount, maxSectors, sectorsOf] at *
    omega
  rw [inodeDeallocate]
  simp only [hlen, hsectors, hindirect, hbig]
  -- an inode with fewer sectors than direct pointers has no index blocks
  have hfew : min (indexCnt c) (doubleIndirectIndex - min c directBlocks) = min (indexCnt c) directBlocks := by
    simp only [indexCnt, doubleIndirectIndex, directBlocks]
    omega
  have hptrs : (List.range (min (indexCnt c) directBlocks)).map (fun j => inode.ptrs (min c directBlocks + j)) =
      (List.range (min (indexCnt c) directBlocks)).map fun j => inode.ptrs (directBlocks + j) := by
    refine List.map_congr_left fun j hj => ?_
    have hlt := List.mem_range.mp hj
    refine congrArg inode.ptrs ?_
    simp only [indexCnt, directBlocks] at *
    omega
  have hleft : c - min c directBlocks = c - directBlocks := by omega
  rw [hfew, hptrs, hleft]
  refine (h.releaseAll hd.left).bind ?_
  intro _ t ht
  have hd₁ := ht.due hd
  refine (ht.ready.deallocateIndirectBlocks ?_ hd₁.left).bind ?_
  · intro p hp
    obtain ⟨j, hj, rfl⟩ := List.mem_map.mp hp
    have hlt := List.mem_range.mp hj
    refine hindex _ (.inl ⟨j, ?_, ?_, rfl⟩)
    · omega
    · simp only [indexCnt, directBlocks, indirectBlockPtrs] at *
      omega
  rintro left u ⟨rfl, hu⟩
  have hd₂ := hu.due hd₁
  by_cases hdouble : maxSectors < c
  · rw [if_pos hdouble] at hd₂ ⊢
    have hptr : min c directBlocks + min (indexCnt c) directBlocks = doubleIndirectIndex := by
      simp only [indexCnt, directBlocks, doubleIndirectIndex, maxSectors] at *
      omega
    have hrest :
      c - directBlocks - indirectBlockPtrs *
      ((List.range (min (indexCnt c) directBlocks)).map fun j => inode.ptrs (directBlocks + j)).length =
        c - maxSectors := by
      simp only [List.length_map, List.length_range, indexCnt, directBlocks, indirectBlockPtrs, maxSectors] at *
      omega
    have hcntIndirect : indexCnt c - min (indexCnt c) directBlocks = indexCnt c - directBlocks := by omega
    rw [hptr, hrest, hcntIndirect]
    refine (hu.ready.deallocateDoubleIndirectBlock (hindex _ (MappedInode.isIndex_double hdouble)) ?_ ?_ hd₂).mono
      ?_
    · simp only [indexCnt, directBlocks, indirectBlockPtrs, capacity] at *
      omega
    · intro j hj
      refine hindex _ (.inr ⟨hdouble, .inr ⟨j, ?_, ?_, rfl⟩⟩)
      · simp only [indexCnt, directBlocks, indirectBlockPtrs, capacity] at *
        omega
      · simp only [indexCnt, directBlocks, indirectBlockPtrs, maxSectors] at *
        omega
    · intro _ v hv
      have hall := ht.trans (hu.trans hv)
      rw [MappedInode.releaseOrder, if_pos hdouble]
      exact hall
  · rw [if_neg hdouble]
    have hall := ht.trans (hu.trans (.nil hu.ready rfl))
    refine Returns.pure ?_
    rw [MappedInode.releaseOrder, if_neg hdouble]
    exact hall

theorem inodeDeallocate_frees (s : Filesys) (w : BlockSector → Prop) (inode : InodeData) (length : ℕ)
    (hlen : inode.length = length)
    (hcap : length ≤ blockSectorSize * capacity) (h : Ready w s.disk.device.sectors s)
    (hindex : ∀ x ∈ MappedInode.indexBlocks ⟨inode, sectorsOf length⟩ s.disk.device.sectors, w x)
    (hdue : Due s.freeMap (MappedInode.sectors ⟨inode, sectorsOf length⟩ s.disk.device.sectors ++
      MappedInode.indexBlocks ⟨inode, sectorsOf length⟩ s.disk.device.sectors)) :
    Returns (inodeDeallocate inode) s fun _ t => ∃ order : List BlockSector,
      order.Perm (MappedInode.sectors ⟨inode, sectorsOf length⟩ s.disk.device.sectors ++
        MappedInode.indexBlocks ⟨inode, sectorsOf length⟩ s.disk.device.sectors) ∧
      Freed w s.disk.device.sectors order s t := by
  have hcnt : sectorsOf length ≤ capacity := by
    simp only [blockSectorSize, capacity, sectorsOf] at *
    omega
  have hperm := MappedInode.releaseOrder_perm (f := ⟨inode, sectorsOf length⟩) s.disk.device.sectors
  have hindex' := fun x hx => hindex x ((MappedInode.mem_indexBlocks (f := ⟨inode, sectorsOf length⟩) hcnt).mpr hx)
  exact (h.deallocate hlen hcap rfl hindex' (hdue.perm hperm)).mono fun _ t ht => ⟨_, hperm, ht⟩

/-! A file of eleven sectors, from sector 3 on, with its index block in sector 14. -/

def elevenSectors : InodeData :=
  Layout.inodeData ⟨11, fun i => UInt32.ofNat (3 + i), fun _ => 14⟩ (512 * 11) false rootDirSector

def withElevenSectors : Filesys :=
  { formatted with
    disk := { formatted.disk with
      device := ⟨4096, put (fun _ => zeros) 14 (Block.ofWords fun i => UInt32.ofNat (13 + i))⟩ }
    freeMap := ⟨4096, fun i => i < 15⟩ }

lemma withElevenSectors_due : Due withElevenSectors.freeMap
    (MappedInode.sectors ⟨elevenSectors, 11⟩ withElevenSectors.disk.device.sectors ++
      MappedInode.indexBlocks ⟨elevenSectors, 11⟩ withElevenSectors.disk.device.sectors) := by
  have hlist : MappedInode.sectors ⟨elevenSectors, 11⟩ withElevenSectors.disk.device.sectors ++
      MappedInode.indexBlocks ⟨elevenSectors, 11⟩ withElevenSectors.disk.device.sectors =
      (List.range 12).map fun i => UInt32.ofNat (3 + i) := by decide
  rw [hlist]
  refine ⟨by decide, fun x hx => ?_⟩
  obtain ⟨i, hi, rfl⟩ := List.mem_map.mp hx
  have hlt := List.mem_range.mp hi
  have htoNat : (UInt32.ofNat (3 + i)).toNat = 3 + i := by
    rw [UInt32.toNat_ofNat', Nat.mod_eq_of_lt (by omega)]
  rw [Marked, htoNat]
  exact ⟨(by omega : 3 + i < 4096), decide_eq_true (by omega : 3 + i < 15)⟩

lemma withElevenSectors_ready : Ready (· = 14) withElevenSectors.disk.device.sectors withElevenSectors where
  usable := ⟨fun _ => rfl, nofun⟩
  plain := fun _ => nofun
  raw := fun _ => rfl
  contained := by
    rintro x rfl
    exact (by decide : (14 : UInt32) < 4096)
  mapFile := by
    refine ⟨fileOpen freeMapSector, mapInode, 1, rfl, rfl, by decide, by decide, by decide, ?_, ?_, ?_⟩
    · rintro x (⟨j, -, hj, -⟩ | ⟨hbig, -⟩)
      · simp only [directBlocks] at hj
        omega
      · simp only [maxSectors] at hbig
        omega
    · intro i hi
      obtain rfl := Nat.lt_one_iff.mp hi
      exact (by decide : (2 : UInt32) ≠ 14)
    · intro i hi
      obtain rfl := Nat.lt_one_iff.mp hi
      exact (by decide : (2 : UInt32) < 4096)

theorem inodeDeallocate_frees_eleven : Returns (inodeDeallocate elevenSectors) withElevenSectors fun _ t =>
    ∃ order : List BlockSector, order.Perm
    (MappedInode.sectors ⟨elevenSectors, 11⟩ withElevenSectors.disk.device.sectors ++
      MappedInode.indexBlocks ⟨elevenSectors, 11⟩ withElevenSectors.disk.device.sectors) ∧
      Freed (· = 14) withElevenSectors.disk.device.sectors order withElevenSectors t := by
  refine inodeDeallocate_frees withElevenSectors (· = 14) elevenSectors (512 * 11) rfl
    (by decide) withElevenSectors_ready ?_
    withElevenSectors_due
  have hindex :
    MappedInode.indexBlocks ⟨elevenSectors, 11⟩ withElevenSectors.disk.device.sectors = [14] := by decide
  intro x hx
  exact List.mem_singleton.mp (hindex ▸ hx)

end CourseArchive.PintOS.Filesys
