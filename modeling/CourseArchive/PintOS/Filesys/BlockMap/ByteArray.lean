import CourseArchive.PintOS.Filesys.BlockMap.Pointers

/-! Inodes with separate block maps as byte arrays: what `inode_read_at` and `inode_write_at` do to them. -/

namespace CourseArchive.PintOS.Filesys

open Lib Function CachedDisk

structure BlockMaps {ι : Type} (files : ι → MappedInode) (d : Device) (flat : BlockSector → Sector) : Prop where
  capacity : ∀ a, (files a).cnt ≤ capacity
  separate : ∀ {a b i j}, i < (files a).cnt → j < (files b).cnt → (files a).place flat i = (files b).place flat j →
    a = b ∧ i = j
  apart : ∀ {a b i}, i < (files a).cnt → ¬ (files b).IsIndex flat ((files a).place flat i)
  data : ∀ {a i}, i < (files a).cnt → d.Contains ((files a).place flat i)
  index : ∀ {a x}, (files a).IsIndex flat x → d.Contains x

/-- The cache and the device stand for the sectors `flat`, with the index blocks on the device alone, and `flat`
has the block maps of the inodes. -/
structure Holds {ι : Type} (files : ι → MappedInode) (s : Filesys) (flat : BlockSector → Sector) : Prop where
  coherent : s.disk.Coherent flat
  idle : s.disk.Idle
  unheld : ∀ {a x}, (files a).IsIndex flat x → ¬ s.disk.Held x
  maps : BlockMaps files s.disk.device flat

structure OpenAs {ι : Type} (files : ι → MappedInode) (s : Filesys) (a : ι) (k : BlockSector) (inode : Inode) :
    Prop where
  opened : s.openInodes k = some inode
  data : inode.toInodeData = (files a).inode
  length : inode.length ≤ blockSectorSize * (files a).cnt
  readLength : inode.readLength ≤ blockSectorSize * (files a).cnt

variable {ι : Type} {files : ι → MappedInode} {s : Filesys} {flat flat' : BlockSector → Sector} {a : ι}
  {k x : BlockSector}
  {inode : Inode}

lemma BlockMaps.congr {d d' : Device} (h : BlockMaps files d flat) (hd : d'.size = d.size)
    (hx : ∀ {a x}, (files a).IsIndex flat x → flat' x = flat x) : BlockMaps files d' flat' := by
  have hplace : ∀ {a i}, i < (files a).cnt → (files a).place flat' i = (files a).place flat i :=
    fun {a _} hi => MappedInode.place_congr (h.capacity a) hx hi
  have hcontains : ∀ {x}, d.Contains x → d'.Contains x := by
    intro x hc
    rwa [Device.Contains, hd]
  refine ⟨h.capacity, ?_, ?_, ?_, ?_⟩
  · intro a b i j hi hj he
    rw [hplace hi, hplace hj] at he
    exact h.separate hi hj he
  · intro a b i hi hindex
    rw [hplace hi, MappedInode.isIndex_congr hx] at hindex
    exact h.apart hi hindex
  · intro a i hi
    rw [hplace hi]
    exact hcontains (h.data hi)
  · intro a x hindex
    exact hcontains (h.index ((MappedInode.isIndex_congr hx).mp hindex))

section Stored

variable {off : ℕ} {buf : List UInt8} {d : Device}

lemma BlockMaps.index_stored (h : BlockMaps files d flat)
    (hs : Stored ((files a).place flat) (files a).cnt off buf flat flat')
    {b : ι} (hx : (files b).IsIndex flat x) : flat' x = flat x := by
  refine hs.others fun i hi he => ?_
  rw [he] at hx
  exact h.apart hi hx

lemma BlockMaps.place_stored (h : BlockMaps files d flat)
    (hs : Stored ((files a).place flat) (files a).cnt off buf flat flat')
    {b : ι} {i : ℕ} (hi : i < (files b).cnt) : (files b).place flat' i = (files b).place flat i :=
  MappedInode.place_congr (h.capacity b) (h.index_stored hs) hi

end Stored

namespace Holds

lemma settled (h : Holds files s flat) {d : CachedDisk} {i : ℕ} (hi : i < (files a).cnt)
    (hd : Settled s.disk flat' ((files a).place flat i) d)
    (hx : ∀ {a x}, (files a).IsIndex flat x → flat' x = flat x) :
    Holds files { s with disk := d } flat' where
  coherent := hd.coherent
  idle := hd.idle
  unheld {b x} hindex hheld := by
    have hindex' := (MappedInode.isIndex_congr hx).mp hindex
    rcases hd.held hheld with hheld | rfl
    · exact h.unheld hindex' hheld
    · exact h.maps.apart hi hindex'
  maps := h.maps.congr hd.size hx

lemma logged (h : Holds files s flat) (e : FsEvent) : Holds files { s with log := e :: s.log } flat :=
  ⟨h.coherent, h.idle, h.unheld, h.maps⟩

lemma blockRead (h : Holds files s flat) (hx : (files a).IsIndex flat x) :
    Returns (blockRead x) s fun v t => v = flat x ∧ Holds files t flat ∧ KeepsMap s t := by
  have hv : s.disk.device.sectors x = flat x := h.coherent.repr.unheld fun i hi => h.unheld hx ⟨i, hi⟩
  exact ⟨flat x, _, blockRead_run (h.maps.index hx) hv, rfl, h.logged _, KeepsMap.logged _ _⟩

lemma byteToSector (h : Holds files s flat) {length : ℤ} {pos : ℕ} (hlen : pos < length)
    (hpos : pos / 512 < (files a).cnt) :
    Returns (byteToSector (files a).inode length pos) s fun x t =>
      x = (files a).place flat (pos / 512) ∧ Holds files t flat ∧ KeepsMap s t := by
  refine MappedInode.byteToSector_follows (files a) flat (I := fun t => Holds files t flat ∧ KeepsMap s t) ?_
    (h.maps.capacity a) hlen hpos
    ⟨h, KeepsMap.refl s⟩
  rintro x t ⟨ht, hk⟩ hx
  refine (ht.blockRead hx).mono ?_
  rintro v w ⟨rfl, hw, hk'⟩
  exact ⟨rfl, hw, hk.trans hk'⟩

lemma cacheRead (h : Holds files s flat) {i off n : ℕ} (hi : i < (files a).cnt) (hn : off + n ≤ blockSectorSize) :
    Returns (onDisk (cacheRead ((files a).place flat i) off n)) s fun bs t =>
      bs = (flat ((files a).place flat i)).slice off n ∧ Holds files t flat ∧ KeepsMap s t := by
  refine (onDisk_returns (read_returns h.coherent h.idle (h.maps.data hi) hn)).mono ?_
  rintro bs t ⟨d, rfl, rfl, hd⟩
  exact ⟨rfl, h.settled hi hd fun _ => rfl, KeepsMap.withDisk hd.size⟩

lemma cacheWrite (h : Holds files s flat) {i off : ℕ} {buf : List UInt8} (hi : i < (files a).cnt)
    (hn : off + buf.length ≤ blockSectorSize) :
    Returns (onDisk (cacheWrite ((files a).place flat i) off buf)) s fun _ t =>
      Holds files t (update flat ((files a).place flat i) ((flat ((files a).place flat i)).patch off buf)) ∧
      KeepsMap s t := by
  refine (onDisk_returns (write_returns h.coherent h.idle (h.maps.data hi) hn)).mono ?_
  rintro _ t ⟨d, rfl, hd⟩
  refine ⟨h.settled hi hd fun {b x} hindex => update_of_ne ?_ _ _, KeepsMap.withDisk hd.size⟩
  rintro rfl
  exact h.maps.apart hi hindex

lemma readFrom (h : Holds files s flat) {length fuel size offset : ℕ} (hlen : length ≤ 512 * (files a).cnt)
    (hf : size ≤ fuel) :
    Returns (readFrom (files a).inode length fuel size offset) s fun bs t =>
      bs = (files a).bytes flat offset (min size (length - offset)) ∧ Holds files t flat ∧ KeepsMap s t := by
  refine readFrom_loop (I := fun t => Holds files t flat ∧ KeepsMap s t) flat ((files a).place flat) ?_ hlen hf
    ⟨h, KeepsMap.refl s⟩
  rintro off n t ⟨ht, hk⟩ hlt hi hn
  refine (ht.byteToSector (a := a) (by exact_mod_cast hlt) hi).mono ?_
  rintro x v ⟨rfl, hv, hk'⟩
  refine (hv.cacheRead hi hn).mono ?_
  rintro bs w ⟨rfl, hw, hk''⟩
  exact ⟨rfl, hw, (hk.trans hk').trans hk''⟩

lemma writeFrom (h : Holds files s flat) {length fuel : ℕ} {buffer : List UInt8} {offset : ℕ}
    (hl : (files a).inode.length = length) (hlen : length ≤ 512 * (files a).cnt) (hf : buffer.length ≤ fuel) :
    Returns (writeFrom k (files a).inode fuel buffer offset) s fun n t =>
      n = min buffer.length (length - offset) ∧ KeepsMap s t ∧
      ∃ flat', Holds files t flat' ∧
        Stored ((files a).place flat) (files a).cnt offset (buffer.take n) flat flat' := by
  refine writeFrom_loop (I := fun done t => KeepsMap s t ∧
      ∃ flat', Holds files t flat' ∧ Stored ((files a).place flat) (files a).cnt offset done flat flat') hl ?_ hf
    ⟨KeepsMap.refl s, flat, h, Stored.nil flat _ _ offset⟩
  rintro done buf t ⟨hk, flat', ht, hs⟩ hlt hn
  have hi : (offset + done.length) / 512 < (files a).cnt := by omega
  refine (ht.byteToSector (a := a) (by exact_mod_cast hlt) hi).mono ?_
  rintro x v ⟨rfl, hv, hk'⟩
  refine ((hv.logged _).cacheWrite hi hn).mono ?_
  rintro _ w ⟨hw, hk''⟩
  refine ⟨hk.trans (hk'.trans ((KeepsMap.logged _ _).trans hk'')), _, hw, hs.append ?_⟩
  -- what is written so far has moved no sector
  refine Stored.congr_place ?_ fun i hi' => (h.maps.place_stored hs hi').symm
  exact Stored.patch (ht.maps.separate · · · |>.2) hi hn (by decide)

end Holds

structure Overwritten (files : ι → MappedInode) (a : ι) (off : ℕ) (buf : List UInt8)
    (flat flat' : BlockSector → Sector) :
    Prop where
  self : ∀ p < blockSectorSize * (files a).cnt, (files a).byte flat' p =
    if off ≤ p ∧ p < off + buf.length then buf.getD (p - off) 0 else (files a).byte flat p
  others : ∀ b, b ≠ a → ∀ p < blockSectorSize * (files b).cnt, (files b).byte flat' p = (files b).byte flat p

def ReadsBytes (files : ι → MappedInode) (flat : BlockSector → Sector) (a : ι) (k : BlockSector) (inode : Inode)
    (s : Filesys) (size : ℤ) (offset : ℕ) : Prop :=
  Returns (inodeReadAt k size offset) s fun bytes t =>
    bytes = (files a).bytes flat offset (min size.toNat (inode.readLength - offset).toNat) ∧ Holds files t flat ∧
      t.openInodes = s.openInodes

def WritesBytes (files : ι → MappedInode) (flat : BlockSector → Sector) (a : ι) (k : BlockSector) (inode : Inode)
    (s : Filesys) (buffer : List UInt8) (offset : ℕ) : Prop :=
  Returns (inodeWriteAt k buffer offset) s fun n t =>
    n = buffer.length ∧ t.openInodes = put s.openInodes k (some { inode with readLength := inode.length }) ∧
      ∃ flat', Holds files t flat' ∧ Overwritten files a offset buffer flat flat'

lemma Holds.setInode (h : Holds files s flat) (i : Option Inode) :
    Holds files { s with openInodes := put s.openInodes k i } flat := ⟨h.coherent, h.idle, h.unheld, h.maps⟩

lemma BlockMaps.overwritten {d : Device} (h : BlockMaps files d flat) {off : ℕ} {buf : List UInt8}
    (hs : Stored ((files a).place flat) (files a).cnt off buf flat flat') :
    Overwritten files a off buf flat flat' where
  self p hp := by
    have hi : p / blockSectorSize < (files a).cnt := Nat.div_lt_of_lt_mul hp
    rw [MappedInode.byte, byteAt, h.place_stored hs hi]
    exact hs.bytes hi
  others b hb p hp := by
    have hi : p / blockSectorSize < (files b).cnt := Nat.div_lt_of_lt_mul hp
    rw [MappedInode.byte, MappedInode.byte, byteAt, byteAt, h.place_stored hs hi, hs.others]
    exact fun i hia he => hb (h.separate hi hia he).1

lemma readAt_bytes (h : Holds files s flat) (ho : OpenAs files s a k inode) (size : ℤ) (offset : ℕ) :
    ReadsBytes files flat a k inode s size offset := by
  have hread := ho.readLength
  simp only [blockSectorSize] at hread
  rw [ReadsBytes, inodeReadAt]
  refine Returns.after (getInode_run ho.opened) ?_
  by_cases hoff : inode.readLength ≤ offset
  · rw [if_pos hoff, show (inode.readLength - offset).toNat = 0 by omega]
    exact Returns.pure ⟨by simp [MappedInode.bytes], h, rfl⟩
  · obtain ⟨length, hlength⟩ := Int.eq_ofNat_of_zero_le (by omega : 0 ≤ inode.readLength)
    rw [if_neg hoff, hlength, ho.data]
    refine (h.readFrom (a := a) (by omega) le_rfl).mono ?_
    rintro bytes t ⟨rfl, ht, hk⟩
    refine ⟨?_, ht, hk.openInodes⟩
    congr 2
    omega

lemma writeAt_bytes (h : Holds files s flat) (ho : OpenAs files s a k inode) (hd : inode.denyWriteCnt = 0)
    {buffer : List UInt8} {offset : ℕ} (hlt : (offset + buffer.length : ℕ) ≤ inode.length) :
    WritesBytes files flat a k inode s buffer offset := by
  have hlen := ho.length
  have hcap := h.maps.capacity a
  simp only [blockSectorSize, capacity] at hlen hcap
  obtain ⟨length, hlength⟩ := Int.eq_ofNat_of_zero_le (by omega : 0 ≤ inode.length)
  have hb : buffer.length < 2 ^ 31 := by omega
  have hoff : offT (offset + offT buffer.length) = (offset + buffer.length : ℕ) := by
    rw [offT_natCast hb, ← Nat.cast_add, offT_natCast (by omega)]
  have hsize : (offT buffer.length).toNat = buffer.length := by rw [offT_natCast hb, Int.toNat_natCast]
  rw [WritesBytes, inodeWriteAt, inodeWriteAtWith]
  refine Returns.after (getInode_run ho.opened) ?_
  rw [if_neg (by simp [hd]), hoff, if_neg (by omega), writeOut, hsize, List.take_length]
  refine Returns.after (getInode_run ho.opened) ?_
  rw [ho.data]
  refine (h.writeFrom (a := a) (k := k) (by rw [← ho.data]; exact hlength) (by omega) le_rfl).bind ?_
  rintro n t ⟨hn, hk, flat', ht, hstored⟩
  obtain rfl : n = buffer.length := by omega
  rw [List.take_length] at hstored
  refine Returns.after (getInode_run (by rw [hk.openInodes]; exact ho.opened)) ?_
  refine Returns.modify_bind (Returns.pure ⟨rfl, ?_, flat', ht.setInode _, h.maps.overwritten hstored⟩)
  rw [hk.openInodes, ho.data]

lemma writeAt_denied (ho : s.openInodes k = some inode) (hd : inode.denyWriteCnt ≠ 0) (buffer : List UInt8)
    (offset : ℕ) :
    inodeWriteAt k buffer offset s = .ok (0, s) := by
  rw [inodeWriteAt, inodeWriteAtWith, bind_ok (getInode_run ho), if_pos hd]
  rfl

/-- Inodes with separate block maps are byte arrays: a read copies the bytes that are there, a write that stays
inside the inode stores what it is given and changes no other byte of any inode, and a denied write changes
nothing. -/
theorem inodes_are_byteArrays (files : ι → MappedInode) (s : Filesys) (flat : BlockSector → Sector) (a : ι)
    (k : BlockSector) (inode : Inode) (h : Holds files s flat) (ho : OpenAs files s a k inode) :
    (∀ size offset, ReadsBytes files flat a k inode s size offset) ∧
    (inode.denyWriteCnt = 0 → ∀ (buffer : List UInt8) (offset : ℕ), (offset + buffer.length : ℕ) ≤ inode.length →
      WritesBytes files flat a k inode s buffer offset) ∧
    (inode.denyWriteCnt ≠ 0 → ∀ (buffer : List UInt8) (offset : ℕ), inodeWriteAt k buffer offset s = .ok (0, s)) :=
  ⟨readAt_bytes h ho, fun hd _ _ hlt => writeAt_bytes h ho hd hlt, writeAt_denied ho.opened⟩

/-! Two inodes: one of twelve sectors, the last two by an index block, which is open, and one of one byte. -/

def indexedLayout : Layout :=
  ⟨12, fun i => if i < 10 then UInt32.ofNat (i + 3) else UInt32.ofNat (i + 4), fun _ => 13⟩

def indexedSectors (x : BlockSector) : Sector :=
  if x = 13 then Block.ofWords fun w => UInt32.ofNat (w + 14) else zeros

def twoFiles : Bool → MappedInode
  | false => ⟨indexedLayout.inodeData 6000 false rootDirSector, 12⟩
  | true => ⟨Layout.inodeData ⟨1, fun _ => 16, fun _ => 0⟩ 1 false rootDirSector, 1⟩

def openWith (denyWriteCnt : ℤ) : Inode :=
  ⟨indexedLayout.inodeData 6000 false rootDirSector, 2, 1, false, denyWriteCnt, 6000, false⟩

def twoFilesOpen (denyWriteCnt : ℤ) : Filesys :=
  { oneByte with
    disk := { oneByte.disk with device := ⟨4096, indexedSectors⟩ }
    openInodes := put (fun _ => none) 2 (some (openWith denyWriteCnt)) }

lemma twoFiles_separate : ∀ a b, ∀ i < (twoFiles a).cnt, ∀ j < (twoFiles b).cnt,
    (twoFiles a).place indexedSectors i = (twoFiles b).place indexedSectors j → a = b ∧ i = j := by
  decide

lemma twoFiles_data : ∀ a, ∀ i < (twoFiles a).cnt,
    (twoFiles a).place indexedSectors i ≠ 13 ∧ (twoFiles a).place indexedSectors i < 4096 := by
  decide

lemma twoFiles_index {b : Bool} (h : (twoFiles b).IsIndex flat x) : x = 13 := by
  have hcnt : (twoFiles b).cnt ≤ 12 := by cases b <;> decide
  rcases h with ⟨j, -, hj, rfl⟩ | ⟨hbig, -⟩
  · simp only [directBlocks, indirectBlockPtrs] at hj
    obtain rfl : j = 0 := by omega
    cases b with
    | false => rfl
    | true => simp [twoFiles] at hj
  · simp only [maxSectors] at hbig
    omega

lemma twoFiles_holds (d : ℤ) : Holds twoFiles (twoFilesOpen d) indexedSectors := by
  have hdisk : (twoFilesOpen d).disk.cacheInit = (twoFilesOpen d).disk := rfl
  refine ⟨hdisk ▸ init_coherent (twoFilesOpen d).disk, hdisk ▸ init_idle (twoFilesOpen d).disk, ?_, ?_,
    fun hi hj => twoFiles_separate _ _ _ hi _ hj, ?_, fun hi => (twoFiles_data _ _ hi).2, ?_⟩
  · rintro a x - ⟨i, hvalid, -⟩
    cases hvalid
  · intro a
    cases a <;> decide
  · intro a b i hi hindex
    exact (twoFiles_data a i hi).1 (twoFiles_index hindex)
  · intro a x hindex
    rw [twoFiles_index hindex]
    change (13 : UInt32) < 4096
    decide

lemma twoFiles_open (d : ℤ) : OpenAs twoFiles (twoFilesOpen d) false 2 (openWith d) :=
  ⟨rfl, rfl, (by decide : (6000 : ℤ) ≤ 6144), (by decide : (6000 : ℤ) ≤ 6144)⟩

theorem inodes_are_byteArrays_twoFiles :
    ReadsBytes twoFiles indexedSectors false 2 (openWith 0) (twoFilesOpen 0) 1000 5000 ∧
    WritesBytes twoFiles indexedSectors false 2 (openWith 0) (twoFilesOpen 0) [7, 8] 5119 ∧
    inodeWriteAt 2 [7, 8] 5119 (twoFilesOpen 1) = .ok (0, twoFilesOpen 1) := by
  -- the buffer crosses from the last sector that the inode points to itself into the first that its index block
  -- points to
  obtain ⟨hread, hwrite, -⟩ := inodes_are_byteArrays twoFiles (twoFilesOpen 0) indexedSectors false 2 (openWith 0)
    (twoFiles_holds 0) (twoFiles_open 0)
  obtain ⟨-, -, hdenied⟩ := inodes_are_byteArrays twoFiles (twoFilesOpen 1) indexedSectors false 2 (openWith 1)
    (twoFiles_holds 1) (twoFiles_open 1)
  exact ⟨hread 1000 5000, hwrite rfl [7, 8] 5119 (by decide), hdenied (by decide) [7, 8] 5119⟩

theorem denied_write_stores_nothing : Holds twoFiles (twoFilesOpen 1) indexedSectors ∧
    OpenAs twoFiles (twoFilesOpen 1) false 2 (openWith 1) ∧
    ¬ WritesBytes twoFiles indexedSectors false 2 (openWith 1) (twoFilesOpen 1) [7] 0 := by
  refine ⟨twoFiles_holds 1, twoFiles_open 1, ?_⟩
  rintro ⟨n, t, hrun, rfl, -⟩
  rw [writeAt_denied (twoFiles_open 1).opened (by decide)] at hrun
  simp at hrun

end CourseArchive.PintOS.Filesys
