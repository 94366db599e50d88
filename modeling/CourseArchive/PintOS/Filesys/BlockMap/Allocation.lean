import CourseArchive.PintOS.Filesys.BlockMap.Tables

/-! Allocation of a sector, with the write of the free-map file that it makes. -/

namespace CourseArchive.PintOS.Filesys

open Lib Function CachedDisk

structure OpenMap (s : Filesys) (u : Usage) (f : File) (inode : Inode) (L : Layout) : Prop where
  sector : f.inode = freeMapSector
  opened : s.openInodes f.inode = some inode
  writable : inode.denyWriteCnt = 0
  read : inode.readLength = inode.length
  mapped : Mapped inode.toInodeData L
  claims : Claims u f.inode L
  cnt : L.cnt ≤ maxSectors
  room : (Bitmap.byteCnt s.freeMap.bitCnt : ℤ) ≤ inode.length
  length : inode.length ≤ 512 * L.cnt

/-- The free-map file has room for the free map once it is open; `free_map_create` has not opened it yet. -/
def MapFile (s : Filesys) (u : Usage) : Prop :=
  ∀ f, s.freeMapFile = some f → ∃ inode L, OpenMap s u f inode L

def AllocatedSince (s t : Filesys) (x : BlockSector) : Prop :=
  ∃ l, t.log = l ++ s.log ∧ FsEvent.allocated x ∈ l

structure Allocated (s : Filesys) (x : BlockSector) (t : Filesys) : Prop where
  free : s.freeMap.bits x.toNat = false
  contained : s.disk.device.Contains x
  keeps : Keeps s t
  freeMap : t.freeMap = s.freeMap.setMultiple x.toNat 1 true
  logged : AllocatedSince s t x

variable {s t : Filesys} {u u' : Usage} {x k : BlockSector}

lemma AllocatedSince.later {v : Filesys} (h : AllocatedSince s t x) (hk : Keeps t v) : AllocatedSince s v x := by
  obtain ⟨l, hl, hx⟩ := h
  obtain ⟨l', hl'⟩ := hk.log
  refine ⟨l' ++ l, ?_, List.mem_append_right l' hx⟩
  rw [← hl', hl, List.append_assoc]

lemma AllocatedSince.earlier {r : Filesys} (h : AllocatedSince s t x) (hk : Keeps r s) : AllocatedSince r t x := by
  obtain ⟨l, hl, hx⟩ := h
  obtain ⟨l', hl'⟩ := hk.log
  refine ⟨l ++ l', ?_, List.mem_append_left l' hx⟩
  rw [hl, ← hl', List.append_assoc]

lemma Tables.bitCnt_eq (h : Tables s u) (h' : Tables t u') (hk : Keeps s t) :
    t.freeMap.bitCnt = s.freeMap.bitCnt := by
  rw [h.size, h'.size, hk.size]

lemma MapFile.frame (hm : MapFile s u) (hk : Keeps s t) (hb : t.freeMap.bitCnt = s.freeMap.bitCnt)
    (hu : ∀ x, (u.role x).owner = some freeMapSector → u'.role x = u.role x ∧ u'.flat x = u.flat x) :
    MapFile t u' := by
  intro f hf
  obtain ⟨inode, L, h⟩ := hm f (by rw [← hk.freeMapFile, hf])
  refine ⟨inode, L, h.sector, ?_, h.writable, h.read, h.mapped, h.claims.frame ?_, h.cnt, ?_, h.length⟩
  · rw [hk.openInodes, h.opened]
  · rw [h.sector]
    exact hu
  · rw [hb]
    exact h.room

lemma getInode_run {inode : Inode} (h : s.openInodes k = some inode) : getInode k s = .ok (inode, s) := by
  simp [getInode, bind_get, h, pure_run]

lemma setInode_same {inode : Inode} (h : s.openInodes k = some inode) :
    setInode k (some inode) s = .ok ((), s) := by
  have he : put s.openInodes k (some inode) = s.openInodes := by
    rw [put_eq_update, ← h, update_eq_self]
  simp [setInode, modify_run, he]

lemma byteCnt_lt (h : Tables s u) : Bitmap.byteCnt s.freeMap.bitCnt < 2 ^ 31 := by
  have hlt := s.disk.device.size.toNat_lt
  simp only [Bitmap.byteCnt, Bitmap.elemCnt, h.size]
  omega

namespace Tables

lemma writeMap (h : Tables s u) {f : File} {inode : Inode} {L : Layout} (ho : OpenMap s u f inode L)
    (alloc : Allocator) : Returns (fileWriteAtWith alloc f s.freeMap.toBytes 0) s fun n t =>
      n = Bitmap.byteCnt s.freeMap.bitCnt ∧ Tables t u ∧ KeepsMap s t ∧
        Preserves (fun y => (u.role y).owner = some freeMapSector) s.disk t.disk := by
  have hbound := byteCnt_lt h
  have hroom := ho.room
  obtain ⟨len, hl⟩ : ∃ len : ℕ, inode.length = len := Int.eq_ofNat_of_zero_le (by omega)
  have hlen : offT s.freeMap.toBytes.length = Bitmap.byteCnt s.freeMap.bitCnt := by
    rw [Bitmap.toBytes_length, offT_natCast hbound]
  have hnew : offT (((0 : ℕ) : ℤ) + offT s.freeMap.toBytes.length) = Bitmap.byteCnt s.freeMap.bitCnt := by
    rw [hlen, Nat.cast_zero, zero_add, offT_natCast hbound]
  have htake : s.freeMap.toBytes.take (Bitmap.byteCnt s.freeMap.bitCnt) = s.freeMap.toBytes := by
    rw [← Bitmap.toBytes_length, List.take_length]
  obtain ⟨n, t, hn, rfl, ht, hk, hp⟩ := @Tables.writeFrom _ _ _ _ _ h ho.claims ho.mapped ho.cnt _ hl
    (by exact_mod_cast hl ▸ ho.length) _ s.freeMap.toBytes 0 (Bitmap.toBytes_length _).le
  have hopen : t.openInodes f.inode = some inode := by rw [hk.openInodes, ho.opened]
  have hsame := setInode_same hopen
  rw [ho.sector] at hp
  refine ⟨(min s.freeMap.toBytes.length (len - 0) : ℕ), t, ?_, ?_, ht, hk, hp⟩
  · rw [fileWriteAtWith, inodeWriteAtWith, bind_ok (getInode_run ho.opened), if_neg (by simp [ho.writable]),
      hnew, if_neg (by omega), writeOut, bind_ok (getInode_run ho.opened), hlen, Int.toNat_natCast, htake,
      bind_ok hn, bind_ok (getInode_run hopen), ← ho.read, bind_ok hsame]
    rfl
  · rw [Bitmap.toBytes_length]
    omega

lemma saveFreeMap (h : Tables s u) (hm : MapFile s u) (alloc : Allocator) :
    Returns (saveFreeMap alloc) s fun b t => b = true ∧ Tables t u ∧ KeepsMap s t ∧
      Preserves (fun y => (u.role y).owner = some freeMapSector) s.disk t.disk := by
  refine Returns.get_bind ?_
  cases hf : s.freeMapFile with
  | none => exact Returns.pure ⟨rfl, h, KeepsMap.refl s, Preserves.refl s.disk⟩
  | some f =>
    obtain ⟨inode, L, ho⟩ := hm f hf
    simp only [Option.isSome_some, if_true]
    refine Returns.get_bind ?_
    simp only [hf]
    refine (h.writeMap ho alloc).bind ?_
    rintro n t ⟨rfl, ht, hk, hp⟩
    refine Returns.pure ⟨?_, ht, hk, hp⟩
    simp [offT_natCast (byteCnt_lt h)]

lemma freeMapAllocate (h : Tables s u) (hm : MapFile s u) (hf : 0 < s.freeMap.freeCnt) :
    Returns freeMapAllocate s fun r t => ∃ x, r = some x ∧ Allocated s x t ∧ Tables t u ∧
      Preserves (fun y => (u.role y).owner = some freeMapSector) s.disk t.disk := by
  obtain ⟨i, hscan, hi, hfree⟩ := Bitmap.scan_of_freeCnt_pos hf
  have hlt := s.disk.device.size.toNat_lt
  have hsize := h.size
  have htoNat : (UInt32.ofNat i).toNat = i := by
    rw [UInt32.toNat_ofNat', Nat.mod_eq_of_lt (by omega)]
  have hcontained : s.disk.device.Contains (UInt32.ofNat i) := by
    rw [Device.Contains, UInt32.lt_iff_toNat_lt, htoNat]
    omega
  let v : Filesys := { s with freeMap := s.freeMap.setMultiple i 1 true }
  have hv : Tables v u := by
    refine ⟨h.usable, h.plain, h.raw, fun {y} hy => ⟨?_, (h.marked hy).2⟩, h.size⟩
    change (s.freeMap.setMultiple i 1 true).bits y.toNat = true
    rw [Bitmap.bits_setMultiple_one, (h.marked hy).1, ite_self]
  have hkeeps : Keeps s v := ⟨rfl, rfl, rfl, List.suffix_rfl, 0, by simp [v]⟩
  have hmv : MapFile v u := hm.frame hkeeps rfl fun _ _ => ⟨rfl, rfl⟩
  refine Returns.get_bind ?_
  simp only [hscan]
  refine Returns.modify_bind ?_
  refine (hv.saveFreeMap hmv _).bind ?_
  rintro b t ⟨rfl, ht, hk, hp⟩
  refine Returns.modify_bind (Returns.pure ⟨UInt32.ofNat i, rfl, ⟨?_, hcontained, ?_, ?_, ?_⟩, ht.logged _, hp⟩)
  · rw [htoNat, hfree]
  · exact hkeeps.trans (hk.toKeeps.trans (KeepsMap.logged t _).toKeeps)
  · rw [htoNat]
    exact hk.freeMap
  · obtain ⟨l, hl⟩ := hk.log
    exact ⟨.allocated (UInt32.ofNat i) :: l, congrArg _ hl.symm, List.mem_cons_self⟩

end Tables

end CourseArchive.PintOS.Filesys
