import CourseArchive.PintOS.Filesys.BlockMap.Contents
import CourseArchive.PintOS.Filesys.CacheProofs.Shown

/-! The block map as the device has it, whatever the cache holds of the sectors of data. -/

namespace CourseArchive.PintOS.Filesys

open Lib Function CachedDisk

def Role.Raw (r : Role) : Prop := ∀ k i, r ≠ .data k i

lemma Role.raw_free : Role.free.Raw := nofun

lemma Role.raw_index (k : BlockSector) (j : ℕ) : (Role.index k j).Raw := nofun

/-- The sectors that hold no data are clean in the cache, and `u.flat` is what the device has of them. -/
structure Tables (s : Filesys) (u : Usage) : Prop where
  usable : s.disk.Usable
  plain : ∀ {x}, (u.role x).Raw → s.disk.Plain x
  raw : ∀ {x}, (u.role x).Raw → s.disk.device.sectors x = u.flat x
  marked : ∀ {x}, u.role x ≠ .free → s.freeMap.bits x.toNat = true ∧ s.disk.device.Contains x
  size : s.freeMap.bitCnt = s.disk.device.size.toNat

structure Mapped (inode : InodeData) (L : Layout) : Prop where
  direct : inode.directBlkIdx = min L.cnt 10 + (L.cnt - 10) / 128
  indirect : inode.indirectBlkIdx = (L.cnt - 10) % 128
  double : inode.doubleIndirectBlkIdx = 0
  ptrs_data : ∀ {i}, i < 10 → i < L.cnt → inode.ptrs i = L.data i
  ptrs_index : ∀ {j}, 10 + 128 * j < L.cnt → inode.ptrs (10 + j) = L.index j

lemma Layout.inodeData_mapped (L : Layout) (length : ℤ) (isDir : Bool) (parent : BlockSector) :
    Mapped (L.inodeData length isDir parent) L :=
  ⟨rfl, rfl, rfl, fun hi hc => L.ptrs_direct hi hc, fun hj => L.ptrs_index hj⟩

variable {s : Filesys} {u : Usage} {x k : BlockSector} {L : Layout} {inode : InodeData}

namespace Tables

lemma withDisk (h : Tables s u) {d : CachedDisk} (hd : d.Usable) (hp : ∀ {x}, (u.role x).Raw → d.Plain x)
    (hr : ∀ {x}, (u.role x).Raw → d.device.sectors x = s.disk.device.sectors x)
    (hs : d.device.size = s.disk.device.size) : Tables { s with disk := d } u where
  usable := hd
  plain := hp
  raw hx := (hr hx).trans (h.raw hx)
  marked {y} hy := by
    obtain ⟨hb, hc⟩ := h.marked hy
    refine ⟨hb, ?_⟩
    change y < d.device.size
    rw [hs]
    exact hc
  size := by
    change s.freeMap.bitCnt = d.device.size.toNat
    rw [hs]
    exact h.size

lemma contained (h : Tables s u) (hx : u.role x ≠ .free) : s.disk.device.Contains x := (h.marked hx).2

lemma unmarked (h : Tables s u) (hx : s.freeMap.bits x.toNat = false) : u.role x = .free := by
  by_contra hr
  rw [(h.marked hr).1] at hx
  cases hx

lemma logged (h : Tables s u) (e : FsEvent) : Tables { s with log := e :: s.log } u :=
  ⟨h.usable, h.plain, h.raw, h.marked, h.size⟩

lemma consume (h : Tables s u) : Tables { s with junk := fun n => s.junk (n + 1) } u :=
  ⟨h.usable, h.plain, h.raw, h.marked, h.size⟩

lemma blockRead (h : Tables s u) (hx : (u.role x).Raw) (hc : s.disk.device.Contains x) :
    Returns (blockRead x) s fun v t => v = u.flat x ∧ Tables t u ∧ KeepsMap s t ∧ t.disk = s.disk :=
  ⟨u.flat x, _, blockRead_run hc (h.raw hx), rfl, h.logged _, KeepsMap.logged _ _, rfl⟩

lemma blockWrite (h : Tables s u) (hc : s.disk.device.Contains x) (v : Sector) :
    Returns (blockWrite x v) s fun _ t => Tables t (u.set x v) ∧ KeepsMap s t ∧
      Preserves (· = x) s.disk t.disk := by
  let d : CachedDisk := { s.disk with
    device := { s.disk.device with sectors := update s.disk.device.sectors x v } }
  have ht : Tables { s with disk := d } (u.set x v) := by
    refine ⟨⟨h.usable.idle, h.usable.backed⟩, h.plain, ?_, h.marked, h.size⟩
    intro y hy
    by_cases he : y = x
    · subst he
      simp [d, Usage.set]
    · simp only [d, Usage.set, update_of_ne he]
      exact h.raw hy
  exact ⟨(), _, blockWrite_run hc v, ht.logged _,
    (KeepsMap.withDisk (s := s) (d := d) rfl).trans (KeepsMap.logged _ _), Preserves.device s.disk x v⟩

lemma cacheWrite (h : Tables s u) {i : ℕ} (hx : u.role x = .data k i) {off : ℕ} {buf : List UInt8}
    (hn : off + buf.length ≤ blockSectorSize) :
    Returns (onDisk (cacheWrite x off buf)) s fun _ t => Tables t u ∧ KeepsMap s t ∧
      Preserves (· = x) s.disk t.disk := by
  have hc : s.disk.device.Contains x := h.contained (by simp [hx])
  refine (onDisk_returns (write_preserves h.usable hc hn)).mono ?_
  rintro _ t ⟨d, rfl, hd, hp⟩
  refine ⟨h.withDisk hd.usable (fun {y} hy => hd.plain ?_ (h.plain hy)) (fun hy => hd.sectors (h.plain hy))
    hd.size, KeepsMap.withDisk hd.size, hp⟩
  rintro rfl
  exact hy _ _ hx

lemma byteToSector (h : Tables s u) (hL : Claims u k L) (hi : Mapped inode L) (hc : L.cnt ≤ maxSectors)
    {length : ℤ} {pos : ℕ} (hlen : pos < length) (hpos : pos / 512 < L.cnt) :
    Returns (byteToSector inode length pos) s fun x t =>
      x = L.data (pos / 512) ∧ Tables t u ∧ KeepsMap s t ∧ t.disk = s.disk := by
  simp only [maxSectors] at hc
  simp only [Filesys.byteToSector, blockSectorSize, directBlocks, indirectBlocksCount, indirectBlockPtrs]
  rw [if_neg (by omega)]
  by_cases hd : pos / 512 < 10
  · rw [if_pos hd]
    exact Returns.pure ⟨hi.ptrs_data hd hpos, h, KeepsMap.refl s, rfl⟩
  · rw [if_neg hd, if_pos (by omega)]
    obtain ⟨j, w, hw, hjw⟩ : ∃ j w, w < 128 ∧ pos / 512 = 10 + 128 * j + w :=
      ⟨(pos / 512 - 10) / 128, (pos / 512 - 10) % 128, Nat.mod_lt _ (by decide), by omega⟩
    have hidx : (pos - 512 * 10) / (512 * 128) + 10 = 10 + j := by omega
    have hword : (pos - 512 * 10) % (512 * 128) / 512 = w := by omega
    have hrole := hL.index (lt_indexCnt.mpr (by omega : 10 + 128 * j < L.cnt))
    rw [hidx, hword, hi.ptrs_index (by omega : 10 + 128 * j < L.cnt)]
    refine (h.blockRead (by rw [hrole]; exact Role.raw_index k j) (h.contained (by simp [hrole]))).bind ?_
    rintro v t ⟨rfl, ht, hk, hd⟩
    refine Returns.pure ⟨?_, ht, hk, hd⟩
    rw [hL.indexed j w hw (by omega), hjw]

lemma writeFrom (h : Tables s u) (hL : Claims u k L) (hi : Mapped inode L) (hc : L.cnt ≤ maxSectors)
    {length : ℕ} (hl : inode.length = length) (hlen : length ≤ 512 * L.cnt) {fuel : ℕ} {buffer : List UInt8}
    {offset : ℕ} (hf : buffer.length ≤ fuel) :
    Returns (writeFrom k inode fuel buffer offset) s fun n t =>
      n = min buffer.length (length - offset) ∧ Tables t u ∧ KeepsMap s t ∧
        Preserves (fun y => (u.role y).owner = some k) s.disk t.disk := by
  refine writeFrom_loop (I := fun _ t => Tables t u ∧ KeepsMap s t ∧
    Preserves (fun y => (u.role y).owner = some k) s.disk t.disk) hl ?_ hf
    ⟨h, KeepsMap.refl s, Preserves.refl s.disk⟩
  rintro done buf t ⟨ht, hk, hp⟩ hlt hn
  have hrole := hL.data (by omega : (offset + done.length) / 512 < L.cnt)
  refine (ht.byteToSector hL hi hc (by exact_mod_cast hlt) (by omega)).mono ?_
  rintro x v ⟨rfl, hv, hk', hd⟩
  refine ((hv.logged _).cacheWrite hrole hn).mono ?_
  rintro _ w ⟨hw, hk'', hp'⟩
  refine ⟨hw, hk.trans (hk'.trans ((KeepsMap.logged _ _).trans hk'')), hp.trans ?_⟩
  rw [← hd]
  refine hp'.mono ?_
  rintro y rfl
  rw [hrole]
  rfl

end Tables

end CourseArchive.PintOS.Filesys
