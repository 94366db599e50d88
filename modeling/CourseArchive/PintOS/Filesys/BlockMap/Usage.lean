import CourseArchive.PintOS.Filesys.BlockMap.Layout
import CourseArchive.PintOS.Filesys.CacheProofs.Transparency

/-! Which sectors are used for what, and accesses to the disk that respect it. -/

namespace CourseArchive.PintOS.Filesys

open Lib Function CachedDisk

inductive Role
  | free
  | inode (k : BlockSector)
  | data (k : BlockSector) (i : ℕ)
  | index (k : BlockSector) (j : ℕ)

def Role.owner : Role → Option BlockSector
  | free => none
  | inode k | data k _ | index k _ => some k

structure Usage where
  flat : BlockSector → Sector
  role : BlockSector → Role
  stale : BlockSector → Prop

def Usage.set (u : Usage) (x : BlockSector) (v : Sector) : Usage := { u with flat := update u.flat x v }

namespace Usage

@[simp] lemma set_role (u : Usage) (x : BlockSector) (v : Sector) : (u.set x v).role = u.role := rfl

@[simp] lemma set_flat_self (u : Usage) (x : BlockSector) (v : Sector) : (u.set x v).flat x = v := by
  simp [Usage.set]

lemma set_flat_of_ne (u : Usage) {x y : BlockSector} (v : Sector) (h : y ≠ x) : (u.set x v).flat y = u.flat y := by
  simp [Usage.set, h]

end Usage

structure Keeps (s t : Filesys) : Prop where
  freeMapFile : t.freeMapFile = s.freeMapFile
  openInodes : t.openInodes = s.openInodes
  size : t.disk.device.size = s.disk.device.size
  log : s.log <:+ t.log
  junk : ∃ m, ∀ n, t.junk n = s.junk (m + n)

namespace Keeps

variable {s t v : Filesys}

lemma refl (s : Filesys) : Keeps s s := ⟨rfl, rfl, rfl, List.suffix_rfl, 0, by simp⟩

lemma trans (h : Keeps s t) (h' : Keeps t v) : Keeps s v where
  freeMapFile := h'.freeMapFile.trans h.freeMapFile
  openInodes := h'.openInodes.trans h.openInodes
  size := h'.size.trans h.size
  log := h.log.trans h'.log
  junk := by
    obtain ⟨m, hm⟩ := h.junk
    obtain ⟨m', hm'⟩ := h'.junk
    exact ⟨m + m', fun n => by rw [hm', hm, Nat.add_assoc]⟩

end Keeps

structure KeepsMap (s t : Filesys) : Prop extends Keeps s t where
  freeMap : t.freeMap = s.freeMap

namespace KeepsMap

variable {s t v : Filesys}

lemma refl (s : Filesys) : KeepsMap s s := ⟨Keeps.refl s, rfl⟩

lemma trans (h : KeepsMap s t) (h' : KeepsMap t v) : KeepsMap s v :=
  ⟨h.toKeeps.trans h'.toKeeps, h'.freeMap.trans h.freeMap⟩

lemma consume (s : Filesys) : KeepsMap s { s with junk := fun n => s.junk (n + 1) } :=
  ⟨⟨rfl, rfl, rfl, List.suffix_rfl, 1, fun n => by rw [Nat.add_comm]⟩, rfl⟩

lemma withDisk {d : CachedDisk} (h : d.device.size = s.disk.device.size) : KeepsMap s { s with disk := d } :=
  ⟨⟨rfl, rfl, h, List.suffix_rfl, 0, by simp⟩, rfl⟩

lemma logged (s : Filesys) (e : FsEvent) : KeepsMap s { s with log := e :: s.log } :=
  ⟨⟨rfl, rfl, rfl, List.suffix_cons e s.log, 0, by simp⟩, rfl⟩

end KeepsMap

lemma onDisk_returns {α : Type} {m : Comp CachedDisk Fault α} {s : Filesys} {Q : α → CachedDisk → Prop}
    (h : Returns m s.disk Q) : Returns (onDisk m) s fun a t => ∃ d, t = { s with disk := d } ∧ Q a d := by
  obtain ⟨a, d, hm, hq⟩ := h
  exact ⟨a, { s with disk := d }, by simp [onDisk, hm], d, rfl, hq⟩

lemma uninitialised_returns (s : Filesys) :
    Returns uninitialised s fun v t => v = s.junk 0 ∧ t = { s with junk := fun n => s.junk (n + 1) } :=
  ⟨_, _, rfl, rfl, rfl⟩

variable {s : Filesys} {u : Usage} {x : BlockSector}

lemma blockRead_run {v : Sector} (hc : s.disk.device.Contains x) (hv : s.disk.device.sectors x = v) :
    blockRead x s = .ok (v, { s with log := .rawRead x (s.disk.clashes x v) :: s.log }) := by
  have hr : onDisk (CachedDisk.onDevice (Device.blockRead x)) s = .ok (v, s) := by
    simp only [onDisk, onDevice_ok (Device.blockRead_ok hc), hv]
  exact (bind_ok hr).trans rfl

lemma blockWrite_run (hc : s.disk.device.Contains x) (v : Sector) :
    blockWrite x v s = .ok ((), { s with
      disk := { s.disk with device := { s.disk.device with sectors := update s.disk.device.sectors x v } },
      log := .rawWrite x (s.disk.clashes x v) :: s.log }) := by
  have hw : onDisk (CachedDisk.onDevice (Device.blockWrite x v)) s = .ok ((), { s with
      disk := { s.disk with device := { s.disk.device with sectors := update s.disk.device.sectors x v } } }) := by
    simp only [onDisk, onDevice_ok (Device.blockWrite_ok v hc)]
  exact (bind_ok hw).trans rfl

end CourseArchive.PintOS.Filesys
