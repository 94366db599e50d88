import CourseArchive.Lib.Block
import CourseArchive.Lib.Outcome

/-! Block devices of the kernel and the ways a kernel call can stop (`devices/block.c`, `lib/debug.c`). -/

namespace CourseArchive.PintOS

open Lib

abbrev blockSectorSize : ℕ := 512

abbrev Sector := Block blockSectorSize

abbrev BlockSector := UInt32

inductive Assertion
  | inodeCreateLength
  | fileSeekPosition
  | fileNotNull
  | bitmapBounds
  | freeMapReleaseAll
  | denyWriteCount
  | allowWriteCount
  | lockNotHeld
  | threadName
  deriving DecidableEq, Repr

inductive Fault
  | assertion (site : Assertion)
  | accessPastEnd (sector : BlockSector)
  | panic
  | wildAccess
  | loopsForever
  | countWraps
  deriving DecidableEq, Repr

structure Device where
  size : UInt32
  sectors : BlockSector → Sector

namespace Device

def checkSector (sector : BlockSector) : Comp Device Fault Unit := fun d =>
  if d.size ≤ sector then .error (.accessPastEnd sector) else .ok ((), d)

def blockRead (sector : BlockSector) : Comp Device Fault Sector := do
  checkSector sector
  return (← get).sectors sector

def blockWrite (sector : BlockSector) (buffer : Sector) : Comp Device Fault Unit := do
  checkSector sector
  modify fun d => { d with sectors := put d.sectors sector buffer }

def Contains (d : Device) (sector : BlockSector) : Prop := sector < d.size

instance (d : Device) (sector : BlockSector) : Decidable (d.Contains sector) :=
  inferInstanceAs (Decidable (_ < _))

lemma checkSector_ok {d : Device} {x : BlockSector} (h : d.Contains x) :
    checkSector x d = .ok ((), d) := by
  simp [checkSector, UInt32.not_le.mpr h]

lemma blockRead_ok {d : Device} {x : BlockSector} (h : d.Contains x) :
    blockRead x d = .ok (d.sectors x, d) := bind_ok (checkSector_ok h)

lemma blockWrite_ok {d : Device} {x : BlockSector} (v : Sector) (h : d.Contains x) :
    blockWrite x v d = .ok ((), { d with sectors := Function.update d.sectors x v }) := by
  rw [← put_eq_update]
  exact bind_ok (checkSector_ok h)

end Device

end CourseArchive.PintOS
