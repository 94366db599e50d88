import CourseArchive.PintOS.Devices.Block

/-! The write-back buffer cache (`filesys/buffer-cache.c`), run by one thread at a time. The cell locks are
taken and given back around single accesses, so they do not appear. -/

namespace CourseArchive.PintOS

open Lib

abbrev cacheSize : ℕ := 64

structure CacheCell where
  blockData : Sector
  sectorIdx : BlockSector
  dirty : Bool
  recentlyAccessed : Bool
  valid : Bool
  numUsing : ℤ

structure CachedDisk where
  device : Device
  cache : Fin cacheSize → CacheCell
  clockIdx : Fin cacheSize
  cacheHit : ℕ
  cacheMiss : ℕ

namespace CachedDisk

def onDevice {α : Type} (m : Comp Device Fault α) : Comp CachedDisk Fault α := fun s =>
  match m s.device with
  | .ok (a, d) => .ok (a, { s with device := d })
  | .error e => .error e

def setCell (i : Fin cacheSize) (c : CacheCell) (s : CachedDisk) : CachedDisk :=
  { s with cache := put s.cache i c }

def cacheInit (s : CachedDisk) : CachedDisk :=
  { s with
    clockIdx := 0
    cache := fun i => { s.cache i with
      valid := false, numUsing := 0, sectorIdx := 0, dirty := false, recentlyAccessed := false } }

def flushCell (i : Fin cacheSize) : Comp CachedDisk Fault Unit := do
  let cell := (← get).cache i
  if cell.valid ∧ cell.dirty then
    onDevice (Device.blockWrite cell.sectorIdx cell.blockData)
    modify (setCell i { cell with dirty := false, valid := false })

def flushCells : List (Fin cacheSize) → Comp CachedDisk Fault Unit
  | [] => return
  | i :: is => do
    flushCell i
    flushCells is

def cacheFlush : Comp CachedDisk Fault Unit := flushCells (List.finRange cacheSize)

def findCell (s : CachedDisk) (sectorIdx : BlockSector) : Option (Fin cacheSize) :=
  (List.finRange cacheSize).find? fun i =>
    (s.cache i).sectorIdx = sectorIdx ∧ (s.cache i).valid

def cacheSearch (sectorIdx : BlockSector) : Comp CachedDisk Fault (Option (Fin cacheSize)) := do
  match (← get).findCell sectorIdx with
  | some i =>
    modify fun s => { s with cacheHit := s.cacheHit + 1 }
    return some i
  | none =>
    modify fun s => { s with cacheMiss := s.cacheMiss + 1 }
    return none

/-- The loop of `cache_evict` from cell `i` on. It leaves the loop, or has cleared every flag it can clear,
after two rounds and one more cell, so `fuel` only runs out when the loop never ends. -/
def evictFrom : ℕ → Fin cacheSize → Comp CachedDisk Fault (Fin cacheSize)
  | 0, _ => throw .loopsForever
  | fuel + 1, i => do
    let cell := (← get).cache i
    if cell.valid = false then
      modify fun s => { s with clockIdx := i }
      return i
    else if cell.numUsing ≤ 0 then
      if cell.recentlyAccessed then
        modify (setCell i { cell with recentlyAccessed := false })
        modify fun s => { s with clockIdx := i }
        evictFrom fuel (i + 1)
      else
        modify fun s => { s with clockIdx := i }
        return i
    else
      modify fun s => { s with clockIdx := i }
      evictFrom fuel (i + 1)

def cacheEvict : Comp CachedDisk Fault (Fin cacheSize) := do
  evictFrom (2 * cacheSize + 1) (← get).clockIdx

def cacheFetch (sectorIdx : BlockSector) : Comp CachedDisk Fault (Fin cacheSize) := do
  match ← cacheSearch sectorIdx with
  | none =>
    let idx ← cacheEvict
    let cell := (← get).cache idx
    if cell.dirty then
      onDevice (Device.blockWrite cell.sectorIdx cell.blockData)
    modify (setCell idx { cell with
      valid := true, dirty := false, sectorIdx := sectorIdx, recentlyAccessed := true, numUsing := 1 })
    let data ← onDevice (Device.blockRead sectorIdx)
    modify fun s => setCell idx { s.cache idx with blockData := data } s
    return idx
  | some idx =>
    modify fun s => setCell idx { s.cache idx with
      recentlyAccessed := true, numUsing := (s.cache idx).numUsing + 1 } s
    return idx

def cacheRead (sectorIdx : BlockSector) (offset size : ℕ) : Comp CachedDisk Fault (List UInt8) := do
  let idx ← cacheFetch sectorIdx
  if blockSectorSize < offset + size then throw .wildAccess
  let cell := (← get).cache idx
  modify (setCell idx { cell with numUsing := cell.numUsing - 1, recentlyAccessed := true })
  return cell.blockData.slice offset size

def cacheWrite (sectorIdx : BlockSector) (offset : ℕ) (buffer : List UInt8) : Comp CachedDisk Fault Unit := do
  let idx ← cacheFetch sectorIdx
  if blockSectorSize < offset + buffer.length then throw .wildAccess
  let cell := (← get).cache idx
  modify (setCell idx { cell with
    blockData := cell.blockData.patch offset buffer
    dirty := true
    numUsing := cell.numUsing - 1
    recentlyAccessed := true })

end CachedDisk

end CourseArchive.PintOS
