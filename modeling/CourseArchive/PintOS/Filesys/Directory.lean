import CourseArchive.PintOS.Filesys.FreeMap

/-! Directories (`filesys/directory.c`) and the file system's entry points (`filesys/filesys.c`). -/

namespace CourseArchive.PintOS.Filesys

open Lib

abbrev nameMax : ℕ := 14

abbrev dirEntrySize : ℕ := 20

abbrev Name := List UInt8

abbrev DirEntry := Block dirEntrySize

namespace DirEntry

def inodeSector (e : DirEntry) : BlockSector := e.word 0

def name (e : DirEntry) : Name := (e.slice 4 (nameMax + 1)).takeWhile (· != 0)

def inUse (e : DirEntry) : Bool := e.byte 19 != 0

end DirEntry

def uninitialisedEntry : FsM DirEntry := do
  let junk ← uninitialised
  return Block.ofBytes junk.byte

def readEntry (dir : BlockSector) (e : DirEntry) (ofs : ℕ) : FsM (Bool × DirEntry) := do
  let bytes ← inodeReadAt dir dirEntrySize ofs
  return (bytes.length = dirEntrySize, e.patch 0 bytes)

/-- The loops over the entries of a directory: the first entry from `ofs` on that `p` accepts with its offset, or
`none` with the buffer and the offset at which the directory ended. -/
def scanEntries (dir : BlockSector) (p : DirEntry → Bool) : ℕ → DirEntry → ℕ → FsM (Bool × DirEntry × ℕ)
  | 0, _, _ => throw .loopsForever
  | fuel + 1, e, ofs => do
    let (whole, e) ← readEntry dir e ofs
    if !whole then return (false, e, ofs)
    else if p e then return (true, e, ofs)
    else scanEntries dir p fuel e (ofs + dirEntrySize)

def scanRounds (dir : BlockSector) : FsM ℕ := do
  return (← getInode dir).readLength.toNat / dirEntrySize + 1

def lookup (dir : BlockSector) (name : Name) : FsM (Option (DirEntry × ℕ)) := do
  let e ← uninitialisedEntry
  let rounds ← scanRounds dir
  let (found, e, ofs) ← scanEntries dir (fun e => e.inUse && e.name == name) rounds e 0
  return if found then some (e, ofs) else none

def dirLookup (dir : BlockSector) (name : Name) : FsM (Option BlockSector) := do
  match ← lookup dir name with
  | some (e, _) => return some (← inodeOpen e.inodeSector)
  | none => return none

/-! The entry points. -/

def filesysOpen (name : Name) : FsM (Option File) := do
  let dir ← inodeOpen rootDirSector
  let inode ← dirLookup dir name
  inodeClose dir
  return inode.map fileOpen

end CourseArchive.PintOS.Filesys
