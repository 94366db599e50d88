import CourseArchive.PintOS.Filesys.Inode

/-! The free map (`filesys/free-map.c`), the operations on inodes that need it, and files (`filesys/file.c`). -/

namespace CourseArchive.PintOS.Filesys

open Lib

def fileWriteAtWith (alloc : Allocator) (file : File) (buffer : List UInt8) (fileOfs : ℕ) : FsM ℤ :=
  inodeWriteAtWith alloc file.inode buffer fileOfs

def bitmapWriteWith (alloc : Allocator) : FsM Bool := do
  let s ← get
  match s.freeMapFile with
  | none => throw .wildAccess
  | some file =>
    let written ← fileWriteAtWith alloc file s.freeMap.toBytes 0
    return written = offT (Bitmap.byteCnt s.freeMap.bitCnt)

def setFreeMap (sector cnt : ℕ) (value : Bool) : FsM Unit :=
  modify fun s => { s with freeMap := s.freeMap.setMultiple sector cnt value }

def saveFreeMap (alloc : Allocator) : FsM Bool := do
  if (← get).freeMapFile.isSome then bitmapWriteWith alloc else return true

/-- `free_map_allocate (1, ..)` with the writes of the free-map file nested at most `depth` deep. A write that
grew the free-map file would need the lock that the growth already has. -/
def freeMapAllocateAt : ℕ → Allocator
  | 0 => throw .loopsForever
  | depth + 1 => do
    match (← get).freeMap.scan 0 1 false with
    | none =>
      record .allocFailed
      return none
    | some sector =>
      setFreeMap sector 1 true
      let saved ← saveFreeMap (freeMapAllocateAt depth)
      if saved then
        record (.allocated (UInt32.ofNat sector))
        return some (UInt32.ofNat sector)
      else
        setFreeMap sector 1 false
        record .allocFailed
        return none

def freeMapAllocate : Allocator := freeMapAllocateAt 3

def inodeWriteAt (sector : BlockSector) (buffer : List UInt8) (offset : ℕ) : FsM ℤ :=
  inodeWriteAtWith freeMapAllocate sector buffer offset

def bitmapWrite : FsM Bool := bitmapWriteWith freeMapAllocate

def freeMapRelease (sector : BlockSector) : FsM Unit := do
  let s ← get
  if ¬ s.freeMap.InBounds sector.toNat 1 then throw (.assertion .bitmapBounds)
  else if ¬ s.freeMap.all sector.toNat 1 then throw (.assertion .freeMapReleaseAll)
  else do
    setFreeMap sector.toNat 1 false
    let _ ← bitmapWrite
    return

/-! Deallocation and closing. -/

def releaseAll : List BlockSector → FsM Unit
  | [] => return
  | x :: xs => do
    freeMapRelease x
    releaseAll xs

def inodeDeallocateIndirectBlock (ptr : BlockSector) (dataPtrs : ℕ) : FsM Unit := do
  let block ← blockRead ptr
  releaseAll ((List.range dataPtrs).map block.word)
  freeMapRelease ptr

/-- The loop over index blocks of `inode_deallocate` and `inode_deallocate_double_indirect_block`, with the data
sectors that are left after it. -/
def deallocateIndirectBlocks : List BlockSector → ℕ → FsM ℕ
  | [], dataPtrs => return dataPtrs
  | ptr :: ptrs, dataPtrs => do
    inodeDeallocateIndirectBlock ptr (min dataPtrs indirectBlockPtrs)
    deallocateIndirectBlocks ptrs (dataPtrs - min dataPtrs indirectBlockPtrs)

/-- `inode_deallocate_double_indirect_block`; past the last pointer of the block lies other memory. -/
def inodeDeallocateDoubleIndirectBlock (ptr : BlockSector) (indirectPtrs dataPtrs : ℕ) : FsM Unit := do
  let block ← blockRead ptr
  if indirectBlockPtrs < indirectPtrs then throw .wildAccess
  else do
    let _ ← deallocateIndirectBlocks ((List.range indirectPtrs).map block.word) dataPtrs
    freeMapRelease ptr

def inodeDeallocate (inode : InodeData) : FsM Unit := do
  let dataSectors := bytesToSectors inode.length
  let indirectSectors :=
    if inode.length ≤ blockSectorSize * directBlocks then 0
    else sizeT ((offT (inode.length - blockSectorSize * directBlocks +
      (blockSectorSize * indirectBlockPtrs - 1))).tdiv
      (blockSectorSize * indirectBlockPtrs))
  let direct := min dataSectors directBlocks
  releaseAll ((List.range direct).map inode.ptrs)
  let indirect := min indirectSectors (doubleIndirectIndex - direct)
  let left ← deallocateIndirectBlocks ((List.range indirect).map fun j => inode.ptrs (direct + j))
    (dataSectors - direct)
  if blockSectorSize * (directBlocks + indirectBlocksCount) < inode.length then
    inodeDeallocateDoubleIndirectBlock (inode.ptrs (direct + indirect)) (indirectSectors - indirect) left
  else return

def inodeClose (sector : BlockSector) : FsM Unit := do
  let inode ← getInode sector
  if inode.openCnt - 1 = 0 then do
    setInode sector none
    if inode.removed then do
      freeMapRelease inode.sector
      inodeDeallocate inode.toInodeData
    else blockWrite inode.sector inode.toInodeData.toSector
  else setInode sector (some { inode with openCnt := inode.openCnt - 1 })

def inodeAllowWrite (sector : BlockSector) : FsM Unit := do
  let inode ← getInode sector
  if inode.denyWriteCnt ≤ 0 ∨ inode.openCnt < inode.denyWriteCnt then throw (.assertion .allowWriteCount)
  else setInode sector (some { inode with denyWriteCnt := inode.denyWriteCnt - 1 })

/-! Files. -/

def fileOpen (inode : BlockSector) : File := ⟨inode, 0, false⟩

def fileClose (file : File) : FsM Unit := do
  (if file.denyWrite then inodeAllowWrite file.inode else pure ())
  inodeClose file.inode

def fileRead (file : File) (size : ℤ) : FsM (List UInt8 × File) := do
  let bytes ← inodeReadAt file.inode size file.pos
  return (bytes, { file with pos := file.pos + bytes.length })

def fileWrite (file : File) (buffer : List UInt8) : FsM (ℤ × File) := do
  let written ← inodeWriteAt file.inode buffer file.pos
  return (written, { file with pos := file.pos + written.toNat })

def fileLength (file : File) : FsM ℤ := do
  return (← getInode file.inode).length

def fileSeek (file : File) (newPos : ℤ) : FsM File := do
  if newPos < 0 then throw (.assertion .fileSeekPosition)
  else return { file with pos := newPos.toNat }

/-! The free-map file. -/

end CourseArchive.PintOS.Filesys
