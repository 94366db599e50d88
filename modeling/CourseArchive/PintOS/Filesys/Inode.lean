import CourseArchive.PintOS.Filesys.BufferCache
import CourseArchive.PintOS.Kernel.Bitmap

/-! Inodes (`filesys/inode.c`): the state of the file system, the block map, growth, reads and writes.
Allocation of kernel memory is taken to succeed. -/

namespace CourseArchive.PintOS

open Lib

abbrev directBlocks : ℕ := 10

abbrev doubleIndirectIndex : ℕ := 20

abbrev inodeBlockPtrs : ℕ := 21

abbrev indirectBlockPtrs : ℕ := 128

abbrev indirectBlocksCount : ℕ := 1280

def inodeMagic : UInt32 := 0x494e4f44

abbrev freeMapSector : BlockSector := 0

abbrev rootDirSector : BlockSector := 1

def offT (x : ℤ) : ℤ := x.bmod (2 ^ 32)

def sizeT (x : ℤ) : ℕ := (x % 2 ^ 32).toNat

def bytesToSectors (size : ℤ) : ℕ := sizeT ((offT (size + (blockSectorSize - 1))).tdiv blockSectorSize)

structure InodeData where
  length : ℤ
  directBlkIdx : ℕ
  indirectBlkIdx : ℕ
  doubleIndirectBlkIdx : ℕ
  isDir : Bool
  parent : BlockSector
  ptrs : ℕ → BlockSector

def InodeData.toSector (d : InodeData) : Sector := Block.ofWords fun i =>
  if i = 0 then UInt32.ofInt d.length
  else if i = 1 then inodeMagic
  else if i = 2 then UInt32.ofNat d.directBlkIdx
  else if i = 3 then UInt32.ofNat d.indirectBlkIdx
  else if i = 4 then UInt32.ofNat d.doubleIndirectBlkIdx
  else if i = 5 then (if d.isDir then 1 else 0)
  else if i = 6 then d.parent
  else if i < 7 + inodeBlockPtrs then d.ptrs (i - 7)
  else 0

/-- What `inode_open` takes out of a `struct inode_disk`; the magic number is not looked at. -/
def InodeData.ofSector (b : Sector) : InodeData where
  length := offT (b.word 0).toNat
  directBlkIdx := (b.word 2).toNat
  indirectBlkIdx := (b.word 3).toNat
  doubleIndirectBlkIdx := (b.word 4).toNat
  isDir := b.byte 20 != 0
  parent := b.word 6
  ptrs i := if i < inodeBlockPtrs then b.word (7 + i) else 0

structure Inode extends InodeData where
  sector : BlockSector
  openCnt : ℤ
  removed : Bool
  denyWriteCnt : ℤ
  readLength : ℤ
  locked : Bool

/-- `struct file`, with its inode named by the inode's sector: `inode_open` keeps one `struct inode` a sector. -/
structure File where
  inode : BlockSector
  pos : ℕ
  denyWrite : Bool

/-- What the file system did: raw accesses, and whether a valid cache cell then held the sector with other
contents; writes of a file's data through the cache; outcomes of `free_map_allocate`. -/
inductive FsEvent
  | rawRead (sector : BlockSector) (clash : Bool)
  | rawWrite (sector : BlockSector) (clash : Bool)
  | dataWrite (inode sector : BlockSector)
  | allocated (sector : BlockSector)
  | allocFailed
  deriving DecidableEq

/-- The device and the globals of the file system. `junk` is what the memory holds that functions use
without initialising it; `log` has the latest event first. -/
structure Filesys where
  disk : CachedDisk
  freeMap : Bitmap
  freeMapFile : Option File
  openInodes : BlockSector → Option Inode
  junk : ℕ → Sector
  log : List FsEvent

abbrev FsM := Comp Filesys Fault

/-- `free_map_allocate (1, ..)` as the growth code sees it: the sector it stores, if any. -/
abbrev Allocator := FsM (Option BlockSector)

abbrev IndirectBlock := ℕ → BlockSector

def CachedDisk.clashes (s : CachedDisk) (sector : BlockSector) (data : Sector) : Bool :=
  (List.finRange cacheSize).any fun i =>
    (s.cache i).valid && decide ((s.cache i).sectorIdx = sector) && decide ((s.cache i).blockData ≠ data)

namespace Filesys

def onDisk {α : Type} (m : Comp CachedDisk Fault α) : FsM α := fun s =>
  match m s.disk with
  | .ok (a, d) => .ok (a, { s with disk := d })
  | .error e => .error e

def record (e : FsEvent) : FsM Unit := modify fun s => { s with log := e :: s.log }

def uninitialised : FsM Sector := do
  let s ← get
  set { s with junk := fun n => s.junk (n + 1) }
  return s.junk 0

def blockRead (sector : BlockSector) : FsM Sector := do
  let data ← onDisk (CachedDisk.onDevice (Device.blockRead sector))
  record (.rawRead sector ((← get).disk.clashes sector data))
  return data

def blockWrite (sector : BlockSector) (data : Sector) : FsM Unit := do
  onDisk (CachedDisk.onDevice (Device.blockWrite sector data))
  record (.rawWrite sector ((← get).disk.clashes sector data))

def zeros : Sector := Block.ofBytes fun _ => 0

def getInode (sector : BlockSector) : FsM Inode := do
  match (← get).openInodes sector with
  | some inode => return inode
  | none => throw .wildAccess

def setInode (sector : BlockSector) (inode : Option Inode) : FsM Unit :=
  modify fun s => { s with openInodes := put s.openInodes sector inode }

def byteToSector (inode : InodeData) (length : ℤ) (pos : ℕ) : FsM BlockSector :=
  if length ≤ pos then return 0xffffffff
  else if pos / blockSectorSize < directBlocks then return inode.ptrs (pos / blockSectorSize)
  else if pos / blockSectorSize < directBlocks + indirectBlocksCount then do
    let pos := pos - blockSectorSize * directBlocks
    let idx := pos / (blockSectorSize * indirectBlockPtrs) + directBlocks
    let indirectBlock ← blockRead (inode.ptrs idx)
    return indirectBlock.word (pos % (blockSectorSize * indirectBlockPtrs) / blockSectorSize)
  else do
    let outer ← blockRead (inode.ptrs doubleIndirectIndex)
    let pos := pos - blockSectorSize * (directBlocks + indirectBlocksCount)
    let idx := pos / (blockSectorSize * indirectBlockPtrs)
    if indirectBlockPtrs ≤ idx then throw .wildAccess
    let indirectBlock ← blockRead (outer.word idx)
    return indirectBlock.word (pos % (blockSectorSize * indirectBlockPtrs) / blockSectorSize)

/-! Opening. -/

def inodeOpen (sector : BlockSector) : FsM BlockSector := do
  match (← get).openInodes sector with
  | some inode => setInode sector (some { inode with openCnt := inode.openCnt + 1 })
  | none =>
    let data := InodeData.ofSector (← blockRead sector)
    setInode sector (some { data with
      sector := sector
      openCnt := 1
      removed := false
      denyWriteCnt := 0
      readLength := data.length
      locked := false })
  return sector

/-! Reading. -/

def chunkSize (length : ℤ) (size offset : ℕ) : ℕ :=
  min size (min (length - offset).toNat (blockSectorSize - offset % blockSectorSize))

/-- The loop of `inode_read_at`; each round makes progress, so `size` rounds are enough. -/
def readFrom (inode : InodeData) (length : ℤ) : ℕ → ℕ → ℕ → FsM (List UInt8)
  | 0, _, _ => return []
  | fuel + 1, size, offset =>
    if size = 0 then return []
    else do
      let sectorIdx ← byteToSector inode length offset
      let chunk := chunkSize length size offset
      if chunk = 0 then return []
      let bytes ← onDisk (CachedDisk.cacheRead sectorIdx (offset % blockSectorSize) chunk)
      let rest ← readFrom inode length fuel (size - chunk) (offset + chunk)
      return bytes ++ rest

def inodeReadAt (sector : BlockSector) (size : ℤ) (offset : ℕ) : FsM (List UInt8) := do
  let inode ← getInode sector
  if inode.readLength ≤ offset then return []
  readFrom inode.toInodeData inode.readLength size.toNat size.toNat offset

/-! Growth. -/

structure Slots where
  ptrs : ℕ → BlockSector
  index : ℕ
  newSectors : ℕ

/-- `free_map_allocate (1, &slot)` with the result ignored: the slot after it. -/
def allocateInto (alloc : Allocator) (slot : BlockSector) : FsM BlockSector := do
  return (← alloc).getD slot

/-- The loop shared by `map_alloc`, `inode_grow_indirect_block` and `map_alloc_indirect`. -/
def fillSlots (alloc : Allocator) (limit : ℕ) : ℕ → Slots → FsM Slots
  | 0, slots => return slots
  | fuel + 1, slots =>
    if slots.index < limit then do
      let ptr ← allocateInto alloc (slots.ptrs slots.index)
      blockWrite ptr zeros
      if slots.newSectors = 0 then throw .countWraps
      else do
        let slots : Slots := ⟨put slots.ptrs slots.index ptr, slots.index + 1, slots.newSectors - 1⟩
        if slots.newSectors = 0 then return slots
        fillSlots alloc limit fuel slots
    else return slots

def mapAlloc (alloc : Allocator) (inode : InodeData) (newSectors : ℕ) : FsM (InodeData × ℕ) := do
  let slots ← fillSlots alloc directBlocks directBlocks ⟨inode.ptrs, inode.directBlkIdx, newSectors⟩
  return ({ inode with ptrs := slots.ptrs, directBlkIdx := slots.index }, slots.newSectors)

/-- `map_alloc_indirect`. The block comes by value, so its new pointers are lost. -/
def mapAllocIndirect (alloc : Allocator) (block : IndirectBlock) (index newSectors : ℕ) : FsM (ℕ × ℕ) := do
  let slots ← fillSlots alloc indirectBlockPtrs indirectBlockPtrs ⟨block, index, newSectors⟩
  return (slots.index, slots.newSectors)

/-- The pointer of a new index block and the block itself, uninitialised; or the block that `ptr` names. -/
def indexBlock (alloc : Allocator) (fresh : Bool) (ptr : BlockSector) : FsM (BlockSector × IndirectBlock) := do
  let garbage ← uninitialised
  if fresh then
    return (← allocateInto alloc ptr, garbage.word)
  else
    return (ptr, (← blockRead ptr).word)

def inodeGrowIndirectBlock (alloc : Allocator) (inode : InodeData) (newSectors : ℕ) : FsM (InodeData × ℕ) := do
  let (ptr, block) ← indexBlock alloc (inode.indirectBlkIdx = 0) (inode.ptrs inode.directBlkIdx)
  let slots ← fillSlots alloc indirectBlockPtrs indirectBlockPtrs ⟨block, inode.indirectBlkIdx, newSectors⟩
  blockWrite ptr (Block.ofWords slots.ptrs)
  let ptrs := put inode.ptrs inode.directBlkIdx ptr
  if slots.index = indirectBlockPtrs then
    return ({ inode with ptrs := ptrs, indirectBlkIdx := 0, directBlkIdx := inode.directBlkIdx + 1 },
      slots.newSectors)
  else
    return ({ inode with ptrs := ptrs, indirectBlkIdx := slots.index }, slots.newSectors)

def inodeGrowDoubleIndirectBlockLvl2 (alloc : Allocator) (inode : InodeData) (newSectors : ℕ)
    (outerBlock : IndirectBlock) : FsM (InodeData × ℕ × IndirectBlock) := do
  let (ptr, innerBlock) ← indexBlock alloc (inode.doubleIndirectBlkIdx = 0) (outerBlock inode.indirectBlkIdx)
  let (index, newSectors) ← mapAllocIndirect alloc innerBlock inode.doubleIndirectBlkIdx newSectors
  blockWrite ptr (Block.ofWords innerBlock)
  let outerBlock := put outerBlock inode.indirectBlkIdx ptr
  if index = indirectBlockPtrs then
    return ({ inode with doubleIndirectBlkIdx := 0, indirectBlkIdx := inode.indirectBlkIdx + 1 }, newSectors,
      outerBlock)
  else
    return ({ inode with doubleIndirectBlkIdx := index }, newSectors, outerBlock)

def growInnerBlocks (alloc : Allocator) : ℕ → InodeData → ℕ → IndirectBlock → FsM (InodeData × ℕ × IndirectBlock)
  | 0, inode, newSectors, block =>
    if inode.indirectBlkIdx < indirectBlockPtrs then throw .loopsForever else return (inode, newSectors, block)
  | fuel + 1, inode, newSectors, block =>
    if inode.indirectBlkIdx < indirectBlockPtrs then do
      let (inode, newSectors, block) ← inodeGrowDoubleIndirectBlockLvl2 alloc inode newSectors block
      if newSectors = 0 then return (inode, newSectors, block)
      growInnerBlocks alloc fuel inode newSectors block
    else return (inode, newSectors, block)

def inodeGrowDoubleIndirectBlock (alloc : Allocator) (inode : InodeData) (newSectors : ℕ) :
    FsM (InodeData × ℕ) := do
  let (ptr, block) ← indexBlock alloc (inode.doubleIndirectBlkIdx = 0 ∧ inode.indirectBlkIdx = 0)
    (inode.ptrs inode.directBlkIdx)
  let inode := { inode with ptrs := put inode.ptrs inode.directBlkIdx ptr }
  let (inode, newSectors, block) ← growInnerBlocks alloc indirectBlockPtrs inode newSectors block
  blockWrite ptr (Block.ofWords block)
  return (inode, newSectors)

/-- The loop of `inode_grow` over the single-indirect pointers. An index past the end of a block, which only a
corrupt inode has, keeps it from ending. -/
def growIndirectBlocks (alloc : Allocator) : ℕ → InodeData → ℕ → FsM (InodeData × ℕ)
  | 0, inode, newSectors =>
    if inode.directBlkIdx < doubleIndirectIndex then throw .loopsForever else return (inode, newSectors)
  | fuel + 1, inode, newSectors =>
    if inode.directBlkIdx < doubleIndirectIndex then do
      let (inode, newSectors) ← inodeGrowIndirectBlock alloc inode newSectors
      if newSectors = 0 then return (inode, newSectors)
      growIndirectBlocks alloc fuel inode newSectors
    else return (inode, newSectors)

def growBeyondDirect (alloc : Allocator) (inode : InodeData) (newSectors : ℕ) : FsM (InodeData × ℕ) := do
  let (inode, newSectors) ← growIndirectBlocks alloc directBlocks inode newSectors
  if newSectors = 0 then return (inode, newSectors)
  if inode.directBlkIdx = doubleIndirectIndex then
    inodeGrowDoubleIndirectBlock alloc inode newSectors
  else return (inode, newSectors)

def inodeGrow (alloc : Allocator) (inode : InodeData) (newLength : ℤ) : FsM (ℤ × InodeData) := do
  let newSectors := sizeT (bytesToSectors newLength - bytesToSectors inode.length)
  if newSectors = 0 then return (newLength, inode)
  let (inode, newSectors) ← mapAlloc alloc inode newSectors
  if newSectors = 0 then return (newLength, inode)
  let (inode, newSectors) ← growBeyondDirect alloc inode newSectors
  return (offT (newLength - newSectors * blockSectorSize), inode)

/-! Creation and writing. -/

def writeFrom (sector : BlockSector) (inode : InodeData) : ℕ → List UInt8 → ℕ → FsM ℕ
  | 0, _, _ => return 0
  | fuel + 1, buffer, offset =>
    if buffer = [] then return 0
    else do
      let sectorIdx ← byteToSector inode inode.length offset
      let chunk := chunkSize inode.length buffer.length offset
      if chunk = 0 then return 0
      record (.dataWrite sector sectorIdx)
      onDisk (CachedDisk.cacheWrite sectorIdx (offset % blockSectorSize) (buffer.take chunk))
      let rest ← writeFrom sector inode fuel (buffer.drop chunk) (offset + chunk)
      return chunk + rest

/-- `inode_lock`; `lock_acquire` asserts that the caller does not have the lock yet. -/
def inodeLock (sector : BlockSector) : FsM Unit := do
  let inode ← getInode sector
  if inode.locked then throw (.assertion .lockNotHeld)
  else setInode sector (some { inode with locked := true })

/-- The growth branch of `inode_write_at`; directories grow without the lock. -/
def extendTo (alloc : Allocator) (sector : BlockSector) (newLength : ℤ) : FsM Unit := do
  let inode ← getInode sector
  (if inode.isDir then pure () else inodeLock sector)
  let (length, data) ← inodeGrow alloc inode.toInodeData newLength
  setInode sector (some { inode with toInodeData := { data with length := length } })

def writeOut (sector : BlockSector) (buffer : List UInt8) (offset : ℕ) : FsM ℤ := do
  let size := (offT buffer.length).toNat
  let inode ← getInode sector
  let written ← writeFrom sector inode.toInodeData size (buffer.take size) offset
  let inode ← getInode sector
  setInode sector (some { inode with readLength := inode.length })
  return written

/-- `inode_write_at`. The size is what the length of the buffer becomes as an `off_t`. -/
def inodeWriteAtWith (alloc : Allocator) (sector : BlockSector) (buffer : List UInt8) (offset : ℕ) : FsM ℤ := do
  let inode ← getInode sector
  if inode.denyWriteCnt ≠ 0 then return 0
  else if inode.length < offT (offset + offT buffer.length) then do
    extendTo alloc sector (offT (offset + offT buffer.length))
    writeOut sector buffer offset
  else writeOut sector buffer offset

end Filesys

end CourseArchive.PintOS
