import CourseArchive.PintOS.Threads.PageAllocator

/-! The block allocator (`threads/malloc.c`). The headers of the arenas and the data of the blocks share one
memory; the links of the free blocks are kept as the lists that they stand for. Sizes are 32-bit words. -/

namespace CourseArchive.PintOS.Threads

open Lib

structure Desc where
  blockSize : ℕ
  blocksPerArena : ℕ
  deriving DecidableEq

def wordSize : ℕ := 2 ^ 32

def arenaMagic : ℕ := 0x9a548eed

def divRoundUp32 (x step : ℕ) : ℕ := (x + step - 1) % wordSize / step

def arenaSize : ℕ := 12

def mallocInitFrom : ℕ → ℕ → List Desc
  | 0, _ => []
  | left + 1, blockSize =>
    if blockSize < pgSize / 2 then
      { blockSize := blockSize, blocksPerArena := (pgSize - arenaSize) / blockSize } ::
        mallocInitFrom left (blockSize * 2)
    else []

def descs : List Desc := mallocInitFrom 10 16

def desc (d : ℕ) : Desc := descs.getD d { blockSize := 1, blocksPerArena := 0 }

/-- A pointer to a descriptor is its number plus one. -/
def descPtr (d : ℕ) : ℕ := d + 1

structure Heap extends Pages where
  freeLists : ℕ → List ℕ

inductive ArenaField
  | magic | desc | freeCnt
  deriving DecidableEq

def ArenaField.offset : ArenaField → ℕ
  | magic => 0
  | desc => 4
  | freeCnt => 8

namespace Heap

def get (s : Heap) (a : ℕ) (f : ArenaField) : ℕ := s.mem.load (a + f.offset) 4

def set (s : Heap) (a : ℕ) (f : ArenaField) (v : ℕ) : Heap := { s with mem := s.mem.store (a + f.offset) 4 v }

def fill (s : Heap) (a : ℕ) (b : UInt8) (n : ℕ) : Heap := { s with mem := s.mem.fill a n b }

def copy (s : Heap) (dst src n : ℕ) : Heap := { s with mem := s.mem.copy dst src n }

def setFree (s : Heap) (d : ℕ) (bs : List ℕ) : Heap := { s with freeLists := Function.update s.freeLists d bs }

def blockAt (a d idx : ℕ) : ℕ := a + arenaSize + idx * (desc d).blockSize

def arenaToBlock (s : Heap) (a idx : ℕ) : Option ℕ :=
  let owner := s.get a .desc
  if a ≠ 0 ∧ s.get a .magic = arenaMagic ∧ owner ≠ 0 ∧ idx < (desc (owner - 1)).blocksPerArena then
    some (blockAt a (owner - 1) idx)
  else none

/-- Both assertions take the offset of the block in its page as a 32-bit word. -/
def blockToArena (s : Heap) (b : ℕ) : Option ℕ :=
  let a := pgRoundDown b
  let owner := s.get a .desc
  if a ≠ 0 ∧ s.get a .magic = arenaMagic ∧
      (owner = 0 ∨ (pgOfs b + wordSize - arenaSize) % wordSize % (desc (owner - 1)).blockSize = 0) ∧
      (owner ≠ 0 ∨ pgOfs b = arenaSize) then some a
  else none

def initArena (s : Heap) (a owner freeCnt : ℕ) : Heap :=
  ((s.set a .magic arenaMagic).set a .desc owner).set a .freeCnt freeCnt

def noFlags : PallocFlags := { assert := false, zero := false, user := false }

def mallocBig (s : Heap) (size : ℕ) : Option (ℕ × Heap) := do
  let pageCnt := divRoundUp32 ((size + arenaSize) % wordSize) pgSize
  let (a, pages) ← s.pallocGetMultiple noFlags pageCnt
  let s : Heap := { s with toPages := pages }
  some (if a = 0 then (0, s) else (a + arenaSize, s.initArena a 0 pageCnt))

def pushBlock (a d : ℕ) (s : Heap) (idx : ℕ) : Option Heap := do
  let b ← s.arenaToBlock a idx
  some (s.setFree d (s.freeLists d ++ [b]))

def newArena (s : Heap) (a d : ℕ) : Option Heap :=
  (List.range (desc d).blocksPerArena).foldlM (pushBlock a d) (s.initArena a (descPtr d) (desc d).blocksPerArena)

def refill (s : Heap) (d : ℕ) : Option (Bool × Heap) :=
  if s.freeLists d ≠ [] then some (true, s)
  else do
    let (a, pages) ← s.pallocGetPage noFlags
    let s : Heap := { s with toPages := pages }
    if a = 0 then some (false, s)
    else do
      let s ← s.newArena a d
      some (true, s)

def takeBlock (s : Heap) (d : ℕ) : Option (ℕ × Heap) :=
  match s.freeLists d with
  | [] => none
  | b :: rest => do
    let s := s.setFree d rest
    let a ← s.blockToArena b
    some (b, s.set a .freeCnt ((s.get a .freeCnt + wordSize - 1) % wordSize))

def malloc (s : Heap) (size : ℕ) : Option (ℕ × Heap) :=
  if size = 0 then some (0, s)
  else
    let d := descs.findIdx fun d => decide (size ≤ d.blockSize)
    if d = descs.length then s.mallocBig size
    else do
      let (refilled, s) ← s.refill d
      if refilled then s.takeBlock d else some (0, s)

def calloc (s : Heap) (a b : ℕ) : Option (ℕ × Heap) :=
  let size := a * b % wordSize
  if size < a ∨ size < b then some (0, s)
  else do
    let (p, s) ← s.malloc size
    some (p, if p ≠ 0 then s.fill p 0 size else s)

def blockSize (s : Heap) (block : ℕ) : Option ℕ := do
  let a ← s.blockToArena block
  let owner := s.get a .desc
  some (if owner ≠ 0 then (desc (owner - 1)).blockSize else pgSize * s.get a .freeCnt - pgOfs block)

/-- `list_remove` can only take out what is in a list. -/
def removeBlock (a d : ℕ) (s : Heap) (idx : ℕ) : Option Heap := do
  let b ← s.arenaToBlock a idx
  if b ∈ s.freeLists d then some (s.setFree d ((s.freeLists d).erase b)) else none

def retire (s : Heap) (a d : ℕ) : Option Heap := do
  let s ← (List.range (desc d).blocksPerArena).foldlM (removeBlock a d) s
  let pages ← s.pallocFreePage a
  some { s with toPages := pages }

def putBlock (s : Heap) (a d p : ℕ) : Heap :=
  let s := s.fill p 0xcc (desc d).blockSize
  let s := s.setFree d (p :: s.freeLists d)
  s.set a .freeCnt ((s.get a .freeCnt + 1) % wordSize)

def free (s : Heap) (p : ℕ) : Option Heap :=
  if p = 0 then some s
  else do
    let a ← s.blockToArena p
    let owner := s.get a .desc
    if owner ≠ 0 then
      let d := owner - 1
      let s := s.putBlock a d p
      if (desc d).blocksPerArena ≤ s.get a .freeCnt then
        if s.get a .freeCnt = (desc d).blocksPerArena then s.retire a d else none
      else some s
    else do
      let pages ← s.pallocFreeMultiple a (s.get a .freeCnt)
      some { s with toPages := pages }

def realloc (s : Heap) (oldBlock newSize : ℕ) : Option (ℕ × Heap) :=
  if newSize = 0 then do
    let s ← s.free oldBlock
    some (0, s)
  else do
    let (newBlock, s) ← s.malloc newSize
    if oldBlock ≠ 0 ∧ newBlock ≠ 0 then
      let oldSize ← s.blockSize oldBlock
      let s ← (s.copy newBlock oldBlock (min newSize oldSize)).free oldBlock
      some (newBlock, s)
    else some (newBlock, s)

end Heap

end CourseArchive.PintOS.Threads
