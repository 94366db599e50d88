import CourseArchive.Lib.Memory

/-! The first-fit allocator of `hw3/mm_alloc.c`. Addresses and sizes are 64-bit words, kept below `2 ^ 64`,
and the block headers live in the same memory as the data. -/

namespace CourseArchive.MmAlloc

open Lib

abbrev wordSize : ℕ := 2 ^ 64

abbrev blockSize : ℕ := 40

abbrev null : ℕ := 0

def add64 (a b : ℕ) : ℕ := (a + b) % wordSize

def sub64 (a b : ℕ) : ℕ := (a + (wordSize - b % wordSize)) % wordSize

inductive Field
  | size
  | next
  | prev
  | isFree
  | ptr
  deriving DecidableEq

def Field.offset : Field → ℕ
  | size => 0
  | next => 8
  | prev => 16
  | isFree => 24
  | ptr => 32

def Field.width : Field → ℕ
  | isFree => 4
  | size | next | prev | ptr => 8

/-- The operating system's side of `sbrk`: user addresses stay below the sign bit. -/
structure Limit where
  addr : ℕ
  addr_lt : addr < 2 ^ 63

/-- The memory, the globals of the allocator and the state behind `sbrk`. The break never moves below `base`
or above `limit`, and `grant` says which calls of `sbrk` the system is willing to serve. -/
structure Heap where
  mem : Memory
  first : ℕ
  base : ℕ
  brk : ℕ
  limit : Limit
  grant : ℕ → Bool

namespace Heap

def get (h : Heap) (block : ℕ) (f : Field) : ℕ := h.mem.load (block + f.offset) f.width

def set (h : Heap) (block : ℕ) (f : Field) (v : ℕ) : Heap :=
  { h with mem := h.mem.store (block + f.offset) f.width v }

def memset (h : Heap) (a : ℕ) (b : UInt8) (n : ℕ) : Heap := { h with mem := h.mem.fill a n b }

def memcpy (h : Heap) (a b n : ℕ) : Heap := { h with mem := h.mem.copy a b n }

def increment (n : ℕ) : ℤ := if n < 2 ^ 63 then n else (n : ℤ) - wordSize

def sbrk (h : Heap) (n : ℕ) : Heap × Bool :=
  if n = 0 then (h, true)
  else
    let brk := h.brk + increment n
    let served := h.grant 0 ∧ h.base ≤ brk ∧ brk ≤ h.limit.addr
    let h := { h with grant := fun i => h.grant (i + 1) }
    if served then ({ h with brk := brk.toNat }, true) else (h, false)

end Heap

inductive Fit
  | found (current : ℕ)
  | missing (last : ℕ)
  deriving DecidableEq

/-- The search of `mm_malloc`. A list that closes on itself is walked forever; any other list ends within
`2 ^ 64` blocks. -/
def firstFit (h : Heap) (size : ℕ) : ℕ → ℕ → ℕ → Option Fit
  | 0, current, last => if current = null then some (.missing last) else none
  | fuel + 1, current, last =>
    if current = null then some (.missing last)
    else if h.get current .isFree ≠ 0 ∧ size ≤ h.get current .size then some (.found current)
    else firstFit h size fuel (h.get current .next) current

def newFirst (h : Heap) (size : ℕ) : ℕ × Heap :=
  let first := h.first
  let h := h.set first .prev null
  let h := h.set first .next null
  let h := h.set first .size size
  let h := h.set first .isFree 0
  let h := h.set first .ptr (add64 first blockSize)
  let h := h.memset (h.get first .ptr) 0 (h.get first .size)
  (h.get first .ptr, h)

def split (h : Heap) (current size : ℕ) : Heap :=
  if blockSize ≤ sub64 (h.get current .size) size then
    let last := add64 (h.get current .ptr) size
    let h := h.set last .next (h.get current .next)
    let h := if h.get current .next ≠ null then h.set (h.get current .next) .prev last else h
    let h := h.set current .next last
    let h := h.set last .prev current
    let h := h.set last .size (sub64 (sub64 (h.get current .size) size) blockSize)
    let h := h.set last .isFree 1
    h.set last .ptr (add64 last blockSize)
  else h

def reuse (h : Heap) (current size : ℕ) : ℕ × Heap :=
  let h := h.set current .isFree 0
  let h := split h current size
  let h := h.set current .size size
  let h := h.memset (h.get current .ptr) 0 (h.get current .size)
  (h.get current .ptr, h)

def place (h : Heap) (last size : ℕ) : ℕ × Heap :=
  let current := add64 (h.get last .ptr) (h.get last .size)
  let h := h.set last .next current
  let h := h.set current .prev last
  let h := h.set current .next null
  let h := h.set current .isFree 0
  let h := h.set current .size size
  let h := h.set current .ptr (add64 current blockSize)
  let h := h.memset (h.get current .ptr) 0 (h.get current .size)
  (h.get current .ptr, h)

def append (h : Heap) (last size : ℕ) : ℕ × Heap :=
  if add64 (h.get last .ptr) (h.get last .size) > sub64 (sub64 h.brk size) blockSize then
    match h.sbrk (sub64 (add64 size blockSize) (sub64 (sub64 h.brk (h.get last .ptr)) (h.get last .size))) with
    | (h', true) => place h' last size
    | (h', false) => (null, h')
  else place h last size

def mmMalloc (size : ℕ) (h : Heap) : Option (ℕ × Heap) :=
  if size = 0 then some (null, h)
  else if h.first = null then
    match h.sbrk (add64 size blockSize) with
    | (h', true) => some (newFirst { h' with first := h.brk } size)
    | (h', false) => some (null, { h' with first := null })
  else do
    match ← firstFit h size wordSize h.first h.first with
    | .found current => return reuse h current size
    | .missing last => return append h last size

def findHead (p : ℕ) (h : Heap) : ℕ :=
  if h.first = null then null
  else if p < h.get h.first .ptr ∨ p > h.brk then null
  else
    let iter := sub64 p blockSize
    if h.get iter .ptr ≠ add64 iter blockSize then null else iter

def mergeLeft (h : Heap) (target : ℕ) : Heap :=
  let h := h.set (h.get target .prev) .next (h.get target .next)
  let h := if h.get target .next ≠ null then h.set (h.get target .next) .prev (h.get target .prev) else h
  let h := h.set (h.get target .prev) .size
    (add64 (sub64 (h.get target .ptr) (h.get (h.get target .prev) .ptr)) (h.get target .size))
  if h.get target .next ≠ null ∧ h.get (h.get target .next) .isFree ≠ 0 then
    let h := h.set (h.get target .prev) .next (h.get (h.get target .next) .next)
    let h := if h.get (h.get target .next) .next ≠ null then
      h.set (h.get (h.get target .next) .next) .prev (h.get target .prev) else h
    h.set (h.get target .prev) .size
      (add64 (sub64 (h.get (h.get target .next) .ptr) (h.get (h.get target .prev) .ptr))
        (h.get (h.get target .next) .size))
  else h

def mergeRight (h : Heap) (target : ℕ) : Heap :=
  let h := h.set target .isFree 1
  let h := h.set target .size
    (add64 (sub64 (h.get (h.get target .next) .ptr) (h.get target .ptr)) (h.get (h.get target .next) .size))
  let h := h.set target .next (h.get (h.get target .next) .next)
  if h.get target .next ≠ null then h.set (h.get target .next) .prev target else h

def mmFree (p : ℕ) (h : Heap) : Heap :=
  if p = null then h
  else
    let target := findHead p h
    if target = null then h
    else if h.get target .isFree ≠ 0 then h
    else
      let h := h.set target .isFree 1
      if h.get target .prev ≠ null ∧ h.get (h.get target .prev) .isFree ≠ 0 then mergeLeft h target
      else if h.get target .next ≠ null ∧ h.get (h.get target .next) .isFree ≠ 0 then mergeRight h target
      else h

def mmRealloc (p size : ℕ) (h : Heap) : Option (ℕ × Heap) :=
  if size = 0 then some (null, mmFree p h)
  else if p = null then mmMalloc size h
  else do
    let current := findHead p h
    let (target, h) ← mmMalloc size h
    if current ≠ null ∧ target ≠ null then
      if h.get current .isFree ≠ 0 then return (null, mmFree target h)
      else
        let h := h.memcpy target p (if h.get current .size > size then size else h.get current .size)
        return (target, mmFree p h)
    else return (null, h)

end CourseArchive.MmAlloc
