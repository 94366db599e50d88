import CourseArchive.Lib.DoublyLinked
import CourseArchive.Lib.Loop

/-! Doubly linked lists (`lib/kernel/list.c`). A list element is named by its address, and 0 is the null
pointer. -/

namespace CourseArchive.PintOS.Library

open Lib

structure ListHeader where
  head : ℕ
  tail : ℕ
  deriving DecidableEq

/-- `turns` is the fault of a loop that has not ended within the given number of turns. -/
inductive ListFault
  | assertion | nullPointer | turns
  deriving DecidableEq

abbrev ListM := Comp (Links ℕ) ListFault

def assert (p : Links ℕ → Bool) : ListM Unit := do
  if p (← get) then pure () else throw .assertion

inductive Field
  | prev (e : ℕ)
  | next (e : ℕ)

def load : Field → ListM ℕ
  | .prev e => do if e = 0 then throw .nullPointer else return (← get).prev e
  | .next e => do if e = 0 then throw .nullPointer else return (← get).next e

def store : Field → ℕ → ListM Unit
  | .prev e, v => do if e = 0 then throw .nullPointer else modify (·.setPrev e v)
  | .next e, v => do if e = 0 then throw .nullPointer else modify (·.setNext e v)

def isHead (elem : ℕ) (h : Links ℕ) : Bool := elem ≠ 0 && h.prev elem = 0 && h.next elem ≠ 0

def isInterior (elem : ℕ) (h : Links ℕ) : Bool := elem ≠ 0 && h.prev elem ≠ 0 && h.next elem ≠ 0

def isTail (elem : ℕ) (h : Links ℕ) : Bool := elem ≠ 0 && h.prev elem ≠ 0 && h.next elem = 0

def listInit (l : ListHeader) : ListM Unit := do
  store (.prev l.head) 0
  store (.next l.head) l.tail
  store (.prev l.tail) l.head
  store (.next l.tail) 0

def listBegin (l : ListHeader) : ListM ℕ := load (.next l.head)

def listNext (elem : ℕ) : ListM ℕ := do
  assert fun h => isHead elem h || isInterior elem h
  load (.next elem)

def listEnd (l : ListHeader) : ℕ := l.tail

def listPrev (elem : ℕ) : ListM ℕ := do
  assert fun h => isInterior elem h || isTail elem h
  load (.prev elem)

def listInsert (before elem : ℕ) : ListM Unit := do
  assert fun h => isInterior before h || isTail before h
  assert fun _ => elem ≠ 0
  store (.prev elem) (← load (.prev before))
  store (.next elem) before
  store (.next (← load (.prev before))) elem
  store (.prev before) elem

def listSplice (before first last : ℕ) : ListM Unit := do
  assert fun h => isInterior before h || isTail before h
  if first = last then return
  let last ← listPrev last
  assert (isInterior first)
  assert (isInterior last)
  store (.next (← load (.prev first))) (← load (.next last))
  store (.prev (← load (.next last))) (← load (.prev first))
  store (.prev first) (← load (.prev before))
  store (.next last) before
  store (.next (← load (.prev before))) first
  store (.prev before) last

def listPushFront (l : ListHeader) (elem : ℕ) : ListM Unit := do
  listInsert (← listBegin l) elem

def listPushBack (l : ListHeader) (elem : ℕ) : ListM Unit := listInsert (listEnd l) elem

def listRemove (elem : ℕ) : ListM ℕ := do
  assert (isInterior elem)
  store (.next (← load (.prev elem))) (← load (.next elem))
  store (.prev (← load (.next elem))) (← load (.prev elem))
  load (.next elem)

def listEmpty (l : ListHeader) : ListM Bool := do
  return (← listBegin l) = listEnd l

def listFront (l : ListHeader) : ListM ℕ := do
  if ← listEmpty l then throw .assertion
  load (.next l.head)

def listBack (l : ListHeader) : ListM ℕ := do
  if ← listEmpty l then throw .assertion
  load (.prev l.tail)

def listPopFront (l : ListHeader) : ListM ℕ := do
  let front ← listFront l
  let _ ← listRemove front
  return front

def listPopBack (l : ListHeader) : ListM ℕ := do
  let back ← listBack l
  let _ ← listRemove back
  return back

def again {α β : Type} (a : α) : ListM (α ⊕ β) := pure (.inl a)

def leave {α β : Type} (b : β) : ListM (α ⊕ β) := pure (.inr b)

def listSize (turns : ℕ) (l : ListHeader) : ListM ℕ := do
  loop .turns (fun p : ℕ × ℕ => do
    if p.1 = listEnd l then leave p.2 else again (← listNext p.1, p.2 + 1)) turns (← listBegin l, 0)

def swap (a b : Field) : ListM Unit := do
  let t ← load a
  store a (← load b)
  store b t

def listReverse (turns : ℕ) (l : ListHeader) : ListM Unit := do
  if !(← listEmpty l) then
    loop .turns (fun e => do
      if e = listEnd l then leave () else
        swap (.prev e) (.next e)
        again (← load (.prev e))) turns (← listBegin l)
    swap (.next l.head) (.prev l.tail)
    swap (.prev (← load (.next l.head))) (.next (← load (.prev l.tail)))

section Less

variable (less : ℕ → ℕ → Bool) (turns : ℕ)

def isSorted (a b : ℕ) : ListM Bool := do
  if a = b then return true
  loop .turns (fun a => do
    let a ← listNext a
    if a = b then leave true
    else if less a (← listPrev a) then leave false else again a) turns a

def findEndOfRun (a b : ℕ) : ListM ℕ := do
  assert fun _ => a ≠ 0
  assert fun _ => b ≠ 0
  assert fun _ => a ≠ b
  loop .turns (fun a => do
    let a ← listNext a
    if a = b then leave a
    else if less a (← listPrev a) then leave a else again a) turns a

def inplaceMerge (a0 a1b0 b1 : ℕ) : ListM Unit := do
  assert fun _ => a0 ≠ 0
  assert fun _ => a1b0 ≠ 0
  assert fun _ => b1 ≠ 0
  if !(← isSorted less turns a0 a1b0) then throw .assertion
  if !(← isSorted less turns a1b0 b1) then throw .assertion
  loop .turns (fun p : ℕ × ℕ => do
    if p.1 = p.2 ∨ p.2 = b1 then leave ()
    else if !less p.2 p.1 then again (← listNext p.1, p.2)
    else
      let next ← listNext p.2
      listSplice p.1 (← listPrev next) next
      again (p.1, next)) turns (a0, a1b0)

def sortPass (l : ListHeader) : ListM ℕ := do
  loop .turns (fun p : ℕ × ℕ => do
    if p.1 = listEnd l then leave p.2
    else
      let a1b0 ← findEndOfRun less turns p.1 (listEnd l)
      if a1b0 = listEnd l then leave (p.2 + 1)
      else
        let b1 ← findEndOfRun less turns a1b0 (listEnd l)
        inplaceMerge less turns p.1 a1b0 b1
        again (b1, p.2 + 1)) turns (← listBegin l, 0)

def listSort (l : ListHeader) : ListM Unit := do
  loop .turns (fun _ : Unit => do
    let outputRunCnt ← sortPass less turns l
    if outputRunCnt > 1 then again () else leave ()) turns ()
  if !(← isSorted less turns (← listBegin l) (listEnd l)) then throw .assertion

def listInsertOrdered (l : ListHeader) (elem : ℕ) : ListM Unit := do
  assert fun _ => elem ≠ 0
  let e ← loop .turns (fun e => do
    if e = listEnd l then leave e
    else if less elem e then leave e else again (← listNext e)) turns (← listBegin l)
  listInsert e elem

def listUnique (l : ListHeader) (duplicates : Option ListHeader) : ListM Unit := do
  if ← listEmpty l then return
  loop .turns (fun elem => do
    let next ← listNext elem
    if next = listEnd l then leave ()
    else if !less elem next && !less next elem then
      let _ ← listRemove next
      match duplicates with
      | some d => listPushBack d next
      | none => pure ()
      again elem
    else again next) turns (← listBegin l)

def listBest (better : ℕ → ℕ → Bool) (l : ListHeader) : ListM ℕ := do
  let first ← listBegin l
  if first = listEnd l then return first
  loop .turns (fun p : ℕ × ℕ => do
    if p.1 = listEnd l then leave p.2
    else again (← listNext p.1, if better p.2 p.1 then p.1 else p.2)) turns (← listNext first, first)

def listMax (l : ListHeader) : ListM ℕ := listBest turns less l

def listMin (l : ListHeader) : ListM ℕ := listBest turns (fun found e => less e found) l

end Less

end CourseArchive.PintOS.Library
