import CourseArchive.Lib.Deadlines

/-! Thread states and the ready list in `threads/thread.c`. A thread is named by its page; each function runs with
interrupts off. `none` stands for a failed assertion. -/

namespace CourseArchive.PintOS.Threads

open Lib

inductive ThreadStatus
  | running | ready | blocked | dying
  deriving DecidableEq

inductive TimerEvent
  | slept (t : ℕ) (now n : ℤ)
  | woken (t : ℕ) (now : ℤ)
  deriving DecidableEq

/-- `wakeTicks` is the field `ticks` of a thread. `waiters` are the threads on the waiting lists of the semaphores
and interrupt queues, and a page with no thread in it counts as dying. -/
structure Kernel where
  ticks : ℤ
  wakeTicks : ℕ → ℤ
  status : ℕ → ThreadStatus
  current : ℕ
  idleThread : ℕ
  readyList : List ℕ
  sleepList : List ℕ
  waiters : List ℕ
  log : List TimerEvent

namespace Kernel

def setStatus (s : Kernel) (t : ℕ) (status : ThreadStatus) : Kernel :=
  { s with status := Function.update s.status t status }

def threadCurrent (s : Kernel) : Option ℕ := if s.status s.current = .running then some s.current else none

def nextThreadToRun (s : Kernel) : ℕ × Kernel :=
  match s.readyList with
  | [] => (s.idleThread, s)
  | next :: rest => (next, { s with readyList := rest })

def schedule (s : Kernel) : Option Kernel :=
  if s.status s.current = .running then none
  else
    let (next, s) := s.nextThreadToRun
    some { s.setStatus next .running with current := next }

def threadBlock (s : Kernel) : Option Kernel := do
  let cur ← s.threadCurrent
  (s.setStatus cur .blocked).schedule

def threadUnblock (s : Kernel) (t : ℕ) : Option Kernel :=
  if s.status t = .blocked then some { s.setStatus t .ready with readyList := s.readyList ++ [t] } else none

def threadYield (s : Kernel) : Option Kernel := do
  let cur ← s.threadCurrent
  let readyList := if cur ≠ s.idleThread then s.readyList ++ [cur] else s.readyList
  ({ s with readyList }.setStatus cur .ready).schedule

def threadExit (s : Kernel) : Option Kernel := do
  let cur ← s.threadCurrent
  (s.setStatus cur .dying).schedule

def threadCreate (s : Kernel) (t : ℕ) : Option Kernel :=
  ({ s with wakeTicks := Function.update s.wakeTicks t 0 }.setStatus t .blocked).threadUnblock t

def semaDown (s : Kernel) : Option Kernel := do
  let cur ← s.threadCurrent
  { s with waiters := s.waiters ++ [cur] }.threadBlock

def semaUp (s : Kernel) (t : ℕ) : Option Kernel := { s with waiters := s.waiters.erase t }.threadUnblock t

end Kernel

end CourseArchive.PintOS.Threads
