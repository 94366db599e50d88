import CourseArchive.PintOS.Threads.Scheduler

/-! `timer_sleep` and the timer interrupt of `devices/timer.c`, and what may happen between them. -/

namespace CourseArchive.PintOS.Threads

open Lib

namespace Kernel

def cmpTicks (wakeTicks : ℕ → ℤ) (ta tb : ℕ) : Bool := if wakeTicks ta < wakeTicks tb then true else false

def listInsertOrdered (less : ℕ → ℕ → Bool) (elem : ℕ) : List ℕ → List ℕ
  | [] => [elem]
  | e :: list => if less elem e then elem :: e :: list else e :: listInsertOrdered less elem list

/-- What is between `intr_disable` and `intr_set_level` goes in one step. -/
def timerSleep (s : Kernel) (n : ℤ) : Option Kernel := do
  if n ≤ 0 then pure s
  else
    let cur ← s.threadCurrent
    let wakeTicks := Function.update s.wakeTicks cur (s.ticks + n)
    { s with
      wakeTicks
      sleepList := listInsertOrdered (cmpTicks wakeTicks) cur s.sleepList
      log := s.log ++ [TimerEvent.slept cur s.ticks n] }.threadBlock

def wakeSleepers (s : Kernel) : List ℕ → Option Kernel
  | [] => some s
  | t :: rest =>
    if s.ticks < s.wakeTicks t then some s
    else do
      let s ← { s with sleepList := rest, log := s.log ++ [TimerEvent.woken t s.ticks] }.threadUnblock t
      s.wakeSleepers rest

def timerInterrupt (s : Kernel) : Option Kernel := do
  let _ ← s.threadCurrent
  { s with ticks := s.ticks + 1 }.wakeSleepers s.sleepList

end Kernel

/-- `idle` is the turn of the idle thread's loop. The yield at the end of a time slice is a `threadYield` after the
interrupt. -/
inductive Move
  | timerSleep (n : ℤ)
  | timerInterrupt
  | threadYield
  | threadExit
  | threadCreate (t : ℕ)
  | semaDown
  | semaUp (t : ℕ)
  | idle

namespace Kernel

def step (s : Kernel) : Move → Option Kernel
  | .timerSleep n => s.timerSleep n
  | .timerInterrupt => s.timerInterrupt
  | .threadYield => s.threadYield
  | .threadExit => s.threadExit
  | .threadCreate t => s.threadCreate t
  | .semaDown => s.semaDown
  | .semaUp t => s.semaUp t
  | .idle => s.threadBlock

/-- The idle thread runs its own loop only, a semaphore wakes one of its waiters, a new thread gets a free page,
and the tick counter and the tick to wake up at fit an `int64_t`. -/
def Possible (s : Kernel) : Move → Prop
  | .timerSleep n => s.current ≠ s.idleThread ∧ s.ticks + n < 2 ^ 63
  | .timerInterrupt => s.ticks + 1 < 2 ^ 63
  | .threadYield => True
  | .threadExit => s.current ≠ s.idleThread
  | .threadCreate t => s.status t = .dying
  | .semaDown => s.current ≠ s.idleThread
  | .semaUp t => t ∈ s.waiters
  | .idle => s.current = s.idleThread

instance (s : Kernel) : (a : Move) → Decidable (s.Possible a)
  | .timerSleep _ => inferInstanceAs (Decidable (_ ∧ _))
  | .timerInterrupt => inferInstanceAs (Decidable (_ < _))
  | .threadYield => inferInstanceAs (Decidable True)
  | .threadExit => inferInstanceAs (Decidable (_ ≠ _))
  | .threadCreate _ => inferInstanceAs (Decidable (_ = _))
  | .semaDown => inferInstanceAs (Decidable (_ ≠ _))
  | .semaUp _ => inferInstanceAs (Decidable (_ ∈ _))
  | .idle => inferInstanceAs (Decidable (_ = _))

def started (ticks : ℤ) (initialThread idleThread : ℕ) : Kernel where
  ticks
  wakeTicks _ := 0
  status := Function.update (Function.update (fun _ => .dying) idleThread .blocked) initialThread .running
  current := initialThread
  idleThread
  readyList := []
  sleepList := []
  waiters := []
  log := []

end Kernel

end CourseArchive.PintOS.Threads
