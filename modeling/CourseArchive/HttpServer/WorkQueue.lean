import CourseArchive.Lib.Monitor
import CourseArchive.Lib.Runs

/-! The queue of `hw2/wq.c` between the thread that accepts clients and the threads that serve them. -/

namespace CourseArchive.HttpServer

open Lib

structure Wq where
  size : ℤ
  items : List ℤ
  maxQueueSize : ℤ
  deriving DecidableEq

inductive Condition
  | isNotEmpty | isNotFull
  deriving DecidableEq

inductive Call
  | push (clientSocketFd : ℤ)
  | pop
  deriving DecidableEq

def Call.waitsFor : Call → Condition
  | pop => .isNotEmpty
  | push _ => .isNotFull

namespace Wq

def init (numThread : ℤ) : Wq := ⟨0, [], numThread⟩

def mustWait (wq : Wq) : Call → Bool
  | .pop => wq.size == 0
  | .push _ => wq.size == wq.maxQueueSize

def pop (wq : Wq) : Option (ℤ × Wq) :=
  match wq.items with
  | [] => none
  | clientSocketFd :: rest => some (clientSocketFd, { wq with size := wq.size - 1, items := rest })

def push (wq : Wq) (clientSocketFd : ℤ) : Wq :=
  { wq with items := wq.items ++ [clientSocketFd], size := wq.size + 1 }

end Wq

structure State (T : Type) where
  wq : Wq
  threads : T → Place Call
  pushed : List ℤ
  popped : List ℤ

/-- A thread that enters runs one critical section, up to its wait or its return; the signal of that section
unblocks the threads of `woken`. -/
inductive Move (T : Type)
  | call (t : T) (call : Call)
  | enter (t : T) (woken : Finset T)
  | spurious (t : T)

variable {T : Type} [Fintype T] [DecidableEq T]

namespace State

def initial (numThread : ℤ) : State T := ⟨.init numThread, fun _ => .outside, [], []⟩

def move (s : State T) (t : T) (place : Place Call) : State T :=
  { s with threads := Function.update s.threads t place }

def signal (s : State T) (c : Condition) (woken : Finset T) : Option (State T) :=
  if Signals Call.waitsFor c s.threads woken then some { s with threads := wake s.threads woken } else none

def enter (s : State T) (t : T) (call : Call) (woken : Finset T) : Option (State T) :=
  if s.wq.mustWait call then some (s.move t (.waiting call))
  else
    match call with
    | .pop => s.wq.pop.bind fun (clientSocketFd, wq) =>
      { s.move t .outside with wq, popped := s.popped ++ [clientSocketFd] }.signal .isNotFull woken
    | .push clientSocketFd =>
      { s.move t .outside with wq := s.wq.push clientSocketFd, pushed := s.pushed ++ [clientSocketFd] }.signal
        .isNotEmpty woken

def step (s : State T) : Move T → Option (State T)
  | .call t call => if s.threads t = .outside then some (s.move t (.ready call)) else none
  | .enter t woken =>
    match s.threads t with
    | .ready call => s.enter t call woken
    | _ => none
  | .spurious t =>
    match s.threads t with
    | .waiting call => some (s.move t (.ready call))
    | _ => none

/-! What each step preserves. -/

def room (wq : Wq) : ℕ := (wq.maxQueueSize - wq.size).toNat

structure Queued (capacity : ℤ) (s : State T) : Prop where
  size : s.wq.size = s.wq.items.length
  bounded : s.wq.size ≤ s.wq.maxQueueSize
  capacity : s.wq.maxQueueSize = capacity
  fifo : s.pushed = s.popped ++ s.wq.items
  consumers : Enough Call.waitsFor .isNotEmpty s.threads s.wq.items.length
  producers : Enough Call.waitsFor .isNotFull s.threads (room s.wq)

variable {capacity : ℤ} {s u : State T} {t : T} {call : Call} {woken : Finset T}

lemma signal_eq {c : Condition} (h : s.signal c woken = some u) :
    Signals Call.waitsFor c s.threads woken ∧ u = { s with threads := wake s.threads woken } := by
  rw [signal] at h
  split_ifs at h with hs
  exact ⟨hs, (Option.some_injective _ h).symm⟩

lemma enter_of_mustWait (hw : s.wq.mustWait call) : s.enter t call woken = some (s.move t (.waiting call)) := by
  unfold enter
  rw [if_pos hw]

lemma signal_all (s : State T) (c : Condition) :
    s.signal c (waitingOn Call.waitsFor c s.threads) =
      some { s with threads := wake s.threads (waitingOn Call.waitsFor c s.threads) } := if_pos signals_all

lemma enter_pop (hw : s.wq.mustWait .pop = false) {clientSocketFd : ℤ} {rest : List ℤ}
    (hitems : s.wq.items = clientSocketFd :: rest) :
    s.enter t .pop woken =
      { s.move t .outside with
        wq := { s.wq with size := s.wq.size - 1, items := rest }
        popped := s.popped ++ [clientSocketFd] }.signal .isNotFull woken := by
  simp only [enter, hw, Wq.pop, hitems]
  rfl

lemma enter_push {clientSocketFd : ℤ} (hw : s.wq.mustWait (.push clientSocketFd) = false) :
    s.enter t (.push clientSocketFd) woken =
      { s.move t .outside with
        wq := s.wq.push clientSocketFd
        pushed := s.pushed ++ [clientSocketFd] }.signal .isNotEmpty woken := by
  simp only [enter, hw]
  rfl

namespace Queued

lemma become_ready (h : Queued capacity s) (ht : ∀ call', s.threads t ≠ .ready call') (call : Call) :
    Queued capacity (s.move t (.ready call)) :=
  ⟨h.size, h.bounded, h.capacity, h.fifo, h.consumers.become_ready ht call, h.producers.become_ready ht call⟩

lemma wait (h : Queued capacity s) (ht : s.threads t = .ready call) (hw : s.wq.mustWait call) :
    Queued capacity (s.move t (.waiting call)) := by
  cases call with
  | pop =>
    have hempty : s.wq.items.length = 0 := by
      have := h.size
      simp [Wq.mustWait] at hw
      omega
    refine ⟨h.size, h.bounded, h.capacity, h.fifo, ?_, h.producers.elsewhere ht (by decide) _ (by decide)⟩
    simp only [move, hempty]
    exact Enough.none_left
  | push clientSocketFd =>
    have hfull : room s.wq = 0 := by
      simp [Wq.mustWait] at hw
      simp [room, hw]
    refine ⟨h.size, h.bounded, h.capacity, h.fifo,
      h.consumers.elsewhere ht (by simp [Call.waitsFor]) _ (by simp [Place.waitsOn, Call.waitsFor]), ?_⟩
    simp only [move, hfull]
    exact Enough.none_left

omit [DecidableEq T] in
lemma exists_item (h : Queued capacity s) (hw : s.wq.mustWait .pop = false) :
    ∃ fd rest, s.wq.items = fd :: rest := by
  refine List.exists_cons_of_ne_nil fun hnil => ?_
  have := h.size
  simp [Wq.mustWait, hnil] at hw this
  exact hw this

lemma pop (h : Queued capacity s) (ht : s.threads t = .ready .pop) (hw : s.wq.mustWait .pop = false)
    (hu : s.enter t .pop woken = some u) : Queued capacity u := by
  obtain ⟨fd, rest, hitems⟩ := h.exists_item hw
  rw [enter_pop hw hitems] at hu
  obtain ⟨hs, rfl⟩ := signal_eq hu
  have hsize := h.size
  have hbounded := h.bounded
  have hconsumers := h.consumers
  rw [hitems, List.length_cons] at hsize hconsumers
  have hroom : room { s.wq with size := s.wq.size - 1, items := rest } = room s.wq + 1 := by
    simp only [room]
    omega
  refine ⟨by simp [hsize], by simp only; omega, h.capacity, by simp [move, h.fifo, hitems], ?_, ?_⟩
  · exact (hconsumers.leave .outside (by decide)).signal_other hs (by decide)
  · simp only [hroom]
    exact (h.producers.elsewhere ht (by decide) .outside (by decide)).signal hs

lemma push (h : Queued capacity s) {clientSocketFd : ℤ} (ht : s.threads t = .ready (.push clientSocketFd))
    (hw : s.wq.mustWait (.push clientSocketFd) = false) (hu : s.enter t (.push clientSocketFd) woken = some u) :
    Queued capacity u := by
  rw [enter_push hw] at hu
  obtain ⟨hs, rfl⟩ := signal_eq hu
  have hsize := h.size
  have hbounded := h.bounded
  simp only [Wq.mustWait, beq_eq_false_iff_ne] at hw
  have hroom : room s.wq = room (s.wq.push clientSocketFd) + 1 := by
    simp only [room, Wq.push]
    omega
  have hproducers := h.producers
  rw [hroom] at hproducers
  have hne : (Call.push clientSocketFd).waitsFor ≠ .isNotEmpty := by simp [Call.waitsFor]
  refine ⟨by simp [Wq.push]; omega, by simp only [Wq.push]; omega, h.capacity, ?_, ?_, ?_⟩
  · simp [Wq.push, move, h.fifo]
  · simp only [Wq.push, List.length_append, List.length_singleton]
    exact (h.consumers.elsewhere ht hne .outside (by decide)).signal hs
  · exact (hproducers.leave .outside (by decide)).signal_other hs (by decide)

lemma after_step (h : Queued capacity s) (m : Move T) (hu : s.step m = some u) : Queued capacity u := by
  cases m with
  | call t call =>
    rw [State.step] at hu
    split_ifs at hu with ht
    obtain rfl := Option.some_injective _ hu
    exact h.become_ready (by simp [ht]) call
  | spurious t =>
    rw [State.step] at hu
    cases ht : s.threads t with
    | outside => simp [ht] at hu
    | ready => simp [ht] at hu
    | waiting call =>
      rw [ht] at hu
      obtain rfl := Option.some_injective _ hu
      exact h.become_ready (by simp [ht]) call
  | enter t woken =>
    rw [State.step] at hu
    cases ht : s.threads t with
    | outside => simp [ht] at hu
    | waiting => simp [ht] at hu
    | ready call =>
      simp only [ht] at hu
      by_cases hw : s.wq.mustWait call
      · rw [enter_of_mustWait hw] at hu
        obtain rfl := Option.some_injective _ hu
        exact h.wait ht hw
      · cases call with
        | pop => exact h.pop ht (by simpa using hw) hu
        | push => exact h.push ht (by simpa using hw) hu

omit [DecidableEq T] in
lemma initial (hcap : 0 ≤ capacity) : Queued capacity (initial capacity : State T) := by
  refine ⟨rfl, hcap, rfl, rfl, ?_, ?_⟩ <;>
  · rintro ⟨t, ht⟩
    simp [State.initial, Place.waitsOn] at ht

lemma of_reaches (h : Reaches step anyMove (State.initial capacity) s) (hcap : 0 ≤ capacity) : Queued capacity s :=
  h.invariant _ (fun _ m _ hs _ hu => hs.after_step m hu) (initial hcap)

/-! A thread that is ready to take what others wait for takes it in its next critical section. -/

lemma pop_ready (h : Queued capacity s) (ht : s.threads t = .ready .pop) (hitems : s.wq.items ≠ []) :
    ∃ woken u clientSocketFd, s.step (.enter t woken) = some u ∧ u.popped = s.popped ++ [clientSocketFd] := by
  obtain ⟨fd, rest, hcons⟩ := List.exists_cons_of_ne_nil hitems
  have hw : s.wq.mustWait .pop = false := by
    have := h.size
    rw [hcons, List.length_cons] at this
    simp [Wq.mustWait]
    omega
  simp only [State.step, ht, enter_pop hw hcons]
  exact ⟨_, _, fd, signal_all _ _, rfl⟩

end Queued

lemma push_ready {clientSocketFd : ℤ} (ht : s.threads t = .ready (.push clientSocketFd))
    (hroom : s.wq.size < s.wq.maxQueueSize) :
    ∃ woken u, s.step (.enter t woken) = some u ∧ u.pushed = s.pushed ++ [clientSocketFd] := by
  have hw : s.wq.mustWait (.push clientSocketFd) = false := by
    simp [Wq.mustWait]
    omega
  simp only [State.step, ht, enter_push hw]
  exact ⟨_, _, signal_all _ _, rfl⟩

theorem work_queue_correct (hcap : 1 ≤ capacity) (h : Reaches step anyMove (initial capacity) s) :
    s.wq.size = s.wq.items.length ∧ s.wq.size ≤ s.wq.maxQueueSize ∧ s.wq.maxQueueSize = capacity ∧
    s.popped <+: s.pushed ∧ s.pushed = s.popped ++ s.wq.items ∧
    (s.wq.items ≠ [] → (∃ t, s.threads t = .waiting .pop) → ∃ t, s.threads t = .ready .pop ∧
      ∃ woken u clientSocketFd, s.step (.enter t woken) = some u ∧ u.popped = s.popped ++ [clientSocketFd]) ∧
    (s.wq.size < s.wq.maxQueueSize → (∃ t fd, s.threads t = .waiting (.push fd)) →
      ∃ t clientSocketFd, s.threads t = .ready (.push clientSocketFd) ∧
      ∃ woken u, s.step (.enter t woken) = some u ∧ u.pushed = s.pushed ++ [clientSocketFd]) := by
  have hq := Queued.of_reaches h (by omega)
  refine ⟨hq.size, hq.bounded, hq.capacity, hq.fifo ▸ List.prefix_append _ _, hq.fifo, ?_, ?_⟩
  · rintro hitems ⟨t, ht⟩
    obtain ⟨u, call, hu, hcall⟩ := hq.consumers.exists_ready (List.length_pos_of_ne_nil hitems) ht rfl
    cases call with
    | push => simp [Call.waitsFor] at hcall
    | pop => exact ⟨u, hu, hq.pop_ready hu hitems⟩
  · rintro hroom ⟨t, fd, ht⟩
    obtain ⟨u, call, hu, hcall⟩ := hq.producers.exists_ready (by simp only [room]; omega) ht rfl
    cases call with
    | pop => simp [Call.waitsFor] at hcall
    | push clientSocketFd => exact ⟨u, clientSocketFd, hu, push_ready hu hroom⟩

def sample : List (Move (Fin 3)) :=
  [.call 0 .pop, .enter 0 ∅, .call 1 .pop, .enter 1 ∅, .call 2 (.push 7), .enter 2 {0}]

theorem work_queue_correct_sample : ∃ s : State (Fin 3), play step (initial 1) sample = some s ∧ s.wq.size = 1 ∧
    s.pushed = s.popped ++ s.wq.items ∧ s.threads 1 = .waiting .pop ∧ ∃ t, s.threads t = .ready .pop ∧
      ∃ woken u clientSocketFd, s.step (.enter t woken) = some u ∧ u.popped = s.popped ++ [clientSocketFd] := by
  obtain ⟨s, hs⟩ : ∃ s, play step (initial 1 : State (Fin 3)) sample = some s :=
    Option.isSome_iff_exists.mp (by decide)
  have hlast : (play step (initial 1 : State (Fin 3)) sample).map (fun s => (s.wq.items, s.threads 1)) =
      some ([7], .waiting .pop) := by decide
  rw [hs, Option.map_some, Option.some_inj, Prod.mk_inj] at hlast
  obtain ⟨hsize, -, -, -, hfifo, hconsumers, -⟩ := work_queue_correct le_rfl (reaches_of_play _ hs)
  exact ⟨s, hs, by rw [hsize, hlast.1]; rfl, hfifo, hlast.2, hconsumers (by simp [hlast.1]) ⟨1, hlast.2⟩⟩

end State

end CourseArchive.HttpServer
