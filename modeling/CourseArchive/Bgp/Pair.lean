import CourseArchive.Bgp.Session
import CourseArchive.Lib.Runs

/-! Two sessions joined by a link that keeps the order and loses nothing, and the history of their frames. -/

namespace CourseArchive.Bgp

open Lib

inductive Side
  | left | right
  deriving DecidableEq

def Side.other : Side → Side
  | left => right
  | right => left

@[simp] lemma Side.other_other (x : Side) : x.other.other = x := by cases x <;> rfl

lemma Side.eq_or_eq_other (x y : Side) : y = x ∨ y = x.other := by
  cases x <;> cases y <;> decide

lemma Side.other_ne (x : Side) : x.other ≠ x := by cases x <;> decide

structure Both (α : Type*) where
  left : α
  right : α
  deriving DecidableEq

namespace Both

variable {α : Type*} {b : Both α} {a : α}

def get (b : Both α) : Side → α
  | .left => b.left
  | .right => b.right

def set (b : Both α) : Side → α → Both α
  | .left, a => { b with left := a }
  | .right, a => { b with right := a }

@[simp] lemma get_set (x : Side) : (b.set x a).get x = a := by cases x <;> rfl

@[simp] lemma get_set_other (x : Side) : (b.set x a).get x.other = b.get x.other := by cases x <;> rfl

@[simp] lemma get_other_set (x : Side) : (b.set x.other a).get x = b.get x := by cases x <;> rfl

@[simp] lemma set_get (x : Side) : b.set x (b.get x) = b := by cases x <;> rfl

lemma ext_get {b b' : Both α} (h : ∀ x, b.get x = b'.get x) : b = b' := by
  cases b
  cases b'
  exact congrArg₂ _ (h .left) (h .right)

end Both

/-- `attempt` is the attempt of the `OPEN` that the frame is or that it answers. -/
structure Message where
  type : MessageType
  attempt : ℕ
  deriving DecidableEq

/-- `attempt` counts how often `CONNECT` has been entered, `opened` are the attempts in which an `OPEN` was sent,
`clean` tells whether nothing that could be mistaken for this attempt's was on its way when it began, and `unheard`
counts the ticks since the last `KEEPALIVE` came in and since the other end last had something to announce. -/
structure History where
  attempt : ℕ
  opened : List ℕ
  clean : Bool
  unheard : ℕ
  deriving DecidableEq

namespace History

def initial : History := ⟨0, [], false, 0⟩

def record (clean : Bool) (h : History) : Signal → History
  | .changed _ .connect => { h with attempt := h.attempt + 1, clean }
  | .sent .bgpOpen => { h with opened := h.attempt :: h.opened }
  | _ => h

def recordAll (h : History) (clean : Bool) (sig : List Signal) : History := sig.foldl (record clean) h

def attemptOf (h : History) (answered : ℕ) : MessageType → ℕ
  | .bgpOpen => h.attempt
  | .keepalive => answered
  | _ => 0

end History

def sentType : Signal → Option MessageType
  | .sent type => some type
  | .changed _ _ => none

def handshakes : List (List MessageType) := [[.synAck, .bgpOpen, .keepalive], [.ack, .bgpOpen, .keepalive]]

def startsClean (incoming outgoing : List MessageType) : Bool :=
  !outgoing.contains .bgpOpen && handshakes.all fun frames => !frames.isSublist incoming

@[ext]
structure Pair where
  session : Both Session
  inFlight : Both (List Message)
  history : Both History
  deriving DecidableEq

inductive PairMove
  | start (x : Side)
  | tick (x : Side)
  | deliver (x : Side)
  | announce (x : Side)
  deriving DecidableEq

namespace Pair

def act (p : Pair) (x : Side) (answered : ℕ) (r : Session × List Signal) : Pair :=
  let clean := startsClean ((p.inFlight.get x).map (·.type)) ((p.inFlight.get x.other).map (·.type))
  let history := (p.history.get x).recordAll clean r.2
  { session := p.session.set x r.1
    inFlight := p.inFlight.set x.other (p.inFlight.get x.other ++
      (r.2.filterMap sentType).map fun type => ⟨type, history.attemptOf answered type⟩)
    history := p.history.set x history }

def setUnheard (p : Pair) (x : Side) (unheard : ℕ) : Pair :=
  { p with history := p.history.set x { p.history.get x with unheard } }

def take (p : Pair) (x : Side) (e : Message) (rest : List Message) : Pair where
  session := p.session
  inFlight := p.inFlight.set x rest
  history := if e.type = .keepalive then p.history.set x { p.history.get x with unheard := 0 } else p.history

def step (p : Pair) : PairMove → Option Pair
  | .start x => some (p.act x 0 (p.session.get x).start)
  | .tick x => some ((p.setUnheard x ((p.history.get x).unheard + 1)).act x 0 (p.session.get x).tick)
  | .deliver x =>
    match p.inFlight.get x with
    | [] => none
    | e :: rest => some ((p.take x e rest).act x e.attempt ((p.session.get x).receive e.type))
  | .announce x =>
    if (p.session.get x).state = .established then
      some ((p.setUnheard x.other 0).act x 0 (p.session.get x, [.sent .update]))
    else some p

section Act

variable (p : Pair) (x : Side) (answered : ℕ) (r : Session × List Signal)

@[simp] lemma act_session : (p.act x answered r).session.get x = r.1 := Both.get_set x

@[simp] lemma act_session_other : (p.act x answered r).session.get x.other = p.session.get x.other :=
  Both.get_set_other x

@[simp] lemma act_incoming : (p.act x answered r).inFlight.get x = p.inFlight.get x := Both.get_other_set x

lemma act_outgoing : (p.act x answered r).inFlight.get x.other = p.inFlight.get x.other ++
    (r.2.filterMap sentType).map fun type =>
      ⟨type, ((p.act x answered r).history.get x).attemptOf answered type⟩ := by
  simp [act]

lemma act_history : (p.act x answered r).history.get x = (p.history.get x).recordAll
    (startsClean ((p.inFlight.get x).map (·.type)) ((p.inFlight.get x.other).map (·.type))) r.2 := Both.get_set x

@[simp] lemma act_history_other : (p.act x answered r).history.get x.other = p.history.get x.other :=
  Both.get_set_other x

end Act

def initial (timers : Both (ℕ × ℕ × ℕ)) : Pair where
  session :=
    ⟨⟨.idle, timers.left.1, timers.left.2.1, timers.left.2.2, false, false⟩,
      ⟨.idle, timers.right.1, timers.right.2.1, timers.right.2.2, false, false⟩⟩
  inFlight := ⟨[], []⟩
  history := ⟨.initial, .initial⟩

end Pair

/-! What one step of a session can do to the history. -/

namespace Session

variable {s : Session}

def awaited : BgpState → List (List MessageType)
  | .oSent => [[.bgpOpen, .keepalive]]
  | .oConfirm => [[.keepalive]]
  | .established => []
  | _ => handshakes

structure Quiet (s : Session) (r : Session × List Signal) : Prop where
  history : ∀ clean (h : History), h.recordAll clean r.2 = h
  sends : r.2.filterMap sentType = []
  awaited : awaited r.1.state = awaited s.state
  established : r.1.state = .established → s.state = .established

structure Enters (r : Session × List Signal) : Prop where
  history : ∀ clean (h : History), h.recordAll clean r.2 = { h with attempt := h.attempt + 1, clean }
  sends : r.2.filterMap sentType = [.syn]
  state : r.1.state = .connect

lemma Quiet.refl (s : Session) : s.Quiet (s, []) := ⟨fun _ _ => rfl, rfl, rfl, id⟩

lemma tick_of_holding (h : s.Holding) (hz : s.ht - 1 ≠ 0) : s.tick = ({ s with ht := s.ht - 1 }, []) := by
  have hne : s.state ≠ .connect ∧ s.state ≠ .activeState := by
    rcases h with h | h | h <;> simp [h]
  simp [tick, tickHold, h, hz, tickConnect, tickActive, hne]

lemma tick_of_expired (h : s.Holding) (hz : s.ht - 1 = 0) : s.tick =
    (⟨.connect, 29, 240, 30, true, s.synAckSent⟩,
      [.changed s.state .idle, .changed .idle .connect, .sent .syn]) := by
  simp [tick, tickHold, h, hz, tickConnect, tickActive]

lemma tick_of_not_holding (h : ¬s.Holding) : s.tick =
    if s.tickConnect.2.2 then (s.tickConnect.1, s.tickConnect.2.1)
    else (s.tickConnect.1.tickActive.1, s.tickConnect.2.1 ++ s.tickConnect.1.tickActive.2) := by
  simp [tick, tickHold, h]

lemma tick_quiet_or_enters (s : Session) : s.Quiet s.tick ∨ Enters s.tick := by
  by_cases hh : s.Holding
  · by_cases hz : s.ht - 1 = 0
    · rw [tick_of_expired hh hz]
      exact .inr ⟨fun _ _ => rfl, rfl, rfl⟩
    · rw [tick_of_holding hh hz]
      exact .inl ⟨fun _ _ => rfl, rfl, rfl, id⟩
  rw [tick_of_not_holding hh]
  cases hs : s.state with
  | idle => exact .inl (by simpa [tickConnect, tickActive, hs] using Quiet.refl s)
  | oSent => exact absurd (.inr (.inr hs)) hh
  | oConfirm => exact absurd (.inr (.inl hs)) hh
  | established => exact absurd (.inl hs) hh
  | connect =>
    by_cases hr : s.rto - 1 = 0
    · left
      simp only [tickConnect, hs, hr, if_true]
      exact ⟨fun _ _ => rfl, rfl, by rw [hs]; rfl, by simp⟩
    by_cases hc : s.crt - 1 = 0
    · right
      simp only [tickConnect, hs, hr, hc, if_true, if_false, tickActive, Bool.false_eq_true, reduceCtorEq]
      exact ⟨fun _ _ => rfl, rfl, rfl⟩
    · left
      simp only [tickConnect, hs, hr, hc, if_true, if_false, tickActive, Bool.false_eq_true, reduceCtorEq]
      exact ⟨fun _ _ => rfl, rfl, by rw [hs], by simp⟩
  | activeState =>
    by_cases hc : s.crt - 1 = 0
    · right
      simp only [tickConnect, hs, hc, if_true, if_false, tickActive, Bool.false_eq_true, reduceCtorEq]
      exact ⟨fun _ _ => rfl, rfl, rfl⟩
    · left
      simp only [tickConnect, hs, hc, if_true, if_false, tickActive, Bool.false_eq_true, reduceCtorEq]
      exact ⟨fun _ _ => rfl, rfl, by rw [hs], by simp⟩

lemma start_quiet_or_enters (s : Session) : s.Quiet s.start ∨ Enters s.start := by
  rw [start]
  split_ifs with h
  · exact .inr ⟨fun _ _ => rfl, rfl, rfl⟩
  · exact .inl (.refl s)

lemma established_of_quiet_or_enters {r : Session × List Signal} (h : s.Quiet r ∨ Enters r)
    (he : r.1.state = .established) : s.state = .established := by
  rcases h with h | h
  · exact h.established he
  · rw [h.state] at he
    cases he

lemma receive_established {type : MessageType} (hne : s.state ≠ .established)
    (he : (s.receive type).1.state = .established) : type = .keepalive ∧ s.state = .oConfirm := by
  cases type with
  | keepalive =>
    rw [receive] at he
    split_ifs at he with h
    · exact ⟨rfl, h⟩
    · exact absurd he hne
  | invalid => exact absurd he hne
  | syn | ack | synAck | update | bgpOpen =>
    rw [receive] at he
    split_ifs at he <;> simp_all [openSent]

structure Answers (s : Session) (type : MessageType) (r : Session × List Signal) : Prop where
  opened : ∀ clean (h : History), ∃ opened, h.recordAll clean r.2 = { h with opened } ∧
    (∀ k ∈ h.opened, k ∈ opened) ∧ (.bgpOpen ∈ r.2.filterMap sentType → h.attempt ∈ opened)
  sends : ∀ t ∈ r.2.filterMap sentType, t ≠ .update ∧ t ≠ .invalid ∧ (t = .keepalive → type = .bgpOpen)
  awaited : ∀ rest ∈ awaited r.1.state, ∃ frames ∈ Session.awaited s.state, frames = rest ∨ frames = type :: rest

lemma Answers.refl (s : Session) (type : MessageType) : s.Answers type (s, []) :=
  ⟨fun _ h => ⟨h.opened, rfl, fun _ => id, by simp⟩, by simp, fun rest h => ⟨rest, h, .inl rfl⟩⟩

lemma awaited_of_connecting (h : s.Connecting) : awaited s.state = handshakes := by
  rcases h with h | h <;> rw [h] <;> rfl

lemma receive_answers (s : Session) (type : MessageType) : s.Answers type (s.receive type) := by
  cases type with
  | syn =>
    rw [receive]
    split_ifs with h
    · exact ⟨fun _ h => ⟨h.opened, rfl, fun _ => id, by simp [sentType]⟩, by simp [sentType],
        fun rest h => ⟨rest, h, .inl rfl⟩⟩
    · exact .refl s _
  | ack =>
    rw [receive]
    split_ifs with h
    · refine ⟨fun _ h => ⟨h.attempt :: h.opened, rfl,
        fun _ => List.mem_cons_of_mem _, by simp⟩, by simp [sentType],
        fun rest hr => ?_⟩
      rw [List.mem_singleton.mp hr, awaited_of_connecting h.1]
      exact ⟨_, List.mem_cons_of_mem _ List.mem_cons_self, .inr rfl⟩
    · exact .refl s _
  | synAck =>
    rw [receive]
    split_ifs with h
    · refine ⟨fun _ h => ⟨h.attempt :: h.opened, rfl,
        fun _ => List.mem_cons_of_mem _, by simp⟩, by simp [sentType],
        fun rest hr => ?_⟩
      rw [List.mem_singleton.mp hr, awaited_of_connecting h.1]
      exact ⟨_, List.mem_cons_self, .inr rfl⟩
    · exact .refl s _
  | keepalive =>
    rw [receive]
    split_ifs with h h'
    · exact ⟨fun _ h => ⟨h.opened, rfl, fun _ => id, by simp [sentType]⟩, by simp [sentType], by simp [awaited]⟩
    · exact ⟨fun _ h => ⟨h.opened, rfl, fun _ => id, by simp⟩, by simp, by simp [awaited, h']⟩
    · exact .refl s _
  | update =>
    rw [receive]
    split_ifs with h
    · exact ⟨fun _ h => ⟨h.opened, rfl, fun _ => id, by simp⟩, by simp, by simp [awaited, h]⟩
    · exact .refl s _
  | bgpOpen =>
    rw [receive]
    split_ifs with h
    · refine ⟨fun _ h => ⟨h.opened, rfl, fun _ => id, by simp [sentType]⟩, by simp [sentType], fun rest hr => ?_⟩
      rw [List.mem_singleton.mp hr, h]
      exact ⟨_, List.mem_cons_self, .inr rfl⟩
    · exact .refl s _
  | invalid => exact .refl s _

end Session

end CourseArchive.Bgp
