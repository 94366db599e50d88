import CourseArchive.Bgp.Announcements
import CourseArchive.Bgp.Attempts
import CourseArchive.Bgp.HoldTimer

/-! Two machines joined by a link that keeps the order of its frames and loses none: what the sessions at its two
ends do is what a pair of sessions does. -/

namespace CourseArchive.Bgp

open Lib SimulatedMachine

structure Link where
  count : Side → ℕ
  port : ∀ x, Fin (count x)

structure Tagged where
  frame : Buffer
  attempt : ℕ

def Tagged.message (e : Tagged) : Message := ⟨frameType e.frame, e.attempt⟩

/-- `inFlight` are the frames on their way to each end; `history` is no part of the machines. -/
structure Joined (L : Link) where
  machine : ∀ x, SimulatedMachine (L.count x)
  inFlight : Both (List Tagged)
  history : Both History

/-- `memory` and `tail` are the bytes that the code does not set: those of a new buffer and those behind a
frame. -/
inductive JoinedMove (L : Link)
  | start (x : Side) (i : Fin (L.count x))
  | tick (x : Side)
  | deliver (x : Side) (tail : ℕ → UInt8)
  | advertise (x : Side) (memory : Fin (L.count x) → ℕ → UInt8)
  | withdraw (x : Side) (target : AddressPrefix)
  | highjack (x : Side) (target : AddressPrefix)
  | prioritySet (x : Side) (ifaceIndex priority : ℤ)
  | printRoutes (x : Side) (target : AddressPrefix)

namespace Joined

variable {L : Link}

def session (s : Joined L) (x : Side) : IfaceState := (s.machine x).ifsmArray (L.port x)

def types (frames : List Tagged) : List MessageType := frames.map fun e => frameType e.frame

def leaving (L : Link) (x : Side) : Output (L.count x) → Option Buffer
  | .sent i frame => if i = L.port x then some frame else none
  | _ => none

def act (s : Joined L) (x : Side) (answered : ℕ) (r : SimulatedMachine (L.count x) × List (Output (L.count x))) :
    Joined L :=
  let clean := startsClean (types (s.inFlight.get x)) (types (s.inFlight.get x.other))
  let history := (s.history.get x).recordAll clean (signals (L.port x) r.2)
  { machine := Function.update s.machine x r.1
    inFlight := s.inFlight.set x.other (s.inFlight.get x.other ++
      (r.2.filterMap (leaving L x)).map fun frame => ⟨frame, history.attemptOf answered (frameType frame)⟩)
    history := s.history.set x history }

def setUnheard (s : Joined L) (x : Side) (unheard : ℕ) : Joined L :=
  { s with history := s.history.set x { s.history.get x with unheard } }

def announcing (s : Joined L) (x : Side) : Joined L :=
  if (s.session x).currentState = .established then s.setUnheard x.other 0 else s

def take (s : Joined L) (x : Side) (e : Tagged) (rest : List Tagged) : Joined L where
  machine := s.machine
  inFlight := s.inFlight.set x rest
  history := if frameType e.frame = .keepalive then s.history.set x { s.history.get x with unheard := 0 }
    else s.history

def step (s : Joined L) : JoinedMove L → Option (Joined L)
  | .start x i => some (s.act x 0 ((s.machine x).startConnection i))
  | .tick x => some ((s.setUnheard x ((s.history.get x).unheard + 1)).act x 0 (s.machine x).manageTime)
  | .deliver x tail =>
    match s.inFlight.get x with
    | [] => none
    | e :: rest => some ((s.take x e rest).act x e.attempt
        ((s.machine x).processFrame (Network.received e.frame tail) (L.port x)))
  | .advertise x memory => ((s.machine x).advertise memory).map fun out =>
      (s.announcing x).act x 0 (s.machine x, out)
  | .withdraw x target => some ((s.announcing x).act x 0 ((s.machine x).withdraw target))
  | .highjack x target => some ((s.announcing x).act x 0 (s.machine x, (s.machine x).highjack target))
  | .prioritySet x ifaceIndex priority =>
      some { s with machine := Function.update s.machine x ((s.machine x).settingPriority ifaceIndex priority) }
  | .printRoutes _ _ => some s

def initial (L : Link) (info : ∀ x, CustomInformation (L.count x)) (timer : ∀ x, Fin (L.count x) → UInt8) :
    Joined L where
  machine x := initializeMachine (info x) (timer x)
  inFlight := ⟨[], []⟩
  history := ⟨.initial, .initial⟩

/-! The pair of sessions at the ends of the link. -/

def pair (s : Joined L) : Pair where
  session := ⟨(s.session .left).session, (s.session .right).session⟩
  inFlight := ⟨s.inFlight.left.map Tagged.message, s.inFlight.right.map Tagged.message⟩
  history := s.history

variable {s s' : Joined L} {x : Side}

@[simp] lemma pair_session (s : Joined L) (x : Side) : s.pair.session.get x = (s.session x).session := by
  cases x <;> rfl

@[simp] lemma pair_inFlight (s : Joined L) (x : Side) :
    s.pair.inFlight.get x = (s.inFlight.get x).map Tagged.message := by
  cases x <;> rfl

@[simp] lemma pair_history (s : Joined L) : s.pair.history = s.history := rfl

lemma types_eq (frames : List Tagged) : (frames.map Tagged.message).map (·.type) = types frames := by
  rw [types, List.map_map]
  rfl

lemma leaving_types (out : List (Output (L.count x))) :
    (out.filterMap (leaving L x)).map frameType = (signals (L.port x) out).filterMap sentType := by
  rw [signals, List.filterMap_filterMap, List.map_filterMap]
  refine List.filterMap_congr fun o _ => ?_
  cases o with
  | sent i frame => by_cases h : i = L.port x <;> simp [leaving, signal, sentType, h]
  | stateChanged first second index => by_cases h : index = (L.port x : ℤ) <;> simp [leaving, signal, sentType, h]
  | hijacked | undefined => rfl

lemma pair_act (s : Joined L) (x : Side) (answered : ℕ)
    (r : SimulatedMachine (L.count x) × List (Output (L.count x))) :
    (s.act x answered r).pair =
      s.pair.act x answered ((r.1.ifsmArray (L.port x)).session, signals (L.port x) r.2) := by
  have hhistory : (s.act x answered r).history =
      (s.pair.act x answered ((r.1.ifsmArray (L.port x)).session, signals (L.port x) r.2)).history := by
    simp only [act, Pair.act, pair_inFlight, types_eq, pair_history]
  refine Pair.ext (Both.ext_get fun y => ?_) (Both.ext_get fun y => ?_) hhistory
  · rcases x.eq_or_eq_other y with rfl | rfl
    · simp [session, act]
    · simp [session, act, x.other_ne]
  · rcases x.eq_or_eq_other y with rfl | rfl
    · simp [act]
    · rw [pair_inFlight, Pair.act_outgoing, ← hhistory, ← leaving_types, List.map_map, pair_inFlight]
      simp [act, Tagged.message]

/-! Each step of the machines is a step of the pair. -/

structure Sound (s : Joined L) : Prop where
  index : ∀ x i, ((s.machine x).ifsmArray i).ifaceIndex = i
  typed : ∀ x, ∀ e ∈ s.inFlight.get x, frameType e.frame ≠ .invalid
  short : ∀ x, ShortPaths (s.machine x).paths

variable {answered : ℕ} {r : SimulatedMachine (L.count x) × List (Output (L.count x))} {t : Session × List Signal}

lemma machine_update {P : ∀ x, SimulatedMachine (L.count x) → Prop} (h : ∀ y, P y (s.machine y))
    {a : SimulatedMachine (L.count x)} (ha : P x a) (y : Side) : P y (Function.update s.machine x a y) := by
  rcases x.eq_or_eq_other y with rfl | rfl
  · rwa [Function.update_self]
  · rw [Function.update_of_ne x.other_ne]
    exact h _

lemma Sound.act (h : s.Sound) (hidx : ∀ i, (r.1.ifsmArray i).ifaceIndex = i) (hshort : ShortPaths r.1.paths)
    (hsent : ∀ type ∈ (signals (L.port x) r.2).filterMap sentType, type ≠ .invalid) :
    (s.act x answered r).Sound := by
  refine ⟨machine_update (P := fun _ a => ∀ i, (a.ifsmArray i).ifaceIndex = i) h.index hidx, fun y e he => ?_,
    machine_update (P := fun _ a => ShortPaths a.paths) h.short hshort⟩
  rcases x.eq_or_eq_other y with rfl | rfl
  · exact h.typed _ e (by simpa [Joined.act] using he)
  · rw [Joined.act] at he
    simp only [Both.get_set, List.mem_append, List.mem_map] at he
    rcases he with he | ⟨frame, hframe, rfl⟩
    · exact h.typed _ e he
    · refine hsent (frameType frame) ?_
      rw [← leaving_types]
      exact List.mem_map_of_mem hframe

structure Plays (s : Joined L) (x : Side) (r : SimulatedMachine (L.count x) × List (Output (L.count x)))
    (t : Session × List Signal) : Prop where
  session : (r.1.ifsmArray (L.port x)).session = t.1
  signals : signals (L.port x) r.2 = t.2
  index : ∀ i, (r.1.ifsmArray i).ifaceIndex = i
  short : ShortPaths r.1.paths
  typed : ∀ type ∈ t.2.filterMap sentType, type ≠ .invalid

lemma Plays.act (h : s.Sound) (hp : s.Plays x r t) :
    (s.act x answered r).Sound ∧ (s.act x answered r).pair = s.pair.act x answered t := by
  refine ⟨h.act hp.index hp.short (by rw [hp.signals]; exact hp.typed), ?_⟩
  rw [pair_act, hp.session, hp.signals]

lemma no_invalid_of_quiet_or_enters {s : Session} (h : s.Quiet t ∨ Session.Enters t) :
    ∀ type ∈ t.2.filterMap sentType, type ≠ .invalid := by
  rcases h with h | h <;> simp [h.sends]

lemma plays_start (h : s.Sound) (x : Side) :
    s.Plays x ((s.machine x).startConnection (L.port x)) (s.session x).session.start := by
  have hacts := startConnection_acts (s.machine x) (L.port x)
  refine ⟨hacts.session, hacts.signals, hacts.index_all (h.index x), ?_,
    no_invalid_of_quiet_or_enters (Session.start_quiet_or_enters _)⟩
  rw [startConnection_paths]
  exact h.short x

lemma plays_start_other (h : s.Sound) (x : Side) {i : Fin (L.count x)} (hi : i ≠ L.port x) :
    s.Plays x ((s.machine x).startConnection i) ((s.session x).session, []) := by
  have hacts := startConnection_acts (s.machine x) i
  refine ⟨congrArg IfaceState.session (hacts.others _ hi.symm), ?_, hacts.index_all (h.index x), ?_, by simp⟩
  · exact List.eq_nil_iff_forall_not_mem.mpr fun y hy => (hacts.elsewhere _ hi.symm y hy).1
  · rw [startConnection_paths]
    exact h.short x

lemma plays_tick (h : s.Sound) (x : Side) : s.Plays x (s.machine x).manageTime (s.session x).session.tick := by
  have hacts := manageTime_acts (h.index x)
  refine ⟨(hacts _).2.1, (hacts _).2.2, fun i => (hacts i).1, ?_,
    no_invalid_of_quiet_or_enters (Session.tick_quiet_or_enters _)⟩
  rw [manageTime_paths]
  exact h.short x

lemma detectTypeOfPacket_received {frame : Buffer} (h : frameType frame ≠ .invalid) (tail : ℕ → UInt8) :
    detectTypeOfPacket (Network.received frame tail).data = frameType frame := by
  rw [frameType] at h ⊢
  split_ifs at h ⊢ with hlen
  · simp only [headerLength] at hlen
    exact detectTypeOfPacket_congr fun k _ hk => if_pos (by omega)
  · exact absurd rfl h

lemma plays_receive (h : s.Sound) (x : Side) {e : Tagged} (he : frameType e.frame ≠ .invalid) (tail : ℕ → UInt8) :
    s.Plays x ((s.machine x).processFrame (Network.received e.frame tail) (L.port x))
      ((s.session x).session.receive (frameType e.frame)) := by
  have hacts := processFrame_acts (s.machine x) (Network.received e.frame tail) (L.port x)
  have hsession := hacts.session
  have hsignals := hacts.signals
  rw [detectTypeOfPacket_received he] at hsession hsignals
  exact ⟨hsession, hsignals, hacts.index_all (h.index x), processFrame_short _ _ (h.short x),
    fun type ht => ((Session.receive_answers _ _).sends type ht).2.1⟩

lemma plays_announce (h : s.Sound) (hsession : (r.1.ifsmArray) = (s.machine x).ifsmArray)
    (hshort : ShortPaths r.1.paths)
    (hsig : signals (L.port x) r.2 = if (s.session x).currentState = .established then [.sent .update] else []) :
    s.Plays x r ((s.session x).session,
      if (s.session x).currentState = .established then [.sent .update] else []) := by
  refine ⟨by rw [hsession]; rfl, hsig, by rw [hsession]; exact h.index x, hshort, ?_⟩
  split_ifs <;> simp [sentType]

lemma setUnheard_sound (h : s.Sound) (x : Side) (unheard : ℕ) : (s.setUnheard x unheard).Sound :=
  ⟨h.index, h.typed, h.short⟩

lemma take_sound (h : s.Sound) {e : Tagged} {rest : List Tagged} (he : s.inFlight.get x = e :: rest) :
    (s.take x e rest).Sound := by
  refine ⟨h.index, fun y e' he' => ?_, h.short⟩
  rcases x.eq_or_eq_other y with rfl | rfl
  · rw [take, Both.get_set] at he'
    exact h.typed _ e' (he ▸ List.mem_cons_of_mem _ he')
  · rw [take, Both.get_set_other] at he'
    exact h.typed _ e' he'

lemma take_pair (s : Joined L) (x : Side) (e : Tagged) (rest : List Tagged) :
    (s.take x e rest).pair = s.pair.take x e.message (rest.map Tagged.message) := by
  refine Pair.ext (by cases x <;> rfl) (by cases x <;> rfl) ?_
  rfl

def pairMove : JoinedMove L → Option PairMove
  | .start x i => if i = L.port x then some (.start x) else none
  | .tick x => some (.tick x)
  | .deliver x _ => some (.deliver x)
  | .advertise x _ | .withdraw x _ | .highjack x _ => some (.announce x)
  | .prioritySet _ _ _ | .printRoutes _ _ => none

def Simulates (s s' : Joined L) (mv : JoinedMove L) : Prop :=
  match pairMove mv with
  | some mv => s.pair.step mv = some s'.pair
  | none => s'.pair = s.pair

lemma act_silent (p : Pair) (x : Side) : p.act x 0 (p.session.get x, []) = p := by
  refine Pair.ext (Both.set_get x) ?_ (Both.set_get x)
  simp [Pair.act]

lemma announce_simulates (h : s.Sound) (hp : s.Plays x r ((s.session x).session,
    if (s.session x).currentState = .established then [.sent .update] else [])) :
    ((s.announcing x).act x 0 r).Sound ∧
      s.pair.step (.announce x) = some ((s.announcing x).act x 0 r).pair := by
  have hstate : (s.pair.session.get x).state = (s.session x).currentState := by rw [pair_session]; rfl
  rw [Pair.step, announcing]
  by_cases he : (s.session x).currentState = .established
  · rw [if_pos he] at hp ⊢
    rw [if_pos (hstate.trans he)]
    have hplays : (s.setUnheard x.other 0).Plays x r ((s.session x).session, [.sent .update]) :=
      ⟨hp.session, hp.signals, hp.index, hp.short, hp.typed⟩
    obtain ⟨hsound, hpair⟩ := hplays.act (setUnheard_sound h x.other 0)
    exact ⟨hsound, by rw [hpair, pair_session]; rfl⟩
  · rw [if_neg he] at hp ⊢
    rw [if_neg (fun hs => he (hstate.symm.trans hs))]
    obtain ⟨hsound, hpair⟩ := hp.act h
    refine ⟨hsound, ?_⟩
    rw [hpair, ← pair_session, act_silent]

lemma step_simulates (h : s.Sound) {mv : JoinedMove L} (hstep : s.step mv = some s') :
    s'.Sound ∧ Simulates s s' mv := by
  cases mv with
  | start x i =>
    obtain rfl := Option.some_injective _ hstep
    rw [Simulates, pairMove]
    by_cases hi : i = L.port x
    · subst hi
      obtain ⟨hsound, hpair⟩ := (plays_start h x).act h
      rw [if_pos rfl]
      refine ⟨hsound, ?_⟩
      change s.pair.step (.start x) = _
      rw [hpair, Pair.step, pair_session]
    · obtain ⟨hsound, hpair⟩ := (plays_start_other h x hi).act h
      rw [if_neg hi]
      refine ⟨hsound, ?_⟩
      rw [hpair, ← pair_session, act_silent]
  | tick x =>
    obtain rfl := Option.some_injective _ hstep
    have hsound := setUnheard_sound h x ((s.history.get x).unheard + 1)
    have hplays : (s.setUnheard x ((s.history.get x).unheard + 1)).Plays x (s.machine x).manageTime
      (s.session x).session.tick := plays_tick hsound x
    obtain ⟨hs, hpair⟩ := hplays.act hsound
    refine ⟨hs, ?_⟩
    change s.pair.step (.tick x) = _
    rw [hpair, Pair.step, pair_session]
    rfl
  | deliver x tail =>
    rw [step] at hstep
    cases he : s.inFlight.get x with
    | nil => simp [he] at hstep
    | cons e rest =>
      rw [he] at hstep
      obtain rfl := Option.some_injective _ hstep
      have hsound := take_sound h he
      have hplays : (s.take x e rest).Plays x
          ((s.machine x).processFrame (Network.received e.frame tail) (L.port x))
          ((s.session x).session.receive (frameType e.frame)) :=
        plays_receive hsound x (h.typed x e (by simp [he])) tail
      obtain ⟨hs, hpair⟩ := hplays.act hsound
      refine ⟨hs, ?_⟩
      change s.pair.step (.deliver x) = _
      simp only [Pair.step, pair_inFlight, he, List.map_cons]
      rw [hpair, take_pair, pair_session]
      rfl
  | advertise x memory =>
    obtain ⟨out, hout, rfl⟩ := Option.map_eq_some_iff.mp hstep
    exact announce_simulates h (plays_announce h rfl (h.short x) (signals_advertise (h.short x) hout _))
  | withdraw x target =>
    obtain rfl := Option.some_injective _ hstep
    have hshort : ShortPaths ((s.machine x).withdraw target).1.paths := fun p hp =>
      h.short x p (List.mem_of_mem_filter hp)
    exact announce_simulates h (plays_announce h rfl hshort (signals_withdraw _ target _))
  | highjack x target =>
    obtain rfl := Option.some_injective _ hstep
    exact announce_simulates h (plays_announce h rfl (h.short x) (signals_highjack _ target _))
  | prioritySet x ifaceIndex priority =>
    obtain rfl := Option.some_injective _ hstep
    refine ⟨⟨machine_update (P := fun _ a => ∀ i, (a.ifsmArray i).ifaceIndex = i) h.index (h.index x), h.typed,
      machine_update (P := fun _ a => ShortPaths a.paths) h.short (settingPriority_short (h.short x))⟩, ?_⟩
    refine Pair.ext (Both.ext_get fun y => ?_) rfl rfl
    rw [pair_session, pair_session]
    rcases x.eq_or_eq_other y with rfl | rfl
    · simp only [session, Function.update_self]
      rfl
    · simp only [session, Function.update_of_ne x.other_ne]
  | printRoutes x target =>
    obtain rfl := Option.some_injective _ hstep
    exact ⟨h, rfl⟩

end Joined

end CourseArchive.Bgp
