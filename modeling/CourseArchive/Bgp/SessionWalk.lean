import CourseArchive.Bgp.Session

/-! The changes that an interface reports, its timers and the routes, over every sequence of commands, frames and
ticks. -/

namespace CourseArchive.Bgp

open Lib

def Walk : BgpState → List (BgpState × BgpState) → BgpState → Prop
  | first, [], last => first = last
  | first, e :: es, last => e.1 = first ∧ Walk e.2 es last

lemma Walk.append {a b c : BgpState} {es es' : List (BgpState × BgpState)} (h : Walk a es b) (h' : Walk b es' c) :
    Walk a (es ++ es') c := by
  induction es generalizing a with
  | nil =>
    obtain rfl : a = b := h
    exact h'
  | cons e es ih => exact ⟨h.1, ih h.2⟩

def edges : List (BgpState × BgpState) :=
  [(.idle, .connect), (.connect, .activeState), (.activeState, .connect), (.connect, .oSent),
    (.activeState, .oSent),
    (.oSent, .oConfirm), (.oConfirm, .established), (.connect, .idle), (.oSent, .idle), (.oConfirm, .idle),
    (.established, .idle)]

def change : Signal → Option (BgpState × BgpState)
  | .changed first second => some (first, second)
  | .sent _ => none

def changes (sig : List Signal) : List (BgpState × BgpState) := sig.filterMap change

namespace Session

variable {s : Session}

structure InRange (s : Session) : Prop where
  connect : s.state = .connect → 1 ≤ s.rto ∧ s.rto ≤ 30 ∧ 1 ≤ s.crt ∧ s.crt ≤ 31
  active : s.state = .activeState → 1 ≤ s.crt ∧ s.crt ≤ 31
  holding : s.Holding → 1 ≤ s.ht ∧ s.ht ≤ 240

structure Steps (s : Session) (r : Session × List Signal) : Prop where
  walk : Walk s.state (changes r.2) r.1.state
  allowed : ∀ e ∈ changes r.2, e ∈ edges
  inRange : s.InRange → r.1.InRange

lemma Steps.refl (s : Session) : s.Steps (s, []) := ⟨rfl, by simp [changes], id⟩

lemma Steps.trans {r r' : Session × List Signal} (h : s.Steps r) (h' : r.1.Steps r') :
    s.Steps (r'.1, r.2 ++ r'.2) := by
  refine ⟨?_, ?_, fun hs => h'.inRange (h.inRange hs)⟩
  · rw [changes, List.filterMap_append]
    exact h.walk.append h'.walk
  · rw [changes, List.filterMap_append]
    exact fun e he => (List.mem_append.mp he).elim (h.allowed e) (h'.allowed e)

lemma start_steps (s : Session) : s.Steps s.start := by
  rw [start]
  split_ifs with h
  · refine ⟨⟨h.symm, rfl⟩, by simp [changes, change, edges], fun _ => ⟨by simp, by simp, by simp⟩⟩
  · exact .refl s

lemma openSent_inRange : openSent.InRange := ⟨by simp [openSent], by simp [openSent], by simp [openSent]⟩

lemma receive_steps (s : Session) (type : MessageType) : s.Steps (s.receive type) := by
  cases type with
  | syn =>
    rw [receive]
    split_ifs with h
    · refine ⟨rfl, by simp [changes, change], fun hs => ⟨fun hc => ?_, hs.active, hs.holding⟩⟩
      have := hs.connect hc
      simp only
      omega
    · exact .refl s
  | ack =>
    rw [receive]
    split_ifs with h
    · refine ⟨⟨rfl, rfl⟩, ?_, fun _ => openSent_inRange⟩
      rcases h.1 with h | h <;> simp [changes, change, edges, h]
    · exact .refl s
  | synAck =>
    rw [receive]
    split_ifs with h
    · refine ⟨⟨rfl, rfl⟩, ?_, fun _ => openSent_inRange⟩
      rcases h.1 with h | h <;> simp [changes, change, edges, h]
    · exact .refl s
  | keepalive =>
    rw [receive]
    split_ifs with h h'
    · exact ⟨⟨h.symm, rfl⟩, by simp [changes, change, edges], fun _ => ⟨by simp, by simp, by simp⟩⟩
    · exact ⟨rfl, by simp [changes], fun _ => ⟨by simp [h'], by simp [h'], by simp⟩⟩
    · exact .refl s
  | update =>
    rw [receive]
    split_ifs with h
    · exact ⟨rfl, by simp [changes], fun _ => ⟨by simp [h], by simp [h], by simp⟩⟩
    · exact .refl s
  | bgpOpen =>
    rw [receive]
    split_ifs with h
    · exact ⟨⟨h.symm, rfl⟩, by simp [changes, change, edges], fun _ => ⟨by simp, by simp, by simp⟩⟩
    · exact .refl s
  | invalid => exact .refl s

lemma tickHold_steps (s : Session) : s.Steps s.tickHold := by
  rw [tickHold]
  split_ifs with h hz
  · refine ⟨⟨rfl, rfl, rfl⟩, ?_, fun _ => ⟨by simp, by simp, by simp [Holding]⟩⟩
    rcases h with h | h | h <;> simp [changes, change, edges, h]
  · refine ⟨rfl, by simp [changes], fun hs => ⟨hs.connect, hs.active, fun hh => ?_⟩⟩
    have := hs.holding hh
    simp only
    omega
  · exact .refl s

lemma tickConnect_steps (s : Session) : s.Steps (s.tickConnect.1, s.tickConnect.2.1) := by
  rw [tickConnect]
  split_ifs with h hr hz
  · exact ⟨⟨h.symm, rfl⟩, by simp [changes, change, edges], fun _ => ⟨by simp, by simp, by simp [Holding]⟩⟩
  · exact ⟨⟨h.symm, rfl, h.symm⟩, by simp [changes, change, edges],
      fun _ => ⟨by simp, by simp, by simp [Holding, h]⟩⟩
  · refine ⟨rfl, by simp [changes], fun hs => ⟨fun hc => ?_, by simp [h], by simp [Holding, h]⟩⟩
    have := hs.connect hc
    simp only
    omega
  · exact .refl s

lemma tickActive_steps (s : Session) : s.Steps s.tickActive := by
  rw [tickActive]
  split_ifs with h hz
  · exact ⟨⟨h.symm, rfl⟩, by simp [changes, change, edges], fun _ => ⟨by simp, by simp, by simp [Holding]⟩⟩
  · refine ⟨rfl, by simp [changes], fun hs => ⟨by simp [h], fun ha => ?_, by simp [Holding, h]⟩⟩
    have := hs.active ha
    simp only
    omega
  · exact .refl s

lemma tick_steps (s : Session) : s.Steps s.tick := by
  have htwo := s.tickHold_steps.trans s.tickHold.1.tickConnect_steps
  simp only [tick]
  split_ifs
  · exact htwo
  · exact htwo.trans (tickActive_steps _)

end Session

/-! Runs of a machine. -/

inductive Event (n : ℕ)
  | start (i : Fin n)
  | received (frame : Buffer) (i : Fin n)
  | tick

namespace SimulatedMachine

variable {n : ℕ} {m : SimulatedMachine n}

def handle (m : SimulatedMachine n) : Event n → SimulatedMachine n × List (Output n)
  | .start i => m.startConnection i
  | .received frame i => m.processFrame frame i
  | .tick => m.manageTime

def run (m : SimulatedMachine n) : List (Event n) → SimulatedMachine n × List (Output n)
  | [] => (m, [])
  | e :: es => (((m.handle e).1.run es).1, (m.handle e).2 ++ ((m.handle e).1.run es).2)

def report (i : Fin n) : Output n → Option (BgpState × BgpState)
  | .stateChanged first second index => if index = i then some (first, second) else none
  | _ => none

def reports (i : Fin n) (out : List (Output n)) : List (BgpState × BgpState) := out.filterMap (report i)

lemma reports_eq (i : Fin n) (out : List (Output n)) : reports i out = changes (signals i out) := by
  rw [reports, changes, signals, List.filterMap_filterMap]
  refine List.filterMap_congr fun o _ => ?_
  cases o with
  | sent j frame => by_cases h : j = i <;> simp [report, signal, change, h]
  | stateChanged first second index => by_cases h : index = i <;> simp [report, signal, change, h]
  | hijacked | undefined => rfl

lemma Acts.steps {forwards : Prop} {j : Fin n} {r : SimulatedMachine n × List (Output n)}
    {t : Session × List Signal} (h : Acts forwards m j r t) (ht : (m.ifsmArray j).session.Steps t) (i : Fin n) :
    ((r.1.ifsmArray i).ifaceIndex = (m.ifsmArray i).ifaceIndex) ∧
      (m.ifsmArray i).session.Steps ((r.1.ifsmArray i).session, Bgp.signals i r.2) := by
  by_cases hij : i = j
  · subst hij
    rw [h.session, h.signals]
    exact ⟨h.index, ht⟩
  · have hchanges : changes (Bgp.signals i r.2) = [] := by
      refine List.filterMap_eq_nil_iff.mpr fun x hx => ?_
      obtain ⟨-, type, rfl⟩ := h.elsewhere i hij x hx
      rfl
    rw [h.others i hij]
    exact ⟨rfl, by rw [hchanges]; exact rfl, by simp [hchanges], id⟩

lemma handle_steps (hidx : ∀ i, (m.ifsmArray i).ifaceIndex = i) (e : Event n) (i : Fin n) :
    ((m.handle e).1.ifsmArray i).ifaceIndex = i ∧
      (m.ifsmArray i).session.Steps (((m.handle e).1.ifsmArray i).session, signals i (m.handle e).2) := by
  cases e with
  | start j =>
    obtain ⟨hindex, hsteps⟩ := (startConnection_acts m j).steps (Session.start_steps _) i
    exact ⟨hindex.trans (hidx i), hsteps⟩
  | received frame j =>
    obtain ⟨hindex, hsteps⟩ := (processFrame_acts m frame j).steps (Session.receive_steps _ _) i
    exact ⟨hindex.trans (hidx i), hsteps⟩
  | tick =>
    obtain ⟨hindex, hsession, hsignals⟩ := manageTime_acts hidx i
    refine ⟨hindex, ?_⟩
    rw [handle, hsession, hsignals]
    exact Session.tick_steps _

lemma run_steps (hidx : ∀ i, (m.ifsmArray i).ifaceIndex = i) (es : List (Event n)) (i : Fin n) :
    (m.ifsmArray i).session.Steps (((m.run es).1.ifsmArray i).session, signals i (m.run es).2) := by
  induction es generalizing m with
  | nil => exact .refl _
  | cons e es ih =>
    have hsteps := handle_steps hidx e
    rw [run, signals_append]
    exact (hsteps i).2.trans (ih fun j => (hsteps j).1)

lemma processFrame_paths (frame : Buffer) {j : Fin n} (h : (m.ifsmArray j).currentState ≠ .established) :
    (m.processFrame frame j).1.paths = m.paths := by
  rw [processFrame]
  by_cases hidle : (m.ifsmArray j).currentState = .idle
  · rw [if_pos hidle]
  rw [if_neg hidle]
  cases detectTypeOfPacket frame.data with
  | update =>
    dsimp only
    rw [if_neg h]
  | invalid => rfl
  | syn | ack | synAck | keepalive | bgpOpen =>
    dsimp only
    split_ifs <;> rfl

/-- What an interface reports is a walk from `IDLE` to its present state, over edges of the protocol only; its
timers stay in range, and a frame changes the routes only in `ESTABLISHED`. -/
theorem session_walk (info : CustomInformation n) (timer : Fin n → UInt8) (es : List (Event n)) (i : Fin n) :
    let r := (initializeMachine info timer).run es
    Walk .idle (reports i r.2) (r.1.ifsmArray i).currentState ∧ (∀ e ∈ reports i r.2, e ∈ edges) ∧
      (r.1.ifsmArray i).session.InRange ∧
      ∀ frame j, (r.1.ifsmArray j).currentState ≠ .established →
      (r.1.processFrame frame j).1.paths = r.1.paths := by
  have hidle : ((initializeMachine info timer).ifsmArray i).session.InRange :=
    ⟨by simp [initializeMachine, IfaceState.session], by simp [initializeMachine, IfaceState.session],
      by simp [initializeMachine, IfaceState.session, Session.Holding]⟩
  have hsteps := run_steps (fun _ => rfl : ∀ j, ((initializeMachine info timer).ifsmArray j).ifaceIndex = j) es i
  intro r
  rw [reports_eq]
  exact ⟨hsteps.walk, hsteps.allowed, hsteps.inRange hidle, fun frame j h => processFrame_paths frame h⟩

end SimulatedMachine

end CourseArchive.Bgp
