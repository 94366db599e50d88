import CourseArchive.Bgp.RoundTrip

/-! Machines joined by point-to-point links, and the frames on their way between them. -/

namespace CourseArchive.Bgp

open Lib SimulatedMachine

def SimulatedMachine.withSessions {n : ℕ} (m : SimulatedMachine n) (states : Fin n → BgpState) :
    SimulatedMachine n :=
  { m with ifsmArray := fun i => { m.ifsmArray i with currentState := states i } }

structure Topology (M : Type) where
  count : M → ℕ
  link : (Σ m, Fin (count m)) → Σ m, Fin (count m)
  link_link : ∀ d, link (link d) = d
  link_ne : ∀ d, link d ≠ d

variable {M : Type}

abbrev Topology.Port (T : Topology M) := Σ m, Fin (T.count m)

structure Network (T : Topology M) where
  machine : ∀ m, SimulatedMachine (T.count m)
  inFlight : List (T.Port × Buffer)

inductive NetworkMove (T : Topology M)
  | advertise (m : M) (memory : Fin (T.count m) → ℕ → UInt8)
  | withdraw (m : M) (target : AddressPrefix)
  | deliver (k : ℕ) (tail : ℕ → UInt8)

namespace Network

variable {T : Topology M}

def emitted (T : Topology M) (m : M) (out : List (Output (T.count m))) : List (T.Port × Buffer) :=
  out.filterMap fun
    | .sent i frame => some (T.link ⟨m, i⟩, frame)
    | _ => none

def received (frame : Buffer) (tail : ℕ → UInt8) : Buffer :=
  ⟨frame.length, fun k => if k < frame.length then frame.data k else tail k⟩

lemma delivers_received (frame : Buffer) (tail : ℕ → UInt8) : Delivers frame (received frame tail) :=
  ⟨rfl, fun _ hk => if_pos hk⟩

variable [DecidableEq M]

def step (s : Network T) : NetworkMove T → Option (Network T)
  | .advertise m memory => ((s.machine m).advertise memory).map fun out =>
      { s with inFlight := s.inFlight ++ emitted T m out }
  | .withdraw m target =>
      let r := (s.machine m).withdraw target
      some { machine := Function.update s.machine m r.1, inFlight := s.inFlight ++ emitted T m r.2 }
  | .deliver k tail => (s.inFlight[k]?).map fun e =>
      let r := (s.machine e.1.1).processFrame (received e.2 tail) e.1.2
      { machine := Function.update s.machine e.1.1 r.1, inFlight := s.inFlight.eraseIdx k ++ emitted T e.1.1 r.2 }

def Delivery (s t : Network T) : Prop := ∃ k tail, s.step (.deliver k tail) = some t

lemma step_deliver_inv {s t : Network T} {k : ℕ} {tail : ℕ → UInt8} (h : s.step (.deliver k tail) = some t) :
    ∃ pre d frame post, s.inFlight = pre ++ (d, frame) :: post ∧
      t.machine = Function.update s.machine d.1 ((s.machine d.1).processFrame (received frame tail) d.2).1 ∧
      t.inFlight = pre ++ post ++ emitted T d.1 ((s.machine d.1).processFrame (received frame tail) d.2).2 := by
  obtain ⟨⟨d, frame⟩, he, rfl⟩ := Option.map_eq_some_iff.mp h
  obtain ⟨hk, he⟩ := List.getElem?_eq_some_iff.mp he
  refine ⟨s.inFlight.take k, d, frame, s.inFlight.drop (k + 1), ?_, rfl, ?_⟩
  · rw [← he, List.cons_getElem_drop_succ, List.take_append_drop]
  · simp only [List.eraseIdx_eq_take_drop_succ]

lemma exists_deliver {s : Network T} {pre post : List (T.Port × Buffer)} {d : T.Port} {frame : Buffer}
    (h : s.inFlight = pre ++ (d, frame) :: post) (tail : ℕ → UInt8) :
    ∃ t, s.step (.deliver pre.length tail) = some t ∧
      t.machine = Function.update s.machine d.1 ((s.machine d.1).processFrame (received frame tail) d.2).1 ∧
      t.inFlight = pre ++ post ++ emitted T d.1 ((s.machine d.1).processFrame (received frame tail) d.2).2 := by
  have hk : s.inFlight[pre.length]? = some (d, frame) := by simp [h]
  have he : s.inFlight.eraseIdx pre.length = pre ++ post := by
    rw [h, List.eraseIdx_append_of_length_le le_rfl, Nat.sub_self, List.eraseIdx_cons_zero]
  refine ⟨_, congrArg (Option.map _) hk, rfl, ?_⟩
  rw [he]

end Network

def bgpType : UInt8 → MessageType
  | 1 => .bgpOpen
  | 2 => .update
  | 4 => .keepalive
  | _ => .invalid

lemma detectTypeOfPacket_bgp {data : ℕ → UInt8} {len : UInt16} {type : UInt8}
    (h : Holds data 34 (makeBgphdr len type)) : detectTypeOfPacket data = bgpType type := by
  obtain ⟨h, htype⟩ := Holds.append_iff.mp h
  obtain ⟨hmarker, -⟩ := Holds.append_iff.mp h
  have ht := htype 0 (by simp)
  have hm : (List.range 16).all (fun k => data (14 + 20 + k) == 0xFF) = true := by
    rw [List.all_eq_true]
    intro k hk
    have := hmarker k (by simpa using hk)
    rw [List.getElem_replicate] at this
    simpa using this
  simp only [List.length_append, List.length_replicate, length_be16, List.getElem_cons_zero] at ht
  rw [detectTypeOfPacket, if_pos hm, ht]
  rfl

lemma processFrame_update {n : ℕ} {m : SimulatedMachine n} {frame : Buffer} {i : Fin n} {len : UInt16}
    (h : Holds frame.data 34 (makeBgphdr len 2)) (he : (m.ifsmArray i).currentState = .established) :
    m.processFrame frame i = ((m.handleBgpUpdate frame i).1.setIfsm i
      { (m.handleBgpUpdate frame i).1.ifsmArray i with ht := maxHT }, (m.handleBgpUpdate frame i).2) := by
  simp [processFrame, he, detectTypeOfPacket_bgp h, bgpType]

lemma processFrame_update_ignored {n : ℕ} {m : SimulatedMachine n} {frame : Buffer} {i : Fin n} {len : UInt16}
    (h : Holds frame.data 34 (makeBgphdr len 2)) (he : (m.ifsmArray i).currentState ≠ .established) :
    m.processFrame frame i = (m, []) := by
  simp only [processFrame, detectTypeOfPacket_bgp h, bgpType, if_neg he, ite_self]

end CourseArchive.Bgp
