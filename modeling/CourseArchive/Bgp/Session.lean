import CourseArchive.Bgp.Network

/-! The session of one interface as an automaton of its own, and that a machine runs one such automaton at each of
its interfaces. -/

namespace CourseArchive.Bgp

open Lib

structure Session where
  state : BgpState
  rto : ℕ
  ht : ℕ
  crt : ℕ
  synSent : Bool
  synAckSent : Bool
  deriving DecidableEq

inductive Signal
  | sent (type : MessageType)
  | changed (first second : BgpState)
  deriving DecidableEq

namespace Session

abbrev Connecting (s : Session) : Prop := s.state = .connect ∨ s.state = .activeState

abbrev Holding (s : Session) : Prop := s.state = .established ∨ s.state = .oConfirm ∨ s.state = .oSent

def openSent : Session := ⟨.oSent, 30, 240, 31, false, false⟩

def start (s : Session) : Session × List Signal :=
  if s.state = .idle then
    ({ s with state := .connect, rto := 30, crt := 31, synSent := true }, [.sent .syn, .changed .idle .connect])
  else (s, [])

def receive (s : Session) : MessageType → Session × List Signal
  | .syn => if s.Connecting then ({ s with synAckSent := true, rto := 30 }, [.sent .synAck]) else (s, [])
  | .ack =>
    if s.Connecting ∧ s.synAckSent then (openSent, [.changed s.state .oSent, .sent .bgpOpen]) else (s, [])
  | .synAck =>
    if s.Connecting ∧ s.synSent then (openSent, [.sent .ack, .changed s.state .oSent, .sent .bgpOpen]) else (s, [])
  | .keepalive =>
    if s.state = .oConfirm then ({ s with state := .established, ht := 240 }, [.changed .oConfirm .established])
    else if s.state = .established then ({ s with ht := 240 }, [])
    else (s, [])
  | .update => if s.state = .established then ({ s with ht := 240 }, []) else (s, [])
  | .bgpOpen =>
    if s.state = .oSent then
      ({ s with state := .oConfirm, ht := 240 }, [.sent .keepalive, .changed .oSent .oConfirm])
    else (s, [])
  | .invalid => (s, [])

lemma receive_idle {s : Session} (h : s.state = .idle) (type : MessageType) : s.receive type = (s, []) := by
  cases type <;> simp [receive, Connecting, h]

def tickHold (s : Session) : Session × List Signal :=
  if s.Holding then
    if s.ht - 1 = 0 then
      (⟨.connect, 30, 240, 31, true, s.synAckSent⟩, [.changed s.state .idle, .changed .idle .connect, .sent .syn])
    else ({ s with ht := s.ht - 1 }, [])
  else (s, [])

def tickConnect (s : Session) : Session × List Signal × Bool :=
  if s.state = .connect then
    if s.rto - 1 = 0 then
      ({ s with state := .activeState, rto := 0, crt := 31 }, [.changed .connect .activeState], true)
    else if s.crt - 1 = 0 then
      ({ s with rto := 30, crt := 31, synSent := true },
        [.changed .connect .idle, .changed .idle .connect, .sent .syn], false)
    else ({ s with rto := s.rto - 1, crt := s.crt - 1 }, [], false)
  else (s, [], false)

def tickActive (s : Session) : Session × List Signal :=
  if s.state = .activeState then
    if s.crt - 1 = 0 then
      ({ s with state := .connect, rto := 30, crt := 31, synSent := true },
        [.changed .activeState .connect, .sent .syn])
    else ({ s with crt := s.crt - 1 }, [])
  else (s, [])

def tick (s : Session) : Session × List Signal :=
  let (s, out₁) := s.tickHold
  let (s, out₂, goesOn) := s.tickConnect
  if goesOn then (s, out₁ ++ out₂)
  else
    let (s, out₃) := s.tickActive
    (s, out₁ ++ out₂ ++ out₃)

end Session

def IfaceState.session (s : IfaceState) : Session :=
  ⟨s.currentState, s.rto.toNat, s.ht.toNat, s.crt.toNat, s.synSent, s.synAckSent⟩

variable {n : ℕ}

def frameType (frame : Buffer) : MessageType :=
  if headerLength ≤ frame.length then SimulatedMachine.detectTypeOfPacket frame.data else .invalid

def signal (i : Fin n) : Output n → Option Signal
  | .sent j frame => if j = i then some (.sent (frameType frame)) else none
  | .stateChanged first second index => if index = i then some (.changed first second) else none
  | .hijacked _ | .undefined => none

def signals (i : Fin n) (out : List (Output n)) : List Signal := out.filterMap (signal i)

@[simp] lemma signals_nil (i : Fin n) : signals i [] = [] := rfl

lemma signal_unsent {o : Output n} (h : o.Unsent) (i : Fin n) : signal i o = none := by
  cases o with
  | sent | stateChanged => exact h.elim
  | hijacked | undefined => rfl

lemma signals_append (i : Fin n) (out out' : List (Output n)) :
    signals i (out ++ out') = signals i out ++ signals i out' := List.filterMap_append

/-! The type of each frame that the machine sends. -/

namespace SimulatedMachine

variable {m : SimulatedMachine n} {data : ℕ → UInt8}

lemma detectTypeOfPacket_tcp {flags : UInt8} (h : Holds data 34 (makeTcphdr flags)) :
    detectTypeOfPacket data =
      if flags % 64 % 64 = tcpAck then .ack else if flags % 64 % 64 = tcpSyn then .syn
      else if flags % 64 % 64 = tcpAck + tcpSyn then .synAck else .invalid := by
  have hfirst := h 0 (by simp [makeTcphdr])
  have hflags := h 13 (by simp [makeTcphdr])
  have hmarker : ¬ (List.range 16).all (fun k => data (14 + 20 + k) == 0xFF) = true := by
    rw [List.all_eq_true]
    intro hall
    have := hall 0 (by simp)
    rw [Nat.add_zero] at hfirst this
    simp [hfirst, makeTcphdr] at this
  rw [detectTypeOfPacket, if_neg hmarker, show 47 = 34 + 13 from rfl, hflags]
  rfl

lemma packet_after_headers (src dst : UInt32) (len : UInt16) (bytes : List UInt8) :
    Holds (packet (makeEthernethdr ++ makeIphdr src dst len ++ bytes)).data 34 bytes :=
  (Holds.append_iff.mp (packet_filled (makeEthernethdr ++ makeIphdr src dst len ++ bytes)).holds).2

/-! One step of the machine at an interface is one step of the session there. -/

lemma ite_related {α β : Type*} {c d : Prop} [Decidable c] [Decidable d] {a a' : α} {b b' : β} (R : α → β → Prop)
    (hcd : c ↔ d) (h : c → R a b) (h' : ¬c → R a' b') : R (if c then a else a') (if d then b else b') := by
  by_cases hc : c
  · rw [if_pos hc, if_pos (hcd.mp hc)]
    exact h hc
  · rw [if_neg hc, if_neg (hcd.not.mp hc)]
    exact h' hc

/-- `r` is what the machine does when the session of interface `i` does `t`. Nothing shows at the other interfaces,
unless it passes an update on to them. -/
structure Acts (forwards : Prop) (m : SimulatedMachine n) (i : Fin n) (r : SimulatedMachine n × List (Output n))
    (t : Session × List Signal) : Prop where
  session : (r.1.ifsmArray i).session = t.1
  signals : signals i r.2 = t.2
  index : (r.1.ifsmArray i).ifaceIndex = (m.ifsmArray i).ifaceIndex
  others : ∀ j ≠ i, r.1.ifsmArray j = m.ifsmArray j
  elsewhere : ∀ j ≠ i, ∀ x ∈ Bgp.signals j r.2, forwards ∧ ∃ type, x = .sent type

def StaysAt (i : Fin n) : Output n → Prop
  | .sent j _ => j = i
  | .stateChanged _ _ index => index = i
  | .hijacked _ | .undefined => True

structure Emits (i : Fin n) (out : List (Output n)) (sig : List Signal) : Prop where
  signals : signals i out = sig
  stays : ∀ o ∈ out, StaysAt i o

namespace Emits

variable {i : Fin n} {out out' : List (Output n)} {sig sig' : List Signal}

lemma elsewhere (h : Emits i out sig) {j : Fin n} (hj : j ≠ i) : Bgp.signals j out = [] := by
  refine List.filterMap_eq_nil_iff.mpr fun o ho => ?_
  have hat := h.stays o ho
  cases o with
  | sent k frame => simp [signal, show k = i from hat, hj.symm]
  | stateChanged first second index =>
    refine if_neg fun he => hj ?_
    exact Fin.ext (by exact_mod_cast he.symm.trans (show index = i from hat))
  | hijacked | undefined => rfl

lemma nil (i : Fin n) : Emits i [] [] := ⟨rfl, by simp⟩

lemma append (h : Emits i out sig) (h' : Emits i out' sig') : Emits i (out ++ out') (sig ++ sig') :=
  ⟨by rw [signals_append, h.signals, h'.signals],
    fun o ho => (List.mem_append.mp ho).elim (h.stays o) (h'.stays o)⟩

lemma changed (first second : BgpState) {index : ℤ} (h : index = i) :
    Emits i [.stateChanged first second index] [.changed first second] :=
  ⟨by simp [Bgp.signals, signal, h], by simpa [StaysAt] using h⟩

lemma sent {frame : Buffer} {type : MessageType} (hlen : headerLength ≤ frame.length)
    (h : detectTypeOfPacket frame.data = type) : Emits i [.sent i frame] [.sent type] :=
  ⟨by simp [Bgp.signals, signal, frameType, hlen, h], by simp [StaysAt]⟩

lemma handshake (m : SimulatedMachine n) {type : MessageType} (h : type = .syn ∨ type = .synAck ∨ type = .ack) :
    Emits i (m.handleTcpHandshake type i) [.sent type] := by
  have htype := fun flags => detectTypeOfPacket_tcp (packet_after_headers (m.ifaceIp i) (m.ifsmArray i).neighborIp
    (20 + 20) (makeTcphdr flags))
  have hlen : ∀ flags, headerLength ≤ (packet (makeEthernethdr ++
      makeIphdr (m.ifaceIp i) (m.ifsmArray i).neighborIp (20 + 20) ++ makeTcphdr flags)).length := by
    simp [packet, headerLength, makeEthernethdr, makeIphdr, makeTcphdr]
  rcases h with rfl | rfl | rfl
  · exact sent (hlen _) ((htype tcpSyn).trans rfl)
  · exact sent (hlen _) ((htype (tcpAck + tcpSyn)).trans rfl)
  · exact sent (hlen _) ((htype tcpAck).trans rfl)

lemma bgpOpen (m : SimulatedMachine n) : Emits i [m.sendBgpOpen i] [.sent .bgpOpen] := by
  have h := packet_after_headers (m.ifaceIp i) (m.ifsmArray i).neighborIp (20 + 19 + 10)
    (makeBgphdr (19 + 10) 1 ++ ([4] ++ be16 m.asNumber ++ be16 0 ++ be32 (m.ifaceIp i) ++ [0]))
  rw [← List.append_assoc] at h
  refine sent ?_ ((detectTypeOfPacket_bgp (Holds.append_iff.mp h).1).trans rfl)
  simp [packet, headerLength, makeEthernethdr, makeIphdr, makeBgphdr]

lemma keepalive (m : SimulatedMachine n) : Emits i [m.sendBgpKeepalive i] [.sent .keepalive] := by
  refine sent ?_ ((detectTypeOfPacket_bgp (packet_after_headers _ _ _ _)).trans rfl)
  simp [packet, headerLength, makeEthernethdr, makeIphdr, makeBgphdr]

end Emits

namespace Acts

variable {forwards : Prop} {i : Fin n} {r r' : SimulatedMachine n × List (Output n)} {t t' : Session × List Signal}

lemma refl (m : SimulatedMachine n) (i : Fin n) : Acts forwards m i (m, []) ((m.ifsmArray i).session, []) :=
  ⟨rfl, rfl, rfl, fun _ _ => rfl, fun _ _ _ hx => by simp at hx⟩

lemma setIfsm {s : IfaceState} {out : List (Output n)} (hs : s.session = t.1)
    (hidx : s.ifaceIndex = (m.ifsmArray i).ifaceIndex) (hout : Emits i out t.2) :
    Acts forwards m i (m.setIfsm i s, out) t := by
  refine ⟨by simpa [SimulatedMachine.setIfsm] using hs,
    hout.signals, by simpa [SimulatedMachine.setIfsm] using hidx,
    fun j hj => put_of_ne _ _ hj, fun j hj x hx => ?_⟩
  rw [hout.elsewhere hj] at hx
  simp at hx

lemma ite {c d : Prop} [Decidable c] [Decidable d] (hcd : c ↔ d) (h : c → Acts forwards m i r t)
    (h' : ¬c → Acts forwards m i r' t') : Acts forwards m i (if c then r else r') (if d then t else t') :=
  ite_related (Acts forwards m i) hcd h h'

lemma trans (h : Acts forwards m i r t) (h' : Acts forwards r.1 i r' t') :
    Acts forwards m i (r'.1, r.2 ++ r'.2) (t'.1, t.2 ++ t'.2) := by
  refine ⟨h'.session, by rw [signals_append, h.signals, h'.signals], h'.index.trans h.index,
    fun j hj => (h'.others j hj).trans (h.others j hj), fun j hj x hx => ?_⟩
  rw [signals_append, List.mem_append] at hx
  exact hx.elim (h.elsewhere j hj x) (h'.elsewhere j hj x)

lemma index_all (h : Acts forwards m i r t) (hidx : ∀ j, (m.ifsmArray j).ifaceIndex = j) (j : Fin n) :
    (r.1.ifsmArray j).ifaceIndex = j := by
  by_cases hj : j = i
  · rw [hj, h.index, hidx]
  · rw [h.others j hj, hidx]

end Acts

lemma startConnection_acts (m : SimulatedMachine n) (i : Fin n) :
    Acts False m i (m.startConnection i) (m.ifsmArray i).session.start := by
  refine .ite Iff.rfl (fun _ => ?_) fun _ => .refl m i
  exact .setIfsm rfl rfl (.append (.handshake m (.inl rfl)) (.changed _ _ rfl))

lemma handleBgpUpdate_ifsmArray (m : SimulatedMachine n) (frame : Buffer) (i : Fin n) :
    (m.handleBgpUpdate frame i).1.ifsmArray = m.ifsmArray := by
  rw [handleBgpUpdate_fst, (foldl_acceptPath_inv _ _).2.1, foldl_emptyTrashPath_ifsmArray]

lemma detectTypeOfPacket_congr {data' : ℕ → UInt8} (h : ∀ k, 34 ≤ k → k < 53 → data' k = data k) :
    detectTypeOfPacket data' = detectTypeOfPacket data := by
  have hmarker : ∀ k ∈ List.range 16, (data' (14 + 20 + k) == 0xFF) = (data (14 + 20 + k) == 0xFF) := by
    intro k hk
    rw [List.mem_range] at hk
    rw [h _ (by omega) (by omega)]
  rw [detectTypeOfPacket, detectTypeOfPacket, h 47 (by simp) (by simp), h (14 + 20 + 18) (by simp) (by simp)]
  congr 1
  rw [eq_iff_iff, List.all_eq_true, List.all_eq_true]
  exact forall₂_congr fun k hk => by rw [hmarker k hk]

lemma mem_handleBgpUpdate {frame : Buffer} {i : Fin n} {o : Output n} (h : o ∈ (m.handleBgpUpdate frame i).2) :
    (∃ j ≠ i, ∃ frame', o = .sent j frame') ∨ o.Unsent := by
  have hforward : ∀ {doff number}, o ∈ (m.handleWithdrawnRoutes frame i doff number).2 →
      ∃ j ≠ i, ∃ frame', o = .sent j frame' := by
    intro doff number ho
    obtain ⟨j, hj, rfl⟩ := List.mem_map.mp ho
    exact ⟨j, by simpa using (List.mem_filter.mp hj).2, _, rfl⟩
  have haccept : ∀ {a : SimulatedMachine n} {doff number}, o ∈ (a.handleAdvertisement frame.data i doff number).2 →
      o.Unsent := fun ho =>
    ((foldl_acceptPath_inv _ _).2.2.2 o ho).resolve_left List.not_mem_nil
  simp only [handleBgpUpdate] at h
  split_ifs at h
  · exact (List.mem_append.mp h).imp hforward haccept
  · exact .inr (haccept (by simpa using h))
  · exact .inl (hforward h)
  · exact absurd h List.not_mem_nil

lemma handleBgpUpdate_acts {forwards : Prop} (hf : forwards) (frame : Buffer) {i : Fin n} {ht : UInt8}
    {s : Session} (hs : { m.ifsmArray i with ht }.session = s) :
    Acts forwards m i
      ((m.handleBgpUpdate frame i).1.setIfsm i { (m.handleBgpUpdate frame i).1.ifsmArray i with ht },
        (m.handleBgpUpdate frame i).2) (s, []) := by
  have hifsm := handleBgpUpdate_ifsmArray m frame i
  have hsignals : ∀ j, ∀ x ∈ signals j (m.handleBgpUpdate frame i).2, j ≠ i ∧ ∃ type, x = .sent type := by
    intro j x hx
    obtain ⟨o, ho, hx⟩ := List.mem_filterMap.mp hx
    rcases mem_handleBgpUpdate ho with ⟨k, hk, frame', rfl⟩ | hunsent
    · by_cases hkj : k = j
      · subst hkj
        simp only [signal, if_pos, Option.some_inj] at hx
        exact ⟨hk, _, hx.symm⟩
      · simp [signal, hkj] at hx
    · simp [signal_unsent hunsent] at hx
  refine ⟨?_, ?_, ?_, fun j hj => ?_, fun j _ x hx => ⟨hf, (hsignals j x hx).2⟩⟩
  · simpa [SimulatedMachine.setIfsm, hifsm] using hs
  · exact List.eq_nil_iff_forall_not_mem.mpr fun x hx => (hsignals i x hx).1 rfl
  · simp [SimulatedMachine.setIfsm, hifsm]
  · simp [SimulatedMachine.setIfsm, hifsm, put_of_ne _ _ hj]

lemma processFrame_acts (m : SimulatedMachine n) (frame : Buffer) (i : Fin n) :
    Acts (detectTypeOfPacket frame.data = .update) m i (m.processFrame frame i)
      ((m.ifsmArray i).session.receive (detectTypeOfPacket frame.data)) := by
  have hstate : (m.ifsmArray i).session.state = (m.ifsmArray i).currentState := rfl
  rw [processFrame]
  by_cases hidle : (m.ifsmArray i).currentState = .idle
  · rw [if_pos hidle, Session.receive_idle hidle]
    exact .refl m i
  rw [if_neg hidle]
  cases hd : detectTypeOfPacket frame.data with
  | syn =>
    refine .ite Iff.rfl (fun _ => ?_) fun _ => .refl m i
    exact .setIfsm rfl rfl (.handshake m (.inr (.inl rfl)))
  | ack =>
    refine .ite Iff.rfl (fun _ => ?_) fun _ => .refl m i
    exact .setIfsm rfl rfl (.append (.changed _ _ rfl) (.bgpOpen m))
  | synAck =>
    refine .ite Iff.rfl (fun _ => ?_) fun _ => .refl m i
    exact .setIfsm rfl rfl (.append (.handshake m (.inr (.inr rfl))) (.append (.changed _ _ rfl) (.bgpOpen m)))
  | keepalive =>
    by_cases hconfirm : (m.ifsmArray i).currentState = .oConfirm
    · simp only [Session.receive, hstate, hconfirm, if_true, true_or]
      exact .setIfsm rfl rfl (.changed _ _ rfl)
    · simp only [Session.receive, hstate, hconfirm, if_false, false_or]
      refine .ite Iff.rfl (fun hest => ?_) fun _ => .refl m i
      exact .setIfsm (by simp [IfaceState.session, hest]; rfl) rfl (.nil i)
  | update =>
    refine .ite Iff.rfl (fun _ => ?_) fun _ => .refl m i
    exact handleBgpUpdate_acts rfl frame rfl
  | bgpOpen =>
    refine .ite Iff.rfl (fun hsent => ?_) fun _ => .refl m i
    rw [hsent]
    exact .setIfsm rfl rfl (.append (.keepalive m) (.changed _ _ rfl))
  | invalid => exact .refl m i

/-! Time. -/

lemma toNat_decreased (timer : UInt8) : (decreased timer).toNat = timer.toNat - 1 := by
  rw [decreased]
  split_ifs with h
  · exact UInt8.toNat_sub_of_le _ _ (UInt8.le_iff_toNat_le.mpr (UInt8.lt_iff_toNat_lt.mp h))
  · have : timer.toNat ≤ (0 : UInt8).toNat := UInt8.le_iff_toNat_le.mp (UInt8.not_lt.mp h)
    simp at this
    simp [this]

lemma decreased_eq_zero (timer : UInt8) : decreased timer = 0 ↔ timer.toNat - 1 = 0 := by
  rw [← toNat_decreased, ← UInt8.toNat_inj]
  rfl

variable {i : Fin n}

lemma tickHold_acts (hi : (m.ifsmArray i).ifaceIndex = i) :
    Acts False m i (m.tickHold i) (m.ifsmArray i).session.tickHold := by
  refine .ite Iff.rfl (fun _ => .ite (decreased_eq_zero _) (fun _ => ?_) fun _ => ?_) fun _ => .refl m i
  · exact .setIfsm rfl rfl (.append (.append (.changed _ _ hi) (.changed _ _ hi)) (.handshake m (.inl rfl)))
  · exact .setIfsm (by simp [IfaceState.session, toNat_decreased]) rfl (.nil i)

lemma tickActive_acts (hi : (m.ifsmArray i).ifaceIndex = i) :
    Acts False m i (m.tickActive i) (m.ifsmArray i).session.tickActive := by
  refine .ite Iff.rfl (fun _ => .ite (decreased_eq_zero _) (fun _ => ?_) fun _ => ?_) fun _ => .refl m i
  · exact .setIfsm rfl rfl (.append (.changed _ _ hi) (.handshake m (.inl rfl)))
  · exact .setIfsm (by simp [IfaceState.session, toNat_decreased]) rfl (.nil i)

def ActsThen (m : SimulatedMachine n) (i : Fin n) (r : SimulatedMachine n × List (Output n) × Bool)
    (t : Session × List Signal × Bool) : Prop :=
  Acts False m i (r.1, r.2.1) (t.1, t.2.1) ∧ r.2.2 = t.2.2

lemma tickConnect_acts (hi : (m.ifsmArray i).ifaceIndex = i) :
    ActsThen m i (m.tickConnect i) (m.ifsmArray i).session.tickConnect := by
  have hrto := decreased_eq_zero (m.ifsmArray i).rto
  have hcrt := decreased_eq_zero (m.ifsmArray i).crt
  refine ite_related (ActsThen m i) Iff.rfl (fun _ => ?_) fun _ => ⟨.refl m i, rfl⟩
  refine ite_related (ActsThen m i) hrto (fun hr => ?_) fun _ => ?_
  · exact ⟨.setIfsm (by rw [hr]; rfl) rfl (.changed _ _ hi), rfl⟩
  refine ite_related (ActsThen m i) hcrt (fun _ => ?_) fun _ => ?_
  · exact ⟨.setIfsm rfl rfl (.append (.append (.changed _ _ hi) (.changed _ _ hi)) (.handshake m (.inl rfl))), rfl⟩
  · exact ⟨.setIfsm (by simp [IfaceState.session, toNat_decreased]) rfl (.nil i), rfl⟩

lemma tickInterface_acts (hi : (m.ifsmArray i).ifaceIndex = i) :
    Acts False m i (m.tickInterface i) (m.ifsmArray i).session.tick := by
  have hhold := tickHold_acts hi
  obtain ⟨hconnect, hgoesOn⟩ := tickConnect_acts (hhold.index.trans hi)
  rw [hhold.session] at hconnect hgoesOn
  have htwo := hhold.trans hconnect
  have hactive := tickActive_acts (htwo.index.trans hi)
  rw [htwo.session] at hactive
  simp only [tickInterface, Session.tick, hgoesOn]
  split_ifs
  · exact htwo
  · exact htwo.trans hactive

lemma tickInterfaces_acts {l : List (Fin n)} (hl : l.Nodup) (acc : SimulatedMachine n × List (Output n))
    (hidx : ∀ i, (acc.1.ifsmArray i).ifaceIndex = i) {r : SimulatedMachine n × List (Output n)}
    (hr : l.foldl (fun acc i => ((acc.1.tickInterface i).1, acc.2 ++ (acc.1.tickInterface i).2)) acc = r)
    (i : Fin n) :
    (r.1.ifsmArray i).ifaceIndex = i ∧
      (i ∈ l → (r.1.ifsmArray i).session = (acc.1.ifsmArray i).session.tick.1 ∧
        signals i r.2 = signals i acc.2 ++ (acc.1.ifsmArray i).session.tick.2) ∧
      (i ∉ l → r.1.ifsmArray i = acc.1.ifsmArray i ∧ signals i r.2 = signals i acc.2) := by
  induction l generalizing acc with
  | nil =>
    subst hr
    exact ⟨hidx i, by simp, fun _ => ⟨rfl, rfl⟩⟩
  | cons j l ih =>
    obtain ⟨hj, hl⟩ := List.nodup_cons.mp hl
    have hacts := tickInterface_acts (hidx j)
    have hsilent : ∀ k ≠ j, signals k (acc.1.tickInterface j).2 = [] := fun k hk =>
      List.eq_nil_iff_forall_not_mem.mpr fun x hx => (hacts.elsewhere k hk x hx).1
    obtain ⟨hindex, hin, hout⟩ := ih hl ((acc.1.tickInterface j).1, acc.2 ++ (acc.1.tickInterface j).2)
      (hacts.index_all hidx) hr
    refine ⟨hindex, fun hi => ?_, fun hi => ?_⟩
    · rcases List.mem_cons.mp hi with rfl | hi
      · obtain ⟨hsame, hsig⟩ := hout hj
        rw [hsame, hsig, hacts.session, signals_append, hacts.signals]
        exact ⟨rfl, rfl⟩
      · have hij : i ≠ j := fun h => hj (h ▸ hi)
        obtain ⟨hsession, hsig⟩ := hin hi
        rw [hacts.others i hij] at hsession hsig
        rw [hsession, hsig, signals_append, hsilent i hij, List.append_nil]
        exact ⟨rfl, rfl⟩
    · obtain ⟨hij, hi⟩ : i ≠ j ∧ i ∉ l := by simpa using hi
      obtain ⟨hsame, hsig⟩ := hout hi
      rw [hsame, hsig, hacts.others i hij, signals_append, hsilent i hij, List.append_nil]
      exact ⟨rfl, rfl⟩

lemma manageTime_acts (hidx : ∀ i, (m.ifsmArray i).ifaceIndex = i) (i : Fin n) :
    (m.manageTime.1.ifsmArray i).ifaceIndex = i ∧
      (m.manageTime.1.ifsmArray i).session = (m.ifsmArray i).session.tick.1 ∧
      signals i m.manageTime.2 = (m.ifsmArray i).session.tick.2 := by
  obtain ⟨hindex, hin, -⟩ := tickInterfaces_acts (List.nodup_finRange n) (m, []) hidx rfl i
  exact ⟨hindex, hin (List.mem_finRange i)⟩

end SimulatedMachine

end CourseArchive.Bgp
