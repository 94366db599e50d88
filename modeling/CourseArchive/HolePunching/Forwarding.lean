import CourseArchive.HolePunching.AddressUpdate
import CourseArchive.HolePunching.ClientMachine

/-! What a machine sends in answer to a frame: a copy of the frame, or frames that it has built itself. -/

namespace CourseArchive.HolePunching

open Lib

def Built (frame : Buffer) : Prop :=
  ∃ mac type dataLength srcIp dstIp srcPort dstPort id payload,
    frame = packet (fillHeader mac type dataLength srcIp dstIp srcPort dstPort id ++ payload)

def CopyOf (received sent : Buffer) : Prop :=
  ∃ data, ttl data = ttl received.data ∧ sent = { received with data := consumeTtl data }

variable {n : ℕ} {frame : Buffer} {ifaceIndex : Fin (n + 1)}

inductive Answers (frame : Buffer) : List (Sent n) → Option (Sent n) → Prop
  | forwarded {s : Sent n} (h : CopyOf frame s.frame) : Answers frame [s] (some s)
  | built {frames : List (Sent n)} (h : ∀ s ∈ frames, Built s.frame) : Answers frame frames none

namespace Answers

variable {frames : List (Sent n)} {copy : Option (Sent n)} {s : Sent n}

lemma nil : Answers frame ([] : List (Sent n)) none := .built fun _ h => by cases h

lemma singleton (h : Built s.frame) : Answers frame [s] none := .built fun _ hs => List.mem_singleton.mp hs ▸ h

lemma mem (h : Answers frame frames copy) (hs : s ∈ frames) : Built s.frame ∨ CopyOf frame s.frame := by
  cases h with
  | forwarded h =>
    obtain rfl := List.mem_singleton.mp hs
    exact .inr h
  | built h => exact .inl (h s hs)

lemma copyOf (h : Answers frame frames (some s)) : CopyOf frame s.frame := by
  cases h with
  | forwarded h => exact h

lemma eq_singleton (h : Answers frame frames (some s)) : frames = [s] := by
  cases h
  rfl

lemma copyOf_of_mem {c : Sent n} (h : Answers frame frames (some c)) (hs : s ∈ frames) : CopyOf frame s.frame := by
  cases h with
  | forwarded h =>
    obtain rfl := List.mem_singleton.mp hs
    exact h

end Answers

lemma built_packet (mac : Mac) (type : DataType) (dataLength : ℕ) (srcIp dstIp : UInt32) (srcPort dstPort : UInt16)
    (id : UInt8) (payload : List UInt8) :
    Built (packet (fillHeader mac type dataLength srcIp dstIp srcPort dstPort id ++ payload)) :=
  ⟨mac, type, dataLength, srcIp, dstIp, srcPort, dstPort, id, payload, rfl⟩

lemma copyOf_consumeTtl {data : ℕ → UInt8} (h : ttl data = ttl frame.data) :
    CopyOf frame { frame with data := consumeTtl data } := ⟨data, h, rfl⟩

lemma ttl_setDestination (data : ℕ → UInt8) (e : Endpoint) : ttl (setDestination data e) = ttl data := by
  rw [ttl, setDestination, store_apply_of_lt (by decide), store_apply_of_lt (by decide)]
  rfl

lemma ttl_setSource (data : ℕ → UInt8) (e : Endpoint) : ttl (setSource data e) = ttl data := by
  rw [ttl, setSource, store_apply_of_lt (by decide), store_apply_of_lt (by decide)]
  rfl

namespace NatMachine

variable {m : NatMachine n}

def forwards (m : NatMachine n) (frame : Buffer) (ifaceIndex : Fin (n + 1)) : Option (Sent n) :=
  if ifaceIndex = 0 then
    match m.findInOuterTable (destination frame.data),
      m.findInSession (destination frame.data) (source frame.data) with
    | some client, some _ =>
      some ⟨{ frame with data := consumeTtl (setDestination frame.data client.localEnd) },
        findGateway m.iface client.localEnd.ip⟩
    | _, _ => none
  else if m.validInRange (srcPort frame.data) then
    some ⟨{ frame with data := consumeTtl (setSource frame.data (m.mapping (source frame.data)).1.publicEnd) },
      findGateway m.iface (dstIp frame.data)⟩
  else none

lemma mapping_iface (e : Endpoint) : (m.mapping e).2.iface = m.iface := by
  rw [mapping]
  split <;> rfl

lemma answers (m : NatMachine n) (frame : Buffer) (ifaceIndex : Fin (n + 1)) :
    Answers frame (m.processFrame frame ifaceIndex).2 (m.forwards frame ifaceIndex) := by
  rw [processFrame, forwards]
  by_cases hin : ifaceIndex = 0
  · rw [if_pos hin, if_pos hin, processInbound]
    cases m.findInOuterTable (destination frame.data) with
    | none => exact .nil
    | some client =>
      cases m.findInSession (destination frame.data) (source frame.data) with
      | none => exact .singleton (built_packet ..)
      | some _ => exact .forwarded (copyOf_consumeTtl (ttl_setDestination ..))
  · rw [if_neg hin, if_neg hin, processOutbound]
    cases hvalid : m.validInRange (srcPort frame.data) with
    | false => exact .singleton (built_packet ..)
    | true =>
      simp only [Bool.not_true, Bool.false_eq_true, if_false, if_true, mapping_iface]
      exact .forwarded (copyOf_consumeTtl (ttl_setSource ..))

end NatMachine

namespace ServerMachine

variable {m : ServerMachine n}

def forwards (m : ServerMachine n) (frame : Buffer) : Option (Sent n) :=
  if protocol frame.data = 17 ∧ getChecksum (ipHeader frame.data) = 0 ∧ dstIp frame.data ≠ serverIp then
    some ⟨{ frame with data := consumeTtl frame.data }, findGateway m.iface (dstIp frame.data)⟩
  else none

lemma recRequestId_built (m : ServerMachine n) (frame : Buffer) (ifaceIndex : Fin (n + 1)) {s : Sent n}
    (h : s ∈ (m.recRequestId frame ifaceIndex).2.frames) : Built s.frame := by
  rw [recRequestId] at h
  by_cases hfound : (m.findClientByLocal (get16 frame.data 43).toUInt32).isSome
  · rw [if_pos hfound] at h
    cases h
  · rw [if_neg hfound] at h
    generalize (if m.currentFreeId = 0 then { m with currentFreeId := m.currentFreeId + 1 } else m) = m' at h
    by_cases hid : m'.currentFreeId.val ≤ 31
    · simp only [if_pos hid, List.mem_singleton] at h
      exact h ▸ built_packet ..
    · simp only [if_neg hid] at h
      cases h

lemma recIpRequest_built (m : ServerMachine n) (frame : Buffer) (ifaceIndex : Fin (n + 1)) {s : Sent n}
    (h : s ∈ (m.recIpRequest frame ifaceIndex).frames) : Built s.frame := by
  rw [recIpRequest] at h
  split at h
  · obtain rfl := List.mem_singleton.mp h
    exact built_packet ..
  · cases h

lemma recUpdateRequest_frames (m : ServerMachine n) (frame : Buffer) :
    (m.recUpdateRequest frame).2.frames = [] := by
  rw [recUpdateRequest]
  split <;> rfl

lemma answers (m : ServerMachine n) (frame : Buffer) (ifaceIndex : Fin (n + 1)) :
    Answers frame (m.processFrame frame ifaceIndex).2.frames (m.forwards frame) := by
  rw [processFrame, forwards]
  by_cases hvalid : protocol frame.data = 17 ∧ getChecksum (ipHeader frame.data) = 0
  · rw [if_pos hvalid]
    by_cases hdst : dstIp frame.data = serverIp
    · rw [if_pos hdst, if_neg (by tauto)]
      split
      · exact .built fun _ => recRequestId_built m frame ifaceIndex
      · exact .built fun _ => recIpRequest_built m frame ifaceIndex
      · rw [recUpdateRequest_frames]
        exact .nil
      · exact .singleton (built_packet ..)
      · exact .nil
    · rw [if_neg hdst, if_pos (by tauto)]
      exact .forwarded (copyOf_consumeTtl rfl)
  · rw [if_neg hvalid, if_neg (by tauto)]
    exact .nil

end ServerMachine

namespace ClientMachine

variable {m : ClientMachine n}

def forwards (m : ClientMachine n) (frame : Buffer) : Option (Sent n) :=
  if 0 < ttl frame.data ∧ protocol frame.data = 17 ∧ getChecksum (ipHeader frame.data) = 0 ∧
      dstIp frame.data ≠ (m.iface 0).ip then
    some ⟨{ frame with data := consumeTtl frame.data }, findGateway m.iface (dstIp frame.data)⟩
  else none

lemma makeConnection_built (m : ClientMachine n) (port : UInt16) {s : Sent n}
    (h : s ∈ (m.makeConnection port).2.frames) :
    Built s.frame := by
  rw [makeConnection] at h
  split at h
  · cases h
  · obtain rfl := List.mem_singleton.mp h
    exact built_packet ..

lemma receiveDropPacket_built (m : ClientMachine n) (frame : Buffer) {s : Sent n}
    (h : s ∈ (m.receiveDropPacket frame).2.frames) : Built s.frame := by
  rw [receiveDropPacket] at h
  split at h
  · exact makeConnection_built _ _ h
  · split at h <;> cases h

lemma requestSession_built (m : ClientMachine n) (frame : Buffer) (ifaceIndex : Fin (n + 1)) (kind : DataType)
    {s : Sent n} (h : s ∈ (m.requestSession frame ifaceIndex kind).2.frames) : Built s.frame := by
  rw [requestSession] at h
  split at h
  · obtain rfl := List.mem_singleton.mp h
    exact built_packet ..
  · cases h

lemma responseSession_frames (m : ClientMachine n) (frame : Buffer) : (m.responseSession frame).2.frames = [] := by
  rw [responseSession]
  split <;> rfl

lemma receiveMessage_frames (m : ClientMachine n) (frame : Buffer) : (m.receiveMessage frame).frames = [] := by
  rw [receiveMessage]
  split <;> rfl

lemma recStatusResponse_frames (frame : Buffer) : (recStatusResponse (n := n) frame).frames = [] := by
  rw [recStatusResponse]
  split
  · rfl
  · split <;> rfl

lemma answers (m : ClientMachine n) (frame : Buffer) (ifaceIndex : Fin (n + 1)) :
    Answers frame (m.processFrame frame ifaceIndex).2.frames (m.forwards frame) := by
  rw [processFrame, forwards]
  by_cases halive : 0 < ttl frame.data
  · rw [if_pos halive]
    by_cases hvalid : protocol frame.data = 17 ∧ getChecksum (ipHeader frame.data) = 0
    · rw [if_pos hvalid]
      by_cases hdst : dstIp frame.data = (m.iface 0).ip
      · rw [if_pos hdst, if_neg (by tauto)]
        split
        · exact .nil
        · exact .built fun _ => receiveDropPacket_built m frame
        · exact .nil
        · exact .built fun _ => requestSession_built m frame ifaceIndex _
        · rw [responseSession_frames]
          exact .nil
        · exact .built fun _ => requestSession_built m frame ifaceIndex _
        · rw [responseSession_frames]
          exact .nil
        · rw [receiveMessage_frames]
          exact .nil
        · exact .singleton (built_packet ..)
        · rw [recStatusResponse_frames]
          exact .nil
        · exact .nil
      · rw [if_neg hdst, if_pos (by tauto)]
        exact .forwarded (copyOf_consumeTtl rfl)
    · rw [if_neg hvalid, if_neg (by tauto)]
      exact .nil
  · rw [if_neg halive, if_neg (by tauto)]
    exact .nil

lemma makeSession_built (m : ClientMachine n) (id : Fin 32) (kind : DataType) {s : Sent n}
    (h : s ∈ (m.makeSession id kind).2.frames) : Built s.frame := by
  rw [makeSession] at h
  split at h
  · split at h
    · obtain rfl := List.mem_singleton.mp h
      exact built_packet ..
    · cases h
  · cases h

lemma sendMessage_built (m : ClientMachine n) (id : Fin 32) (msg : List UInt8) {s : Sent n}
    (h : s ∈ (m.sendMessage id msg).frames) : Built s.frame := by
  rw [sendMessage] at h
  split at h
  · obtain rfl := List.mem_singleton.mp h
    exact built_packet ..
  · cases h

lemma command_built (m : ClientMachine n) {a : Move n} (ha : ∀ frame ifaceIndex, a ≠ .received frame ifaceIndex)
    {s : Sent n} (h : s ∈ (m.move a).2.frames) : Built s.frame := by
  cases a with
  | makeConnection port => exact makeConnection_built m port h
  | getIdInfo id =>
    obtain rfl := List.mem_singleton.mp h
    exact built_packet ..
  | makeLocalSession id => exact makeSession_built m id _ h
  | makePublicSession id => exact makeSession_built m id _ h
  | sendMsg id msg => exact sendMessage_built m id msg h
  | status =>
    obtain rfl := List.mem_singleton.mp h
    exact built_packet ..
  | received frame ifaceIndex => exact absurd rfl (ha frame ifaceIndex)

end ClientMachine

end CourseArchive.HolePunching
