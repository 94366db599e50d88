import CourseArchive.HolePunching.CommandLine
import CourseArchive.HolePunching.Handshake
import Mathlib.Data.List.TakeWhile

/-! What becomes of the text that the user of a client types for its peer. -/

namespace CourseArchive.HolePunching

open Lib

lemma packet_udpLength (mac : Mac) {type : DataType} {dataLength : ℕ} {srcIp dstIp : UInt32}
    {srcPort dstPort : UInt16} {id : UInt8} {payload : List UInt8} :
    udpLength (packet (fillHeader mac type dataLength srcIp dstIp srcPort dstPort id ++ payload)).data =
      UInt16.ofNat (9 + dataLength) := by
  have h := (Holds.append_iff.mp
    (holds_packet (fillHeader mac type dataLength srcIp dstIp srcPort dstPort id ++ payload))).1
  have hlength := (Holds.append_iff.mp (Holds.append_iff.mp (Holds.append_iff.mp h).1).1).2
  simp only [List.length_append, List.length_replicate, Vector.length_toList, ipHeaderBytes, length_be16,
    length_be32, List.length_cons, List.length_nil] at hlength
  exact hlength.get16

lemma length_takeWhile_le {xs : List UInt8} {i : ℕ} (hi : i < xs.length) (h : xs[i] = 0) :
    (xs.takeWhile (· ≠ 0)).length ≤ i := by
  by_contra hlt
  rw [not_le] at hlt
  have hmem := List.mem_takeWhile_imp (List.getElem_mem hlt)
  rw [(List.takeWhile_prefix _).getElem hlt, h] at hmem
  cases hmem

lemma takeWhile_append_zero {xs : List UInt8} (h : 0 ∉ xs) : (xs ++ [0]).takeWhile (· ≠ 0) = xs := by
  rw [List.takeWhile_append_of_pos fun c hc => by simpa using ne_of_mem_of_not_mem hc h]
  simp

namespace ClientMachine

variable {n k : ℕ}

/-- What no machine on the way changes: the length, and all from the UDP length on. -/
structure Carried (sent received : Buffer) : Prop where
  length : received.length = sent.length
  kept : ∀ i, 38 ≤ i → i < sent.length → received.data i = sent.data i

def TerminatorInRange (frame : Buffer) : Prop :=
  9 ≤ (udpLength frame.data).toNat ∧ 34 + (udpLength frame.data).toNat ≤ frame.length

/-- The command that `sender` is given for `receiver` is read as a message with this text, the frame that it makes
goes on the wire, and each frame that comes of it reaches `receiver`, which prints it with this text. -/
def Conveys (sender : ClientMachine n) (receiver : ClientMachine k) (msg : List UInt8) : Prop :=
  ∃ input sent, parseInput (sendCommand receiver.myId msg) = some input ∧ input.iType = some .sendMsg ∧
  input.msg = msg ∧
    sender.run input = some (sender, ⟨[], [sent]⟩) ∧ realSendFrame sent.frame ∧
    ∀ frame, Carried sent.frame frame → fitsFrameBuffer frame ∧ detectDataType frame.data = .message ∧
      TerminatorInRange frame ∧
      receiver.receiveMessage frame = ⟨["received msg from " ++ toString sender.myId ++ ":" ++ text msg], []⟩

variable {mac : Mac} {srcIp dstIp : UInt32} {srcPort dstPort : UInt16} {id : Fin 32} {msg : List UInt8}
  {frame : Buffer}

lemma Carried.content {dataLength : ℕ}
    (h : Carried (packet (fillHeader mac .message dataLength srcIp dstIp srcPort dstPort (UInt8.ofNat id) ++ msg))
      frame) :
    frame.length = 43 + msg.length ∧ udpLength frame.data = UInt16.ofNat (9 + dataLength) ∧
      detectDataType frame.data = .message ∧ senderId frame.data = id ∧ message frame.data msg.length = msg := by
  have hkept := h.kept
  rw [length_packet] at hkept
  obtain ⟨htype, hid, hmsg⟩ := content_of_kept fun i hi hlt => hkept i (by omega) hlt
  refine ⟨by rw [h.length, length_packet], ?_, ?_, hid, hmsg⟩
  · rw [← packet_udpLength mac, udpLength, udpLength]
    exact get16_congr fun i hi hlt => hkept i hi (by omega)
  · rw [detectDataType, htype]
    rfl

lemma length_text (bs : List UInt8) : (text bs).length = bs.length := by
  rw [text, String.length_ofList, List.length_map]

lemma length_messageText_le (h : TerminatorInRange frame) :
    (messageText frame).length ≤ (udpLength frame.data).toNat - 9 := by
  obtain ⟨hlow, hhigh⟩ := h
  rw [messageText, length_text]
  generalize (udpLength frame.data).toNat = len at *
  have hi : len - 9 <
    (message (store frame.data (34 + len) [0]) (max frame.length (35 + len) - sizeOfHeader)).length := by
    rw [message, List.length_map, List.length_range, sizeOfHeader]
    omega
  refine length_takeWhile_le hi ?_
  simp only [message, List.getElem_map, List.getElem_range, sizeOfHeader]
  rw [show 43 + (len - 9) = 34 + len + 0 by omega]
  exact store_apply_add (by simp)

lemma messageText_eq (hlength : frame.length = 43 + msg.length)
    (hudp : (udpLength frame.data).toNat = 9 + msg.length) (hmsg : message frame.data msg.length = msg)
    (hnul : 0 ∉ msg) :
    messageText frame = text msg := by
  rw [messageText, hudp, hlength]
  have hsize : max (43 + msg.length) (35 + (9 + msg.length)) - sizeOfHeader = msg.length + 1 := by
    rw [sizeOfHeader]
    omega
  have hmessage : message (store frame.data (34 + (9 + msg.length)) [0]) (msg.length + 1) = msg ++ [0] := by
    have hbefore :
      message (store frame.data (34 + (9 + msg.length)) [0]) msg.length = message frame.data msg.length := by
      refine List.map_congr_left fun i hi => store_apply_of_lt ?_
      rw [List.mem_range] at hi
      rw [sizeOfHeader]
      omega
    have hnul : store frame.data (34 + (9 + msg.length)) [0] (43 + msg.length) = 0 := by
      rw [show 43 + msg.length = 34 + (9 + msg.length) + 0 by omega]
      exact store_apply_add (by simp)
    rw [message, List.range_succ, List.map_append, ← message, hbefore, hmsg, List.map_singleton,
      sizeOfHeader, hnul]
  simp only [hsize, hmessage, takeWhile_append_zero hnul]

lemma msgLength_message {id : Fin 32} {msg : List UInt8} (h : msg.length < 2 ^ 16) :
    (ClientInput.message id msg).msgLength = msg.length := by
  rw [ClientInput.message, Int.bmod_eq_of_le] <;> omega

lemma run_sendMsg {m : ClientMachine n} {info : Metadata} {input : ClientInput} (hinfo : m.peerInfo = some info)
    (htype : input.iType = some .sendMsg) (hid : m.checkConnection input.id = true) : m.run input =
      if 0 ≤ input.msgLength ∧ sizeOfHeader + input.msgLength < 2 ^ 31 then
        some (m, ⟨[], [m.toPeer info m.peerSessionKind .message (input.msg.take input.msgLength.toNat).length
          (input.msg.take input.msgLength.toNat)]⟩)
      else none := by
  rw [run, htype]
  simp only [hid, true_and, sendMessage, hinfo]
  exact ite_not _ _ _

/-- The vectors are indexed in range and the text arrives if and only if the text is no empty one, no colon or
carriage return is in it and its frame fits the buffer of the loop that receives it. -/
theorem message_conveyed_iff (sender : ClientMachine n) (receiver : ClientMachine k) (msg : List UInt8)
    (hs : sender.checkConnection receiver.myId = true) (hr : receiver.checkConnection sender.myId = true)
    (hline : 10 ∉ msg) (hnul : 0 ∉ msg) :
    sender.Conveys receiver msg ↔ msg ≠ [] ∧ 58 ∉ msg ∧ 13 ∉ msg ∧ msg.length < 1478 := by
  obtain ⟨-, -, hinfo⟩ := checkConnection_iff.mp hs
  obtain ⟨info, hinfo⟩ := Option.ne_none_iff_exists'.mp hinfo
  have hany : msg.all isAny = true ↔ 13 ∉ msg := by
    rw [List.all_eq_true]
    constructor
    · intro h hcr
      exact absurd (h 13 hcr) (by decide)
    · intro h c hc
      have hnl : c ≠ 10 := ne_of_mem_of_not_mem hc hline
      have hcr : c ≠ 13 := ne_of_mem_of_not_mem hc h
      simp [isAny, hnl, hcr]
  constructor
  · rintro ⟨input, sent, hparse, htype, hmsg, hrun, -, harrive⟩
    rw [parseInput_sendCommand] at hparse
    split at hparse
    · rename_i hall
      obtain ⟨kept, hkept, rfl⟩ := Option.map_eq_some_iff.mp hparse
      obtain rfl : kept = msg := hmsg
      have hne : kept ≠ [] := by
        rintro rfl
        cases hkept
      rw [split_head hne, Option.some_inj, List.takeWhile_eq_self_iff] at hkept
      refine ⟨hne, fun h => ?_, hany.mp hall, ?_⟩
      · simpa using hkept 58 h
      · -- the frame as it was sent is one that arrives
        obtain ⟨hfits, -, hrange, hprint⟩ := harrive sent.frame ⟨rfl, fun _ _ _ => rfl⟩
        have hsent : senderId sent.frame.data = sender.myId ∧
            sent.frame.length = 43 + min (ClientInput.message receiver.myId kept).msgLength.toNat kept.length := by
          rw [run_sendMsg hinfo rfl hs] at hrun
          split at hrun
          · have hsent :=
              List.singleton_inj.mp (congrArg Reply.frames (Prod.ext_iff.mp (Option.some_inj.mp hrun)).2)
            subst hsent
            obtain ⟨hlength, -, -, hid, -⟩ := Carried.content ⟨rfl, fun _ _ _ => rfl⟩
            exact ⟨hid, hlength.trans (congrArg _ List.length_take)⟩
          · cases hrun
        obtain ⟨hid, hlength⟩ := hsent
        have hsize : (messageText sent.frame).length = kept.length := by
          rw [receiveMessage, hid, if_pos hr] at hprint
          have hlines := congrArg String.length (List.singleton_inj.mp (congrArg Reply.lines hprint))
          simp only [String.length_append, length_text] at hlines
          omega
        have hle := length_messageText_le hrange
        have hudp := (udpLength sent.frame.data).toNat_lt
        -- so the length is one that the cast to `int` keeps
        rw [msgLength_message (by omega), Int.toNat_natCast, min_self] at hlength
        rw [fitsFrameBuffer, hlength, frameBufferSize, decide_eq_true_iff] at hfits
        omega
    · cases hparse
      cases htype
  · rintro ⟨hne, hcolon, hcr, hlt⟩
    have hfirst : (split msg 58)[0]? = some msg := by
      rw [split_head hne, List.takeWhile_eq_self_iff.mpr]
      exact fun c hc => by simpa using ne_of_mem_of_not_mem hc hcolon
    have hlength : (ClientInput.message receiver.myId msg).msgLength = msg.length := msgLength_message (by omega)
    have htake :
      (ClientInput.message receiver.myId msg).msg.take (ClientInput.message receiver.myId msg).msgLength.toNat =
        msg := by
      rw [hlength, Int.toNat_natCast]
      exact List.take_length
    refine ⟨ClientInput.message receiver.myId msg,
      sender.toPeer info sender.peerSessionKind .message msg.length msg, ?_,
      rfl, rfl, ?_, ?_, ?_⟩
    · rw [parseInput_sendCommand, if_pos (hany.mpr hcr), hfirst, Option.map_some]
    · rw [run_sendMsg hinfo rfl hs, htake, hlength, if_pos]
      rw [sizeOfHeader]
      omega
    · have hsent :
        (sender.toPeer info sender.peerSessionKind .message msg.length msg).frame.length = 43 + msg.length :=
        length_packet
      rw [realSendFrame, hsent, Bool.and_eq_true, decide_eq_true_iff, decide_eq_true_iff]
      omega
    · intro frame h
      obtain ⟨hsize, hudp, htype, hid, htext⟩ := h.content
      have hudp : (udpLength frame.data).toNat = 9 + msg.length := by
        rw [hudp, UInt16.toNat_ofNat', Nat.mod_eq_of_lt (by omega)]
      refine ⟨?_, htype, ⟨by omega, by omega⟩, ?_⟩
      · rw [fitsFrameBuffer, hsize, frameBufferSize, decide_eq_true_iff]
        omega
      rw [receiveMessage, hid, if_pos hr, messageText_eq hsize hudp htext hnul]

def firstJoined : ClientMachine 0 :=
  first.plays ([.makeLocalSession 2] ++ pongOfSecond.map fun r => .received r.1 r.2)

theorem message_conveyed_iff_greeting : firstJoined.Conveys secondAgain (bytes "hello there") :=
  (message_conveyed_iff firstJoined secondAgain (bytes "hello there") (by decide) (by decide)
    (by decide) (by decide)).mpr (by decide)

theorem message_cut_at_colon : firstJoined.checkConnection secondAgain.myId = true ∧
    secondAgain.checkConnection firstJoined.myId = true ∧ ¬firstJoined.Conveys secondAgain (bytes "at 10:30") := by
  refine ⟨by decide, by decide, ?_⟩
  rintro ⟨input, -, hparse, -, hmsg, -⟩
  have hcut : (parseInput (sendCommand secondAgain.myId (bytes "at 10:30"))).map (·.msg) =
    some (bytes "at 10") := by
    decide
  rw [hparse, Option.map_some, hmsg] at hcut
  exact absurd hcut (by decide)

end ClientMachine

end CourseArchive.HolePunching
