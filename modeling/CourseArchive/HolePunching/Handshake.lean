import CourseArchive.HolePunching.AddressUpdate
import CourseArchive.HolePunching.ClientMachine

/-! The session handshake between two clients. -/

namespace CourseArchive.HolePunching

open Lib

lemma packet_dataType {mac : Mac} {type : DataType} {dataLength : ℕ} {srcIp dstIp : UInt32}
    {srcPort dstPort : UInt16} {id : UInt8} {payload : List UInt8} :
    (packet (fillHeader mac type dataLength srcIp dstIp srcPort dstPort id ++ payload)).data 42 =
      getDataType type % 8 * 32 + id % 32 := by
  have h := (Holds.append_iff.mp
    (holds_packet (fillHeader mac type dataLength srcIp dstIp srcPort dstPort id ++ payload))).1
  have hid := (Holds.append_iff.mp h).2 0 (by simp)
  have hlength := length_fillHeader mac type dataLength srcIp dstIp srcPort dstPort id
  rw [fillHeader, List.length_append, List.length_singleton, sizeOfHeader, Nat.succ_inj] at hlength
  rwa [hlength] at hid

lemma dataByte_type (t : UInt8) (id : Fin 32) : (t % 8 * 32 + UInt8.ofNat id % 32) / 32 = t % 8 := by
  rw [← UInt8.toNat_inj]
  simp only [UInt8.toNat_div, UInt8.toNat_add, UInt8.toNat_mul, UInt8.toNat_mod, UInt8.toNat_ofNat',
    UInt8.reduceToNat]
  omega

lemma dataByte_id (t : UInt8) (id : Fin 32) :
    Fin.ofNat 32 ((t % 8 * 32 + UInt8.ofNat id % 32) % 32).toNat = id := by
  apply Fin.ext
  simp only [Fin.ofNat, UInt8.toNat_add, UInt8.toNat_mul, UInt8.toNat_mod, UInt8.toNat_ofNat', UInt8.reduceToNat]
  omega

namespace ClientMachine

variable {n k : ℕ}

/-- What reaches a client of a frame that was sent to it: the addresses and the TTL may have been rewritten on the
way, not what follows the headers. -/
structure Arrives (m : ClientMachine n) (sent received : Buffer) : Prop where
  alive : 0 < ttl received.data
  protocol : protocol received.data = 17
  checksum : getChecksum (ipHeader received.data) = 0
  dst : dstIp received.data = (m.iface 0).ip
  kept : ∀ i, 42 ≤ i → i < sent.length → received.data i = sent.data i

def Delivered (m : ClientMachine n) (frames : List (Sent k)) (received : List (Buffer × Fin (n + 1))) : Prop :=
  List.Forall₂ (fun s r => m.Arrives s.frame r.1) frames received

def receiveAll (m : ClientMachine n) : List (Buffer × Fin (n + 1)) → ClientMachine n × Reply n
  | [] => (m, .nothing)
  | r :: rs =>
    let (m, reply) := m.processFrame r.1 r.2
    let (m, replies) := m.receiveAll rs
    (m, ⟨reply.lines ++ replies.lines, reply.frames ++ replies.frames⟩)

def Handshake (a : ClientMachine n) (b : ClientMachine k) (kind : DataType) (a' : ClientMachine n)
    (b' : ClientMachine k) :
    Prop :=
  ∃ pings pongs, b.Delivered (a.makeSession b.myId kind).2.frames pings ∧
  a.Delivered (b.receiveAll pings).2.frames pongs ∧
    a' = ((a.makeSession b.myId kind).1.receiveAll pongs).1 ∧ b' = (b.receiveAll pings).1

def Hears (a : ClientMachine n) (b : ClientMachine k) : Prop :=
  ∀ msg, ∃ sent, (b.sendMessage a.myId msg).frames = [sent] ∧ ∀ frame ifaceIndex, a.Arrives sent.frame frame →
    (a.processFrame frame ifaceIndex).2.lines =
    ["received msg from " ++ toString b.myId ++ ":" ++ messageText frame]

structure Joined (a : ClientMachine n) (b : ClientMachine k) : Prop where
  here : a.checkConnection b.myId
  there : b.checkConnection a.myId
  hears : a.Hears b
  heard : b.Hears a

lemma content_of_kept {mac : Mac} {type : DataType} {dataLength : ℕ} {srcIp dstIp : UInt32}
    {srcPort dstPort : UInt16} {id : Fin 32} {payload : List UInt8} {data : ℕ → UInt8}
    (h : ∀ i, 42 ≤ i → i < 43 + payload.length → data i =
      (packet (fillHeader mac type dataLength srcIp dstIp srcPort dstPort (UInt8.ofNat id) ++ payload)).data i) :
    dataTypeField data = getDataType type % 8 ∧ senderId data = id ∧ message data payload.length = payload := by
  have hbyte : data 42 = getDataType type % 8 * 32 + UInt8.ofNat id % 32 := by
    rw [h 42 le_rfl (by omega), packet_dataType]
  refine ⟨?_, ?_, ?_⟩
  · rw [dataTypeField, hbyte, dataByte_type]
  · rw [senderId, dataId, hbyte, dataByte_id]
  · have hpayload := holds_payload mac type dataLength srcIp dstIp srcPort dstPort (UInt8.ofNat id) payload
    refine List.ext_getElem (by simp [message]) fun i hi hi' => ?_
    have hkept := h (43 + i) (by omega) (by omega)
    have hi'' := hpayload i hi'
    simp only [message, List.getElem_map, List.getElem_range, sizeOfHeader] at hi'' ⊢
    rw [hkept, hi'']

lemma length_packet {mac : Mac} {type : DataType} {dataLength : ℕ} {srcIp dstIp : UInt32}
    {srcPort dstPort : UInt16} {id : UInt8} {payload : List UInt8} :
    (packet (fillHeader mac type dataLength srcIp dstIp srcPort dstPort id ++ payload)).length =
    43 + payload.length := by
  rw [packet, List.length_append, length_fillHeader, sizeOfHeader]

lemma Arrives.content {m : ClientMachine n} {mac : Mac} {type : DataType} {dataLength : ℕ} {srcIp dstIp : UInt32}
    {srcPort dstPort : UInt16} {id : Fin 32} {payload : List UInt8} {r : Buffer} (h : m.Arrives
      (packet (fillHeader mac type dataLength srcIp dstIp srcPort dstPort (UInt8.ofNat id) ++ payload)) r) :
    dataTypeField r.data = getDataType type % 8 ∧ senderId r.data = id ∧
    message r.data payload.length = payload := by
  refine content_of_kept fun i hi hlt => h.kept i hi ?_
  rwa [length_packet]

lemma Arrives.congr {m m' : ClientMachine n} {sent r : Buffer} (h : m.Arrives sent r)
    (hiface : m'.iface = m.iface) :
    m'.Arrives sent r := ⟨h.alive, h.protocol, h.checksum, hiface ▸ h.dst, h.kept⟩

lemma delivered_singleton {m : ClientMachine n} {s : Sent k} {rs : List (Buffer × Fin (n + 1))}
    (h : m.Delivered [s] rs) : ∃ r, rs = [r] ∧ m.Arrives s.frame r.1 := by
  obtain ⟨r, rest, hr, hrest, rfl⟩ := List.forall₂_cons_left_iff.mp h
  exact ⟨r, by cases hrest; rfl, hr⟩

lemma receiveAll_singleton (m : ClientMachine n) (r : Buffer × Fin (n + 1)) :
    m.receiveAll [r] = m.processFrame r.1 r.2 := by
  simp [receiveAll, Reply.nothing]

lemma checkConnection_iff {m : ClientMachine n} {id : Fin 32} :
    m.checkConnection id = true ↔ m.peerId = id ∧ m.connected = true ∧ m.peerInfo ≠ none := by
  rw [checkConnection, Bool.and_eq_true, Bool.and_eq_true, decide_eq_true_iff, Option.isSome_iff_ne_none,
    and_assoc]

lemma processFrame_of_arrives {m : ClientMachine n} {sent r : Buffer} (h : m.Arrives sent r) (i : Fin (n + 1)) :
    (detectDataType r.data = .requestLocalSession →
      m.processFrame r i = m.requestSession r i .requestLocalSession) ∧
    (detectDataType r.data = .responseLocalSession → m.processFrame r i = m.responseSession r) ∧
    (detectDataType r.data = .message → m.processFrame r i = (m, m.receiveMessage r)) := by
  rw [processFrame, if_pos h.alive, if_pos ⟨h.protocol, h.checksum⟩, if_pos h.dst]
  refine ⟨fun hd => ?_, fun hd => ?_, fun hd => ?_⟩
  all_goals rw [hd]

lemma hears_of_connected {a : ClientMachine n} {b : ClientMachine k} (ha : a.checkConnection b.myId = true)
    (hb : b.checkConnection a.myId = true) : a.Hears b := by
  intro msg
  obtain ⟨-, -, hinfo⟩ := checkConnection_iff.mp hb
  obtain ⟨info, hinfo⟩ := Option.ne_none_iff_exists'.mp hinfo
  refine ⟨b.toPeer info b.peerSessionKind .message msg.length msg, by
    rw [sendMessage, hb, hinfo], fun frame i h => ?_⟩
  obtain ⟨htype, hid, -⟩ := h.content
  have hmessage : detectDataType frame.data = .message := by
    rw [detectDataType, htype]
    rfl
  rw [(processFrame_of_arrives h i).2.2 hmessage, receiveMessage, hid, if_pos ha]

lemma joined_iff {a : ClientMachine n} {b : ClientMachine k} :
    a.Joined b ↔ a.checkConnection b.myId = true ∧ b.checkConnection a.myId = true :=
  ⟨fun h => ⟨h.here, h.there⟩, fun h => ⟨h.1, h.2, hears_of_connected h.1 h.2, hears_of_connected h.2 h.1⟩⟩

lemma receive_ping {b : ClientMachine k} {mac : Mac} {kind : DataType} {srcIp dstIp : UInt32}
    {srcPort dstPort : UInt16} {id : Fin 32} {r : Buffer} (hkind : getDataType kind = 2)
    (h : b.Arrives (packet (fillHeader mac kind 4 srcIp dstIp srcPort dstPort (UInt8.ofNat id) ++ ping)) r)
    (i : Fin (k + 1)) :
    b.processFrame r i = b.requestSession r i .requestLocalSession ∧ message r.data 4 = ping ∧
    senderId r.data = id := by
  obtain ⟨htype, hid, hping⟩ := h.content
  have hping : message r.data 4 = ping := hping
  refine ⟨(processFrame_of_arrives h i).1 ?_, hping, hid⟩
  rw [detectDataType, htype, hkind]
  exact if_pos hping

lemma requestSession_new {b : ClientMachine k} {r : Buffer} (i : Fin (k + 1)) (hping : message r.data 4 = ping)
    (hnew : ¬ b.checkConnection (senderId r.data) = true) :
    (b.requestSession r i .requestLocalSession).1 = { b with
      peerId := senderId r.data, connected := true, peerSessionKind := .requestLocalSession,
      peerInfo := some ⟨source r.data, source r.data⟩ } ∧
    (b.requestSession r i .requestLocalSession).2.frames =
      [⟨packet (fillHeader (b.iface i).mac .responseLocalSession 4 (dstIp r.data) (srcIp r.data) (dstPort r.data)
        (srcPort r.data) (UInt8.ofNat b.myId) ++ pong), i⟩] := by
  rw [requestSession, if_pos ⟨hping, hnew⟩]
  exact ⟨rfl, rfl⟩

lemma receive_pong {a : ClientMachine n} {mac : Mac} {srcIp dstIp : UInt32} {srcPort dstPort : UInt16}
    {id : Fin 32} {r : Buffer} (hid : a.peerId = id) (h : a.Arrives
      (packet (fillHeader mac .responseLocalSession 4 srcIp dstIp srcPort dstPort (UInt8.ofNat id) ++ pong)) r)
    (i : Fin (n + 1)) : (a.processFrame r i).1 = { a with connected := true } := by
  obtain ⟨htype, hsender, hpong⟩ := h.content
  have hpong : message r.data 4 = pong := hpong
  have hdetect : detectDataType r.data = .responseLocalSession := by
    rw [detectDataType, htype]
    exact (if_neg (by rw [hpong]; decide)).trans (if_pos hpong)
  rw [(processFrame_of_arrives h i).2.1 hdetect, responseSession]
  split
  case isTrue => rfl
  case isFalse hnot =>
    have hconnected : a.connected = true := by
      by_contra hc
      exact hnot ⟨hpong, hsender.trans hid.symm, by simpa using hc⟩
    change a = { a with connected := true }
    rw [← hconnected]

/-- A client that is asked for a session by one it is already connected to stays silent, so who has forgotten the
session waits for a pong that never comes. -/
theorem handshake_completes_iff (a : ClientMachine n) (b : ClientMachine k) (kind : DataType)
    (hkind : kind = .requestLocalSession ∨ kind = .requestPublicSession) (hinfo : a.peerInfo ≠ none)
    (hpeer : a.peerId = b.myId) (a' : ClientMachine n) (b' : ClientMachine k) (h : a.Handshake b kind a' b') :
    a'.Joined b' ↔ (b.checkConnection a.myId = true → a.connected = true) := by
  obtain ⟨pings, pongs, hpings, hpongs, rfl, rfl⟩ := h
  obtain ⟨info, hinfo⟩ := Option.ne_none_iff_exists'.mp hinfo
  have htype : getDataType kind = 2 := by rcases hkind with rfl | rfl <;> rfl
  have hlength : (getDataLength kind).toNat = 4 := by rcases hkind with rfl | rfl <;> rfl
  have hmake : a.makeSession b.myId kind =
      ({ a with peerSessionKind := kind }, ⟨[], [a.toPeer info kind kind 4 ping]⟩) := by
    rw [makeSession, hinfo, ← hlength]
    exact if_pos hpeer
  rw [hmake] at hpings ⊢
  obtain ⟨r, rfl, hr⟩ := delivered_singleton hpings
  obtain ⟨hreceive, hping, hid⟩ := receive_ping htype hr r.2
  rw [receiveAll_singleton, hreceive] at hpongs
  rw [receiveAll_singleton, hreceive]
  by_cases hb : b.checkConnection a.myId = true
  · -- `b` remembers the session and does not answer
    rw [requestSession, hid, if_neg fun hc => hc.2 hb] at hpongs ⊢
    obtain rfl : pongs = [] := by cases hpongs; rfl
    rw [joined_iff, checkConnection_iff, imp_iff_right hb]
    exact ⟨fun hj => hj.1.2.1, fun hc => ⟨⟨hpeer, hc, by simp [hinfo, receiveAll]⟩, hb⟩⟩
  · obtain ⟨hnew, hanswer⟩ := requestSession_new r.2 hping (hid.symm ▸ hb)
    rw [hanswer] at hpongs
    obtain ⟨p, rfl, hp⟩ := delivered_singleton hpongs
    rw [receiveAll_singleton, receive_pong (a := { a with peerSessionKind := kind }) hpeer (hp.congr rfl), hnew,
      hid, joined_iff, checkConnection_iff, checkConnection_iff]
    exact ⟨fun _ hc => absurd hc hb, fun _ => ⟨⟨hpeer, rfl, by simp [hinfo]⟩, rfl, rfl, by simp⟩⟩

/-! Client 1 makes a session with client 2, asks the server for its addresses again, and makes one again. -/

def fromServer (type : DataType) (address : UInt32) (id : UInt8) (md : List UInt8) : Move 0 :=
  .received (packet
    (fillHeader (Vector.replicate 6 1) type (getDataLength type).toNat serverIp address 1234 5000 id ++ md)) 0

def oneAddress (address : UInt32) : Fin 1 → Interface := fun _ => ⟨Vector.replicate 6 2, address, 0xffffff00⟩

def infoOfSecond : Move 0 :=
  fromServer .responseGettingIp 0x0a000001 2 (be32 0x0a000002 ++ be16 5000 ++ be32 0x0a000002 ++ be16 5000)

def plays (m : ClientMachine n) (moves : List (Move n)) : ClientMachine n :=
  moves.foldl (fun m a => (m.move a).1) m

def first : ClientMachine 0 := (initialize_ (oneAddress 0x0a000001)).plays
  [.makeConnection 5000, fromServer .responseAssigningId 0x0a000001 1 [], infoOfSecond]

def second : ClientMachine 0 := (initialize_ (oneAddress 0x0a000002)).plays
  [.makeConnection 5000, fromServer .responseAssigningId 0x0a000002 2 []]

def unchanged (frames : List (Sent k)) : List (Buffer × Fin (n + 1)) := frames.map fun s => (s.frame, 0)

def pingOfFirst : List (Buffer × Fin 1) := unchanged (first.move (.makeLocalSession 2)).2.frames

def pongOfSecond : List (Buffer × Fin 1) := unchanged (second.receiveAll pingOfFirst).2.frames

def firstAgain : ClientMachine 0 := first.plays
  ([.makeLocalSession 2] ++ pongOfSecond.map (fun r => .received r.1 r.2) ++ [infoOfSecond])

def secondAgain : ClientMachine 0 := second.plays (pingOfFirst.map fun r => .received r.1 r.2)

lemma delivered_unchanged {m : ClientMachine n} {frames : List (Sent k)}
    (h : ∀ s ∈ frames, 0 < ttl s.frame.data ∧ protocol s.frame.data = 17 ∧
      getChecksum (ipHeader s.frame.data) = 0 ∧
      dstIp s.frame.data = (m.iface 0).ip) : m.Delivered frames (unchanged frames) := by
  rw [Delivered, unchanged, List.forall₂_map_right_iff, List.forall₂_same]
  intro s hs
  obtain ⟨hlive, hprotocol, hchecksum, hdst⟩ := h s hs
  exact ⟨hlive, hprotocol, hchecksum, hdst, fun _ _ _ => rfl⟩

lemma reaches_plays (m : ClientMachine n) (moves : List (Move n)) : Reaches step anyMove m (m.plays moves) := by
  induction moves generalizing m with
  | nil => exact .refl
  | cons a moves ih => exact .head ⟨a, trivial, rfl⟩ (ih (m.move a).1)

theorem handshake_completes_iff_new :
    ∃ a' b', first.Handshake second .requestLocalSession a' b' ∧ a'.Joined b' := by
  have h : first.Handshake second .requestLocalSession
      ((first.makeSession second.myId .requestLocalSession).1.receiveAll pongOfSecond).1
      (second.receiveAll pingOfFirst).1 :=
    ⟨pingOfFirst, pongOfSecond, delivered_unchanged (by decide), delivered_unchanged (by decide), rfl, rfl⟩
  refine ⟨_, _, h, ?_⟩
  have hiff := handshake_completes_iff first second .requestLocalSession (.inl rfl) (by decide) (by decide) _ _ h
  exact hiff.mpr (by decide)

theorem handshake_after_lookup_hangs : ∃ a a' b b' : ClientMachine 0,
    Reaches step anyMove (initialize_ (oneAddress 0x0a000001)) a ∧
    Reaches step anyMove (initialize_ (oneAddress 0x0a000002)) b ∧ a.peerInfo ≠ none ∧ a.peerId = b.myId ∧
    a.Handshake b .requestLocalSession a' b' ∧ b'.checkConnection a'.myId = true ∧
    a'.checkConnection b'.myId = false := by
  refine ⟨firstAgain, _, secondAgain, _, (reaches_plays _ _).trans (reaches_plays _ _),
    (reaches_plays _ _).trans (reaches_plays _ _), by decide, by decide,
    ⟨unchanged (firstAgain.makeSession secondAgain.myId .requestLocalSession).2.frames, [],
      delivered_unchanged (by decide), ?_, rfl, rfl⟩, by decide, by decide⟩
  have hsilent : (secondAgain.receiveAll
      (unchanged (firstAgain.makeSession secondAgain.myId .requestLocalSession).2.frames)).2.frames.length =
      0 := by
    decide
  rw [List.length_eq_zero_iff.mp hsilent]
  exact .nil

end ClientMachine

end CourseArchive.HolePunching
