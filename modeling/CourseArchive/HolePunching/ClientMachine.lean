import CourseArchive.HolePunching.ServerMachine

/-! The client of `PA2/user/client_machine.cpp`. -/

namespace CourseArchive.HolePunching

open Lib

structure ClientMachine (n : ℕ) where
  iface : Fin (n + 1) → Interface
  myPort : UInt16
  myId : Fin 32
  peerInfo : Option Metadata
  peerId : Fin 32
  connected : Bool
  peerSessionKind : DataType
  deriving DecidableEq

def ping : List UInt8 := [112, 105, 110, 103]

def pong : List UInt8 := [112, 111, 110, 103]

def senderId (data : ℕ → UInt8) : Fin 32 := Fin.ofNat 32 (dataId data).toNat

def udpLength (data : ℕ → UInt8) : UInt16 := get16 data 38

def message (data : ℕ → UInt8) (len : ℕ) : List UInt8 := (List.range len).map fun k => data (sizeOfHeader + k)

def dottedPort (e : Endpoint) : String :=
  let byte (k : ℕ) := toString (e.ip.toNat / 2 ^ (8 * k) % 256)
  byte 3 ++ "." ++ byte 2 ++ "." ++ byte 1 ++ "." ++ byte 0 ++ ", " ++ toString e.port

def text (bytes : List UInt8) : String := String.ofList (bytes.map fun b => Char.ofNat b.toNat)

namespace ClientMachine

variable {n : ℕ}

def initialize_ (iface : Fin (n + 1) → Interface) : ClientMachine n where
  iface := iface
  myPort := 0
  myId := 0
  peerInfo := none
  peerId := 0
  connected := false
  peerSessionKind := .invalid

/-- A ping or a pong is taken for one of a local session, whatever was asked for. -/
def detectDataType (data : ℕ → UInt8) : DataType :=
  match dataTypeField data with
  | 0 => if dataId data = 0 then .drop else .responseAssigningId
  | 1 => .responseGettingIp
  | 2 =>
    if message data 4 = ping then .requestLocalSession
    else if message data 4 = pong then .responseLocalSession
    else .invalid
  | 3 => .message
  | 4 => .natUpdated
  | 7 => .statusResponse
  | _ => .invalid

def request (m : ClientMachine n) (type : DataType) (id : Fin 32) (md : List UInt8) : Sent n :=
  ⟨packet (fillHeader (m.iface 0).mac type (getDataLength type).toNat (m.iface 0).ip serverIp m.myPort 1234
    (UInt8.ofNat id) ++ md), 0⟩

def ownMd (m : ClientMachine n) : List UInt8 := be32 (m.iface 0).ip ++ be16 m.myPort

def makeConnection (m : ClientMachine n) (port : UInt16) : ClientMachine n × Reply n :=
  if 0 < m.myId then (m, ⟨["you already have an id, ignored"], []⟩)
  else
    let m := { m with myPort := port }
    (m, ⟨[], [m.request .requestAssigningId 0 m.ownMd]⟩)

/-- The ID of the peer, a bit field of a `byte`, is streamed as the character with this code. -/
def receiveDropPacket (m : ClientMachine n) (frame : Buffer) : ClientMachine n × Reply n :=
  if srcPort frame.data = 1234 then
    let port := m.myPort + 100
    let (m, r) := { m with myPort := port }.makeConnection port
    (m, { r with lines := r.lines ++ ["connection to server failed, retrying on port " ++ toString m.myPort] })
  else if srcPort frame.data = 4321 ∧ m.connected ∧ m.peerInfo.isSome then
    (m, ⟨["connection lost, perhaps" ++ text [UInt8.ofNat m.peerId] ++
      "'s info has changed, ask server for updates"], []⟩)
  else (m, .nothing)

def responseId (m : ClientMachine n) (frame : Buffer) : ClientMachine n × Reply n :=
  let m := { m with myId := senderId frame.data }
  (m, ⟨["Now My ID is " ++ toString m.myId], []⟩)

def getIdInfo (m : ClientMachine n) (id : Fin 32) : Reply n := ⟨[], [m.request .requestGettingIp id []]⟩

def responseIp (m : ClientMachine n) (frame : Buffer) : ClientMachine n × Reply n :=
  let info : Metadata := ⟨mdLocal frame.data, mdPublic frame.data⟩
  ({ m with peerInfo := some info, peerId := senderId frame.data, connected := false },
    ⟨["packet with (" ++ toString (senderId frame.data) ++ ", " ++ dottedPort info.localEnd ++ ", " ++
      dottedPort info.publicEnd ++ ") received"], []⟩)

def peerEnd (info : Metadata) (kind : DataType) : Endpoint :=
  if kind = .requestLocalSession then info.localEnd else info.publicEnd

def toPeer (m : ClientMachine n) (info : Metadata) (kind type : DataType) (dataLength : ℕ)
    (payload : List UInt8) : Sent n :=
  let receiver := peerEnd info kind
  let which := findGateway m.iface receiver.ip
  ⟨packet (fillHeader (m.iface which).mac type dataLength (m.iface 0).ip receiver.ip m.myPort receiver.port
    (UInt8.ofNat m.myId) ++ payload), which⟩

def makeSession (m : ClientMachine n) (id : Fin 32) (kind : DataType) : ClientMachine n × Reply n :=
  match m.peerInfo with
  | some info =>
    if m.peerId = id then
      ({ m with peerSessionKind := kind }, ⟨[], [m.toPeer info kind kind (getDataLength kind).toNat ping]⟩)
    else (m, ⟨["info of node " ++ toString id ++ " was not received"], []⟩)
  | none => (m, ⟨["info of node " ++ toString id ++ " was not received"], []⟩)

def checkConnection (m : ClientMachine n) (id : Fin 32) : Bool := m.peerId = id && m.connected && m.peerInfo.isSome

def requestSession (m : ClientMachine n) (frame : Buffer) (ifaceIndex : Fin (n + 1)) (kind : DataType) :
    ClientMachine n × Reply n :=
  if message frame.data 4 = ping ∧ ¬ m.checkConnection (senderId frame.data) then
    let sender := source frame.data
    let kind' := if kind = .requestLocalSession then .responseLocalSession else .responsePublicSession
    let m := { m with
      peerId := senderId frame.data, connected := true, peerSessionKind := kind,
      peerInfo := some ⟨sender, sender⟩ }
    (m, ⟨["Connected to " ++ toString m.peerId],
      [⟨packet (fillHeader (m.iface ifaceIndex).mac kind' (getDataLength kind').toNat (dstIp frame.data) sender.ip
        (dstPort frame.data) sender.port (UInt8.ofNat m.myId) ++ pong), ifaceIndex⟩]⟩)
  else (m, .nothing)

def responseSession (m : ClientMachine n) (frame : Buffer) : ClientMachine n × Reply n :=
  if message frame.data 4 = pong ∧ senderId frame.data = m.peerId ∧ m.connected = false then
    ({ m with connected := true }, ⟨["Connected to " ++ toString m.peerId], []⟩)
  else (m, .nothing)

def sendMessage (m : ClientMachine n) (id : Fin 32) (msg : List UInt8) : Reply n :=
  match m.checkConnection id, m.peerInfo with
  | true, some info => ⟨[], [m.toPeer info m.peerSessionKind .message msg.length msg]⟩
  | _, _ => ⟨["please make a session first"], []⟩

/-- The message is cut at the length that the UDP header gives; below that of the headers, it is read to the end of
the frame. -/
def messageText (frame : Buffer) : String :=
  let len := (udpLength frame.data).toNat
  let data := store frame.data (34 + len) [0]
  text ((message data (max frame.length (35 + len) - sizeOfHeader)).takeWhile (· ≠ 0))

def receiveMessage (m : ClientMachine n) (frame : Buffer) : Reply n :=
  if m.checkConnection (senderId frame.data) then
    ⟨["received msg from " ++ toString (senderId frame.data) ++ ":" ++ messageText frame], []⟩
  else .nothing

def receiveNatUpdatedPacket (m : ClientMachine n) : Reply n :=
  ⟨[], [m.request .requestUpdatingInfo m.myId m.ownMd]⟩

def askStatus (m : ClientMachine n) : Reply n := ⟨[], [m.request .status 0 m.ownMd]⟩

def recStatusResponse (frame : Buffer) : Reply n :=
  if dataId frame.data = 0 then ⟨["indirect"], []⟩
  else if dataId frame.data = 1 then ⟨["direct"], []⟩
  else .nothing

def processFrame (m : ClientMachine n) (frame : Buffer) (ifaceIndex : Fin (n + 1)) : ClientMachine n × Reply n :=
  if 0 < ttl frame.data then
    if protocol frame.data = 17 ∧ getChecksum (ipHeader frame.data) = 0 then
      if dstIp frame.data = (m.iface 0).ip then
        match detectDataType frame.data with
        | .responseAssigningId => m.responseId frame
        | .drop => m.receiveDropPacket frame
        | .responseGettingIp => m.responseIp frame
        | .requestLocalSession => m.requestSession frame ifaceIndex .requestLocalSession
        | .responseLocalSession => m.responseSession frame
        | .requestPublicSession => m.requestSession frame ifaceIndex .requestPublicSession
        | .responsePublicSession => m.responseSession frame
        | .message => (m, m.receiveMessage frame)
        | .natUpdated => (m, m.receiveNatUpdatedPacket)
        | .statusResponse => (m, recStatusResponse frame)
        | _ => (m, .nothing)
      else (m, ⟨[], [⟨{ frame with data := consumeTtl frame.data }, findGateway m.iface (dstIp frame.data)⟩]⟩)
    else (m, ⟨["invalid packet, dropped"], []⟩)
  else (m, .nothing)

inductive Move (n : ℕ)
  | makeConnection (port : UInt16)
  | getIdInfo (id : Fin 32)
  | makeLocalSession (id : Fin 32)
  | makePublicSession (id : Fin 32)
  | sendMsg (id : Fin 32) (msg : List UInt8)
  | status
  | received (frame : Buffer) (ifaceIndex : Fin (n + 1))

def move (m : ClientMachine n) : Move n → ClientMachine n × Reply n
  | .makeConnection port => m.makeConnection port
  | .getIdInfo id => (m, m.getIdInfo id)
  | .makeLocalSession id => m.makeSession id .requestLocalSession
  | .makePublicSession id => m.makeSession id .requestPublicSession
  | .sendMsg id msg => (m, m.sendMessage id msg)
  | .status => (m, m.askStatus)
  | .received frame ifaceIndex => m.processFrame frame ifaceIndex

def step (m : ClientMachine n) (a : Move n) : Option (ClientMachine n) := some (m.move a).1

end ClientMachine

end CourseArchive.HolePunching
