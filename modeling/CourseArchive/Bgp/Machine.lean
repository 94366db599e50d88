import CourseArchive.Lib.Block
import CourseArchive.Lib.Buffer

/-! The simulated BGP machine of `PA3/user/sm.cpp`: its frames, its sessions and its routing table. -/

namespace CourseArchive.Bgp

open Lib

inductive BgpState
  | idle | connect | oSent | oConfirm | established | activeState
  deriving DecidableEq

inductive MessageType
  | bgpOpen | update | keepalive | syn | synAck | ack | invalid
  deriving DecidableEq

inductive InteractionType
  | peer | provider | customer | myAsset
  deriving DecidableEq

structure AddressPrefix where
  ip : UInt32
  mask : UInt8
  deriving DecidableEq

structure IfaceState where
  currentState : BgpState
  rto : UInt8
  ht : UInt8
  crt : UInt8
  synSent : Bool
  synAckSent : Bool
  ifaceIndex : ℤ
  neighborIp : UInt32
  neighborhood : InteractionType

structure HopByHopPath where
  priority : ℤ
  ases : List UInt16
  startInterface : ℤ
  destination : AddressPrefix
  advertiser : InteractionType
  deriving DecidableEq

/-- A machine with `n` interfaces; `ifaceIp` is the framework's `iface[i].getIp()`. -/
structure SimulatedMachine (n : ℕ) where
  ifaceIp : Fin n → UInt32
  ifsmArray : Fin n → IfaceState
  asNumber : UInt16
  assets : List AddressPrefix
  paths : List HopByHopPath

/-- `undefined` stands where the language does not say what the code does. -/
inductive Output (n : ℕ)
  | sent (ifaceIndex : Fin n) (frame : Buffer)
  | stateChanged (first second : BgpState) (index : ℤ)
  | hijacked (destination : AddressPrefix)
  | undefined

structure CustomInformation (n : ℕ) where
  ifaceIp : Fin n → UInt32
  asNumber : UInt16
  assets : List AddressPrefix
  neighborIp : Fin n → UInt32
  neighborhood : Fin n → InteractionType

def maxRTO : UInt8 := 30
def maxCRT : UInt8 := 31
def maxHT : UInt8 := 240

def headerLength : ℕ := 14 + 20 + 19

namespace SimulatedMachine

variable {n : ℕ}

/-- `start_interface` is 0 for an own asset, whatever interface 0 is. The timers are not set before a session
starts. -/
def initializeMachine (info : CustomInformation n) (timer : Fin n → UInt8) : SimulatedMachine n where
  ifaceIp := info.ifaceIp
  ifsmArray i :=
    { currentState := .idle, rto := timer i, ht := timer i, crt := timer i, synSent := false, synAckSent := false,
      ifaceIndex := i, neighborIp := info.neighborIp i, neighborhood := info.neighborhood i }
  asNumber := info.asNumber
  assets := info.assets
  paths := info.assets.map fun asset =>
    { priority := 0, ases := [info.asNumber], startInterface := 0, destination := asset, advertiser := .myAsset }

/-! Headers. -/

def makeEthernethdr : List UInt8 := List.replicate 12 255 ++ [8, 0]

def makeIphdr (srcIp dstIp : UInt32) (ipLength : UInt16) : List UInt8 :=
  [0x45, 0] ++ be16 ipLength ++ [0, 0, 0, 0, 0xFF, 0, 0, 0] ++ be32 srcIp ++ be32 dstIp

def makeTcphdr (flags : UInt8) : List UInt8 :=
  List.replicate 12 0 ++ [0x50, flags % 64] ++ List.replicate 6 0

def makeBgphdr (bgpLength : UInt16) (type : UInt8) : List UInt8 :=
  List.replicate 16 0xFF ++ be16 bgpLength ++ [type]

def packet (bytes : List UInt8) : Buffer := ⟨bytes.length, store (fun _ => 0) 0 bytes⟩

def tcpSyn : UInt8 := 0x2
def tcpAck : UInt8 := 0x10

def detectTypeOfPacket (data : ℕ → UInt8) : MessageType :=
  if (List.range 16).all fun k => data (14 + 20 + k) == 0xFF then
    match data (14 + 20 + 18) with
    | 1 => .bgpOpen
    | 2 => .update
    | 4 => .keepalive
    | _ => .invalid
  else if data 47 % 64 = tcpAck then .ack
  else if data 47 % 64 = tcpSyn then .syn
  else if data 47 % 64 = tcpAck + tcpSyn then .synAck
  else .invalid

/-! The routing table. -/

def emptyTrashPath (m : SimulatedMachine n) (target : AddressPrefix) : SimulatedMachine n :=
  { m with paths := m.paths.filter fun item => ¬(item.destination.ip = target.ip ∧ item.destination.mask ≠ 0) }

def detectLoop (m : SimulatedMachine n) (path : HopByHopPath) : Bool :=
  path.ases.any fun item => item == m.asNumber

/-- The loop of `detect_thief`; `none` where it takes the last element of an empty vector. -/
def thiefAmong (path : HopByHopPath) : List HopByHopPath → Option Bool
  | [] => some false
  | item :: items =>
    if item.destination.ip = path.destination.ip ∧ item.destination.mask = path.destination.mask then do
      let last ← item.ases.getLast?
      let last' ← path.ases.getLast?
      if last ≠ last' then some true else thiefAmong path items
    else thiefAmong path items

def detectThief (m : SimulatedMachine n) (path : HopByHopPath) : Option Bool := thiefAmong path m.paths

def equalPlaces (xs ys : List UInt16) : ℕ := (xs.zip ys).countP fun p => p.1 == p.2

def isInArchive (m : SimulatedMachine n) (internPath : HopByHopPath) : Bool :=
  m.paths.any fun path => internPath.destination.ip == path.destination.ip &&
    internPath.destination.mask == path.destination.mask && internPath.ases.length == path.ases.length &&
    equalPlaces internPath.ases path.ases == internPath.ases.length

def getIfPriority : InteractionType → ℤ
  | .customer => 100
  | .peer => 90
  | .provider => 80
  | .myAsset => -1

def settingPriority (m : SimulatedMachine n) (ifaceIndex priority : ℤ) : SimulatedMachine n :=
  { m with
    paths := m.paths.map fun item => if item.startInterface = ifaceIndex then { item with priority } else item }

def getAdmissibleRoutes (m : SimulatedMachine n) (rshp : InteractionType) (ifaceIndex : ℤ) : List HopByHopPath :=
  m.paths.filter fun path => path.startInterface == ifaceIndex ||
    match rshp with
    | .peer => path.advertiser != .peer
    | .customer => true
    | .provider => path.advertiser != .provider
    | .myAsset => false

/-! Sending. -/

def ifacesIn (m : SimulatedMachine n) (state : BgpState) : List (Fin n) :=
  (List.finRange n).filter fun i => (m.ifsmArray i).currentState = state

def withdrawMessage (m : SimulatedMachine n) (target : AddressPrefix) (i : Fin n) : Buffer :=
  packet (makeEthernethdr ++ makeIphdr (m.ifaceIp i) (m.ifsmArray i).neighborIp (20 + 19 + 9) ++
    makeBgphdr (19 + 9) 2 ++ (be16 5 ++ be32 target.ip ++ [target.mask] ++ be16 0))

def withdraw (m : SimulatedMachine n) (target : AddressPrefix) : SimulatedMachine n × List (Output n) :=
  (m.emptyTrashPath target, (m.ifacesIn .established).map fun i => .sent i (m.withdrawMessage target i))

def highjackMessage (m : SimulatedMachine n) (target : AddressPrefix) (i : Fin n) : Buffer :=
  packet (makeEthernethdr ++ makeIphdr (m.ifaceIp i) (m.ifsmArray i).neighborIp (20 + 19 + 13) ++
    makeBgphdr (19 + 13) 2 ++ (be16 0 ++ be16 1 ++ be16 1 ++ be16 m.asNumber ++ be32 target.ip ++ [target.mask]))

def highjack (m : SimulatedMachine n) (target : AddressPrefix) : List (Output n) :=
  (m.ifacesIn .established).map fun i => .sent i (m.highjackMessage target i)

def toInt (x : ℤ) : ℤ := x.bmod 0x100000000

def intSum (x : ℤ) : Option ℤ := if -0x80000000 ≤ x ∧ x < 0x80000000 then some x else none

def newBuffer (length : ℤ) (memory : ℕ → UInt8) : Option Buffer :=
  if 0 ≤ length then some ⟨length.toNat, memory⟩ else none

def writePath (data : Buffer) (offset : ℤ) (item : HopByHopPath) : Option (Buffer × ℤ) := do
  let countOfHops := UInt16.ofNat item.ases.length
  let data ← data.memcpy (headerLength + 4 + offset) (be16 countOfHops)
  let data ← (List.range countOfHops.toNat).foldlM (fun data (j : ℕ) =>
    data.memcpy (headerLength + 4 + offset + (j + 1) * 2) (be16 (item.ases.getD j 0))) data
  pure (data, toInt (offset + item.ases.length * 2 + 2))

def writeDestination (pal : ℤ) (data : Buffer) (entry : HopByHopPath × ℕ) : Option Buffer := do
  let data ← data.memcpy (headerLength + 4 + pal + entry.2 * 5) (be32 entry.1.destination.ip)
  data.memcpy (headerLength + pal + entry.2 * 5 + 8) [entry.1.destination.mask]

/-- The UPDATE frame that `advertise` builds for one interface; `none` where its `int` sums overflow or it writes
outside the buffer it has allocated. -/
def updateMessage (m : SimulatedMachine n) (ifIdx : Fin n) (memory : ℕ → UInt8) (validPaths : List HopByHopPath) :
    Option Buffer := do
  let pal := validPaths.foldl (fun pal eachPath => toInt (pal + (2 + eachPath.ases.length * 2))) 0
  let nlri := toInt (validPaths.length * 5)
  let dataLength ← intSum (2 + 2 + pal + nlri)
  let packetLength ← intSum (headerLength + dataLength)
  let data ← newBuffer packetLength memory
  let data ← data.memcpy 0 makeEthernethdr
  let data ← data.memcpy 14
    (makeIphdr (m.ifaceIp ifIdx) (m.ifsmArray ifIdx).neighborIp (UInt16.ofInt (20 + 19 + dataLength)))
  let data ← data.memcpy (14 + 20) (makeBgphdr (UInt16.ofInt (19 + dataLength)) 2)
  let data ← data.memcpy headerLength (be16 0)
  let data ← data.memcpy (headerLength + 2) (be16 (UInt16.ofNat validPaths.length))
  let (data, _) ← validPaths.foldlM (fun (acc : Buffer × ℤ) item => writePath acc.1 acc.2 item) (data, 0)
  validPaths.zipIdx.foldlM (writeDestination pal) data

def advertise (m : SimulatedMachine n) (memory : Fin n → ℕ → UInt8) : Option (List (Output n)) :=
  (m.ifacesIn .established).mapM fun i =>
    (m.updateMessage i (memory i)
      (m.getAdmissibleRoutes (m.ifsmArray i).neighborhood (m.ifsmArray i).ifaceIndex)).map (.sent i)

def handleTcpHandshake (m : SimulatedMachine n) (type : MessageType) (index : Fin n) : List (Output n) :=
  let send flags := [.sent index (packet (makeEthernethdr ++
    makeIphdr (m.ifaceIp index) (m.ifsmArray index).neighborIp (20 + 20) ++ makeTcphdr flags))]
  match type with
  | .syn => send tcpSyn
  | .ack => send tcpAck
  | .synAck => send (tcpAck + tcpSyn)
  | _ => []

def sendBgpOpen (m : SimulatedMachine n) (i : Fin n) : Output n :=
  .sent i (packet (makeEthernethdr ++ makeIphdr (m.ifaceIp i) (m.ifsmArray i).neighborIp (20 + 19 + 10) ++
    makeBgphdr (19 + 10) 1 ++ ([4] ++ be16 m.asNumber ++ be16 0 ++ be32 (m.ifaceIp i) ++ [0])))

def sendBgpKeepalive (m : SimulatedMachine n) (i : Fin n) : Output n :=
  .sent i (packet (makeEthernethdr ++ makeIphdr (m.ifaceIp i) (m.ifsmArray i).neighborIp (20 + 19) ++
    makeBgphdr 19 4))

/-! Receiving. -/

def withdrawnPrefixes (data : ℕ → UInt8) (doff number : ℕ) : List AddressPrefix :=
  (List.range number).map fun i => ⟨get32 data (doff + i * 5), data (doff + (i + 1) * 5 - 1)⟩

/-- Each `make_iphdr` overwrites the whole header of the frame sent before it. -/
def handleWithdrawnRoutes (m : SimulatedMachine n) (frame : Buffer) (ifaceIndex : Fin n) (doff number : ℕ) :
    SimulatedMachine n × List (Output n) :=
  let m := (withdrawnPrefixes frame.data doff number).foldl emptyTrashPath m
  let packetLen := get16 frame.data (14 + 2)
  (m, ((List.finRange n).filter (· ≠ ifaceIndex)).map fun j =>
    .sent j { frame with
      data := store frame.data 14 (makeIphdr (m.ifaceIp j) (m.ifsmArray j).neighborIp packetLen) })

def readHops (data : ℕ → UInt8) (off : ℕ) : List UInt16 :=
  (List.range (get16 data off).toNat).map fun j => get16 data (off + (j + 1) * 2)

def readPaths (data : ℕ → UInt8) : ℕ → ℕ → List (List UInt16) × ℕ
  | 0, off => ([], off)
  | number + 1, off =>
    let rest := readPaths data number (off + (2 + (get16 data off).toNat * 2))
    (readHops data off :: rest.1, rest.2)

def advertisedPaths (m : SimulatedMachine n) (data : ℕ → UInt8) (ifaceIndex : Fin n) (doff number : ℕ) :
    List HopByHopPath :=
  let hops := readPaths data number doff
  hops.1.zipIdx.map fun entry =>
    { priority := getIfPriority (m.ifsmArray ifaceIndex).neighborhood
      ases := entry.1
      startInterface := ifaceIndex.val
      destination := ⟨get32 data (hops.2 + entry.2 * 5), data (hops.2 + (entry.2 + 1) * 5 - 1)⟩
      advertiser := (m.ifsmArray ifaceIndex).neighborhood }

def acceptPath (acc : SimulatedMachine n × List (Output n)) (path : HopByHopPath) :
    SimulatedMachine n × List (Output n) :=
  if acc.1.detectLoop path then acc
  else
    match acc.1.detectThief path with
    | none => (acc.1, acc.2 ++ [.undefined])
    | some true => (acc.1, acc.2 ++ [.hijacked path.destination])
    | some false =>
      let path := { path with ases := acc.1.asNumber :: path.ases }
      if acc.1.isInArchive path then acc
      else ({ acc.1 with paths := acc.1.paths ++ [path] }, acc.2)

def handleAdvertisement (m : SimulatedMachine n) (data : ℕ → UInt8) (ifaceIndex : Fin n) (doff number : ℕ) :
    SimulatedMachine n × List (Output n) :=
  (m.advertisedPaths data ifaceIndex doff number).foldl acceptPath (m, [])

/-- Rewriting the IP header of the withdrawal changes no byte that is read afterwards. -/
def handleBgpUpdate (m : SimulatedMachine n) (frame : Buffer) (ifaceIndex : Fin n) :
    SimulatedMachine n × List (Output n) :=
  let wrl := (get16 frame.data headerLength).toNat
  let (m, out) :=
    if wrl ≠ 0 then m.handleWithdrawnRoutes frame ifaceIndex (headerLength + 2) (wrl / 5) else (m, [])
  let tpal := (get16 frame.data (headerLength + 2 + wrl)).toNat
  if tpal ≠ 0 then
    let (m, out') := m.handleAdvertisement frame.data ifaceIndex (headerLength + 4 + wrl) tpal
    (m, out ++ out')
  else (m, out)

/-! Sessions. -/

def setIfsm (m : SimulatedMachine n) (i : Fin n) (s : IfaceState) : SimulatedMachine n :=
  { m with ifsmArray := put m.ifsmArray i s }

def enterOpenSent (m : SimulatedMachine n) (i : Fin n) : SimulatedMachine n :=
  m.setIfsm i { m.ifsmArray i with
    rto := maxRTO, crt := maxCRT, ht := maxHT, synSent := false, synAckSent := false, currentState := .oSent }

def processFrame (m : SimulatedMachine n) (frame : Buffer) (i : Fin n) : SimulatedMachine n × List (Output n) :=
  let ifsm := m.ifsmArray i
  if ifsm.currentState = .idle then (m, [])
  else
    match detectTypeOfPacket frame.data with
    | .syn =>
      if ifsm.currentState = .connect ∨ ifsm.currentState = .activeState then
        (m.setIfsm i { ifsm with synAckSent := true, rto := maxRTO }, m.handleTcpHandshake .synAck i)
      else (m, [])
    | .ack =>
      if (ifsm.currentState = .connect ∨ ifsm.currentState = .activeState) ∧ ifsm.synAckSent then
        (m.enterOpenSent i, [.stateChanged ifsm.currentState .oSent i, m.sendBgpOpen i])
      else (m, [])
    | .synAck =>
      if (ifsm.currentState = .connect ∨ ifsm.currentState = .activeState) ∧ ifsm.synSent then
        (m.enterOpenSent i,
          m.handleTcpHandshake .ack i ++ [.stateChanged ifsm.currentState .oSent i, m.sendBgpOpen i])
      else (m, [])
    | .keepalive =>
      if ifsm.currentState = .oConfirm ∨ ifsm.currentState = .established then
        (m.setIfsm i { ifsm with currentState := .established, ht := maxHT },
          if ifsm.currentState = .oConfirm then [.stateChanged .oConfirm .established i] else [])
      else (m, [])
    | .update =>
      if ifsm.currentState = .established then
        let (m, out) := m.handleBgpUpdate frame i
        (m.setIfsm i { m.ifsmArray i with ht := maxHT }, out)
      else (m, [])
    | .bgpOpen =>
      if ifsm.currentState = .oSent then
        (m.setIfsm i { ifsm with currentState := .oConfirm, ht := maxHT },
          [m.sendBgpKeepalive i, .stateChanged ifsm.currentState .oConfirm i])
      else (m, [])
    | .invalid => (m, [])

def startConnection (m : SimulatedMachine n) (i : Fin n) : SimulatedMachine n × List (Output n) :=
  if (m.ifsmArray i).currentState = .idle then
    (m.setIfsm i { m.ifsmArray i with currentState := .connect, rto := maxRTO, crt := maxCRT, synSent := true },
      m.handleTcpHandshake .syn i ++ [.stateChanged .idle .connect i])
  else (m, [])

/-! Time. -/

def decreased (timer : UInt8) : UInt8 := if timer > 0 then timer - 1 else timer

def tickHold (m : SimulatedMachine n) (i : Fin n) : SimulatedMachine n × List (Output n) :=
  let itr := m.ifsmArray i
  if itr.currentState = .established ∨ itr.currentState = .oConfirm ∨ itr.currentState = .oSent then
    let ht := decreased itr.ht
    if ht = 0 then
      (m.setIfsm i
        { itr with crt := maxCRT, rto := maxRTO, ht := maxHT, currentState := .connect, synSent := true },
        [.stateChanged itr.currentState .idle itr.ifaceIndex, .stateChanged .idle .connect itr.ifaceIndex] ++
          m.handleTcpHandshake .syn i)
    else (m.setIfsm i { itr with ht }, [])
  else (m, [])

/-- The last component tells whether the loop goes on with the next interface. -/
def tickConnect (m : SimulatedMachine n) (i : Fin n) : SimulatedMachine n × List (Output n) × Bool :=
  let itr := m.ifsmArray i
  if itr.currentState = .connect then
    let rto := decreased itr.rto
    if rto = 0 then
      (m.setIfsm i { itr with rto, crt := maxCRT, currentState := .activeState },
        [.stateChanged .connect .activeState itr.ifaceIndex], true)
    else
      let crt := decreased itr.crt
      if crt = 0 then
        (m.setIfsm i { itr with crt := maxCRT, rto := maxRTO, synSent := true },
          [.stateChanged .connect .idle itr.ifaceIndex, .stateChanged .idle .connect itr.ifaceIndex] ++
            m.handleTcpHandshake .syn i, false)
      else (m.setIfsm i { itr with rto, crt }, [], false)
  else (m, [], false)

def tickActive (m : SimulatedMachine n) (i : Fin n) : SimulatedMachine n × List (Output n) :=
  let itr := m.ifsmArray i
  if itr.currentState = .activeState then
    let crt := decreased itr.crt
    if crt = 0 then
      (m.setIfsm i { itr with crt := maxCRT, rto := maxRTO, currentState := .connect, synSent := true },
        [.stateChanged .activeState .connect itr.ifaceIndex] ++ m.handleTcpHandshake .syn i)
    else (m.setIfsm i { itr with crt }, [])
  else (m, [])

def tickInterface (m : SimulatedMachine n) (i : Fin n) : SimulatedMachine n × List (Output n) :=
  let (m, out₁) := m.tickHold i
  let (m, out₂, goesOn) := m.tickConnect i
  if goesOn then (m, out₁ ++ out₂)
  else
    let (m, out₃) := m.tickActive i
    (m, out₁ ++ out₂ ++ out₃)

def manageTime (m : SimulatedMachine n) : SimulatedMachine n × List (Output n) :=
  (List.finRange n).foldl (fun (acc : SimulatedMachine n × List (Output n)) i =>
    ((acc.1.tickInterface i).1, acc.2 ++ (acc.1.tickInterface i).2)) (m, [])

end SimulatedMachine

end CourseArchive.Bgp
