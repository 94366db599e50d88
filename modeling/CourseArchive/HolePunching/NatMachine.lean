import CourseArchive.HolePunching.Packet

/-! The NAT of `PA2/user/nat_machine.cpp`. -/

namespace CourseArchive.HolePunching

open Lib

structure Endpoint where
  ip : UInt32
  port : UInt16
  deriving DecidableEq

structure Metadata where
  localEnd : Endpoint
  publicEnd : Endpoint
  deriving DecidableEq

/-- `struct Session`; what the source calls its local endpoint is the public endpoint of a mapping. -/
structure Session where
  localEnd : Endpoint
  outerEnd : Endpoint
  deriving DecidableEq

structure Range where
  begin_ : UInt16
  end_ : UInt16
  deriving DecidableEq

structure NatMachine (n : ℕ) where
  iface : Fin (n + 1) → Interface
  blockedRange : List Range
  sessions : List Session
  table : List Metadata
  basePort : UInt16
  counter : UInt32

def source (data : ℕ → UInt8) : Endpoint := ⟨srcIp data, srcPort data⟩

def destination (data : ℕ → UInt8) : Endpoint := ⟨dstIp data, dstPort data⟩

def setSource (data : ℕ → UInt8) (e : Endpoint) : ℕ → UInt8 := store (store data 26 (be32 e.ip)) 34 (be16 e.port)

def setDestination (data : ℕ → UInt8) (e : Endpoint) : ℕ → UInt8 :=
  store (store data 30 (be32 e.ip)) 36 (be16 e.port)

namespace NatMachine

variable {n : ℕ}

def initializeMachine (iface : Fin (n + 1) → Interface) : NatMachine n where
  iface := iface
  blockedRange := []
  sessions := []
  table := []
  basePort := 2000
  counter := 0

def newAddress (m : NatMachine n) : Endpoint where
  ip := (m.iface 0).ip + m.counter / 3 + 1
  port := UInt16.ofNat (m.basePort.toNat + m.counter.toNat % 3 * 100)

def calculateNewAddress (m : NatMachine n) : Endpoint × NatMachine n :=
  (m.newAddress, { m with counter := m.counter + 1 })

def validInRange (m : NatMachine n) (port : UInt16) : Bool :=
  !m.blockedRange.any fun r => port ≤ r.end_ && r.begin_ ≤ port

def findInLocalTable (m : NatMachine n) (e : Endpoint) : Option Metadata := m.table.find? fun t => t.localEnd = e

def findInOuterTable (m : NatMachine n) (e : Endpoint) : Option Metadata := m.table.find? fun t => t.publicEnd = e

def findInSession (m : NatMachine n) (localEnd outerEnd : Endpoint) : Option Session :=
  m.sessions.find? fun s => s = ⟨localEnd, outerEnd⟩

def dropMessage : List UInt8 := [100, 114, 111, 112]

def dropPacket (m : NatMachine n) (srcPort : UInt16) (receiver : Endpoint) : Sent n :=
  let ifidx := findGateway m.iface receiver.ip
  ⟨packet (fillHeader (m.iface ifidx).mac .drop (getDataLength .drop).toNat (m.iface 0).ip receiver.ip srcPort
    receiver.port 0 ++
    dropMessage), ifidx⟩

def processInbound (m : NatMachine n) (frame : Buffer) : NatMachine n × List (Sent n) :=
  match m.findInOuterTable (destination frame.data) with
  | none => (m, [])
  | some client =>
    match m.findInSession (destination frame.data) (source frame.data) with
    | none => (m, [m.dropPacket 4321 (source frame.data)])
    | some _ =>
      (m, [⟨{ frame with data := consumeTtl (setDestination frame.data client.localEnd) },
        findGateway m.iface client.localEnd.ip⟩])

def mapping (m : NatMachine n) (e : Endpoint) : Metadata × NatMachine n :=
  match m.findInLocalTable e with
  | some client => (client, m)
  | none =>
    let (newAddress, m) := m.calculateNewAddress
    let newMeta : Metadata := ⟨e, newAddress⟩
    (newMeta, { m with table := m.table ++ [newMeta] })

def processOutbound (m : NatMachine n) (frame : Buffer) : NatMachine n × List (Sent n) :=
  if !m.validInRange (srcPort frame.data) then (m, [m.dropPacket 1234 (source frame.data)])
  else
    let (client, m) := m.mapping (source frame.data)
    ({ m with sessions := m.sessions ++ [⟨client.publicEnd, destination frame.data⟩] },
      [⟨{ frame with data := consumeTtl (setSource frame.data client.publicEnd) },
        findGateway m.iface (dstIp frame.data)⟩])

def processFrame (m : NatMachine n) (frame : Buffer) (ifaceIndex : Fin (n + 1)) : NatMachine n × List (Sent n) :=
  if ifaceIndex = 0 then m.processInbound frame else m.processOutbound frame

def blockRange (m : NatMachine n) (min max : UInt16) : NatMachine n :=
  { m with blockedRange := m.blockedRange ++ [⟨min, max⟩] }

/-- `reset_setting`, with what it reads into `base_port`. The counter goes on. -/
def resetSetting (m : NatMachine n) (basePort : UInt16) : NatMachine n :=
  { m with blockedRange := [], table := [], sessions := [], basePort := basePort }

inductive Move (n : ℕ)
  | received (frame : Buffer) (ifaceIndex : Fin (n + 1))
  | blockRange (min max : UInt16)
  | reset (basePort : UInt16)

def Move.isReset : Move n → Bool
  | .reset _ => true
  | _ => false

def step (m : NatMachine n) : Move n → NatMachine n
  | .received frame ifaceIndex => (m.processFrame frame ifaceIndex).1
  | .blockRange min max => m.blockRange min max
  | .reset basePort => m.resetSetting basePort

def run (m : NatMachine n) (moves : List (Move n)) : NatMachine n := moves.foldl step m

def mappingsCreated (m : NatMachine n) : List (Move n) → ℕ
  | [] => 0
  | move :: moves => ((m.step move).table.length - m.table.length) + mappingsCreated (m.step move) moves

end NatMachine

end CourseArchive.HolePunching
