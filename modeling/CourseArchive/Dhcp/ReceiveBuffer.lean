import CourseArchive.Dhcp.Server
import CourseArchive.Lib.Buffer

/-! The DHCP server on the buffer into which `ClientFramework::simulationEventLoop` receives every frame. -/

namespace CourseArchive.Dhcp

open Lib

/-- A pointer of `ip_pool`: to an address of the server's own, or to where a frame in the buffer has its
address. -/
inductive PoolEntry
  | owned (ip : Ip)
  | frameIp
  deriving DecidableEq

structure BufferedServer where
  ipPool : List PoolEntry
  offeredIPs : List EthernetData
  givenIPs : List EthernetData
  buffer : ℕ → UInt8

def frameBufferSize : ℕ := 1524

def rawFrameReceivedNotificationType : UInt32 := 4

/-! The frame stands behind the interface's index, from the buffer's fifth byte on. -/

def frameIp (buffer : ℕ → UInt8) : Ip := ⟨buffer 25, buffer 26, buffer 27, buffer 28⟩

def frameIn (buffer : ℕ → UInt8) : EthernetFrame :=
  ⟨buffer 18, Vector.ofFn fun i => buffer (19 + i), frameIp buffer, get32 buffer 29⟩

def PoolEntry.deref (buffer : ℕ → UInt8) : PoolEntry → Ip
  | owned ip => ip
  | frameIp => Dhcp.frameIp buffer

namespace BufferedServer

open ServerMachine

def entryLess (s : BufferedServer) (a b : PoolEntry) : Bool := poolLess (a.deref s.buffer) (b.deref s.buffer)

def findIpPool (s : BufferedServer) (target : Ip) : Option ℕ := s.ipPool.findIdx? (·.deref s.buffer == target)

def addAddress (s : BufferedServer) (newIp : Ip) : BufferedServer :=
  if s.findIpPool newIp = none then { s with ipPool := s.ipPool ++ [.owned newIp] } else s

def addPool (s : BufferedServer) (ip : Ip) (mask : UInt8) : Option BufferedServer :=
  if mask = 0 ∨ 32 < mask then none
  else
    let shift := 32 - mask.toNat
    some ((List.range (poolTurns shift)).foldl (fun s i => s.addAddress (poolAddress ip shift i)) s)

def addTime (S : StdSort) (s : BufferedServer) (time : ℤ) : BufferedServer × List Sent :=
  let given := S.sort timeLess (s.givenIPs.map fun given => { given with time := given.time - UInt32.ofInt time })
  let expired := given.takeWhile fun given => given.time ≤ 0
  ({ s with
      ipPool := s.ipPool ++ expired.map fun given => .owned given.ip
      givenIPs := given.dropWhile fun given => given.time ≤ 0 },
    expired.map tDhcpTimeout)

def printPool (S : StdSort) (s : BufferedServer) : BufferedServer :=
  { s with ipPool := S.sort s.entryLess s.ipPool }

def ntohlTime (s : BufferedServer) : BufferedServer :=
  { s with buffer := store s.buffer 29 (be32 (get32 s.buffer 29)).reverse }

def rDhcpDiscover (S : StdSort) (s : BufferedServer) (frame : EthernetData) : BufferedServer × List Sent :=
  if s.ipPool = [] then (s, [])
  else
    let s := s.ntohlTime
    match S.sort s.entryLess s.ipPool with
    | [] => (s, [])
    | entry :: rest =>
      let instance_ : EthernetData := ⟨frame.mac, entry.deref s.buffer, timeOrTen frame.time⟩
      ({ s with ipPool := rest, offeredIPs := s.offeredIPs ++ [instance_] },
        [⟨.offer, instance_.mac, instance_.ip, some instance_.time⟩])

def rDhcpRequest (s : BufferedServer) (frame : EthernetData) : BufferedServer × List Sent :=
  let s := s.ntohlTime
  match s.offeredIPs.find? (·.ip == frame.ip) with
  | none => (s, [])
  | some _ =>
    let inst : EthernetData := ⟨frame.mac, frame.ip, timeOrTen frame.time⟩
    ({ s with offeredIPs := s.offeredIPs.eraseP (·.ip == frame.ip), givenIPs := s.givenIPs ++ [inst] },
      [⟨.ack, inst.mac, inst.ip, some inst.time⟩])

def rDhcpAck (s : BufferedServer) (frame : EthernetData) : BufferedServer :=
  let s := s.ntohlTime
  match s.offeredIPs.find? (·.mac == frame.mac) with
  | none => s
  | some offered =>
    { s with ipPool := s.ipPool ++ [.owned offered.ip], offeredIPs := s.offeredIPs.eraseP (·.mac == frame.mac) }

/-- The pool gets the address where it stands in the frame. -/
def rDhcpRelease (s : BufferedServer) (frame : EthernetData) : BufferedServer :=
  let s := s.ntohlTime
  match s.givenIPs.find? (·.ip == frame.ip) with
  | none => s
  | some _ => { s with ipPool := s.ipPool ++ [.frameIp], givenIPs := s.givenIPs.eraseP (·.ip == frame.ip) }

def rDhcpExtendRequest (S : StdSort) (s : BufferedServer) (frame : EthernetData) : BufferedServer × List Sent :=
  let s := s.ntohlTime
  match s.givenIPs.find? (·.ip == frame.ip) with
  | none => (s, [])
  | some given =>
    let anotherTime := given.time + timeOrTen frame.time
    match S.sort s.entryLess (s.ipPool ++ [.frameIp]) with
    | [] => (s, [])
    | entry :: rest =>
      let inst : EthernetData := ⟨frame.mac, entry.deref s.buffer, anotherTime⟩
      ({ s with ipPool := rest, givenIPs := s.givenIPs.eraseP (·.ip == frame.ip) ++ [inst] },
        [⟨.responseExtend, inst.mac, inst.ip, some inst.time⟩])

def processFrame (S : StdSort) (s : BufferedServer) : BufferedServer × List Sent :=
  let frame := frameIn s.buffer
  match frame.dataType with
  | 0 => s.rDhcpDiscover S frame.data
  | 2 => s.rDhcpRequest frame.data
  | 3 => (s.rDhcpAck frame.data, [])
  | 4 => (s.rDhcpRelease frame.data, [])
  | 6 => s.rDhcpExtendRequest S frame.data
  | _ => (s, [])

/-- The notification is received first, and the interface's index and the frame over it. -/
def receive (s : BufferedServer) (interfaceIndex : UInt32) (frame : List UInt8) : BufferedServer :=
  let notification := be32 rawFrameReceivedNotificationType ++ be16 (UInt16.ofNat (4 + frame.length))
  { s with buffer := store (store s.buffer 0 notification) 0 (be32 interfaceIndex ++ frame) }

inductive Move
  | addPool (ip : Ip) (mask : UInt8)
  | addTime (time : ℤ)
  | printPool
  | received (interfaceIndex : UInt32) (frame : List UInt8)

def step (S : StdSort) (count : ℕ) (s : BufferedServer) : Move → Option BufferedServer
  | .addPool ip mask => s.addPool ip mask
  | .addTime time => some (s.addTime S time).1
  | .printPool => some (s.printPool S)
  | .received interfaceIndex frame =>
    if 4 + frame.length ≤ frameBufferSize ∧ interfaceIndex.toNat < count then
      some ((s.receive interfaceIndex frame).processFrame S).1
    else none

def initial (buffer : ℕ → UInt8) : BufferedServer := ⟨[], [], [], buffer⟩

end BufferedServer

end CourseArchive.Dhcp
