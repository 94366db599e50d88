import CourseArchive.Lib.StdSort

/-! The DHCP server of `PA1/user/server_machine.cpp`: its pool of addresses, its offers and its leases. -/

namespace CourseArchive.Dhcp

open Lib

structure Ip where
  byte0 : UInt8
  byte1 : UInt8
  byte2 : UInt8
  byte3 : UInt8
  deriving DecidableEq

abbrev Mac := Vector UInt8 6

structure EthernetData where
  mac : Mac
  ip : Ip
  time : UInt32
  deriving DecidableEq

structure EthernetFrame where
  dataType : UInt8
  data : EthernetData

inductive DhcpDataType
  | offer | ack | timeout | responseExtend
  deriving DecidableEq

/-- A frame that the server sends. A timeout carries no time and goes out on every interface. -/
structure Sent where
  dataType : DhcpDataType
  mac : Mac
  ip : Ip
  time : Option UInt32

structure ServerMachine where
  ipPool : List Ip
  offeredIPs : List EthernetData
  givenIPs : List EthernetData
  deriving DecidableEq

namespace ServerMachine

def poolLess (a b : Ip) : Bool :=
  if a.byte0 < b.byte0 then true
  else if a.byte1 < b.byte1 then true
  else if a.byte2 < b.byte2 then true
  else a.byte3 < b.byte3

def timeLess (a b : EthernetData) : Bool := a.time < b.time

def findIpPool (s : ServerMachine) (target : Ip) : Option ℕ := s.ipPool.findIdx? (· == target)

def poolAddress (ip : Ip) (shift i : ℕ) : Ip :=
  { ip with byte3 := UInt8.ofNat ((ip.byte3.toNat >>> shift) <<< shift + i) }

def addAddress (s : ServerMachine) (newIp : Ip) : ServerMachine :=
  if s.findIpPool newIp = none then { s with ipPool := s.ipPool ++ [newIp] } else s

def poolTurns (shift : ℕ) : ℕ := if shift = 31 then 0 else 2 ^ shift

/-- `none` where the shift is not one of an `int`. -/
def addPool (s : ServerMachine) (ip : Ip) (mask : UInt8) : Option ServerMachine :=
  if mask = 0 ∨ 32 < mask then none
  else
    let shift := 32 - mask.toNat
    some ((List.range (poolTurns shift)).foldl (fun s i => s.addAddress (poolAddress ip shift i)) s)

def tDhcpTimeout (announce : EthernetData) : Sent := ⟨.timeout, announce.mac, announce.ip, none⟩

/-- The time left has no sign, so that `time <= 0` only holds at zero. -/
def addTime (S : StdSort) (s : ServerMachine) (time : ℤ) : ServerMachine × List Sent :=
  let given := S.sort timeLess (s.givenIPs.map fun given => { given with time := given.time - UInt32.ofInt time })
  let expired := given.takeWhile fun given => given.time ≤ 0
  ({ s with ipPool := s.ipPool ++ expired.map (·.ip), givenIPs := given.dropWhile fun given => given.time ≤ 0 },
    expired.map tDhcpTimeout)

def printPool (S : StdSort) (s : ServerMachine) : ServerMachine := { s with ipPool := S.sort poolLess s.ipPool }

def timeOrTen (time : UInt32) : UInt32 := if time = 0 then 10 else time

def rDhcpDiscover (S : StdSort) (s : ServerMachine) (frame : EthernetData) : ServerMachine × List Sent :=
  match S.sort poolLess s.ipPool with
  | [] => (s, [])
  | ip :: rest =>
    let instance_ : EthernetData := ⟨frame.mac, ip, timeOrTen frame.time⟩
    ({ s with ipPool := rest, offeredIPs := s.offeredIPs ++ [instance_] },
      [⟨.offer, instance_.mac, instance_.ip, some instance_.time⟩])

def rDhcpRequest (s : ServerMachine) (frame : EthernetData) : ServerMachine × List Sent :=
  match s.offeredIPs.find? (·.ip == frame.ip) with
  | none => (s, [])
  | some _ =>
    let inst : EthernetData := ⟨frame.mac, frame.ip, timeOrTen frame.time⟩
    ({ s with offeredIPs := s.offeredIPs.eraseP (·.ip == frame.ip), givenIPs := s.givenIPs ++ [inst] },
      [⟨.ack, inst.mac, inst.ip, some inst.time⟩])

def rDhcpAck (s : ServerMachine) (frame : EthernetData) : ServerMachine :=
  match s.offeredIPs.find? (·.mac == frame.mac) with
  | none => s
  | some offered =>
    { s with ipPool := s.ipPool ++ [offered.ip], offeredIPs := s.offeredIPs.eraseP (·.mac == frame.mac) }

def rDhcpRelease (s : ServerMachine) (frame : EthernetData) : ServerMachine :=
  match s.givenIPs.find? (·.ip == frame.ip) with
  | none => s
  | some _ => { s with ipPool := s.ipPool ++ [frame.ip], givenIPs := s.givenIPs.eraseP (·.ip == frame.ip) }

/-- The address asked for goes through the pool, and the first one of the sorted pool is assigned. -/
def rDhcpExtendRequest (S : StdSort) (s : ServerMachine) (frame : EthernetData) : ServerMachine × List Sent :=
  match s.givenIPs.find? (·.ip == frame.ip) with
  | none => (s, [])
  | some given =>
    let anotherTime := given.time + timeOrTen frame.time
    match S.sort poolLess (s.ipPool ++ [frame.ip]) with
    | [] => (s, [])
    | ip :: rest =>
      let inst : EthernetData := ⟨frame.mac, ip, anotherTime⟩
      ({ s with ipPool := rest, givenIPs := s.givenIPs.eraseP (·.ip == frame.ip) ++ [inst] },
        [⟨.responseExtend, inst.mac, inst.ip, some inst.time⟩])

def processFrame (S : StdSort) (s : ServerMachine) (frame : EthernetFrame) : ServerMachine × List Sent :=
  match frame.dataType with
  | 0 => s.rDhcpDiscover S frame.data
  | 2 => s.rDhcpRequest frame.data
  | 3 => (s.rDhcpAck frame.data, [])
  | 4 => (s.rDhcpRelease frame.data, [])
  | 6 => s.rDhcpExtendRequest S frame.data
  | _ => (s, [])

inductive Move
  | addPool (ip : Ip) (mask : UInt8)
  | addTime (time : ℤ)
  | printPool
  | received (frame : EthernetFrame)

def step (S : StdSort) (s : ServerMachine) : Move → Option ServerMachine
  | .addPool ip mask => s.addPool ip mask
  | .addTime time => some (s.addTime S time).1
  | .printPool => some (s.printPool S)
  | .received frame => some (s.processFrame S frame).1

def initial : ServerMachine := ⟨[], [], []⟩

end ServerMachine

end CourseArchive.Dhcp
