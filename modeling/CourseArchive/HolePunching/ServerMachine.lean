import CourseArchive.HolePunching.NatMachine

/-! The registration server of `PA2/user/server_machine.cpp`. -/

namespace CourseArchive.HolePunching

open Lib

structure ClientInfo where
  addresses : Metadata
  id : Fin 32
  deriving DecidableEq

structure ServerMachine (n : ℕ) where
  iface : Fin (n + 1) → Interface
  information : List ClientInfo
  currentFreeId : Fin 32

structure Reply (n : ℕ) where
  lines : List String
  frames : List (Sent n)

def serverIp : UInt32 := 0x01010101

def mdLocal (data : ℕ → UInt8) : Endpoint := ⟨get32 data 43, get16 data 47⟩

def mdPublic (data : ℕ → UInt8) : Endpoint := ⟨get32 data 49, get16 data 53⟩

def dotted (e : Endpoint) : String :=
  let byte (k : ℕ) := toString (e.ip.toNat / 2 ^ (8 * k) % 256)
  byte 3 ++ "." ++ byte 2 ++ "." ++ byte 1 ++ "." ++ byte 0 ++ ":" ++ toString e.port

namespace Reply

variable {n : ℕ}

def nothing : Reply n := ⟨[], []⟩

end Reply

namespace ServerMachine

variable {n : ℕ}

def initialize_ (iface : Fin (n + 1) → Interface) : ServerMachine n := ⟨iface, [], 0⟩

def detectType (data : ℕ → UInt8) : DataType :=
  match dataTypeField data with
  | 0 => .requestAssigningId
  | 1 => .requestGettingIp
  | 5 => .requestUpdatingInfo
  | 6 => .status
  | _ => .invalid

def findClientByPublic (m : ServerMachine n) (e : Endpoint) : Option ℕ :=
  m.information.findIdx? fun c => c.addresses.publicEnd = e

def findClientById (m : ServerMachine n) (id : UInt8) : Option ℕ :=
  m.information.findIdx? fun c => UInt8.ofNat c.id = id

def findClientByLocal (m : ServerMachine n) (localIp : UInt32) : Option ℕ :=
  m.information.findIdx? fun c => c.addresses.localEnd.ip = localIp

def reply (m : ServerMachine n) (ifaceIndex : Fin (n + 1)) (type : DataType) (receiver : Endpoint) (id : UInt8)
    (md : List UInt8) : Sent n :=
  ⟨packet (fillHeader (m.iface ifaceIndex).mac type (getDataLength type).toNat serverIp receiver.ip 1234
    receiver.port id ++ md), ifaceIndex⟩

/-- The address is looked for through `ntohs`, which keeps its first two bytes only. -/
def recRequestId (m : ServerMachine n) (frame : Buffer) (ifaceIndex : Fin (n + 1)) : ServerMachine n × Reply n :=
  if (m.findClientByLocal (get16 frame.data 43).toUInt32).isSome then (m, .nothing)
  else
    let m := if m.currentFreeId = 0 then { m with currentFreeId := m.currentFreeId + 1 } else m
    if m.currentFreeId.val ≤ 31 then
      let ci : ClientInfo := ⟨⟨mdLocal frame.data, source frame.data⟩, m.currentFreeId⟩
      ({ m with information := m.information ++ [ci], currentFreeId := m.currentFreeId + 1 },
        ⟨["new id " ++ toString m.currentFreeId ++ " assigned to " ++ dotted ci.addresses.publicEnd],
          [m.reply ifaceIndex .responseAssigningId (source frame.data) (UInt8.ofNat m.currentFreeId) []]⟩)
    else (m, .nothing)

def recIpRequest (m : ServerMachine n) (frame : Buffer) (ifaceIndex : Fin (n + 1)) : Reply n :=
  match (m.findClientByPublic (source frame.data)).bind (m.information[·]?),
    (m.findClientById (dataId frame.data)).bind (m.information[·]?) with
  | some a, some b =>
    ⟨[toString a.id ++ " wants info of node " ++ toString b.id],
      [m.reply ifaceIndex .responseGettingIp (source frame.data) (UInt8.ofNat b.id)
        (be32 b.addresses.localEnd.ip ++ be16 b.addresses.localEnd.port ++ be32 b.addresses.publicEnd.ip ++
          be16 b.addresses.publicEnd.port)]⟩
  | _, _ => ⟨["id not exist, dropped"], []⟩

def recUpdateRequest (m : ServerMachine n) (frame : Buffer) : ServerMachine n × Reply n :=
  match m.findClientById (dataId frame.data) with
  | none => (m, .nothing)
  | some idx =>
    let update (c : ClientInfo) : ClientInfo := { c with addresses.localEnd := mdLocal frame.data }
    ({ m with information := m.information.modify idx update },
      ⟨(m.information[idx]?.map update).toList.map fun c =>
        "id " ++ toString c.id ++ " infos updated to " ++ dotted c.addresses.localEnd, []⟩)

def receiveStatus (m : ServerMachine n) (frame : Buffer) (ifaceIndex : Fin (n + 1)) : Reply n :=
  let flag := if mdLocal frame.data = source frame.data then 1 else 0
  ⟨[], [m.reply ifaceIndex .statusResponse (mdLocal frame.data) flag (be32 0 ++ be16 0)]⟩

def processFrame (m : ServerMachine n) (frame : Buffer) (ifaceIndex : Fin (n + 1)) : ServerMachine n × Reply n :=
  if protocol frame.data = 17 ∧ getChecksum (ipHeader frame.data) = 0 then
    if dstIp frame.data = serverIp then
      match detectType frame.data with
      | .requestAssigningId => m.recRequestId frame ifaceIndex
      | .requestGettingIp => (m, m.recIpRequest frame ifaceIndex)
      | .requestUpdatingInfo => m.recUpdateRequest frame
      | .status => (m, m.receiveStatus frame ifaceIndex)
      | _ => (m, .nothing)
    else (m, ⟨[], [⟨{ frame with data := consumeTtl frame.data }, findGateway m.iface (dstIp frame.data)⟩]⟩)
  else (m, .nothing)

end ServerMachine

end CourseArchive.HolePunching
