import CourseArchive.Lib.Buffer

/-! The packets that the machines of `PA2/user` exchange, and what `simpleMachine.cpp` does with them. -/

namespace CourseArchive.HolePunching

open Lib

inductive DataType
  | requestAssigningId | responseAssigningId | drop | requestGettingIp | responseGettingIp | requestLocalSession
  | responseLocalSession | requestPublicSession | responsePublicSession | message | natUpdated
    | requestUpdatingInfo
  | status | statusResponse | invalid
  deriving DecidableEq

def sizeOfHeader : ℕ := 43

/-! The fields of `struct header`, as the host reads them. -/

def ttl (data : ℕ → UInt8) : UInt8 := data 22

def protocol (data : ℕ → UInt8) : UInt8 := data 23

def srcIp (data : ℕ → UInt8) : UInt32 := get32 data 26

def dstIp (data : ℕ → UInt8) : UInt32 := get32 data 30

def srcPort (data : ℕ → UInt8) : UInt16 := get16 data 34

def dstPort (data : ℕ → UInt8) : UInt16 := get16 data 36

def dataId (data : ℕ → UInt8) : UInt8 := data 42 % 32

def dataTypeField (data : ℕ → UInt8) : UInt8 := data 42 / 32

def ipHeader (data : ℕ → UInt8) : List UInt8 := (List.range 20).map fun k => data (14 + k)

def addWord (acc word : ℕ) : ℕ := if 0xffff < acc + word then acc + word - 0xffff else acc + word

def checksumFrom : ℕ → List UInt8 → ℕ
  | acc, a :: b :: rest => checksumFrom (addWord acc (a.toNat * 256 + b.toNat)) rest
  | acc, [a] => addWord acc (a.toNat * 256)
  | acc, [] => acc

/-- `get_checksum` before its last `htons`, so that a machine stores it with `be16`. -/
def getChecksum (buf : List UInt8) : UInt16 := ~~~(UInt16.ofNat (checksumFrom 0xffff buf))

def getDataType : DataType → UInt8
  | .requestAssigningId | .responseAssigningId | .drop => 0
  | .requestGettingIp | .responseGettingIp => 1
  | .requestLocalSession | .responseLocalSession | .requestPublicSession | .responsePublicSession => 2
  | .message => 3
  | .natUpdated => 4
  | .requestUpdatingInfo => 5
  | .status => 6
  | .statusResponse => 7
  | .invalid => 255

def getDataLength : DataType → UInt16
  | .requestAssigningId | .requestUpdatingInfo | .status | .statusResponse => 6
  | .responseAssigningId | .requestGettingIp | .natUpdated => 0
  | .drop | .requestLocalSession | .responseLocalSession | .requestPublicSession | .responsePublicSession => 4
  | .responseGettingIp => 12
  | .message | .invalid => 65535

abbrev Mac := Vector UInt8 6

structure Interface where
  mac : Mac
  ip : UInt32
  mask : UInt32
  deriving DecidableEq

structure Sent (n : ℕ) where
  frame : Buffer
  ifaceIndex : Fin (n + 1)

/-- What `realSendFrame` of `cf.cpp` returns. It puts no frame on the wire whose length, with the index of its
interface, is none of 16 bits. -/
def realSendFrame (frame : Buffer) : Bool := 14 ≤ frame.length && frame.length < 2 ^ 16 - 4

def frameBufferSize : ℕ := 1524

/-- Whether `simulationEventLoop` hands a frame to its machine. It ends at one that, with the index of its
interface, does not fit its buffer. -/
def fitsFrameBuffer (frame : Buffer) : Bool := 4 + frame.length ≤ frameBufferSize

def ipHeaderBytes (dataLength : ℕ) (checksum : UInt16) (srcIp dstIp : UInt32) : List UInt8 :=
  [0x45, 0] ++ be16 (UInt16.ofNat (29 + dataLength)) ++ [0, 0, 0, 0, 64, 17] ++ be16 checksum ++
  be32 srcIp ++ be32 dstIp

def fillHeader (mac : Mac) (type : DataType) (dataLength : ℕ) (srcIp dstIp : UInt32) (srcPort dstPort : UInt16)
    (id : UInt8) : List UInt8 :=
  List.replicate 6 255 ++ mac.toList ++ [8, 0] ++
    ipHeaderBytes dataLength (getChecksum (ipHeaderBytes dataLength 0 srcIp dstIp)) srcIp dstIp ++
    be16 srcPort ++ be16 dstPort ++ be16 (UInt16.ofNat (9 + dataLength)) ++ [0, 0] ++
    [getDataType type % 8 * 32 + id % 32]

def packet (bytes : List UInt8) : Buffer := ⟨bytes.length, store (fun _ => 0) 0 bytes⟩

def consumeTtl (data : ℕ → UInt8) : ℕ → UInt8 :=
  let data := store data 22 [ttl data - 1]
  let data := store data 24 [0, 0]
  store data 24 (be16 (getChecksum (ipHeader data)))

def findGateway {n : ℕ} (iface : Fin (n + 1) → Interface) (dstIpHdr : UInt32) : Fin (n + 1) :=
  ((List.finRange (n + 1)).find? fun i => (iface i).ip &&& (iface i).mask == dstIpHdr &&& (iface i).mask).getD 0

lemma consumeTtl_ttl (data : ℕ → UInt8) : ttl (consumeTtl data) = ttl data - 1 := by
  rw [consumeTtl, ttl, store_apply_of_lt (by decide), store_apply_of_lt (by decide)]
  have hk : 0 < [ttl data - 1].length := by simp
  exact store_apply_add hk

lemma consumeTtl_of_ne (data : ℕ → UInt8) {k : ℕ} (h : k ≠ 22) (h' : k ≠ 24) (h'' : k ≠ 25) :
    consumeTtl data k = data k := by
  rw [consumeTtl, store_apply_of_outside, store_apply_of_outside, store_apply_of_outside]
  · simp only [List.length_singleton]
    omega
  · simp only [List.length_cons, List.length_nil]
    omega
  · rw [length_be16]
    omega

end CourseArchive.HolePunching
