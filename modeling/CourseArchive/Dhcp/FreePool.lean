import CourseArchive.Dhcp.ReceiveBuffer
import CourseArchive.Lib.Runs

/-! Which addresses the pool's pointers denote, and when a frame that is none of the pool's business changes
them. -/

namespace CourseArchive.Dhcp

open Lib

namespace BufferedServer

variable {S : StdSort} {count : ℕ} {s t : BufferedServer} {interfaceIndex : UInt32} {frame : List UInt8}

def pool (s : BufferedServer) : List Ip := s.ipPool.map (·.deref s.buffer)

def values (s : BufferedServer) : ServerMachine := ⟨s.pool, s.offeredIPs, s.givenIPs⟩

lemma frameIp_ntohlTime (s : BufferedServer) : frameIp s.ntohlTime.buffer = frameIp s.buffer := by
  simp only [frameIp, ntohlTime, store_apply_of_lt (show 25 < 29 by decide),
    store_apply_of_lt (show 26 < 29 by decide),
    store_apply_of_lt (show 27 < 29 by decide), store_apply_of_lt (show 28 < 29 by decide)]

lemma deref_ntohlTime (s : BufferedServer) (entry : PoolEntry) :
    entry.deref s.ntohlTime.buffer = entry.deref s.buffer := by
  cases entry with
  | owned ip => rfl
  | frameIp => exact frameIp_ntohlTime s

lemma pool_ntohlTime (s : BufferedServer) : s.ntohlTime.pool = s.pool :=
  List.map_congr_left fun entry _ => deref_ntohlTime s entry

/-! Between two frames the pointers are as good as the addresses. -/

lemma values_ntohlTime (s : BufferedServer) : s.ntohlTime.values = s.values := by
  rw [values, values, pool_ntohlTime]
  rfl

lemma values_addAddress (newIp : Ip) : (s.addAddress newIp).values = s.values.addAddress newIp := by
  have hfind : s.findIpPool newIp = s.values.findIpPool newIp := by
    rw [findIpPool, ServerMachine.findIpPool, values, pool, List.findIdx?_map]
    rfl
  rw [addAddress, ServerMachine.addAddress, hfind]
  split_ifs
  · simp [values, pool, PoolEntry.deref]
  · rfl

lemma values_addPool (ip : Ip) (mask : UInt8) : (s.addPool ip mask).map values = s.values.addPool ip mask := by
  rw [addPool, ServerMachine.addPool]
  split_ifs
  · rfl
  · refine congrArg some ?_
    generalize List.range _ = turns
    induction turns generalizing s with
    | nil => rfl
    | cons i turns ih => rw [List.foldl_cons, ih, values_addAddress, List.foldl_cons]

lemma values_addTime (time : ℤ) : (s.addTime S time).1.values = (s.values.addTime S time).1 := by
  simp only [addTime, ServerMachine.addTime, values, pool, List.map_append, List.map_map]
  rfl

lemma values_rDhcpRequest (frame : EthernetData) :
    Prod.map values id (s.rDhcpRequest frame) = s.values.rDhcpRequest frame := by
  rw [rDhcpRequest, ← values_ntohlTime s]
  generalize s.ntohlTime = s'
  have hoffered : s'.values.offeredIPs = s'.offeredIPs := rfl
  rw [ServerMachine.rDhcpRequest, hoffered]
  cases s'.offeredIPs.find? (·.ip == frame.ip) <;> rfl

lemma values_rDhcpAck (frame : EthernetData) : (s.rDhcpAck frame).values = s.values.rDhcpAck frame := by
  rw [rDhcpAck, ← values_ntohlTime s]
  generalize s.ntohlTime = s'
  have hoffered : s'.values.offeredIPs = s'.offeredIPs := rfl
  rw [ServerMachine.rDhcpAck, hoffered]
  cases s'.offeredIPs.find? (·.mac == frame.mac) with
  | none => rfl
  | some offered => simp [values, pool, PoolEntry.deref]

lemma values_rDhcpRelease {frame : EthernetData} (hframe : frame.ip = frameIp s.buffer) :
    (s.rDhcpRelease frame).values = s.values.rDhcpRelease frame := by
  rw [← frameIp_ntohlTime] at hframe
  rw [rDhcpRelease, ← values_ntohlTime s]
  generalize s.ntohlTime = s' at hframe
  have hgiven : s'.values.givenIPs = s'.givenIPs := rfl
  rw [ServerMachine.rDhcpRelease, hgiven]
  cases s'.givenIPs.find? (·.ip == frame.ip) with
  | none => rfl
  | some given => simp [values, pool, PoolEntry.deref, hframe]

section Natural

variable (hS : S.Natural)

include hS

lemma map_sort (s : BufferedServer) (entries : List PoolEntry) :
    S.sort ServerMachine.poolLess (entries.map (·.deref s.buffer)) =
      (S.sort s.entryLess entries).map (·.deref s.buffer) :=
  (hS (·.deref s.buffer) ServerMachine.poolLess entries).symm

lemma values_printPool : (s.printPool S).values = s.values.printPool S := by
  rw [ServerMachine.printPool, values, values, pool, pool, map_sort hS]
  rfl

lemma values_rDhcpDiscover (frame : EthernetData) :
    Prod.map values id (s.rDhcpDiscover S frame) = s.values.rDhcpDiscover S frame := by
  rw [rDhcpDiscover]
  split_ifs with h
  · rw [ServerMachine.rDhcpDiscover, values, pool, h, List.map_nil,
      (S.perm _ _ ⟨by simp, by simp, by simp⟩).eq_nil]
    simp [values, pool, h]
  · rw [← values_ntohlTime s]
    generalize s.ntohlTime = s'
    have hpool : s'.values.ipPool = s'.ipPool.map (·.deref s'.buffer) := rfl
    rw [ServerMachine.rDhcpDiscover, hpool, map_sort hS]
    dsimp only
    cases S.sort s'.entryLess s'.ipPool <;> rfl

lemma values_rDhcpExtendRequest {frame : EthernetData} (hframe : frame.ip = frameIp s.buffer) :
    Prod.map values id (s.rDhcpExtendRequest S frame) = s.values.rDhcpExtendRequest S frame := by
  rw [← frameIp_ntohlTime] at hframe
  rw [rDhcpExtendRequest, ← values_ntohlTime s]
  generalize s.ntohlTime = s' at hframe
  have hpool : s'.values.ipPool ++ [frame.ip] = (s'.ipPool ++ [PoolEntry.frameIp]).map (·.deref s'.buffer) := by
    simp [values, pool, PoolEntry.deref, hframe]
  have hgiven : s'.values.givenIPs = s'.givenIPs := rfl
  rw [ServerMachine.rDhcpExtendRequest, hgiven]
  cases s'.givenIPs.find? (·.ip == frame.ip) with
  | none => rfl
  | some given =>
    simp only [hpool, map_sort hS]
    cases S.sort s'.entryLess (s'.ipPool ++ [.frameIp]) <;> rfl

lemma values_processFrame :
    Prod.map values id (s.processFrame S) = s.values.processFrame S (frameIn s.buffer) := by
  have hip : (frameIn s.buffer).data.ip = frameIp s.buffer := rfl
  rw [processFrame, ServerMachine.processFrame]
  generalize (frameIn s.buffer).dataType = dataType
  split
  · exact values_rDhcpDiscover hS _
  · exact values_rDhcpRequest _
  · exact congrArg (·, []) (values_rDhcpAck _)
  · exact congrArg (·, []) (values_rDhcpRelease hip)
  · exact values_rDhcpExtendRequest hS hip
  · simp_all

end Natural

/-- No entry of the pool points into the buffer, or the frame has, where its address belongs, what was there
before. -/
def KeepsPool (s : BufferedServer) : Move → Prop
  | .received interfaceIndex frame =>
    .frameIp ∉ s.ipPool ∨ frameIp (s.receive interfaceIndex frame).buffer = frameIp s.buffer
  | .addPool .. | .addTime _ | .printPool => True

lemma pool_receive_iff (s : BufferedServer) (interfaceIndex : UInt32) (frame : List UInt8) :
    (s.receive interfaceIndex frame).pool = s.pool ↔ s.KeepsPool (.received interfaceIndex frame) := by
  rw [pool, pool]
  change s.ipPool.map _ = _ ↔ _
  rw [List.map_inj_left]
  constructor
  · intro h
    by_cases hm : .frameIp ∈ s.ipPool
    · exact .inr (h _ hm)
    · exact .inl hm
  · rintro h (ip | _) hm
    · rfl
    · exact h.resolve_left (absurd hm)

def valueMove (s : BufferedServer) : Move → ServerMachine.Move
  | .addPool ip mask => .addPool ip mask
  | .addTime time => .addTime time
  | .printPool => .printPool
  | .received interfaceIndex frame => .received (frameIn (s.receive interfaceIndex frame).buffer)

lemma step_values (hS : S.Natural) {e : Move} (hk : s.KeepsPool e) (h : s.step S count e = some t) :
    ServerMachine.step S s.values (s.valueMove e) = some t.values := by
  cases e with
  | addPool ip mask =>
    rw [step] at h
    rw [valueMove, ServerMachine.step, ← values_addPool, h]
    rfl
  | addTime time =>
    obtain rfl := Option.some_injective _ h
    exact congrArg some (values_addTime time).symm
  | printPool =>
    obtain rfl := Option.some_injective _ h
    exact congrArg some (values_printPool hS).symm
  | received interfaceIndex frame =>
    rw [step] at h
    split_ifs at h
    obtain rfl := Option.some_injective _ h
    have hreceive : (s.receive interfaceIndex frame).values = s.values :=
      congrArg (ServerMachine.mk · s.offeredIPs s.givenIPs) ((pool_receive_iff s interfaceIndex frame).mpr hk)
    rw [valueMove, ServerMachine.step, ← hreceive, ← values_processFrame hS]
    rfl

lemma reaches_values (hS : S.Natural) {ok : ServerMachine → ServerMachine.Move → Prop} {buffer : ℕ → UInt8}
    (h : Reaches (step S count) (fun s e => s.KeepsPool e ∧ ok s.values (s.valueMove e)) (initial buffer) s) :
    Reaches (ServerMachine.step S) ok ServerMachine.initial s.values := by
  induction h with
  | refl => exact .refl
  | tail _ hstep ih =>
    obtain ⟨e, ⟨hk, hok⟩, he⟩ := hstep
    exact ih.tail ⟨_, hok, step_values hS hk he⟩

/-! Frames that the handlers find nothing for. -/

def Unrelated (s : BufferedServer) : Prop :=
  let frame := (frameIn s.buffer).data
  match (frameIn s.buffer).dataType with
  | 0 => s.ipPool = []
  | 2 => s.offeredIPs.find? (·.ip == frame.ip) = none
  | 3 => s.offeredIPs.find? (·.mac == frame.mac) = none
  | 4 | 6 => s.givenIPs.find? (·.ip == frame.ip) = none
  | _ => True

lemma processFrame_of_unrelated (h : s.Unrelated) :
    (s.processFrame S).1 = s ∨ (s.processFrame S).1 = s.ntohlTime := by
  rw [Unrelated] at h
  rw [processFrame]
  generalize (frameIn s.buffer).dataType = dataType at h
  split at h
  · left
    simp only [rDhcpDiscover, if_pos h]
  · right
    have hfind : s.ntohlTime.offeredIPs.find? (·.ip == (frameIn s.buffer).data.ip) = none := h
    simp only [rDhcpRequest, hfind]
  · right
    have hfind : s.ntohlTime.offeredIPs.find? (·.mac == (frameIn s.buffer).data.mac) = none := h
    simp only [rDhcpAck, hfind]
  · right
    have hfind : s.ntohlTime.givenIPs.find? (·.ip == (frameIn s.buffer).data.ip) = none := h
    simp only [rDhcpRelease, hfind]
  · right
    have hfind : s.ntohlTime.givenIPs.find? (·.ip == (frameIn s.buffer).data.ip) = none := h
    simp only [rDhcpExtendRequest, hfind]
  · left
    simp_all

lemma pool_processFrame (h : s.Unrelated) : (s.processFrame S).1.pool = s.pool := by
  rcases processFrame_of_unrelated (S := S) h with he | he
  · rw [he]
  · rw [he, pool_ntohlTime]

theorem pool_unchanged_iff (h : (s.receive interfaceIndex frame).Unrelated)
    (hstep : s.step S count (.received interfaceIndex frame) = some t) :
    t.pool = s.pool ↔
      .frameIp ∉ s.ipPool ∨ frameIp (s.receive interfaceIndex frame).buffer = frameIp s.buffer := by
  rw [step] at hstep
  split_ifs at hstep
  obtain rfl := Option.some_injective _ hstep
  rw [pool_processFrame h]
  exact pool_receive_iff s interfaceIndex frame

/-! One address is leased and released; then comes a frame of an unknown type. -/

def clientBytes (dataType : UInt8) (ip : Ip) : List UInt8 :=
  List.replicate 14 0 ++ [dataType] ++ List.replicate 6 1 ++
  [ip.byte0, ip.byte1, ip.byte2, ip.byte3] ++ [0, 0, 0, 0]

def address : Ip := ⟨10, 0, 0, 4⟩

def releaseMoves : List Move :=
  [.addPool address 32, .received 0 (clientBytes 0 address), .received 0 (clientBytes 2 address),
    .received 0 (clientBytes 4 address)]

theorem pool_unchanged_iff_released : ∃ s t, Reaches (step insertionSorting 1) anyMove (initial fun _ => 0) s ∧
    s.step insertionSorting 1 (.received 0 (clientBytes 9 address)) = some t ∧ s.ipPool = [.frameIp] ∧
    t.pool = s.pool := by
  -- the frame has the address that was released
  have h : ((play (step insertionSorting 1) (initial fun _ => 0) releaseMoves).bind fun s =>
      (s.step insertionSorting 1 (.received 0 (clientBytes 9 address))).map fun _ =>
        (s.ipPool, frameIp s.buffer, frameIp (s.receive 0 (clientBytes 9 address)).buffer,
          (frameIn (s.receive 0 (clientBytes 9 address)).buffer).dataType)) =
        some ([.frameIp], address, address, 9) := by
    decide
  obtain ⟨s, hs, h⟩ := Option.bind_eq_some_iff.mp h
  obtain ⟨t, ht, hview⟩ := Option.map_eq_some_iff.mp h
  obtain ⟨hpool, hip, hip', htype⟩ := by simpa only [Prod.mk.injEq] using hview
  have hunrelated : (s.receive 0 (clientBytes 9 address)).Unrelated := by
    rw [Unrelated, htype]
    trivial
  exact ⟨s, t, reaches_of_play releaseMoves hs, ht, hpool,
    (pool_unchanged_iff hunrelated ht).mpr (.inr (hip'.trans hip.symm))⟩

theorem released_address_changes : ∃ s t, Reaches (step insertionSorting 1) anyMove (initial fun _ => 0) s ∧
    s.step insertionSorting 1 (.received 0 (clientBytes 9 ⟨9, 9, 9, 9⟩)) = some t ∧
    (frameIn (s.receive 0 (clientBytes 9 ⟨9, 9, 9, 9⟩)).buffer).dataType = 9 ∧
    s.pool = [address] ∧ t.pool = [⟨9, 9, 9, 9⟩] := by
  have h : ((play (step insertionSorting 1) (initial fun _ => 0) releaseMoves).bind fun s =>
      (s.step insertionSorting 1 (.received 0 (clientBytes 9 ⟨9, 9, 9, 9⟩))).map fun t =>
        ((frameIn (s.receive 0 (clientBytes 9 ⟨9, 9, 9, 9⟩)).buffer).dataType, s.pool, t.pool)) =
        some (9, [address], [⟨9, 9, 9, 9⟩]) := by
    decide
  obtain ⟨s, hs, h⟩ := Option.bind_eq_some_iff.mp h
  obtain ⟨t, ht, hview⟩ := Option.map_eq_some_iff.mp h
  obtain ⟨htype, hpool, hpool'⟩ := by simpa only [Prod.mk.injEq] using hview
  exact ⟨s, t, reaches_of_play releaseMoves hs, ht, htype, hpool, hpool'⟩

end BufferedServer

end CourseArchive.Dhcp
