import CourseArchive.HolePunching.Registration

/-! What an address update changes in the records of the registration server. -/

namespace CourseArchive.HolePunching

open Lib

lemma length_fillHeader (mac : Mac) (type : DataType) (dataLength : ℕ) (srcIp dstIp : UInt32)
    (srcPort dstPort : UInt16)
    (id : UInt8) : (fillHeader mac type dataLength srcIp dstIp srcPort dstPort id).length = sizeOfHeader := by
  simp [fillHeader, ipHeaderBytes, sizeOfHeader]

lemma holds_packet (bytes : List UInt8) : Holds (packet bytes).data 0 bytes :=
  show Holds (store (fun _ => 0) 0 bytes) 0 bytes from Holds.store bytes

lemma holds_payload (mac : Mac) (type : DataType) (dataLength : ℕ) (srcIp dstIp : UInt32)
    (srcPort dstPort : UInt16) (id : UInt8) (payload : List UInt8) :
    Holds (packet (fillHeader mac type dataLength srcIp dstIp srcPort dstPort id ++ payload)).data
      sizeOfHeader payload := by
  have h := (Holds.append_iff.mp
    (holds_packet (fillHeader mac type dataLength srcIp dstIp srcPort dstPort id ++ payload))).2
  rwa [length_fillHeader, Nat.zero_add] at h

namespace ServerMachine

variable {n : ℕ} {m : ServerMachine n}

structure Requests (frame : Buffer) (type : DataType) (id : UInt8) : Prop where
  forServer : ForServer frame.data
  type : detectType frame.data = type
  id : dataId frame.data = id

structure KnownAt (m : ServerMachine n) (idx : ℕ) (id : UInt8) (e localEnd : Endpoint) : Prop where
  recognised : m.findClientByPublic e = some idx
  told : ∀ frame ifaceIndex, Requests frame .requestGettingIp id →
    m.findClientByPublic (source frame.data) ≠ none →
    ∃ sent, (m.processFrame frame ifaceIndex).2.frames = [sent] ∧ mdPublic sent.frame.data = e ∧
      mdLocal sent.frame.data = localEnd

lemma processFrame_update {frame : Buffer} {id : UInt8} {idx : ℕ} (h : Requests frame .requestUpdatingInfo id)
    (hidx : m.findClientById id = some idx) (ifaceIndex : Fin (n + 1)) :
    (m.processFrame frame ifaceIndex).1 = m.updateClient idx (mdLocal frame.data) := by
  obtain ⟨hprotocol, hchecksum, hdst⟩ := h.forServer
  rw [processFrame, if_pos ⟨hprotocol, hchecksum⟩, if_pos hdst, h.type]
  change (m.recUpdateRequest frame).1 = _
  rw [recUpdateRequest, h.id, hidx]
  rfl

lemma findClientByPublic_eq (m : ServerMachine n) (e : Endpoint) :
    m.findClientByPublic e = (m.information.map (·.addresses.publicEnd)).findIdx? (fun x => x = e) := by
  rw [findClientByPublic, List.findIdx?_map]
  rfl

lemma findClientByPublic_updateClient (m : ServerMachine n) (idx : ℕ) (localEnd e : Endpoint) :
    (m.updateClient idx localEnd).findClientByPublic e = m.findClientByPublic e := by
  rw [findClientByPublic_eq, findClientByPublic_eq, map_updateClient fun _ _ => rfl]

lemma publicEnd_of_found {e : Endpoint} {idx : ℕ} (h : m.findClientByPublic e = some idx)
    (hidx : idx < m.information.length) : m.information[idx].addresses.publicEnd = e := by
  obtain ⟨_, he, -⟩ := List.findIdx?_eq_some_iff_getElem.mp h
  simpa using he

lemma getElem_updateClient {idx : ℕ} (hidx : idx < m.information.length) (e : Endpoint)
    (hidx' : idx < (m.updateClient idx e).information.length) :
    (m.updateClient idx e).information[idx].id = m.information[idx].id ∧
      (m.updateClient idx e).information[idx].addresses.localEnd = e ∧
      (m.updateClient idx e).information[idx].addresses.publicEnd = m.information[idx].addresses.publicEnd := by
  simp [updateClient]

def addressReply (m : ServerMachine n) (ifaceIndex : Fin (n + 1)) (receiver : Endpoint)
    (c : ClientInfo) : Sent n :=
  m.reply ifaceIndex .responseGettingIp receiver (UInt8.ofNat c.id)
    (be32 c.addresses.localEnd.ip ++ be16 c.addresses.localEnd.port ++ be32 c.addresses.publicEnd.ip ++
      be16 c.addresses.publicEnd.port)

lemma recIpRequest_frames {frame : Buffer} {ifaceIndex : Fin (n + 1)} {a b : ℕ}
    (ha : m.findClientByPublic (source frame.data) = some a) (hb : m.findClientById (dataId frame.data) = some b)
    (ha' : a < m.information.length) (hb' : b < m.information.length) :
    (m.recIpRequest frame ifaceIndex).frames =
    [m.addressReply ifaceIndex (source frame.data) m.information[b]] := by
  rw [recIpRequest, ha, hb, Option.bind_some, Option.bind_some, List.getElem?_eq_getElem ha',
    List.getElem?_eq_getElem hb']
  rfl

lemma addressReply_told (m : ServerMachine n) (ifaceIndex : Fin (n + 1)) (receiver : Endpoint) (c : ClientInfo) :
    mdPublic (m.addressReply ifaceIndex receiver c).frame.data = c.addresses.publicEnd ∧
      mdLocal (m.addressReply ifaceIndex receiver c).frame.data = c.addresses.localEnd := by
  have hall : Holds (m.addressReply ifaceIndex receiver c).frame.data sizeOfHeader
      (be32 c.addresses.localEnd.ip ++ be16 c.addresses.localEnd.port ++ be32 c.addresses.publicEnd.ip ++
        be16 c.addresses.publicEnd.port) := holds_payload _ _ _ _ _ _ _ _ _
  obtain ⟨hall, hport⟩ := Holds.append_iff.mp hall
  obtain ⟨hall, hip⟩ := Holds.append_iff.mp hall
  obtain ⟨hlocalIp, hlocalPort⟩ := Holds.append_iff.mp hall
  exact ⟨congrArg₂ Endpoint.mk hip.get32 hport.get16, congrArg₂ Endpoint.mk hlocalIp.get32 hlocalPort.get16⟩

/-- An update leaves the public endpoint of its client as it was, so it takes effect just when it comes from there
and no client before has the same one. -/
theorem update_takes_effect_iff (m : ServerMachine n) (idx : ℕ) (hidx : idx < m.information.length)
    (frame : Buffer) (ifaceIndex : Fin (n + 1)) (hids : (m.information.map (·.id)).Nodup)
    (h : Requests frame .requestUpdatingInfo (UInt8.ofNat m.information[idx].id)) :
    KnownAt (m.processFrame frame ifaceIndex).1 idx (UInt8.ofNat m.information[idx].id) (source frame.data)
        (mdLocal frame.data) ↔
      m.findClientByPublic (source frame.data) = some idx := by
  rw [processFrame_update h (findClientById_of_nodup hids hidx)]
  refine ⟨fun hk => ?_, fun hfound => ⟨?_, fun request i hr hknown => ?_⟩⟩
  · rw [← hk.recognised, findClientByPublic_updateClient]
  · rw [findClientByPublic_updateClient, hfound]
  · have hlength : (m.updateClient idx (mdLocal frame.data)).information.length = m.information.length :=
      List.length_modify ..
    have hids' : ((m.updateClient idx (mdLocal frame.data)).information.map (·.id)).Nodup := by
      rwa [map_updateClient fun _ _ => rfl]
    obtain ⟨a, ha⟩ := Option.ne_none_iff_exists'.mp hknown
    have ha' : a < (m.updateClient idx (mdLocal frame.data)).information.length :=
      (List.findIdx?_eq_some_iff_findIdx_eq.mp ha).1
    obtain ⟨hid, hlocal, hpublic⟩ := getElem_updateClient hidx (mdLocal frame.data) (hlength ▸ hidx)
    have hb : (m.updateClient idx (mdLocal frame.data)).findClientById (dataId request.data) = some idx := by
      have hfind := findClientById_of_nodup hids' (hlength ▸ hidx)
      rwa [hid, ← hr.id] at hfind
    obtain ⟨hprotocol, hchecksum, hdst⟩ := hr.forServer
    obtain ⟨htold, htold'⟩ := (m.updateClient idx (mdLocal frame.data)).addressReply_told i (source request.data)
      (m.updateClient idx (mdLocal frame.data)).information[idx]
    refine ⟨_, ?_, htold.trans (hpublic.trans (publicEnd_of_found hfound hidx)), htold'.trans hlocal⟩
    rw [processFrame, if_pos ⟨hprotocol, hchecksum⟩, if_pos hdst, hr.type]
    exact recIpRequest_frames ha hb ha' (hlength ▸ hidx)

/-! A client behind a NAT that is reset between its ID request and its update. -/

def updateRequest (publicEnd : Endpoint) : Buffer × Fin 1 :=
  (packet (fillHeader (Vector.replicate 6 2) .requestUpdatingInfo 6 publicEnd.ip serverIp publicEnd.port 1234 1 ++
    be32 0x0a000001 ++ be16 5100), 0)

def registered : ServerMachine 0 := ((initialize_ oneInterface).processFrame (idRequest 1).1 (idRequest 1).2).1

theorem update_takes_effect_iff_same :
    KnownAt (registered.processFrame (updateRequest ⟨0x0a000001, 5000⟩).1 0).1 0 1
      ⟨0x0a000001, 5000⟩ ⟨0x0a000001, 5100⟩ := by
  have hlength : 0 < registered.information.length := by decide
  have hids : ∀ c ∈ registered.information, UInt8.ofNat c.id = 1 := by decide
  have hid := hids registered.information[0] (List.getElem_mem hlength)
  have hrequest : Requests (updateRequest ⟨0x0a000001, 5000⟩).1 .requestUpdatingInfo 1 :=
    ⟨by decide, by decide, by decide⟩
  have hsource : source (updateRequest ⟨0x0a000001, 5000⟩).1.data = ⟨0x0a000001, 5000⟩ := by decide
  have hlocal : mdLocal (updateRequest ⟨0x0a000001, 5000⟩).1.data = ⟨0x0a000001, 5100⟩ := by decide
  have hiff := update_takes_effect_iff registered 0 hlength (updateRequest ⟨0x0a000001, 5000⟩).1 0 (by decide)
    (hid ▸ hrequest)
  rw [hid, hsource, hlocal] at hiff
  exact hiff.mpr (by decide)

theorem update_after_reset_is_lost : ∃ m : ServerMachine 0, ∃ e : Endpoint,
    Reaches step anyMove (initialize_ oneInterface) m ∧ m.information.map (·.id) = [1] ∧
    Requests (updateRequest e).1 .requestUpdatingInfo 1 ∧ source (updateRequest e).1.data = e ∧
    (m.processFrame (updateRequest e).1 0).1.findClientByPublic e = none ∧
    ¬ KnownAt (m.processFrame (updateRequest e).1 0).1 0 1 e ⟨0x0a000001, 5100⟩ := by
  have hnone : (registered.processFrame (updateRequest ⟨0xc0a80001, 3000⟩).1 0).1.findClientByPublic
      ⟨0xc0a80001, 3000⟩ = none := by decide
  refine ⟨registered, ⟨0xc0a80001, 3000⟩, ?_, by decide, ⟨by decide, by decide, by decide⟩,
    by decide, hnone, fun h => ?_⟩
  · have hplay : play step (initialize_ oneInterface) [idRequest 1] = some registered := rfl
    exact reaches_of_play _ hplay
  · have := h.recognised
    rw [hnone] at this
    cases this

end ServerMachine

end CourseArchive.HolePunching
