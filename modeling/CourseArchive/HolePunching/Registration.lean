import CourseArchive.HolePunching.ServerMachine
import CourseArchive.Lib.Runs

/-! When an ID and a local address stand for one client of the registration server. -/

namespace CourseArchive.HolePunching

open Lib

namespace ServerMachine

variable {n : ℕ} {m m' : ServerMachine n} {frame : Buffer}

lemma findIdx?_of_nodup {α β : Type} {xs : List α} {f : α → β} {p : α → Bool} {i : ℕ} (h : (xs.map f).Nodup)
    (hi : i < xs.length) (hp : p xs[i] = true) (hf : ∀ x, p x = true → f x = f xs[i]) :
    xs.findIdx? p = some i := by
  refine List.findIdx?_eq_some_iff_getElem.mpr ⟨hi, hp, fun j hj hpj => ?_⟩
  have hj' : j < (xs.map f).length := by
    rw [List.length_map]
    omega
  have hi' : i < (xs.map f).length := by rwa [List.length_map]
  have hsame : (xs.map f)[j] = (xs.map f)[i] := by simpa using hf _ hpj
  have := (List.Nodup.getElem_inj_iff h).mp hsame
  omega

lemma nodup_set_iff {α : Type} [DecidableEq α] {xs : List α} {i : ℕ} (h : xs.Nodup) (hi : i < xs.length) (a : α) :
    (xs.set i a).Nodup ↔ xs.findIdx? (fun x => x = a) = none ∨ xs.findIdx? (fun x => x = a) = some i := by
  constructor
  · intro hset
    rw [or_iff_not_imp_left]
    intro hfound
    obtain ⟨j, hj⟩ := Option.ne_none_iff_exists'.mp hfound
    obtain ⟨hjlt, hja, -⟩ := List.findIdx?_eq_some_iff_getElem.mp hj
    have hja : xs[j] = a := by simpa using hja
    by_contra hne
    have hji : j ≠ i := fun hji => hne (hji ▸ hj)
    have hj' : j < (xs.set i a).length := by rwa [List.length_set]
    have hi' : i < (xs.set i a).length := by rwa [List.length_set]
    have hsame : (xs.set i a)[j] = (xs.set i a)[i] := by
      rw [List.getElem_set_ne hji.symm, List.getElem_set_self, hja]
    exact hji ((List.Nodup.getElem_inj_iff hset).mp hsame)
  · rintro (hnone | hsome)
    · refine h.set fun ha => ?_
      have := List.findIdx?_eq_none_iff.mp hnone a ha
      simp at this
    · obtain ⟨_, hia, -⟩ := List.findIdx?_eq_some_iff_getElem.mp hsome
      have hia : xs[i] = a := by simpa using hia
      rwa [← hia, List.set_getElem_self]

lemma findClientById_of_nodup (h : (m.information.map (·.id)).Nodup) {i : ℕ} (hi : i < m.information.length) :
    m.findClientById (UInt8.ofNat m.information[i].id) = some i := by
  refine findIdx?_of_nodup h hi (by simp) fun c hc => ?_
  have hc : UInt8.ofNat c.id = UInt8.ofNat m.information[i].id := by simpa using hc
  have hval := congrArg UInt8.toNat hc
  simp only [UInt8.toNat_ofNat'] at hval
  omega

structure Identified (m : ServerMachine n) : Prop where
  ids : (m.information.map (·.id)).Nodup
  nonzero : ∀ c ∈ m.information, c.id ≠ 0
  locals : (m.information.map (·.addresses.localEnd.ip)).Nodup

def ForServer (data : ℕ → UInt8) : Prop :=
  protocol data = 17 ∧ getChecksum (ipHeader data) = 0 ∧ dstIp data = serverIp

def Registers (m : ServerMachine n) (frame : Buffer) : Prop :=
  ForServer frame.data ∧ detectType frame.data = .requestAssigningId ∧
    m.findClientByLocal (get16 frame.data 43).toUInt32 = none

def Updates (m : ServerMachine n) (frame : Buffer) : Prop :=
  ForServer frame.data ∧ detectType frame.data = .requestUpdatingInfo ∧ m.findClientById (dataId frame.data) ≠ none

/-- A new client's local address is new and there is an ID left for it, and an update gives no client the local
address of another one. -/
def KeepsApart (m : ServerMachine n) (frame : Buffer) : Prop :=
  (m.Registers frame → m.information.length < 31 ∧ m.findClientByLocal (mdLocal frame.data).ip = none) ∧
    (m.Updates frame → m.findClientByLocal (mdLocal frame.data).ip = none ∨
      m.findClientByLocal (mdLocal frame.data).ip = m.findClientById (dataId frame.data))

def newId (m : ServerMachine n) : Fin 32 := if m.currentFreeId = 0 then 1 else m.currentFreeId

def register (m : ServerMachine n) (frame : Buffer) : ServerMachine n :=
  { m with
    information := m.information ++ [⟨⟨mdLocal frame.data, source frame.data⟩, m.newId⟩]
    currentFreeId := m.newId + 1 }

def updateClient (m : ServerMachine n) (idx : ℕ) (e : Endpoint) : ServerMachine n :=
  { m with information := m.information.modify idx fun c => { c with addresses.localEnd := e } }

inductive Next (m : ServerMachine n) (frame : Buffer) : ServerMachine n → Prop
  | same (h : ¬ m.Registers frame) (h' : ¬ m.Updates frame) : Next m frame m
  | registered (h : m.Registers frame) (h' : ¬ m.Updates frame) : Next m frame (m.register frame)
  | updated (idx : ℕ) (h : ¬ m.Registers frame) (h' : m.Updates frame)
      (hidx : m.findClientById (dataId frame.data) = some idx) :
      Next m frame (m.updateClient idx (mdLocal frame.data))

lemma recRequestId_fst (frame : Buffer) (ifaceIndex : Fin (n + 1)) :
    (m.recRequestId frame ifaceIndex).1 =
      if m.findClientByLocal (get16 frame.data 43).toUInt32 = none then m.register frame else m := by
  rw [recRequestId]
  cases hfind : m.findClientByLocal (get16 frame.data 43).toUInt32 with
  | some idx => rfl
  | none =>
    simp only [Option.isSome_none, Bool.false_eq_true, if_false, if_true, register, newId]
    split_ifs with hzero hle
    · rw [hzero]
      rfl
    · omega
    · rfl
    · omega

lemma next_processFrame (m : ServerMachine n) (frame : Buffer) (ifaceIndex : Fin (n + 1)) :
    Next m frame (m.processFrame frame ifaceIndex).1 := by
  have hrefuse (h : ¬ ForServer frame.data) : Next m frame m := .same (fun hr => h hr.1) fun hu => h hu.1
  have hother (h : detectType frame.data ≠ .requestAssigningId)
    (h' : detectType frame.data ≠ .requestUpdatingInfo) :
      Next m frame m := .same (fun hr => h hr.2.1) fun hu => h' hu.2.1
  rw [processFrame]
  split_ifs with hvalid hdst
  · have hserver : ForServer frame.data := ⟨hvalid.1, hvalid.2, hdst⟩
    cases htype : detectType frame.data with
    | requestAssigningId =>
      have hu : ¬ m.Updates frame := fun hu => by simp [Updates, htype] at hu
      change Next m frame (m.recRequestId frame ifaceIndex).1
      rw [recRequestId_fst]
      split_ifs with hfind
      · exact .registered ⟨hserver, htype, hfind⟩ hu
      · exact .same (fun hr => hfind hr.2.2) hu
    | requestUpdatingInfo =>
      have hr : ¬ m.Registers frame := fun hr => by simp [Registers, htype] at hr
      change Next m frame (m.recUpdateRequest frame).1
      rw [recUpdateRequest]
      split
      · next hfind => exact .same hr fun hu => hu.2.2 hfind
      · next idx hfind => exact .updated idx hr ⟨hserver,
          htype, by rw [hfind]; exact Option.some_ne_none idx⟩ hfind
    | _ => exact hother (by simp [htype]) (by simp [htype])
  · exact hrefuse fun h => hdst h.2.2
  · exact hrefuse fun h => hvalid ⟨h.1, h.2.1⟩

lemma findClientByLocal_eq (m : ServerMachine n) (ip : UInt32) :
    m.findClientByLocal ip = (m.information.map (·.addresses.localEnd.ip)).findIdx? (fun x => x = ip) := by
  rw [findClientByLocal, List.findIdx?_map]
  rfl

structure Numbered (m : ServerMachine n) : Prop where
  ids : m.information.map (·.id.val) = List.range' 1 m.information.length
  few : m.information.length ≤ 31
  newId : m.newId.val = m.information.length % 31 + 1

lemma numbered_initial (iface : Fin (n + 1) → Interface) : (initialize_ iface).Numbered :=
  ⟨rfl, by simp [initialize_], rfl⟩

lemma newId_eq (m : ServerMachine n) : m.newId = if m.currentFreeId = 0 then 1 else m.currentFreeId := rfl

lemma Numbered.register (h : m.Numbered) (hfew : m.information.length < 31) (frame : Buffer) :
    (m.register frame).Numbered where
  ids := by
    rw [ServerMachine.register, List.map_append, h.ids, List.length_append, List.length_singleton,
      List.range'_concat]
    simp only [List.map_cons, List.map_nil, h.newId]
    congr 2
    omega
  few := by
    rw [ServerMachine.register, List.length_append, List.length_singleton]
    omega
  newId := by
    have hnew := h.newId
    have hnext : (m.newId + 1).val = (m.newId.val + 1) % 32 := Fin.val_add m.newId 1
    rw [newId_eq]
    change (if m.newId + 1 = 0 then 1 else m.newId + 1).val = (m.information ++ [_]).length % 31 + 1
    rw [List.length_append, List.length_singleton]
    split_ifs with hzero
    · have hval : (m.newId + 1).val = 0 := congrArg Fin.val hzero
      change 1 = _
      omega
    · have hval : (m.newId + 1).val ≠ 0 := fun hval => hzero (Fin.ext hval)
      omega

lemma nodup_concat_iff {α : Type} {xs : List α} (h : xs.Nodup) (a : α) : (xs ++ [a]).Nodup ↔ a ∉ xs := by
  rw [List.nodup_append]
  constructor
  · rintro ⟨-, -, hdisjoint⟩ ha
    exact hdisjoint a ha a List.mem_cons_self rfl
  · intro ha
    refine ⟨h, List.nodup_singleton a, fun b hb c hc => ?_⟩
    rintro rfl
    exact ha (List.mem_singleton.mp hc ▸ hb)

lemma newId_fresh_iff (h : m.Numbered) : m.newId ∉ m.information.map (·.id) ↔ m.information.length < 31 := by
  have hmem : m.newId ∈ m.information.map (·.id) ↔ m.newId.val ∈ m.information.map (·.id.val) := by
    simp [List.mem_map, Fin.ext_iff]
  rw [hmem, h.ids, List.mem_range'_1, h.newId]
  have := h.few
  omega

lemma findClientByLocal_eq_none (ip : UInt32) :
    m.findClientByLocal ip = none ↔ ip ∉ m.information.map (·.addresses.localEnd.ip) := by
  rw [findClientByLocal_eq, List.findIdx?_eq_none_iff]
  exact ⟨fun h hip => by simpa using h ip hip, fun h x hx => by simpa using fun he : x = ip => h (he ▸ hx)⟩

lemma register_identified_iff (h : m.Numbered) (hm : m.Identified) :
    (m.register frame).Identified ↔
      m.information.length < 31 ∧ m.findClientByLocal (mdLocal frame.data).ip = none := by
  have hids : (m.register frame).information.map (·.id) = m.information.map (·.id) ++ [m.newId] := by
    rw [register, List.map_append]
    rfl
  have hlocals : (m.register frame).information.map (·.addresses.localEnd.ip) =
      m.information.map (·.addresses.localEnd.ip) ++ [(mdLocal frame.data).ip] := by
    rw [register, List.map_append]
    rfl
  rw [findClientByLocal_eq_none, ← nodup_concat_iff hm.locals, ← hlocals, ← newId_fresh_iff h,
    ← nodup_concat_iff hm.ids, ← hids]
  refine ⟨fun hi => ⟨hi.ids, hi.locals⟩, fun ⟨hi, hl⟩ => ⟨hi, fun c hc => ?_, hl⟩⟩
  rcases List.mem_append.mp hc with hc | hc
  · exact hm.nonzero c hc
  · rw [List.mem_singleton.mp hc]
    intro hzero
    have hzero : m.newId = 0 := hzero
    have hval := h.newId
    rw [hzero] at hval
    exact Nat.succ_ne_zero _ hval.symm

lemma map_updateClient {α : Type} {f : ClientInfo → α} (hf : ∀ c e, f { c with addresses.localEnd := e } = f c)
    (m : ServerMachine n) (idx : ℕ) (e : Endpoint) :
    (m.updateClient idx e).information.map f = m.information.map f := by
  refine List.ext_getElem (by simp [updateClient]) fun i _ _ => ?_
  simp only [updateClient, List.getElem_map, List.getElem_modify]
  split_ifs with hi
  · exact hf _ e
  · rfl

lemma Numbered.updateClient (h : m.Numbered) (idx : ℕ) (e : Endpoint) : (m.updateClient idx e).Numbered := by
  have hlength : (m.updateClient idx e).information.length = m.information.length := List.length_modify ..
  exact ⟨by rw [map_updateClient fun _ _ => rfl, h.ids, hlength], hlength ▸ h.few, by rw [hlength, ← h.newId]; rfl⟩

lemma updateClient_locals (m : ServerMachine n) (idx : ℕ) (e : Endpoint) :
    (m.updateClient idx e).information.map (·.addresses.localEnd.ip) =
      (m.information.map (·.addresses.localEnd.ip)).set idx e.ip := by
  refine List.ext_getElem (by simp [updateClient]) fun i _ _ => ?_
  simp only [updateClient, List.getElem_map, List.getElem_modify, List.getElem_set]
  split_ifs with hi <;> rfl

lemma updateClient_identified_iff (hm : m.Identified) {idx : ℕ} (hidx : idx < m.information.length)
    (e : Endpoint) :
    (m.updateClient idx e).Identified ↔ m.findClientByLocal e.ip = none ∨ m.findClientByLocal e.ip = some idx := by
  rw [findClientByLocal_eq, ← nodup_set_iff hm.locals (by simpa using hidx), ← updateClient_locals]
  have hids : (m.updateClient idx e).information.map (·.id) = m.information.map (·.id) :=
    map_updateClient (fun _ _ => rfl) ..
  refine ⟨Identified.locals, fun hl => ⟨hids ▸ hm.ids, fun c hc => ?_, hl⟩⟩
  obtain ⟨d, hd, hid⟩ := List.mem_map.mp (hids ▸ List.mem_map_of_mem hc)
  rw [← hid]
  exact hm.nonzero d hd

def given (m : ServerMachine n) : List (Fin 32 × Endpoint) :=
  m.information.map fun c => (c.id, c.addresses.publicEnd)

lemma Next.given_grows (h : Next m frame m') : m.given <+: m'.given := by
  cases h with
  | same => exact List.prefix_rfl
  | registered =>
    rw [given, given, register, List.map_append]
    exact List.prefix_append _ _
  | updated idx => rw [given, given, map_updateClient fun _ _ => rfl]

lemma next_identified (h : Next m frame m') (hn : m.Numbered) (hm : m.Identified) :
    (m'.Identified ↔ m.KeepsApart frame) ∧ (m.KeepsApart frame → m'.Numbered) := by
  -- every frame that keeps the clients apart keeps the invariant, and no other frame does
  cases h with
  | same hr hu => exact ⟨⟨fun _ => ⟨(absurd · hr), (absurd · hu)⟩, fun _ => hm⟩, fun _ => hn⟩
  | registered hr hu =>
    have hiff : m.KeepsApart frame ↔
      m.information.length < 31 ∧ m.findClientByLocal (mdLocal frame.data).ip = none :=
      ⟨fun h => h.1 hr, fun h => ⟨fun _ => h, (absurd · hu)⟩⟩
    rw [hiff]
    exact ⟨register_identified_iff hn hm, fun h => hn.register h.1 frame⟩
  | updated idx hr hu hidx =>
    have hiff : m.KeepsApart frame ↔ m.findClientByLocal (mdLocal frame.data).ip = none ∨
        m.findClientByLocal (mdLocal frame.data).ip = some idx :=
      ⟨fun h => hidx ▸ h.2 hu, fun h => ⟨(absurd · hr), fun _ => hidx ▸ h⟩⟩
    have hlt : idx < m.information.length := (List.findIdx?_eq_some_iff_findIdx_eq.mp hidx).1
    rw [hiff]
    exact ⟨updateClient_identified_iff hm hlt _, fun _ => hn.updateClient idx _⟩

def step (m : ServerMachine n) (received : Buffer × Fin (n + 1)) : Option (ServerMachine n) :=
  some (m.processFrame received.1 received.2).1

def Apart (m : ServerMachine n) (received : Buffer × Fin (n + 1)) : Prop := m.KeepsApart received.1

lemma step_identified {received : Buffer × Fin (n + 1)} (hm : m.Numbered ∧ m.Identified) (hok : m.Apart received)
    (hstep : m.step received = some m') : m'.Numbered ∧ m'.Identified := by
  obtain rfl := Option.some_injective _ hstep
  obtain ⟨hiff, hnumbered⟩ := next_identified (next_processFrame m received.1 received.2) hm.1 hm.2
  exact ⟨hnumbered hok, hiff.mpr hok⟩

/-- As long as every frame keeps the clients apart, an ID and a local address are those of one client, whom its ID
finds from then on; the first frame that does not gives two clients one ID or one address. -/
theorem clients_identified (iface : Fin (n + 1) → Interface) (h : Reaches step Apart (initialize_ iface) m) :
    m.Identified ∧
      (∀ i (hi : i < m.information.length), m.findClientById (UInt8.ofNat m.information[i].id) = some i) ∧
      (∀ m', Reaches step Apart m m' → m.given <+: m'.given) ∧
      ∀ frame ifaceIndex, (m.processFrame frame ifaceIndex).1.Identified ↔ m.KeepsApart frame := by
  have hinitial :
    (initialize_ iface).Identified := ⟨List.nodup_nil, fun c hc => absurd hc List.not_mem_nil, List.nodup_nil⟩
  obtain ⟨hn, hm⟩ :=
    h.invariant (fun m => m.Numbered ∧ m.Identified) (fun _ _ _ hi hok hs => step_identified hi hok hs)
    ⟨numbered_initial iface, hinitial⟩
  refine ⟨hm, fun i hi => findClientById_of_nodup hm.ids hi, fun m' h' => ?_, fun frame ifaceIndex =>
    (next_identified (next_processFrame m frame ifaceIndex) hn hm).1⟩
  refine h'.invariant (fun m' => m.given <+: m'.given) (fun u received v hu _ hv => ?_) List.prefix_rfl
  obtain rfl := Option.some_injective _ hv
  exact hu.trans (next_processFrame u received.1 received.2).given_grows

/-! Clients with the local addresses 10.0.0.k. -/

def idRequest (k : UInt32) : Buffer × Fin 1 :=
  let localIp := 0x0a000000 + k
  (packet (fillHeader (Vector.replicate 6 2) .requestAssigningId 6 localIp serverIp 5000 1234 0 ++
    be32 localIp ++ be16 5000), 0)

def oneInterface : Fin 1 → Interface := fun _ => ⟨Vector.replicate 6 1, serverIp, 0xffffff00⟩

instance (data : ℕ → UInt8) : Decidable (ForServer data) := inferInstanceAs (Decidable (_ ∧ _ ∧ _))

instance (m : ServerMachine n) (received : Buffer × Fin (n + 1)) : Decidable (m.Apart received) :=
  have : Decidable (m.Registers received.1) := inferInstanceAs (Decidable (_ ∧ _ ∧ _))
  have : Decidable (m.Updates received.1) := inferInstanceAs (Decidable (_ ∧ _ ∧ _))
  inferInstanceAs (Decidable ((_ → _) ∧ (_ → _)))

theorem clients_identified_of_two : ∃ m, play step (initialize_ oneInterface) [idRequest 1, idRequest 2] = some m ∧
    m.information.map (·.id) = [1, 2] ∧ m.Identified := by
  let moves := [idRequest 1, idRequest 2]
  have hplay : ∃ m, play step (initialize_ oneInterface) moves = some m ∧ m.information.map (·.id) = [1, 2] := by
    decide
  have hok : AllOk step Apart (initialize_ oneInterface) moves := by decide
  obtain ⟨m, hm, hids⟩ := hplay
  exact ⟨m, hm, hids, (clients_identified oneInterface (reaches_of_allOk moves hok hm)).1⟩

theorem client_registered_twice :
    (∃ m, Reaches step anyMove (initialize_ oneInterface) m ∧ ¬ m.Identified ∧
      m.information.map (fun c => (c.id, c.addresses.localEnd.ip)) = [(1, 0x0a000001), (2, 0x0a000001)]) ∧
    ∃ m, Reaches step anyMove (initialize_ oneInterface) m ∧ ¬ m.Identified ∧
      (m.information.map (·.addresses.localEnd.ip)).Nodup ∧ (m.information.map (·.id)).count 1 = 2 := by
  have htwice : ∃ m, play step (initialize_ oneInterface) [idRequest 1, idRequest 1] = some m ∧
      m.information.map (fun c => (c.id, c.addresses.localEnd.ip)) = [(1, 0x0a000001), (2, 0x0a000001)] ∧
      ¬ (m.information.map (·.addresses.localEnd.ip)).Nodup := by
    decide
  have hmany :
    ∃ m, play step (initialize_ oneInterface) ((List.range 32).map fun k => idRequest (UInt32.ofNat k)) = some m ∧
      (m.information.map (·.addresses.localEnd.ip)).Nodup ∧ (m.information.map (·.id)).count 1 = 2 := by
    decide +kernel
  obtain ⟨m, hm, hlist, hlocals⟩ := htwice
  obtain ⟨m', hm', hlocals', hcount⟩ := hmany
  refine ⟨⟨m, reaches_of_play _ hm, fun h => hlocals h.locals, hlist⟩, m', reaches_of_play _ hm', fun h => ?_,
    hlocals', hcount⟩
  have := List.nodup_iff_count_le_one.mp h.ids 1
  omega

end ServerMachine

end CourseArchive.HolePunching
