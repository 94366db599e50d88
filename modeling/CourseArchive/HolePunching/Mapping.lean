import CourseArchive.HolePunching.NatMachine

/-! Between two resets the NAT maps local to public endpoints one to one, and keeps what it has mapped. -/

namespace CourseArchive.HolePunching.NatMachine

open Lib

variable {n : ℕ} {m m' : NatMachine n} {e : Endpoint} {move : Move n}

def endpoint (m : NatMachine n) (c : ℕ) : Endpoint where
  ip := (m.iface 0).ip + UInt32.ofNat (c / 3) + 1
  port := UInt16.ofNat (m.basePort.toNat + c % 3 * 100)

lemma newAddress_eq (m : NatMachine n) : m.newAddress = m.endpoint m.counter.toNat := by
  have hdiv : m.counter / 3 = UInt32.ofNat (m.counter.toNat / 3) := by
    have hlt := m.counter.toNat_lt
    apply UInt32.toNat_inj.mp
    rw [UInt32.toNat_div, UInt32.toNat_ofNat']
    simp
    omega
  rw [newAddress, endpoint, hdiv]

lemma endpoint_injective {c d : ℕ} (hc : c < 2 ^ 32) (hd : d < 2 ^ 32) (h : m.endpoint c = m.endpoint d) :
    c = d := by
  simp only [endpoint, Endpoint.mk.injEq] at h
  obtain ⟨hip, hport⟩ := h
  have hdiv : c / 3 = d / 3 := by
    have hh := congrArg UInt32.toNat (UInt32.add_right_inj _ |>.mp (UInt32.add_left_inj _ |>.mp hip))
    simp only [UInt32.toNat_ofNat'] at hh
    omega
  have hmod : c % 3 = d % 3 := by
    have hh := congrArg UInt16.toNat hport
    simp only [UInt16.toNat_ofNat'] at hh
    omega
  omega

/-! What the moves do to the tables. -/

lemma mapping_cases (m : NatMachine n) (e : Endpoint) :
    (∃ client, m.findInLocalTable e = some client ∧ m.mapping e = (client, m)) ∨
    m.findInLocalTable e = none ∧ m.mapping e = (⟨e, m.newAddress⟩,
      { m with counter := m.counter + 1, table := m.table ++ [⟨e, m.newAddress⟩] }) := by
  cases hf : m.findInLocalTable e with
  | some client => exact Or.inl ⟨client, rfl, by simp [mapping, hf]⟩
  | none => exact Or.inr ⟨rfl, by simp [mapping, hf, calculateNewAddress]⟩

lemma processInbound_fst (m : NatMachine n) (frame : Buffer) : (m.processInbound frame).1 = m := by
  rw [processInbound]
  split
  · rfl
  · split <;> rfl

lemma processOutbound_blocked {frame : Buffer} (h : m.validInRange (srcPort frame.data) = false) :
    m.processOutbound frame = (m, [m.dropPacket 1234 (source frame.data)]) := by
  simp [processOutbound, h]

lemma processOutbound_valid {frame : Buffer} {client : Metadata} (h : m.validInRange (srcPort frame.data) = true)
    (hm : m.mapping (source frame.data) = (client, m')) :
    m.processOutbound frame =
      ({ m' with sessions := m'.sessions ++ [⟨client.publicEnd, destination frame.data⟩] },
        [⟨{ frame with data := consumeTtl (setSource frame.data client.publicEnd) },
          findGateway m'.iface (dstIp frame.data)⟩]) := by
  simp [processOutbound, h, hm]

inductive Next (m : NatMachine n) : Move n → NatMachine n → Prop
  | same (move : Move n) : move.isReset = false → Next m move m
  | blocked (min max : UInt16) : Next m (.blockRange min max) (m.blockRange min max)
  | session (frame : Buffer) (i : Fin (n + 1)) (client : Metadata) : i ≠ 0 →
      m.validInRange (srcPort frame.data) = true → m.findInLocalTable (source frame.data) = some client →
      Next m (.received frame i)
        { m with sessions := m.sessions ++ [⟨client.publicEnd, destination frame.data⟩] }
  | mapped (frame : Buffer) (i : Fin (n + 1)) : i ≠ 0 →
      m.validInRange (srcPort frame.data) = true → m.findInLocalTable (source frame.data) = none →
      Next m (.received frame i)
        { m with
          counter := m.counter + 1
          table := m.table ++ [⟨source frame.data, m.newAddress⟩]
          sessions := m.sessions ++ [⟨m.newAddress, destination frame.data⟩] }
  | reset (basePort : UInt16) : Next m (.reset basePort) (m.resetSetting basePort)

lemma next_step (m : NatMachine n) (move : Move n) : Next m move (m.step move) := by
  cases move with
  | blockRange min max => exact .blocked min max
  | reset basePort => exact .reset basePort
  | received frame i =>
    by_cases hi : i = 0
    · have he : m.step (.received frame i) = m := by
        rw [step, processFrame, if_pos hi, processInbound_fst]
      rw [he]
      exact .same _ rfl
    · have hstep : m.step (.received frame i) = (m.processOutbound frame).1 := by
        rw [step, processFrame, if_neg hi]
      rw [hstep]
      cases hv : m.validInRange (srcPort frame.data) with
      | false =>
        rw [processOutbound_blocked hv]
        exact .same _ rfl
      | true =>
        rcases m.mapping_cases (source frame.data) with ⟨client, hf, he⟩ | ⟨hf, he⟩
        · rw [processOutbound_valid hv he]
          exact .session frame i client hi hv hf
        · rw [processOutbound_valid hv he]
          exact .mapped frame i hi hv hf

lemma findInLocalTable_mem {client : Metadata} (h : m.findInLocalTable e = some client) :
    client ∈ m.table ∧ client.localEnd = e :=
  ⟨List.mem_of_find?_eq_some h, by simpa using List.find?_some h⟩

lemma findInLocalTable_none (h : m.findInLocalTable e = none) : ∀ t ∈ m.table, t.localEnd ≠ e := by
  simpa [findInLocalTable, List.find?_eq_none] using h

/-! The invariant. -/

structure WellMapped (m : NatMachine n) : Prop where
  locals : (m.table.map (·.localEnd)).Nodup
  numbered : ∃ cs : List ℕ, m.table.map (·.publicEnd) = cs.map m.endpoint ∧ cs.Nodup ∧
    ∀ c ∈ cs, c < m.counter.toNat
  sessions : ∀ s ∈ m.sessions, ∃ t ∈ m.table, t.publicEnd = s.localEnd

namespace WellMapped

lemma initial (iface : Fin (n + 1) → Interface) : WellMapped (initializeMachine iface) :=
  ⟨List.nodup_nil, ⟨[], rfl, List.nodup_nil, nofun⟩, nofun⟩

lemma publics (h : WellMapped m) : (m.table.map (·.publicEnd)).Nodup := by
  obtain ⟨cs, hcs, hnodup, hlt⟩ := h.numbered
  have hcounter := m.counter.toNat_lt
  rw [hcs]
  apply hnodup.map_on
  intro c hc d hd he
  exact endpoint_injective ((hlt c hc).trans hcounter) ((hlt d hd).trans hcounter) he

lemma next (h : WellMapped m) (hn : Next m move m')
    (hc : m.counter.toNat + (m'.table.length - m.table.length) < 2 ^ 32) :
    WellMapped m' ∧ m'.counter.toNat = m.counter.toNat + (m'.table.length - m.table.length) := by
  cases hn with
  | same => exact ⟨h, by omega⟩
  | blocked min max => exact ⟨⟨h.locals, h.numbered, h.sessions⟩, by simp [blockRange]⟩
  | session frame i client hi hv hf =>
    refine ⟨⟨h.locals, h.numbered, fun s hs => ?_⟩, by simp⟩
    rcases List.mem_append.mp hs with hs | hs
    · exact h.sessions s hs
    · obtain rfl := List.mem_singleton.mp hs
      exact ⟨client, (findInLocalTable_mem hf).1, rfl⟩
  | mapped frame i hi hv hf =>
    have hcounter : (m.counter + 1).toNat = m.counter.toNat + 1 := by
      simp at hc
      rw [UInt32.toNat_add, Nat.mod_eq_of_lt (by simpa using hc)]
      rfl
    refine ⟨⟨?_, ?_, fun s hs => ?_⟩, by simp [hcounter]⟩
    · simp only [List.map_append, List.map_cons, List.map_nil]
      apply h.locals.append (List.nodup_singleton _)
      intro a ha hb
      obtain ⟨t, ht, rfl⟩ := List.mem_map.mp ha
      exact findInLocalTable_none hf t ht (List.mem_singleton.mp hb)
    · obtain ⟨cs, hcs, hnodup, hlt⟩ := h.numbered
      refine ⟨cs ++ [m.counter.toNat], ?_, ?_, fun c hcs' => ?_⟩
      · simp only [List.map_append, List.map_cons, List.map_nil, hcs, newAddress_eq]
        rfl
      · apply hnodup.append (List.nodup_singleton _)
        intro a ha hb
        exact (hlt a ha).ne (List.mem_singleton.mp hb)
      · simp only [hcounter]
        rcases List.mem_append.mp hcs' with hc' | hc'
        · exact Nat.lt_succ_of_lt (hlt c hc')
        · rw [List.mem_singleton.mp hc']
          exact Nat.lt_succ_self _
    · rcases List.mem_append.mp hs with hs | hs
      · obtain ⟨t, ht, he⟩ := h.sessions s hs
        exact ⟨t, List.mem_append_left _ ht, he⟩
      · obtain rfl := List.mem_singleton.mp hs
        exact ⟨⟨source frame.data, m.newAddress⟩, List.mem_append_right _ (List.mem_singleton.mpr rfl), rfl⟩
  | reset basePort => exact ⟨⟨List.nodup_nil, ⟨[], rfl, List.nodup_nil, nofun⟩, nofun⟩, by simp [resetSetting]⟩

lemma run (moves : List (Move n)) (h : WellMapped m)
    (hc : m.counter.toNat + m.mappingsCreated moves < 2 ^ 32) : WellMapped (m.run moves) := by
  induction moves generalizing m with
  | nil => exact h
  | cons move moves ih =>
    rw [mappingsCreated] at hc
    obtain ⟨hw, he⟩ := h.next (next_step m move) (by omega)
    exact ih hw (by omega)

end WellMapped

/-! Mappings stay. -/

lemma Next.table_grows (h : Next m move m') (hm : move.isReset = false) : m.table <+: m'.table := by
  cases h with
  | same => exact List.prefix_rfl
  | blocked => exact List.prefix_rfl
  | session => exact List.prefix_rfl
  | mapped => exact List.prefix_append _ _
  | reset => cases hm

lemma run_table_grows (moves : List (Move n)) (h : ∀ move ∈ moves, move.isReset = false) :
    m.table <+: (m.run moves).table := by
  induction moves generalizing m with
  | nil => exact List.prefix_rfl
  | cons move moves ih =>
    have hhead := (next_step m move).table_grows (h move (List.mem_cons_self))
    exact hhead.trans (ih fun a ha => h a (List.mem_cons_of_mem move ha))

lemma find_of_prefix {α : Type} {p : α → Bool} {xs ys : List α} {x : α} (h : xs <+: ys)
    (hx : xs.find? p = some x) :
    ys.find? p = some x := by
  obtain ⟨zs, rfl⟩ := h
  rw [List.find?_append, hx, Option.some_or]

lemma run_append (m : NatMachine n) (xs ys : List (Move n)) : m.run (xs ++ ys) = (m.run xs).run ys :=
  List.foldl_append

def publicEndpoint (m : NatMachine n) (e : Endpoint) : Option Endpoint := (m.findInLocalTable e).map (·.publicEnd)

lemma Next.table_length (h : Next m move m') : m'.table.length ≤ m.table.length + 1 := by
  cases h <;> simp [blockRange, resetSetting]

lemma mappingsCreated_le (m : NatMachine n) (moves : List (Move n)) : m.mappingsCreated moves ≤ moves.length := by
  induction moves generalizing m with
  | nil => exact Nat.le_refl 0
  | cons move moves ih =>
    have hstep := (next_step m move).table_length
    have hrest := ih (m.step move)
    simp only [mappingsCreated, List.length_cons]
    omega

/-- While fewer than `2 ^ 32` mappings have been made, no local endpoint and no public one is in two mappings,
every session is one of a mapping, and a mapping stays until the next reset. -/
theorem mapping_bijective (iface : Fin (n + 1) → Interface) (moves later : List (Move n))
    (hc : (initializeMachine iface).mappingsCreated (moves ++ later) < 2 ^ 32)
    (hr : ∀ move ∈ later, move.isReset = false) :
    (((initializeMachine iface).run (moves ++ later)).table.map (·.localEnd)).Nodup ∧
    (((initializeMachine iface).run (moves ++ later)).table.map (·.publicEnd)).Nodup ∧
    (∀ s ∈ ((initializeMachine iface).run (moves ++ later)).sessions,
      ∃ t ∈ ((initializeMachine iface).run (moves ++ later)).table, t.publicEnd = s.localEnd) ∧
    ∀ e p, ((initializeMachine iface).run moves).publicEndpoint e = some p →
      ((initializeMachine iface).run (moves ++ later)).publicEndpoint e = some p := by
  have hw := (WellMapped.initial iface).run (moves ++ later) (by simpa [initializeMachine] using hc)
  refine ⟨hw.locals, hw.publics, hw.sessions, fun e p he => ?_⟩
  obtain ⟨client, hf, rfl⟩ := Option.map_eq_some_iff.mp he
  rw [run_append]
  exact Option.map_eq_some_iff.mpr ⟨client, find_of_prefix (run_table_grows later hr) hf, rfl⟩

def sampleIface (i : Fin 2) : Interface where
  mac := Vector.replicate 6 (UInt8.ofNat i)
  ip := if i = 0 then 0x01010102 else 0x0a000001
  mask := 0xffffff00

def sampleFrame (src dst : Endpoint) : Buffer :=
  packet (fillHeader (Vector.replicate 6 2) .status 6 src.ip dst.ip src.port dst.port 1)

def sampleMoves : List (Move 1) :=
  [.received (sampleFrame ⟨0x0a000002, 5000⟩ ⟨0x01010101, 1234⟩) 1,
    .received (sampleFrame ⟨0x0a000003, 5000⟩ ⟨0x01010101, 1234⟩) 1]

theorem mapping_bijective_sample :
    (((initializeMachine sampleIface).run (sampleMoves ++ [.blockRange 1 2])).table.map (·.publicEnd)).Nodup ∧
    ((initializeMachine sampleIface).run (sampleMoves ++ [.blockRange 1 2])).publicEndpoint ⟨0x0a000003, 5000⟩ =
      some ⟨0x01010103, 2100⟩ := by
  have h := mapping_bijective sampleIface sampleMoves [.blockRange 1 2]
    ((mappingsCreated_le _ _).trans_lt (by decide)) (by decide)
  exact ⟨h.2.1, h.2.2.2 _ _ (by decide)⟩

end CourseArchive.HolePunching.NatMachine
