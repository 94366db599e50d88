import CourseArchive.HolePunching.Mapping

/-! Frames that went out through the NAT are answered through it, and no others get in. -/

namespace CourseArchive.HolePunching

open Lib

lemma get32_consumeTtl (data : ℕ → UInt8) {off : ℕ} (h : 26 ≤ off) :
    get32 (consumeTtl data) off = get32 data off :=
  get32_congr fun _ h₁ _ => consumeTtl_of_ne data (by omega) (by omega) (by omega)

lemma get16_consumeTtl (data : ℕ → UInt8) {off : ℕ} (h : 26 ≤ off) :
    get16 (consumeTtl data) off = get16 data off :=
  get16_congr fun _ h₁ _ => consumeTtl_of_ne data (by omega) (by omega) (by omega)

lemma source_consumeTtl (data : ℕ → UInt8) : source (consumeTtl data) = source data := by
  rw [source, source, srcIp, srcPort, get32_consumeTtl data (by omega), get16_consumeTtl data (by omega)]
  rfl

lemma destination_consumeTtl (data : ℕ → UInt8) : destination (consumeTtl data) = destination data := by
  rw [destination, destination, dstIp, dstPort, get32_consumeTtl data (by omega), get16_consumeTtl data (by omega)]
  rfl

lemma source_setSource (data : ℕ → UInt8) (e : Endpoint) : source (setSource data e) = e := by
  have hip : Holds (setSource data e) 26 (be32 e.ip) := (Holds.store _).store_of_le (by simp)
  have hport : Holds (setSource data e) 34 (be16 e.port) := Holds.store _
  rw [source, srcIp, srcPort, hip.get32, hport.get16]

lemma destination_setDestination (data : ℕ → UInt8) (e : Endpoint) : destination (setDestination data e) = e := by
  have hip : Holds (setDestination data e) 30 (be32 e.ip) := (Holds.store _).store_of_le (by simp)
  have hport : Holds (setDestination data e) 36 (be16 e.port) := Holds.store _
  rw [destination, dstIp, dstPort, hip.get32, hport.get16]

structure Delivers (frame : Buffer) (e : Endpoint) (back : Buffer) : Prop where
  length : back.length = frame.length
  destination : destination back.data = e
  ttl : ttl back.data = ttl frame.data - 1
  others : ∀ k, k ≠ 22 → k ≠ 24 → k ≠ 25 → ¬ (30 ≤ k ∧ k < 34) → ¬ (36 ≤ k ∧ k < 38) → back.data k = frame.data k

lemma delivers_consumeTtl (frame : Buffer) (e : Endpoint) :
    Delivers frame e { frame with data := consumeTtl (setDestination frame.data e) } where
  length := rfl
  destination := by rw [destination_consumeTtl, destination_setDestination]
  ttl := by
    rw [consumeTtl_ttl, HolePunching.ttl, setDestination, store_apply_of_lt (by omega),
      store_apply_of_lt (by omega)]
    rfl
  others k h₁ h₂ h₃ h₄ h₅ := by
    simp only
    rw [consumeTtl_of_ne _ h₁ h₂ h₃, setDestination, store_apply_of_outside (by simp only [length_be16]; omega),
      store_apply_of_outside (by simp only [length_be32]; omega)]

namespace NatMachine

variable {n : ℕ} {m m' : NatMachine n} {move : Move n}

lemma Next.sessions_grow (h : Next m move m') (hm : move.isReset = false) : m.sessions <+: m'.sessions := by
  cases h with
  | same => exact List.prefix_rfl
  | blocked => exact List.prefix_rfl
  | session => exact List.prefix_append _ _
  | mapped => exact List.prefix_append _ _
  | reset => cases hm

lemma run_sessions_grow (moves : List (Move n)) (h : ∀ move ∈ moves, move.isReset = false) :
    m.sessions <+: (m.run moves).sessions := by
  induction moves generalizing m with
  | nil => exact List.prefix_rfl
  | cons move moves ih =>
    have hhead := (next_step m move).sessions_grow (h move List.mem_cons_self)
    exact hhead.trans (ih fun a ha => h a (List.mem_cons_of_mem move ha))

def LetOut (m : NatMachine n) (moves : List (Move n)) (localEnd outerEnd : Endpoint) : Prop :=
  ∃ pre frame i post, moves = pre ++ .received frame i :: post ∧ (∀ move ∈ post, move.isReset = false) ∧ i ≠ 0 ∧
    (m.run pre).validInRange (srcPort frame.data) = true ∧ source frame.data = localEnd ∧
    destination frame.data = outerEnd

lemma LetOut.snoc {moves : List (Move n)} {a b : Endpoint} (h : LetOut m moves a b) (hm : move.isReset = false) :
    LetOut m (moves ++ [move]) a b := by
  obtain ⟨pre, frame, i, post, rfl, hpost, hrest⟩ := h
  refine ⟨pre, frame, i, post ++ [move], by simp, ?_, hrest⟩
  intro a ha
  rcases List.mem_append.mp ha with ha | ha
  · exact hpost a ha
  · rw [List.mem_singleton.mp ha]
    exact hm

lemma run_sessions_letOut (hm : m.sessions = []) (moves : List (Move n)) :
    ∀ s ∈ (m.run moves).sessions, ∃ t ∈ (m.run moves).table, t.publicEnd = s.localEnd ∧
      LetOut m moves t.localEnd s.outerEnd := by
  induction moves using List.reverseRecOn with
  | nil =>
    intro s hs
    rw [run, List.foldl_nil, hm] at hs
    cases hs
  | append_singleton moves move ih =>
    rw [run_append]
    have hnext := next_step (m.run moves) move
    change ∀ s ∈ ((m.run moves).step move).sessions, ∃ t ∈ ((m.run moves).step move).table, _
    generalize (m.run moves).step move = m' at hnext ⊢
    cases hnext with
    | same _ hr =>
      intro s hs
      obtain ⟨t, ht, hp, hl⟩ := ih s hs
      exact ⟨t, ht, hp, hl.snoc hr⟩
    | blocked min max =>
      intro s hs
      obtain ⟨t, ht, hp, hl⟩ := ih s hs
      exact ⟨t, ht, hp, hl.snoc rfl⟩
    | session frame i client hi hv hf =>
      intro s hs
      rcases List.mem_append.mp hs with hs | hs
      · obtain ⟨t, ht, hp, hl⟩ := ih s hs
        exact ⟨t, ht, hp, hl.snoc rfl⟩
      · obtain rfl := List.mem_singleton.mp hs
        obtain ⟨hmem, hlocal⟩ := findInLocalTable_mem hf
        exact ⟨client, hmem, rfl, moves, frame, i, [], rfl, nofun, hi, hv, hlocal.symm, rfl⟩
    | mapped frame i hi hv hf =>
      intro s hs
      rcases List.mem_append.mp hs with hs | hs
      · obtain ⟨t, ht, hp, hl⟩ := ih s hs
        exact ⟨t, List.mem_append_left _ ht, hp, hl.snoc rfl⟩
      · obtain rfl := List.mem_singleton.mp hs
        exact ⟨_, List.mem_append_right _ List.mem_cons_self, rfl, moves, frame, i, [], rfl, nofun, hi, hv,
          rfl, rfl⟩
    | reset basePort => exact nofun

lemma letOut_leaves {frame out : Buffer} {i gateway : Fin (n + 1)} (hi : i ≠ 0)
    (hv : m.validInRange (srcPort frame.data) = true) (hout : (m.processFrame frame i).2 = [⟨out, gateway⟩]) :
    ∃ client ∈ (m.step (.received frame i)).table, client.localEnd = source frame.data ∧
      client.publicEnd = source out.data ∧
      ⟨client.publicEnd, destination frame.data⟩ ∈ (m.step (.received frame i)).sessions := by
  have hsent : ∀ {p : Endpoint}, [(⟨{ frame with data := consumeTtl (setSource frame.data p) },
      findGateway m.iface (dstIp frame.data)⟩ : Sent n)] = [⟨out, gateway⟩] → p = source out.data := by
    intro p he
    simp only [List.cons.injEq, Sent.mk.injEq, and_true] at he
    rw [← he.1, source_consumeTtl, source_setSource]
  rw [processFrame, if_neg hi] at hout
  rw [step, processFrame, if_neg hi]
  rcases m.mapping_cases (source frame.data) with ⟨client, hf, he⟩ | ⟨hf, he⟩
  · rw [processOutbound_valid hv he] at hout ⊢
    obtain ⟨hmem, hlocal⟩ := findInLocalTable_mem hf
    exact ⟨client, hmem, hlocal, hsent hout, List.mem_append_right _ List.mem_cons_self⟩
  · rw [processOutbound_valid hv he] at hout ⊢
    exact ⟨_, List.mem_append_right _ List.mem_cons_self, rfl, hsent hout,
      List.mem_append_right _ List.mem_cons_self⟩

lemma findInOuterTable_eq (h : WellMapped m) {client : Metadata} (hc : client ∈ m.table) :
    m.findInOuterTable client.publicEnd = some client := by
  cases hf : m.findInOuterTable client.publicEnd with
  | none => simp [findInOuterTable, List.find?_eq_none] at hf; exact absurd rfl (hf client hc)
  | some t =>
    have hmem : t ∈ m.table := List.mem_of_find?_eq_some hf
    have hpublic : t.publicEnd = client.publicEnd := by simpa using List.find?_some hf
    rw [List.inj_on_of_nodup_map h.publics hmem hc hpublic]

lemma findInSession_isSome {p o : Endpoint} (h : ⟨p, o⟩ ∈ m.sessions) : ∃ s, m.findInSession p o = some s := by
  cases hf : m.findInSession p o with
  | none => simp [findInSession, List.find?_eq_none] at hf; exact absurd rfl (hf _ h)
  | some s => exact ⟨s, rfl⟩

lemma processInbound_known (h : WellMapped m) {client : Metadata} (hc : client ∈ m.table) {frame : Buffer}
    (hd : destination frame.data = client.publicEnd) (hs : ⟨client.publicEnd, source frame.data⟩ ∈ m.sessions) :
    m.processInbound frame = (m, [⟨{ frame with data := consumeTtl (setDestination frame.data client.localEnd) },
      findGateway m.iface client.localEnd.ip⟩]) := by
  obtain ⟨s, hsome⟩ := findInSession_isSome hs
  simp only [processInbound, hd, findInOuterTable_eq h hc, hsome]

/-- While fewer than `2 ^ 32` mappings have been made: what comes back to the public endpoint of a frame that was
let out after the last reset reaches its sender; only answers of those that were sent to get in, and everything
else leaves the NAT as it is; and a frame from a blocked port neither gets a mapping nor a session. -/
theorem translation_end_to_end (iface : Fin (n + 1) → Interface) (moves : List (Move n))
    (hc : (initializeMachine iface).mappingsCreated moves < 2 ^ 32) :
    (∀ pre frame i post out gateway inbound, moves = pre ++ .received frame i :: post →
      (∀ move ∈ post, move.isReset = false) → i ≠ 0 →
      ((initializeMachine iface).run pre).validInRange (srcPort frame.data) = true →
      (((initializeMachine iface).run pre).processFrame frame i).2 = [⟨out, gateway⟩] →
      source inbound.data = destination frame.data → destination inbound.data = source out.data →
      ∃ back, Delivers inbound (source frame.data) back ∧
        ((initializeMachine iface).run moves).processFrame inbound 0 = ((initializeMachine iface).run moves,
          [⟨back, findGateway ((initializeMachine iface).run moves).iface (source frame.data).ip⟩])) ∧
    (∀ inbound, ((initializeMachine iface).run moves).processFrame inbound 0 =
        ((initializeMachine iface).run moves, []) ∨
      ((initializeMachine iface).run moves).processFrame inbound 0 = ((initializeMachine iface).run moves,
        [((initializeMachine iface).run moves).dropPacket 4321 (source inbound.data)]) ∨
      ∃ client ∈ ((initializeMachine iface).run moves).table, client.publicEnd = destination inbound.data ∧
        LetOut (initializeMachine iface) moves client.localEnd (source inbound.data) ∧
        ∃ back, Delivers inbound client.localEnd back ∧
          ((initializeMachine iface).run moves).processFrame inbound 0 = ((initializeMachine iface).run moves,
            [⟨back, findGateway ((initializeMachine iface).run moves).iface client.localEnd.ip⟩])) ∧
    ∀ frame i, i ≠ 0 → ((initializeMachine iface).run moves).validInRange (srcPort frame.data) = false →
      ((initializeMachine iface).run moves).processFrame frame i = ((initializeMachine iface).run moves,
        [((initializeMachine iface).run moves).dropPacket 1234 (source frame.data)]) := by
  have hw := (WellMapped.initial iface).run moves (by simpa [initializeMachine] using hc)
  have hout := run_sessions_letOut (m := initializeMachine iface) rfl moves
  refine ⟨?_, fun inbound => ?_, fun frame i hi hv => ?_⟩
  · rintro pre frame i post out gateway inbound rfl hpost hi hv hsent hsrc hdst
    obtain ⟨client, hclient, hlocal, hpublic, hsession⟩ := letOut_leaves hi hv hsent
    have hrun : (initializeMachine iface).run (pre ++ .received frame i :: post) =
        (((initializeMachine iface).run pre).step (.received frame i)).run post := run_append _ _ _
    rw [hrun] at hw ⊢
    refine ⟨_, delivers_consumeTtl inbound (source frame.data), ?_⟩
    rw [processFrame, if_pos rfl, processInbound_known hw ((run_table_grows post hpost).subset hclient)
      (hdst.trans hpublic.symm) (by rw [hsrc]; exact (run_sessions_grow post hpost).subset hsession), hlocal]
  · rw [processFrame, if_pos rfl]
    generalize hm : (initializeMachine iface).run moves = m at hw hout ⊢
    cases hf : m.findInOuterTable (destination inbound.data) with
    | none => exact Or.inl (by simp [processInbound, hf])
    | some client =>
      cases hs : m.findInSession (destination inbound.data) (source inbound.data) with
      | none => exact Or.inr (Or.inl (by simp [processInbound, hf, hs]))
      | some s =>
        right
        right
        have hclient : client ∈ m.table := List.mem_of_find?_eq_some hf
        have hpublic : client.publicEnd = destination inbound.data := by simpa using List.find?_some hf
        have hmem : s ∈ m.sessions := List.mem_of_find?_eq_some hs
        have hse : s = ⟨destination inbound.data, source inbound.data⟩ := by simpa using List.find?_some hs
        obtain ⟨t, ht, htp, htl⟩ := hout s hmem
        have htc : t = client := by
          apply List.inj_on_of_nodup_map hw.publics ht hclient
          rw [htp, hse, hpublic]
        refine ⟨client, hclient, hpublic, ?_, _, delivers_consumeTtl inbound client.localEnd, ?_⟩
        · rwa [htc, hse] at htl
        · simp [processInbound, hf, hs]
  · rw [processFrame, if_neg hi, processOutbound_blocked hv]

def samplePing : Buffer := sampleFrame ⟨0x0a000002, 5000⟩ ⟨0x01010101, 1234⟩

def samplePong : Buffer := sampleFrame ⟨0x01010101, 1234⟩ ⟨0x01010103, 2000⟩

theorem translation_end_to_end_sample :
    ∃ back, Delivers samplePong ⟨0x0a000002, 5000⟩ back ∧
      ((initializeMachine sampleIface).run [.received samplePing 1, .blockRange 1 2]).processFrame samplePong 0 =
        ((initializeMachine sampleIface).run [.received samplePing 1, .blockRange 1 2], [⟨back, 1⟩]) := by
  have hsource : source samplePing.data = ⟨0x0a000002, 5000⟩ := by decide
  have h := (translation_end_to_end sampleIface [.received samplePing 1, .blockRange 1 2]
    ((mappingsCreated_le _ _).trans_lt (by decide))).1 [] samplePing 1 [.blockRange 1 2]
    { samplePing with data := consumeTtl (setSource samplePing.data (initializeMachine sampleIface).newAddress) }
    (findGateway sampleIface (dstIp samplePing.data)) samplePong rfl (by decide) (by decide) (by decide) ?_
    (by decide) ?_
  · rw [hsource] at h
    exact h
  · rw [processFrame, if_neg (by decide)]
    exact congrArg Prod.snd (processOutbound_valid (by decide) rfl)
  · rw [source_consumeTtl, source_setSource]
    decide

end NatMachine

end CourseArchive.HolePunching
