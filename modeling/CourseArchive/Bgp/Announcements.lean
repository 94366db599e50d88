import CourseArchive.Bgp.Session

/-! The frames by which a machine announces its routes are updates, as long as no route of the table has more hops
than a frame can have brought. -/

namespace CourseArchive.Bgp

open Lib

lemma memcpy_holds {b b' : Buffer} {off : ℤ} {lo : ℕ} {xs bytes : List UInt8} (h : b.memcpy off bytes = some b')
    (hlo : lo + xs.length ≤ off) (hx : Holds b.data lo xs) : Holds b'.data lo xs := by
  rw [Buffer.memcpy] at h
  split_ifs at h
  obtain rfl := Option.some_injective _ h
  exact hx.store_of_le (by omega)

lemma foldlM_keeps {α β : Type} {f : β → α → Option β} (P : β → Prop) (hf : ∀ b a b', P b → f b a = some b' → P b')
    {l : List α} {b b' : β} (hb : P b) (h : l.foldlM f b = some b') : P b' := by
  induction l generalizing b with
  | nil =>
    obtain rfl := Option.some_injective _ h
    exact hb
  | cons a l ih =>
    rw [List.foldlM_cons] at h
    obtain ⟨b₁, h₁, h⟩ := Option.bind_eq_some_iff.mp h
    exact ih (hf b a b₁ hb h₁) h

namespace SimulatedMachine

variable {n : ℕ} {m : SimulatedMachine n} {b b' : Buffer} {p : HopByHopPath} {routes : List HopByHopPath}
  {offset o : ℤ}
  {xs : List UInt8} {N : ℕ}

structure Headed (xs : List UInt8) (N : ℕ) (b : Buffer) : Prop where
  length : b.length = N
  holds : Holds b.data 34 xs

lemma Headed.memcpy {off : ℤ} {bytes : List UInt8} (h : Headed xs N b) (hb : b.memcpy off bytes = some b')
    (ho : 34 + xs.length ≤ off) : Headed xs N b' :=
  ⟨(Buffer.memcpy_inv hb).2.2.trans h.length, memcpy_holds hb (by push_cast; omega) h.holds⟩

def ShortPaths (routes : List HopByHopPath) : Prop := ∀ p ∈ routes, p.ases.length ≤ 2 ^ 16

lemma Headed.writePath (h : Headed xs N b) (hx : xs.length = 19) (h₀ : 0 ≤ offset)
    (hw : writePath b offset p = some (b', o)) :
    Headed xs N b' ∧ offset + 59 ≤ N ∧ o = toInt (offset + p.ases.length * 2 + 2) := by
  obtain ⟨b₁, h₁, hw⟩ := Option.bind_eq_some_iff.mp hw
  obtain ⟨b₂, h₂, hw⟩ := Option.bind_eq_some_iff.mp hw
  obtain ⟨rfl, rfl⟩ := Prod.mk_inj.mp (Option.some_injective _ hw)
  have hin := (Buffer.memcpy_inv h₁).2.1
  rw [length_be16, h.length] at hin
  simp only [headerLength] at hin h₁ h₂
  refine ⟨?_, by push_cast at hin; omega, rfl⟩
  refine foldlM_keeps (Headed xs N) (fun b j b' hb hb' => hb.memcpy hb' ?_) (h.memcpy h₁ ?_) h₂
  · rw [hx]
    push_cast
    omega
  · rw [hx]
    push_cast
    omega

lemma toInt_of_ge {x : ℤ} (h : 2 ^ 31 ≤ x) (h' : x < 2 ^ 32) : toInt x = x - 2 ^ 32 := by
  rw [toInt, Int.bmod_eq_emod]
  split_ifs <;> omega

lemma toInt_lt (x : ℤ) : toInt x < 2 ^ 31 := by
  rw [toInt, Int.bmod_eq_emod]
  split_ifs <;> omega

lemma writePath_of_neg (h : offset < -61) : writePath b offset p = none := by
  have hnone : b.memcpy (headerLength + 4 + offset) (be16 (UInt16.ofNat p.ases.length)) = none := by
    rw [Buffer.memcpy, if_neg (by simp only [headerLength]; omega)]
  rw [writePath, hnone]
  rfl

lemma Headed.writePaths {raw : ℕ} (h : Headed xs N b) (hx : xs.length = 19) (hN : N < 2 ^ 31)
    (hp : ShortPaths routes) (hraw : raw < 2 ^ 31)
    (hw : routes.foldlM (fun (acc : Buffer × ℤ) item => SimulatedMachine.writePath acc.1 acc.2 item)
      (b, (raw : ℤ)) = some (b', o)) :
    Headed xs N b' ∧ (raw + attributeLength routes < 2 ^ 31 ∨
      raw + attributeLength routes < 2 ^ 31 + 2 ^ 18 ∧ 2 ^ 31 ≤ N + 2 ^ 18) := by
  -- the offset never runs through the negative numbers into the header: where it leaves an `int`, it is the last
  -- one and the buffer nearly the largest there is
  induction routes generalizing b raw with
  | nil =>
    obtain ⟨rfl, -⟩ := Prod.mk_inj.mp (Option.some_injective _ hw)
    exact ⟨h, .inl hraw⟩
  | cons p routes ih =>
    rw [List.foldlM_cons] at hw
    obtain ⟨⟨b₁, o₁⟩, h₁, hw⟩ := Option.bind_eq_some_iff.mp hw
    obtain ⟨hb₁, hin, ho₁⟩ := h.writePath hx (by omega) h₁
    have hlen := hp p List.mem_cons_self
    rw [attributeLength_cons]
    by_cases hlt : raw + p.ases.length * 2 + 2 < 2 ^ 31
    · have ho : o₁ = (raw + p.ases.length * 2 + 2 : ℕ) := by
        rw [ho₁, toInt_of_lt (by omega) (by omega)]
        push_cast
        rfl
      rw [ho] at hw
      obtain ⟨hb', hor⟩ := ih hb₁ (fun q hq => hp q (List.mem_cons_of_mem _ hq)) hlt hw
      exact ⟨hb', by omega⟩
    · have ho : o₁ < -61 := by
        rw [ho₁, toInt_of_ge (by omega) (by omega)]
        omega
      cases routes with
      | nil =>
        obtain ⟨rfl, -⟩ := Prod.mk_inj.mp (Option.some_injective _ hw)
        rw [attributeLength_nil]
        exact ⟨hb₁, by omega⟩
      | cons q routes =>
        rw [List.foldlM_cons, writePath_of_neg ho] at hw
        cases hw

lemma updateMessage_headed {i : Fin n} {memory : ℕ → UInt8} (hp : ShortPaths routes)
    (h : m.updateMessage i memory routes = some b) :
    headerLength ≤ b.length ∧ ∃ len, Holds b.data 34 (makeBgphdr len 2) := by
  rw [updateMessage, pal_eq] at h
  obtain ⟨dataLength, hdata, h⟩ := Option.bind_eq_some_iff.mp h
  obtain ⟨packetLength, hpacket, h⟩ := Option.bind_eq_some_iff.mp h
  obtain ⟨b₀, h₀, h⟩ := Option.bind_eq_some_iff.mp h
  obtain ⟨b₁, h₁, h⟩ := Option.bind_eq_some_iff.mp h
  obtain ⟨b₂, h₂, h⟩ := Option.bind_eq_some_iff.mp h
  obtain ⟨b₃, h₃, h⟩ := Option.bind_eq_some_iff.mp h
  obtain ⟨b₄, h₄, h⟩ := Option.bind_eq_some_iff.mp h
  obtain ⟨b₅, h₅, h⟩ := Option.bind_eq_some_iff.mp h
  obtain ⟨⟨b₆, o⟩, h₆, h₇⟩ := Option.bind_eq_some_iff.mp h
  have hdata := (intSum_inv hdata).1
  obtain ⟨hpacket, hlt⟩ := intSum_inv hpacket
  have hlen₀ : (b₀.length : ℤ) = packetLength := by
    rw [newBuffer] at h₀
    split_ifs at h₀ with hpos
    obtain rfl := Option.some_injective _ h₀
    exact Int.toNat_of_nonneg hpos
  obtain ⟨-, -, e₁⟩ := Buffer.memcpy_inv h₁
  obtain ⟨-, -, e₂⟩ := Buffer.memcpy_inv h₂
  obtain ⟨-, hin, e₃⟩ := Buffer.memcpy_inv h₃
  rw [length_makeBgphdr, ← e₃] at hin
  have hlen : headerLength ≤ b₃.length := by exact_mod_cast hin
  set xs := makeBgphdr (UInt16.ofInt (19 + dataLength)) 2 with hxs
  have hx : xs.length = 19 := length_makeBgphdr _ _
  have hb₃ : Headed xs b₃.length b₃ := by
    refine ⟨rfl, ?_⟩
    rw [Buffer.memcpy] at h₃
    split_ifs at h₃
    obtain rfl := Option.some_injective _ h₃
    exact .store xs
  have hb₄ := hb₃.memcpy h₄ (by rw [hx]; simp [headerLength])
  have hb₅ := hb₄.memcpy h₅ (by rw [hx]; simp [headerLength])
  obtain ⟨hb₆, hor⟩ := hb₅.writePaths hx (by omega) hp (by norm_num : (0 : ℕ) < 2 ^ 31) h₆
  have hpal : 0 ≤ toInt (attributeLength routes) := by
    have hnlri := toInt_lt (routes.length * 5)
    rcases hor with hor | ⟨hor, hlong⟩
    · rw [toInt_of_lt (by omega) (by omega)]
      omega
    · by_cases hfit : attributeLength routes < 2 ^ 31
      · rw [toInt_of_lt (by omega) (by omega)]
        omega
      · have hwrap := toInt_of_ge (by omega : (2 ^ 31 : ℤ) ≤ attributeLength routes) (by omega)
        simp only [headerLength] at hpacket
        omega
  have hb := foldlM_keeps (Headed xs b₃.length) (fun b e b' hb hb' => ?_) hb₆ h₇
  · exact ⟨hlen.trans hb.length.ge, UInt16.ofInt (19 + dataLength), hb.holds⟩
  · rw [writeDestination] at hb'
    obtain ⟨c, hc, hb'⟩ := Option.bind_eq_some_iff.mp hb'
    refine (hb.memcpy hc ?_).memcpy hb' ?_
    · rw [hx]
      simp only [headerLength]
      push_cast
      omega
    · rw [hx]
      simp only [headerLength]
      push_cast
      omega

/-! The routes of a table stay short. -/

lemma readPaths_short {data : ℕ → UInt8} (number off : ℕ) :
    ∀ hops ∈ (readPaths data number off).1, hops.length < 2 ^ 16 := by
  induction number generalizing off with
  | zero => simp [readPaths]
  | succ number ih =>
    intro hops hmem
    rcases List.mem_cons.mp hmem with rfl | hmem
    · rw [readHops, List.length_map, List.length_range]
      exact (get16 data off).toNat_lt
    · exact ih _ hops hmem

lemma advertisedPaths_short {data : ℕ → UInt8} {i : Fin n} {doff number : ℕ}
    (h : p ∈ m.advertisedPaths data i doff number) : p.ases.length < 2 ^ 16 := by
  obtain ⟨entry, hentry, rfl⟩ := List.mem_map.mp h
  exact readPaths_short number doff _ (List.fst_mem_of_mem_zipIdx hentry)

lemma handleBgpUpdate_short (frame : Buffer) (i : Fin n) (h : ShortPaths m.paths) :
    ShortPaths (m.handleBgpUpdate frame i).1.paths := by
  have hempty : ∀ (targets : List AddressPrefix) (a : SimulatedMachine n), ShortPaths a.paths →
      ShortPaths (targets.foldl emptyTrashPath a).paths := by
    intro targets
    induction targets with
    | nil => exact fun a ha => ha
    | cons target targets ih => exact fun a ha => ih _ fun p hp => ha p (List.mem_of_mem_filter hp)
  intro q hq
  rw [handleBgpUpdate_fst] at hq
  rcases (foldl_acceptPath_inv _ _).2.2.1 q hq with hq | ⟨r, hr, -, rfl⟩
  · exact hempty _ m h q hq
  · have := advertisedPaths_short hr
    rw [List.length_cons]
    omega

lemma processFrame_short (frame : Buffer) (i : Fin n) (h : ShortPaths m.paths) :
    ShortPaths (m.processFrame frame i).1.paths := by
  rw [processFrame]
  by_cases hidle : (m.ifsmArray i).currentState = .idle
  · rwa [if_pos hidle]
  rw [if_neg hidle]
  cases detectTypeOfPacket frame.data with
  | update =>
    dsimp only
    split_ifs
    · exact handleBgpUpdate_short frame i h
    · exact h
  | invalid => exact h
  | syn | ack | synAck | keepalive | bgpOpen =>
    dsimp only
    split_ifs <;> exact h

lemma settingPriority_short {ifaceIndex priority : ℤ} (h : ShortPaths m.paths) :
    ShortPaths (m.settingPriority ifaceIndex priority).paths := by
  intro p hp
  obtain ⟨q, hq, rfl⟩ := List.mem_map.mp hp
  have hases : (if q.startInterface = ifaceIndex then { q with priority } else q).ases = q.ases := by
    split_ifs <;> rfl
  rw [hases]
  exact h q hq

lemma startConnection_paths (m : SimulatedMachine n) (i : Fin n) : (m.startConnection i).1.paths = m.paths := by
  rw [startConnection]
  split_ifs <;> rfl

lemma tickHold_paths (m : SimulatedMachine n) (i : Fin n) : (m.tickHold i).1.paths = m.paths := by
  rw [tickHold]
  dsimp only
  split_ifs <;> rfl

lemma tickConnect_paths (m : SimulatedMachine n) (i : Fin n) : (m.tickConnect i).1.paths = m.paths := by
  rw [tickConnect]
  dsimp only
  split_ifs <;> rfl

lemma tickActive_paths (m : SimulatedMachine n) (i : Fin n) : (m.tickActive i).1.paths = m.paths := by
  rw [tickActive]
  dsimp only
  split_ifs <;> rfl

lemma tickInterface_paths (m : SimulatedMachine n) (i : Fin n) : (m.tickInterface i).1.paths = m.paths := by
  rw [tickInterface]
  dsimp only
  split_ifs
  · rw [tickConnect_paths, tickHold_paths]
  · rw [tickActive_paths, tickConnect_paths, tickHold_paths]

lemma manageTime_paths (m : SimulatedMachine n) : m.manageTime.1.paths = m.paths := by
  rw [manageTime]
  suffices h : ∀ (l : List (Fin n)) (acc : SimulatedMachine n × List (Output n)),
      (l.foldl (fun acc i => ((acc.1.tickInterface i).1, acc.2 ++ (acc.1.tickInterface i).2)) acc).1.paths =
        acc.1.paths from h _ _
  intro l
  induction l with
  | nil => exact fun _ => rfl
  | cons i l ih => exact fun acc => (ih _).trans (tickInterface_paths _ _)

/-! What shows of a command at an interface. -/

lemma frameType_update {len : UInt16} (hlen : headerLength ≤ b.length) (h : Holds b.data 34 (makeBgphdr len 2)) :
    frameType b = .update := by
  rw [frameType, if_pos hlen, detectTypeOfPacket_bgp h]
  rfl

lemma signals_updates {l : List (Fin n)} {out : List (Output n)} (hl : l.Nodup)
    (h : List.Forall₂ (fun j o => ∃ frame, o = .sent j frame ∧ frameType frame = .update) l out) (i : Fin n) :
    signals i out = if i ∈ l then [.sent .update] else [] := by
  induction h with
  | nil => rfl
  | @cons j o l out ho hrest ih =>
    obtain ⟨frame, rfl, htype⟩ := ho
    obtain ⟨hj, hl⟩ := List.nodup_cons.mp hl
    have ih := ih hl
    by_cases hij : i = j
    · subst hij
      rw [if_neg hj] at ih
      rw [if_pos List.mem_cons_self, ← List.singleton_append, signals_append, ih]
      simp [signals, signal, htype]
    · have hmem : i ∈ j :: l ↔ i ∈ l := by simp [hij]
      rw [← List.singleton_append, signals_append, ih, if_congr hmem rfl rfl]
      simp [signals, signal, Ne.symm hij]

lemma mem_ifacesIn {state : BgpState} {i : Fin n} :
    i ∈ m.ifacesIn state ↔ (m.ifsmArray i).currentState = state := by
  simp [ifacesIn]

lemma ifacesIn_nodup (m : SimulatedMachine n) (state : BgpState) : (m.ifacesIn state).Nodup :=
  (List.nodup_finRange n).filter _

lemma signals_flooded (m : SimulatedMachine n) (ipLength bgpLength : UInt16) (body : List UInt8) (i : Fin n) :
    signals i ((m.ifacesIn .established).map fun j => .sent j (packet (makeEthernethdr ++
      makeIphdr (m.ifaceIp j) (m.ifsmArray j).neighborIp ipLength ++ makeBgphdr bgpLength 2 ++ body))) =
      if (m.ifsmArray i).currentState = .established then [.sent .update] else [] := by
  rw [← if_congr (mem_ifacesIn (m := m)) rfl rfl]
  refine signals_updates (m.ifacesIn_nodup _) ?_ i
  rw [List.forall₂_map_right_iff, List.forall₂_same]
  intro j _
  have h := packet_after_headers (m.ifaceIp j) (m.ifsmArray j).neighborIp ipLength (makeBgphdr bgpLength 2 ++ body)
  rw [← List.append_assoc] at h
  refine ⟨_, rfl, frameType_update ?_ (Holds.append_iff.mp h).1⟩
  simp [packet, headerLength, makeEthernethdr, makeIphdr, makeBgphdr]
  omega

lemma signals_withdraw (m : SimulatedMachine n) (target : AddressPrefix) (i : Fin n) :
    signals i (m.withdraw target).2 =
    if (m.ifsmArray i).currentState = .established then [.sent .update] else [] :=
  m.signals_flooded _ _ _ i

lemma signals_highjack (m : SimulatedMachine n) (target : AddressPrefix) (i : Fin n) :
    signals i (m.highjack target) = if (m.ifsmArray i).currentState = .established then [.sent .update] else [] :=
  m.signals_flooded _ _ _ i

lemma signals_advertise {memory : Fin n → ℕ → UInt8} {out : List (Output n)} (hp : ShortPaths m.paths)
    (h : m.advertise memory = some out) (i : Fin n) :
    signals i out = if (m.ifsmArray i).currentState = .established then [.sent .update] else [] := by
  rw [← if_congr (mem_ifacesIn (m := m)) rfl rfl]
  refine signals_updates (m.ifacesIn_nodup _) ?_ i
  rw [advertise] at h
  generalize m.ifacesIn .established = l at h ⊢
  induction l generalizing out with
  | nil =>
    obtain rfl := Option.some_injective _ h
    exact .nil
  | cons j l ih =>
    rw [List.mapM_cons] at h
    obtain ⟨o, ho, h⟩ := Option.bind_eq_some_iff.mp h
    obtain ⟨out, hout, h⟩ := Option.bind_eq_some_iff.mp h
    obtain rfl := Option.some_injective _ h
    obtain ⟨frame, hframe, rfl⟩ := Option.map_eq_some_iff.mp ho
    obtain ⟨hlen, len, hheader⟩ := updateMessage_headed (fun p hp' => hp p (List.mem_of_mem_filter hp')) hframe
    exact .cons ⟨frame, rfl, frameType_update hlen hheader⟩ (ih hout)

end SimulatedMachine

end CourseArchive.Bgp
