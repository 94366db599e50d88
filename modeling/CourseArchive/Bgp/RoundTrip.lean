import CourseArchive.Bgp.UpdateMessage

/-! What one machine writes into an UPDATE message is what another reads out of it. -/

namespace CourseArchive.Bgp

open Lib

/-- `received` is what arrives when `frame` is sent: the same bytes, in another buffer. -/
def Delivers (frame received : Buffer) : Prop :=
  received.length = frame.length ∧ ∀ k < frame.length, received.data k = frame.data k

lemma Delivers.holds {frame received : Buffer} {N : ℕ} {bs : List UInt8} (h : Delivers frame received)
    (hf : Filled frame N bs) (hN : bs.length ≤ N) : Holds received.data 0 bs :=
  hf.holds.congr fun k _ hk => h.2 k (by have := hf.length; omega)

def Output.Unsent {n : ℕ} : Output n → Prop
  | .sent .. | .stateChanged .. => False
  | .hijacked _ | .undefined => True

namespace SimulatedMachine

variable {n : ℕ} {data : ℕ → UInt8} {off : ℕ} {routes : List HopByHopPath} {p : HopByHopPath}

/-! What `handle_bgp_update` makes of a message. -/

def updateWithdrawals (data : ℕ → UInt8) : List AddressPrefix :=
  withdrawnPrefixes data (headerLength + 2) ((get16 data headerLength).toNat / 5)

def updateRoutes (m : SimulatedMachine n) (data : ℕ → UInt8) (i : Fin n) : List HopByHopPath :=
  m.advertisedPaths data i (headerLength + 4 + (get16 data headerLength).toNat)
    (get16 data (headerLength + 2 + (get16 data headerLength).toNat)).toNat

lemma acceptPath_inv (acc : SimulatedMachine n × List (Output n)) (p : HopByHopPath) :
    (acceptPath acc p).1.asNumber = acc.1.asNumber ∧ (acceptPath acc p).1.ifsmArray = acc.1.ifsmArray ∧
      (∀ q ∈ (acceptPath acc p).1.paths, q ∈ acc.1.paths ∨
        acc.1.asNumber ∉ p.ases ∧ q = { p with ases := acc.1.asNumber :: p.ases }) ∧
      (∀ o ∈ (acceptPath acc p).2, o ∈ acc.2 ∨ o.Unsent) := by
  simp only [acceptPath]
  split
  · exact ⟨rfl, rfl, fun _ h => .inl h, fun _ h => .inl h⟩
  next hloop =>
  split
  · refine ⟨rfl, rfl, fun _ h => .inl h, fun o ho => ?_⟩
    refine (List.mem_append.mp ho).imp id fun h => ?_
    rw [List.mem_singleton.mp h]
    trivial
  · refine ⟨rfl, rfl, fun _ h => .inl h, fun o ho => ?_⟩
    refine (List.mem_append.mp ho).imp id fun h => ?_
    rw [List.mem_singleton.mp h]
    trivial
  split
  · exact ⟨rfl, rfl, fun _ h => .inl h, fun _ h => .inl h⟩
  · refine ⟨rfl, rfl, fun q hq => ?_, fun _ h => .inl h⟩
    rcases List.mem_append.mp hq with hq | hq
    · exact .inl hq
    · exact .inr ⟨by simpa [detectLoop, List.forall_mem_ne'] using hloop, List.mem_singleton.mp hq⟩

lemma foldl_acceptPath_inv (paths : List HopByHopPath) (acc : SimulatedMachine n × List (Output n)) :
    (paths.foldl acceptPath acc).1.asNumber = acc.1.asNumber ∧
      (paths.foldl acceptPath acc).1.ifsmArray = acc.1.ifsmArray ∧
      (∀ q ∈ (paths.foldl acceptPath acc).1.paths, q ∈ acc.1.paths ∨
        ∃ p ∈ paths, acc.1.asNumber ∉ p.ases ∧ q = { p with ases := acc.1.asNumber :: p.ases }) ∧
      (∀ o ∈ (paths.foldl acceptPath acc).2, o ∈ acc.2 ∨ o.Unsent) := by
  induction paths generalizing acc with
  | nil => exact ⟨rfl, rfl, fun _ h => .inl h, fun _ h => .inl h⟩
  | cons p paths ih =>
    obtain ⟨has, hifsm, hpaths, hout⟩ := acceptPath_inv acc p
    obtain ⟨has', hifsm', hpaths', hout'⟩ := ih (acceptPath acc p)
    refine ⟨has'.trans has, hifsm'.trans hifsm, fun q hq => ?_, fun o ho => (hout' o ho).elim (hout o) .inr⟩
    rcases hpaths' q hq with hq | ⟨r, hr, hloop, rfl⟩
    · rcases hpaths q hq with hq | ⟨hloop, rfl⟩
      · exact .inl hq
      · exact .inr ⟨p, List.mem_cons_self, hloop, rfl⟩
    · rw [has] at hloop ⊢
      exact .inr ⟨r, List.mem_cons_of_mem _ hr, hloop, rfl⟩

lemma foldl_emptyTrashPath_ifsmArray (m : SimulatedMachine n) (targets : List AddressPrefix) :
    (targets.foldl emptyTrashPath m).ifsmArray = m.ifsmArray := by
  induction targets generalizing m with
  | nil => rfl
  | cons target targets ih => exact ih (m.emptyTrashPath target)

lemma advertisedPaths_congr {m m' : SimulatedMachine n} (h : m'.ifsmArray = m.ifsmArray) (i : Fin n)
    (doff number : ℕ) : m'.advertisedPaths data i doff number = m.advertisedPaths data i doff number := by
  rw [advertisedPaths, advertisedPaths, h]

lemma advertisedPaths_zero (m : SimulatedMachine n) (i : Fin n) (doff : ℕ) :
    m.advertisedPaths data i doff 0 = [] := rfl

lemma handleBgpUpdate_fst (m : SimulatedMachine n) (frame : Buffer) (i : Fin n) :
    (m.handleBgpUpdate frame i).1 = ((m.updateRoutes frame.data i).foldl acceptPath
      ((updateWithdrawals frame.data).foldl emptyTrashPath m, [])).1 := by
  have hw : (if (get16 frame.data headerLength).toNat ≠ 0 then
      m.handleWithdrawnRoutes frame i (headerLength + 2) ((get16 frame.data headerLength).toNat / 5)
      else (m, [])).1 = (updateWithdrawals frame.data).foldl emptyTrashPath m := by
    split
    · rfl
    · next h =>
      rw [updateWithdrawals, not_ne_iff.mp h]
      rfl
  have hr : m.updateRoutes frame.data i = ((updateWithdrawals frame.data).foldl emptyTrashPath m).advertisedPaths
      frame.data i (headerLength + 4 + (get16 frame.data headerLength).toNat)
      (get16 frame.data (headerLength + 2 + (get16 frame.data headerLength).toNat)).toNat :=
    (advertisedPaths_congr (foldl_emptyTrashPath_ifsmArray m _) i _ _).symm
  rw [hr, ← hw]
  simp only [handleBgpUpdate]
  split
  · rfl
  · next h =>
    rw [not_ne_iff.mp h, advertisedPaths_zero]
    rfl

lemma handleBgpUpdate_of_no_withdrawal (m : SimulatedMachine n) (frame : Buffer) (i : Fin n)
    (h : get16 frame.data headerLength = 0) :
    m.handleBgpUpdate frame i = (m.updateRoutes frame.data i).foldl acceptPath (m, []) := by
  have h₀ : (0 : UInt16).toNat = 0 := rfl
  simp only [handleBgpUpdate, updateRoutes, h, h₀, ne_eq, not_true_eq_false, if_false, handleAdvertisement]
  split
  · simp
  · next hz =>
    rw [not_ne_iff.mp hz, advertisedPaths_zero]
    rfl

/-! Reading. -/

lemma readHops_of_holds (hp : p.ases.length < 2 ^ 16) (h : Holds data off (hopBytes p)) :
    (get16 data off).toNat = p.ases.length ∧ readHops data off = p.ases := by
  obtain ⟨hc, hhops⟩ := Holds.append_iff.mp h
  have hcount : (get16 data off).toNat = p.ases.length := by
    rw [hc.get16, UInt16.toNat_ofNat']
    omega
  refine ⟨hcount, ?_⟩
  rw [readHops, hcount]
  rw [length_be16] at hhops
  generalize p.ases = xs at hhops
  clear hc hcount h hp
  suffices hx : ∀ o, Holds data o (xs.flatMap be16) →
      (List.range xs.length).map (fun j => get16 data (o + j * 2)) = xs by
    refine (List.map_congr_left fun j _ => ?_).trans (hx (off + 2) hhops)
    congr 1
    ring
  clear hhops
  induction xs with
  | nil => simp
  | cons x xs ih =>
    intro o ho
    rw [List.flatMap_cons] at ho
    obtain ⟨h₁, h₂⟩ := Holds.append_iff.mp ho
    rw [List.length_cons, List.range_succ_eq_map, List.map_cons, List.map_map, Nat.zero_mul, Nat.add_zero,
      h₁.get16]
    refine congrArg (x :: ·) ((List.map_congr_left fun j _ => ?_).trans (ih (o + 2) h₂))
    simp only [Function.comp_apply, Nat.succ_eq_add_one]
    congr 1
    ring

lemma readPaths_of_holds (hp : ∀ p ∈ routes, p.ases.length < 2 ^ 16)
    (h : Holds data off (routes.flatMap hopBytes)) :
    readPaths data routes.length off = (routes.map (·.ases), off + attributeLength routes) := by
  induction routes generalizing off with
  | nil => rfl
  | cons p routes ih =>
    rw [List.flatMap_cons] at h
    obtain ⟨h₁, h₂⟩ := Holds.append_iff.mp h
    obtain ⟨hcount, hhops⟩ := readHops_of_holds (hp p List.mem_cons_self) h₁
    rw [length_hopBytes] at h₂
    rw [List.length_cons, readPaths, hcount, hhops, ih (fun q hq => hp q (List.mem_cons_of_mem _ hq)) h₂,
      attributeLength_cons, List.map_cons, Nat.add_assoc]

lemma destination_of_holds (h : Holds data off (routes.flatMap destinationBytes)) {k : ℕ}
    (hk : k < routes.length) :
    (⟨get32 data (off + k * 5), data (off + (k + 1) * 5 - 1)⟩ : AddressPrefix) = routes[k].destination := by
  induction routes generalizing off k with
  | nil => cases hk
  | cons p routes ih =>
    rw [List.flatMap_cons] at h
    obtain ⟨h₁, h₂⟩ := Holds.append_iff.mp h
    cases k with
    | zero =>
      obtain ⟨hip, hmask⟩ := Holds.append_iff.mp h₁
      have hm := hmask 0 (by simp)
      rw [length_be32] at hm
      simp only [Nat.zero_mul, Nat.add_zero, hip.get32, List.getElem_cons_zero, Nat.zero_add, Nat.one_mul] at hm ⊢
      rw [show off + 5 - 1 = off + 4 by omega, hm]
    | succ k =>
      rw [List.getElem_cons_succ, ← ih h₂ (by simpa using hk), length_destinationBytes]
      congr 2 <;> omega

def receivedPath (m : SimulatedMachine n) (i : Fin n) (p : HopByHopPath) : HopByHopPath where
  priority := getIfPriority (m.ifsmArray i).neighborhood
  ases := p.ases
  startInterface := i.val
  destination := p.destination
  advertiser := (m.ifsmArray i).neighborhood

lemma advertisedPaths_of_holds (m : SimulatedMachine n) (i : Fin n) (hp : ∀ p ∈ routes, p.ases.length < 2 ^ 16)
    (h : Holds data off (routes.flatMap hopBytes ++ routes.flatMap destinationBytes)) :
    m.advertisedPaths data i off routes.length = routes.map (m.receivedPath i) := by
  obtain ⟨h₁, h₂⟩ := Holds.append_iff.mp h
  rw [length_flatMap_hopBytes] at h₂
  rw [advertisedPaths, readPaths_of_holds hp h₁]
  refine List.ext_getElem (by simp) fun k hk _ => ?_
  have hd := destination_of_holds h₂ (k := k) (by simpa using hk)
  simp only [List.getElem_map, List.getElem_zipIdx, Nat.zero_add, receivedPath, hd]

lemma mem_advertisedPaths {m : SimulatedMachine n} {i : Fin n} {number : ℕ} {q : HopByHopPath}
    (hp : ∀ p ∈ routes, p.ases.length < 2 ^ 16) (h : Holds data off (routes.flatMap hopBytes))
    (hn : number ≤ routes.length) (hq : q ∈ m.advertisedPaths data i off number) :
    ∃ p ∈ routes, q.ases = p.ases ∧ q.startInterface = i.val ∧ q.advertiser = (m.ifsmArray i).neighborhood := by
  have hlen : (routes.take number).length = number := by rw [List.length_take, Nat.min_eq_left hn]
  rw [← List.take_append_drop number routes, List.flatMap_append] at h
  have hread := readPaths_of_holds (fun p hm => hp p (List.mem_of_mem_take hm)) (Holds.append_iff.mp h).1
  rw [hlen] at hread
  rw [advertisedPaths, hread] at hq
  obtain ⟨e, he, rfl⟩ := List.mem_map.mp hq
  obtain ⟨p, hm, he⟩ := List.mem_map.mp (List.fst_mem_of_mem_zipIdx he)
  exact ⟨p, List.mem_of_mem_take hm, he.symm, rfl, rfl⟩

lemma holds_updateBytes (h : Holds data headerLength (updateBytes routes)) :
    get16 data headerLength = 0 ∧ get16 data (headerLength + 2) = UInt16.ofNat routes.length ∧
      Holds data (headerLength + 4) (routes.flatMap hopBytes ++ routes.flatMap destinationBytes) := by
  rw [updateBytes, List.append_assoc, List.append_assoc] at h
  obtain ⟨h₀, h⟩ := Holds.append_iff.mp h
  obtain ⟨h₁, h⟩ := Holds.append_iff.mp h
  exact ⟨h₀.get16, h₁.get16, h⟩

lemma updateRoutes_of_holds (m : SimulatedMachine n) (i : Fin n) (hn : routes.length < 2 ^ 16)
    (hp : ∀ p ∈ routes, p.ases.length < 2 ^ 16) (h : Holds data headerLength (updateBytes routes)) :
    m.updateRoutes data i = routes.map (m.receivedPath i) := by
  obtain ⟨hw, hcount, hroutes⟩ := holds_updateBytes h
  have hlen : (UInt16.ofNat routes.length).toNat = routes.length := by
    rw [UInt16.toNat_ofNat']
    omega
  have h₀ : (0 : UInt16).toNat = 0 := rfl
  rw [updateRoutes, hw, h₀, Nat.add_zero, Nat.add_zero, hcount, hlen, advertisedPaths_of_holds m i hp hroutes]

lemma packet_filled (bytes : List UInt8) : Filled (packet bytes) bytes.length bytes where
  length := rfl
  holds := by
    change Holds (store (fun _ => 0) 0 bytes) 0 bytes
    exact .store bytes

lemma withdrawMessage_filled (m : SimulatedMachine n) (target : AddressPrefix) (i : Fin n) :
    ∃ headers : List UInt8, headers.length = headerLength ∧ Filled (m.withdrawMessage target i) (headerLength + 9)
      (headers ++ (be16 5 ++ be32 target.ip ++ [target.mask] ++ be16 0)) :=
  ⟨makeEthernethdr ++ makeIphdr (m.ifaceIp i) (m.ifsmArray i).neighborIp (20 + 19 + 9) ++ makeBgphdr (19 + 9) 2,
    rfl, packet_filled _⟩

lemma updateWithdrawals_of_holds {headers : List UInt8} {target : AddressPrefix}
    (hl : headers.length = headerLength)
    (h : Holds data 0 (headers ++ (be16 5 ++ be32 target.ip ++ [target.mask] ++ be16 0))) :
    get16 data headerLength = 5 ∧ updateWithdrawals data = [target] ∧ get16 data (headerLength + 2 + 5) = 0 := by
  obtain ⟨-, h⟩ := Holds.append_iff.mp h
  rw [Nat.zero_add, hl] at h
  obtain ⟨h, htpal⟩ := Holds.append_iff.mp h
  obtain ⟨h, hmask⟩ := Holds.append_iff.mp h
  obtain ⟨hwrl, hip⟩ := Holds.append_iff.mp h
  have hm := hmask 0 (by simp)
  simp only [List.length_append, length_be16, length_be32, List.length_singleton, List.getElem_cons_zero,
    Nat.add_zero] at hip hm htpal
  refine ⟨hwrl.get16, ?_, htpal.get16⟩
  have h₅ : (5 : UInt16).toNat / 5 = 1 := rfl
  rw [updateWithdrawals, hwrl.get16, h₅, withdrawnPrefixes, List.range_one, List.map_singleton, Nat.zero_mul,
    Nat.add_zero, hip.get32, Nat.zero_add, Nat.one_mul, show headerLength + 2 + 5 - 1 =
    headerLength + (2 + 4) from rfl,
    hm]

/-- An UPDATE frame shorter than `2 ^ 31` bytes gives back exactly the routes that it was built from, in their
order and with nothing withdrawn, and the message of `withdraw` gives back exactly its prefix. -/
theorem update_round_trip {n' : ℕ} (sender : SimulatedMachine n) (i : Fin n) (memory : ℕ → UInt8)
    (receiver : SimulatedMachine n') (j : Fin n') (routes : List HopByHopPath) (target : AddressPrefix)
    (hn : routes.length < 2 ^ 16) (hp : ∀ p ∈ routes, p.ases.length < 2 ^ 16)
    (hsize : updateLength routes < 2 ^ 31) :
    (∃ frame, sender.updateMessage i memory routes = some frame ∧ ∀ received, Delivers frame received →
      updateWithdrawals received.data = [] ∧
      receiver.updateRoutes received.data j = routes.map (receiver.receivedPath j) ∧
      receiver.handleBgpUpdate received j =
        (routes.map (receiver.receivedPath j)).foldl acceptPath (receiver, [])) ∧
    ∀ received, Delivers (sender.withdrawMessage target i) received →
      updateWithdrawals received.data = [target] ∧ receiver.updateRoutes received.data j = [] ∧
      (receiver.handleBgpUpdate received j).1 = receiver.emptyTrashPath target := by
  constructor
  · obtain ⟨frame, hframe, hf⟩ := updateMessage_filled sender i memory hp hsize
    refine ⟨frame, hframe, fun received hr => ?_⟩
    have hl := length_updateHeaders sender i routes
    have h := hr.holds hf (by rw [List.length_append, hl, length_updateBytes])
    have hbody := (Holds.append_iff.mp h).2
    rw [Nat.zero_add, hl] at hbody
    have hw := (holds_updateBytes hbody).1
    have hroutes := updateRoutes_of_holds receiver j hn hp hbody
    exact ⟨by rw [updateWithdrawals, hw]; rfl, hroutes,
      by rw [handleBgpUpdate_of_no_withdrawal _ _ _ hw, hroutes]⟩
  · intro received hr
    obtain ⟨headers, hl, hf⟩ := withdrawMessage_filled sender target i
    have h := hr.holds hf (by rw [List.length_append, hl]; rfl)
    obtain ⟨hwrl, hw, htpal⟩ := updateWithdrawals_of_holds hl h
    have hroutes : receiver.updateRoutes received.data j = [] := by
      rw [updateRoutes, hwrl, show (5 : UInt16).toNat = 5 from rfl, htpal]
      rfl
    exact ⟨hw, hroutes, by rw [handleBgpUpdate_fst, hroutes, hw]; rfl⟩

def smallMachine : SimulatedMachine 1 :=
  initializeMachine ⟨fun _ => 1, 7, [⟨167772160, 8⟩], fun _ => 2, fun _ => .customer⟩ fun _ => 0

theorem update_round_trip_small :
    (∃ frame, smallMachine.updateMessage 0 (fun _ => 0) smallMachine.paths = some frame ∧
      ∀ received, Delivers frame received → updateWithdrawals received.data = [] ∧
      smallMachine.updateRoutes received.data 0 = smallMachine.paths.map (smallMachine.receivedPath 0) ∧
      smallMachine.handleBgpUpdate received 0 =
        (smallMachine.paths.map (smallMachine.receivedPath 0)).foldl acceptPath (smallMachine, [])) ∧
    ∀ received, Delivers (smallMachine.withdrawMessage ⟨167772160, 8⟩ 0) received →
      updateWithdrawals received.data = [⟨167772160, 8⟩] ∧ smallMachine.updateRoutes received.data 0 = [] ∧
      (smallMachine.handleBgpUpdate received 0).1 = smallMachine.emptyTrashPath ⟨167772160, 8⟩ :=
  update_round_trip smallMachine 0 (fun _ => 0) smallMachine 0 smallMachine.paths ⟨167772160, 8⟩
    (by decide) (by decide) (by decide)

def hugeTable : List HopByHopPath :=
  List.replicate 65535 ⟨0, List.replicate 65535 1, 0, ⟨167772160, 8⟩, .myAsset⟩

theorem huge_update_not_built :
    hugeTable.length < 2 ^ 16 ∧ (∀ p ∈ hugeTable, p.ases.length < 2 ^ 16) ∧
      smallMachine.updateMessage 0 (fun _ => 0) hugeTable = none := by
  have hp : ∀ p ∈ hugeTable, p.ases.length < 2 ^ 16 := by
    intro p h
    rw [List.eq_of_mem_replicate h, List.length_replicate]
    norm_num
  refine ⟨by rw [hugeTable, List.length_replicate]; norm_num, hp, ?_⟩
  rw [Option.eq_none_iff_forall_ne_some]
  intro frame h
  have hlt := updateLength_lt_of_updateMessage hp h
  have hsum : attributeLength hugeTable = 65535 * (2 + 65535 * 2) := by
    rw [attributeLength, hugeTable, List.map_replicate, List.sum_replicate, List.length_replicate, smul_eq_mul]
  rw [updateLength, hsum] at hlt
  omega

end SimulatedMachine

end CourseArchive.Bgp
