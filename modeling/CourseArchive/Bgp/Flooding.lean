import CourseArchive.Bgp.Network
import CourseArchive.Lib.Cascade

/-! The flooding of a withdrawal: in which topologies its deliveries come to an end. -/

namespace CourseArchive.Bgp

open Lib SimulatedMachine Relation

variable {M : Type} {T : Topology M} {target : AddressPrefix}

namespace Topology

def forwards (T : Topology M) (d : T.Port) : List T.Port :=
  ((List.finRange (T.count d.1)).filter (· ≠ d.2)).map fun j => T.link ⟨d.1, j⟩

def NoReturn (T : Topology M) (m : M) : Prop :=
  ∀ j d, ReflTransGen (fun d d' => d' ∈ T.forwards d) (T.link ⟨m, j⟩) d →
    ¬TransGen (fun d d' => d' ∈ T.forwards d) d d

end Topology

structure WithdrawFrame (target : AddressPrefix) (frame : Buffer) : Prop where
  length : frame.length = 62
  holds : Holds frame.data 34 (makeBgphdr (19 + 9) 2 ++ (be16 5 ++ be32 target.ip ++ [target.mask] ++ be16 0))

lemma withdrawFrame_withdrawMessage {n : ℕ} (m : SimulatedMachine n) (target : AddressPrefix) (i : Fin n) :
    WithdrawFrame target (m.withdrawMessage target i) where
  length := rfl
  holds := by
    have h := (packet_filled
      (makeEthernethdr ++ makeIphdr (m.ifaceIp i) (m.ifsmArray i).neighborIp (20 + 19 + 9) ++
      makeBgphdr (19 + 9) 2 ++ (be16 5 ++ be32 target.ip ++ [target.mask] ++ be16 0))).holds
    rw [List.append_assoc] at h
    exact (Holds.append_iff.mp h).2

namespace WithdrawFrame

variable {frame frame' : Buffer}

lemma delivers (h : WithdrawFrame target frame) (hd : Delivers frame frame') : WithdrawFrame target frame' where
  length := hd.1.trans h.length
  holds := h.holds.congr fun k _ hk => hd.2 k (by
    rw [h.length]
    simp only [List.length_append, length_makeBgphdr, length_be16, length_be32, List.length_singleton] at hk
    omega)

lemma rewritten (h : WithdrawFrame target frame) (src dst : UInt32) (len : UInt16) :
    WithdrawFrame target { frame with data := store frame.data 14 (makeIphdr src dst len) } where
  length := h.length
  holds := h.holds.store_of_ge (by rw [length_makeIphdr])

end WithdrawFrame

lemma processFrame_withdrawFrame {n : ℕ} {m : SimulatedMachine n} {frame : Buffer} {i : Fin n}
    (h : WithdrawFrame target frame) (he : (m.ifsmArray i).currentState = .established) :
    ∃ copy : Fin n → Buffer, (∀ j, WithdrawFrame target (copy j)) ∧
      m.processFrame frame i = ((m.emptyTrashPath target).setIfsm i { m.ifsmArray i with ht := maxHT },
        ((List.finRange n).filter (· ≠ i)).map fun j => .sent j (copy j)) := by
  obtain ⟨hhdr, hbody⟩ := Holds.append_iff.mp h.holds
  rw [length_makeBgphdr] at hbody
  obtain ⟨hbody, htpal⟩ := Holds.append_iff.mp hbody
  obtain ⟨hbody, hmask⟩ := Holds.append_iff.mp hbody
  obtain ⟨hwrl, hip⟩ := Holds.append_iff.mp hbody
  have hm := hmask 0 (by simp)
  simp only [List.length_append, length_be16, length_be32, List.length_singleton, List.getElem_cons_zero,
    Nat.add_zero] at hip hm htpal
  have hprefix : withdrawnPrefixes frame.data (headerLength + 2) 1 = [target] := by
    rw [withdrawnPrefixes, List.range_one, List.map_singleton, Nat.zero_mul, Nat.add_zero, Nat.zero_add,
      Nat.one_mul]
    rw [show headerLength + 2 = 34 + 19 + 2 from rfl, hip.get32,
      show 34 + 19 + 2 + 5 - 1 = 34 + 19 + (2 + 4) from rfl,
      hm]
  have hw : (get16 frame.data headerLength).toNat = 5 := by
    rw [show headerLength = 34 + 19 from rfl, hwrl.get16]
    rfl
  have ht : (get16 frame.data (headerLength + 2 + 5)).toNat = 0 := by
    rw [show headerLength + 2 + 5 = 34 + 19 + (2 + 4 + 1) from rfl, htpal.get16]
    rfl
  refine ⟨fun j => { frame with data := store frame.data 14 (makeIphdr (m.ifaceIp j) (m.ifsmArray j).neighborIp
    (get16 frame.data (14 + 2))) }, fun j => h.rewritten _ _ _, ?_⟩
  have hu : m.handleBgpUpdate frame i = m.handleWithdrawnRoutes frame i (headerLength + 2) 1 := by
    simp only [handleBgpUpdate, hw, ht]
    rfl
  rw [processFrame_update hhdr he, hu]
  simp only [handleWithdrawnRoutes, hprefix, List.foldl_cons, List.foldl_nil]
  rfl

namespace Network

structure Flooding (target : AddressPrefix) (s : Network T) : Prop where
  established : ∀ m i, ((s.machine m).ifsmArray i).currentState = .established
  frames : ∀ e ∈ s.inFlight, WithdrawFrame target e.2

def ports (s : Network T) : List T.Port := s.inFlight.map (·.1)

lemma emitted_map {m : M} (js : List (Fin (T.count m))) (copy : Fin (T.count m) → Buffer) :
    emitted T m (js.map fun j => .sent j (copy j)) = js.map fun j => (T.link ⟨m, j⟩, copy j) := by
  rw [emitted, List.filterMap_map]
  exact congrFun List.filterMap_eq_map js

variable [DecidableEq M] {s t : Network T}

lemma Flooding.deliver {pre post : List (T.Port × Buffer)} {d : T.Port} {frame : Buffer} (h : s.Flooding target)
    (he : s.inFlight = pre ++ (d, frame) :: post) (tail : ℕ → UInt8)
    (hm : t.machine = Function.update s.machine d.1 ((s.machine d.1).processFrame (received frame tail) d.2).1)
    (hf : t.inFlight = pre ++ post ++ emitted T d.1 ((s.machine d.1).processFrame (received frame tail) d.2).2) :
    t.Flooding target ∧ t.ports = pre.map (·.1) ++ post.map (·.1) ++ T.forwards d := by
  have hframe := (h.frames (d, frame) (by simp [he])).delivers (delivers_received frame tail)
  obtain ⟨copy, hcopy, hp⟩ := processFrame_withdrawFrame hframe (h.established d.1 d.2)
  rw [hp] at hm hf
  rw [emitted_map] at hf
  refine ⟨⟨?_, ?_⟩, ?_⟩
  · intro m i
    rw [hm]
    rcases eq_or_ne m d.1 with rfl | hne
    · rw [Function.update_self]
      simp only [setIfsm, put_apply]
      split
      · exact h.established d.1 d.2
      · exact h.established d.1 i
    · rw [Function.update_of_ne hne]
      exact h.established m i
  · intro e hmem
    rw [hf, List.mem_append] at hmem
    rcases hmem with hmem | hmem
    · refine h.frames e ?_
      rw [he]
      simp only [List.mem_append, List.mem_cons] at hmem ⊢
      tauto
    · obtain ⟨j, -, rfl⟩ := List.mem_map.mp hmem
      exact hcopy j
  · simp [ports, hf, Topology.forwards]

lemma acc_delivery_iff (h : s.Flooding target) :
    Acc (fun v u => Delivery u v) s ↔ ∀ d ∈ s.ports, Acc (Succeeds T.forwards) d := by
  constructor
  · intro hacc
    induction hacc with
    | intro s _ ih =>
      intro d hd
      obtain ⟨⟨d, frame⟩, hmem, rfl⟩ := List.mem_map.mp hd
      obtain ⟨pre, post, he⟩ := List.append_of_mem hmem
      obtain ⟨t, hstep, hm, hf⟩ := exists_deliver he fun _ => 0
      obtain ⟨ht, hports⟩ := h.deliver he (fun _ => 0) hm hf
      refine ⟨d, fun b hb => ih _ ⟨_, _, hstep⟩ ht b ?_⟩
      rw [hports]
      exact List.mem_append_right _ hb
  · intro hports
    have hdies := dies_iff.mpr hports
    obtain ⟨ds, hds⟩ : ∃ ds, ds = s.ports := ⟨_, rfl⟩
    rw [← hds] at hdies
    clear hports
    induction hdies generalizing s with
    | intro ds _ ih =>
      subst hds
      refine ⟨s, fun t ht => ?_⟩
      obtain ⟨k, tail, hstep⟩ := ht
      obtain ⟨pre, d, frame, post, he, hm, hf⟩ := step_deliver_inv hstep
      obtain ⟨ht, hp⟩ := h.deliver he tail hm hf
      refine ih t.ports ⟨pre.map (·.1), d, post.map (·.1), by simp [ports, he], ?_⟩ ht rfl
      rw [hp]
      exact List.perm_append_comm

lemma flooding_withdraw {m : M} (hs : ∀ m i, ((s.machine m).ifsmArray i).currentState = .established)
    (h₀ : s.inFlight = []) (hstep : s.step (.withdraw m target) = some t) :
    t.Flooding target ∧ t.ports = (List.finRange (T.count m)).map fun j => T.link ⟨m, j⟩ := by
  have hall : (s.machine m).ifacesIn .established = List.finRange (T.count m) := by
    simp [ifacesIn, hs]
  cases hstep
  simp only [SimulatedMachine.withdraw, hall]
  refine ⟨⟨?_, ?_⟩, ?_⟩
  · intro m' i
    rcases eq_or_ne m' m with rfl | hne
    · simp only [Function.update_self]
      exact hs m' i
    · simp only [Function.update_of_ne hne]
      exact hs m' i
  · intro e he
    simp only [h₀, List.nil_append, emitted_map] at he
    obtain ⟨j, -, rfl⟩ := List.mem_map.mp he
    exact withdrawFrame_withdrawMessage _ _ _
  · simp [ports, h₀, emitted_map]

omit [DecidableEq M] in
lemma noReturn_iff [Finite M] (T : Topology M) (m : M) :
    T.NoReturn m ↔ ∀ d ∈ (List.finRange (T.count m)).map fun j => T.link ⟨m, j⟩, Acc (Succeeds T.forwards) d := by
  simp only [List.forall_mem_map, List.mem_finRange, forall_const, acc_succeeds_iff, Topology.NoReturn]
  refine forall_congr' fun j => forall_congr' fun d => ?_
  rw [← reflTransGen_swap, ← transGen_swap]
  rfl

/-- After a withdrawal at `m`, with every session up and nothing else on its way, all runs of deliveries are finite
if and only if no walk from `m` over the links, never turning back, returns. -/
theorem withdraw_terminates_iff [Finite M] (s : Network T) (m : M) (target : AddressPrefix)
    (hs : ∀ m i, ((s.machine m).ifsmArray i).currentState = .established) (h₀ : s.inFlight = []) :
    (∀ t, s.step (.withdraw m target) = some t → Acc (fun v u => Delivery u v) t) ↔ T.NoReturn m := by
  rw [noReturn_iff]
  constructor
  · intro h
    obtain ⟨t, hstep⟩ : ∃ t, s.step (.withdraw m target) = some t := ⟨_, rfl⟩
    obtain ⟨hf, hp⟩ := flooding_withdraw hs h₀ hstep
    rw [← hp]
    exact (acc_delivery_iff hf).mp (h t hstep)
  · intro h t ht
    obtain ⟨hf, hp⟩ := flooding_withdraw hs h₀ ht
    exact (acc_delivery_iff hf).mpr (by rwa [hp])

/-! Two machines on one link, where the flooding ends, and three in a triangle, where it does not. -/

def establishedMachine (n : ℕ) (asNumber : UInt16) (relation : Fin n → InteractionType) : SimulatedMachine n :=
  (initializeMachine ⟨fun _ => 1, asNumber, [⟨UInt32.ofNat asNumber.toNat, 8⟩], fun _ => 2, relation⟩
    fun _ => 0).withSessions fun _ => .established

def pair : Topology (Fin 2) where
  count _ := 1
  link d := ⟨d.1 + 1, 0⟩
  link_link := by decide
  link_ne := by decide

def pairNetwork : Network pair := ⟨fun m => establishedMachine 1 (UInt16.ofNat m.val) fun _ => .peer, []⟩

theorem withdraw_terminates_pair :
    (∀ t, pairNetwork.step (.withdraw 0 ⟨167772160, 8⟩) = some t → Acc (fun v u => Delivery u v) t) ∧
      pair.NoReturn 0 := by
  have hno : pair.NoReturn 0 := by
    intro j d hd hloop
    obtain ⟨e, he, -⟩ := TransGen.head'_iff.mp hloop
    have hnone : ∀ d : pair.Port, pair.forwards d = [] := by decide
    rw [hnone d] at he
    cases he
  exact ⟨(withdraw_terminates_iff pairNetwork 0 ⟨167772160, 8⟩ (fun _ _ => rfl) rfl).mpr hno, hno⟩

def triangle : Topology (Fin 3) where
  count _ := 2
  link d := if d.2 = 0 then ⟨d.1 + 1, 1⟩ else ⟨d.1 - 1, 0⟩
  link_link := by decide
  link_ne := by decide

def triangleNetwork : Network triangle := ⟨fun m => establishedMachine 2 (UInt16.ofNat m.val) fun _ => .peer, []⟩

def corner (m : Fin 3) : triangle.Port := ⟨m, (1 : Fin 2)⟩

theorem triangle_floods_forever :
    (∀ m i, ((triangleNetwork.machine m).ifsmArray i).currentState = .established) ∧
    triangleNetwork.inFlight = [] ∧
      ¬∀ t, triangleNetwork.step (.withdraw 0 ⟨167772160, 8⟩) = some t → Acc (fun v u => Delivery u v) t := by
  refine ⟨fun _ _ => rfl, rfl, fun h => ?_⟩
  obtain ⟨hf, hp⟩ := flooding_withdraw (s := triangleNetwork) (m := 0) (fun _ _ => rfl) rfl rfl
  have hacc := (acc_delivery_iff hf).mp (h _ rfl) (corner 1) (by rw [hp]; decide)
  -- 1, 2, 0 and back to 1, always in at interface 1 and out at interface 0
  have h₁ : Succeeds triangle.forwards (corner 2) (corner 1) := by decide
  have h₂ : Succeeds triangle.forwards (corner 0) (corner 2) := by decide
  have h₃ : Succeeds triangle.forwards (corner 1) (corner 0) := by decide
  exact not_rel_self_of_acc hacc.transGen ((TransGen.single h₃).trans ((TransGen.single h₂).trans (.single h₁)))

end Network

end CourseArchive.Bgp
