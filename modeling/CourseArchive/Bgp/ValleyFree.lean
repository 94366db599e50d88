import CourseArchive.Bgp.Flooding
import CourseArchive.Lib.Runs

/-! The AS paths that machines tell each other, and when they go up or sideways after going down or sideways. -/

namespace CourseArchive.Bgp

open Lib SimulatedMachine Relation

def InteractionType.converse : InteractionType → InteractionType
  | .provider => .customer
  | .customer => .provider
  | r => r

variable {M : Type}

structure Policy (T : Topology M) where
  asOf : M → UInt16
  relation : T.Port → InteractionType
  relation_link : ∀ d, relation (T.link d) = (relation d).converse
  relation_ne : ∀ d, relation d ≠ .myAsset

variable {T : Topology M} {P : Policy T}

inductive Policy.Walk (P : Policy T) : M → List UInt16 → List InteractionType → Prop
  | origin (m : M) : P.Walk m [P.asOf m] []
  | hop (d : T.Port) {path rels} : P.Walk (T.link d).1 path rels →
      P.Walk d.1 (P.asOf d.1 :: path) (P.relation d :: rels)

def NoValley (rels : List InteractionType) : Prop :=
  rels.Pairwise fun later earlier => later = .provider ∨ earlier = .customer

def Policy.ValleyFree (P : Policy T) (m : M) (path : List UInt16) : Prop :=
  ∃ rels, P.Walk m path rels ∧ NoValley rels

lemma NoValley.cons_provider {rels : List InteractionType} (h : NoValley rels) : NoValley (.provider :: rels) :=
  List.pairwise_cons.mpr ⟨fun _ _ => .inl rfl, h⟩

lemma NoValley.cons_customer {rels : List InteractionType} (h : NoValley (.customer :: rels))
    (r : InteractionType) :
    NoValley (r :: .customer :: rels) := by
  refine List.pairwise_cons.mpr ⟨fun e he => .inr ?_, h⟩
  rcases List.mem_cons.mp he with rfl | he
  · rfl
  · rcases (List.pairwise_cons.mp h).1 e he with hr | hr
    · cases hr
    · exact hr

structure Policy.Stored (P : Policy T) (m : M) (p : HopByHopPath) (rels : List InteractionType) : Prop where
  walk : P.Walk m p.ases rels
  noValley : NoValley rels
  learned : (p.advertiser = .myAsset ∧ rels = []) ∨
    ∃ i rest earlier, p.startInterface = (i : Fin (T.count m)).val ∧ p.advertiser = P.relation ⟨m, i⟩ ∧
      rels = P.relation ⟨m, i⟩ :: earlier ∧ p.ases = P.asOf m :: rest ∧ P.asOf (T.link ⟨m, i⟩).1 ∈ rest

def Policy.Told (P : Policy T) (d : T.Port) (path : List UInt16) : Prop :=
  ∃ rels, P.Walk (T.link d).1 path rels ∧ P.asOf (T.link d).1 ∈ path ∧
    (P.asOf d.1 ∈ path ∨ NoValley (P.relation d :: rels))

lemma Policy.Walk.asOf_mem {m : M} {path : List UInt16} {rels : List InteractionType} (h : P.Walk m path rels) :
    P.asOf m ∈ path := by
  cases h <;> exact List.mem_cons_self

lemma Policy.Walk.inv {m : M} {a b : UInt16} {path : List UInt16} {rels : List InteractionType}
    (h : P.Walk m (a :: b :: path) rels) :
    ∃ i rest, rels = P.relation ⟨m, i⟩ :: rest ∧ P.Walk (T.link ⟨m, i⟩).1 (b :: path) rest := by
  cases h with
  | hop d h => exact ⟨d.2, _, rfl, h⟩

/-! Which routes are exported. -/

variable {n : ℕ} {m : SimulatedMachine n} {p : HopByHopPath}

lemma mem_getAdmissibleRoutes {rshp : InteractionType} {ifaceIndex : ℤ} :
    p ∈ m.getAdmissibleRoutes rshp ifaceIndex ↔ p ∈ m.paths ∧ (p.startInterface = ifaceIndex ∨
      (rshp = .peer ∧ p.advertiser ≠ .peer) ∨ rshp = .customer ∨
      (rshp = .provider ∧ p.advertiser ≠ .provider)) := by
  rw [getAdmissibleRoutes, List.mem_filter, Bool.or_eq_true, beq_iff_eq]
  cases rshp <;> simp

/-- The condition on the table under which `advertise` exports no valley: while a session to a peer is up, no route
from another interface was learned from a provider, and while one to a provider is up, none was learned from a
peer. The hop counts have 16 bits. -/
def MayAdvertise (m : SimulatedMachine n) : Prop :=
  (∀ p ∈ m.paths, p.ases.length < 2 ^ 16) ∧
    ∀ i, (m.ifsmArray i).currentState = .established → ∀ p ∈ m.paths,
    p.startInterface ≠ (m.ifsmArray i).ifaceIndex →
      ((m.ifsmArray i).neighborhood = .peer → p.advertiser ≠ .provider) ∧
      ((m.ifsmArray i).neighborhood = .provider → p.advertiser ≠ .peer)

def NoSideExport (m : SimulatedMachine n) : Prop :=
  ∀ i, (m.ifsmArray i).currentState = .established →
    (m.ifsmArray i).neighborhood = .peer ∨ (m.ifsmArray i).neighborhood = .provider →
    ∀ p ∈ m.getAdmissibleRoutes (m.ifsmArray i).neighborhood (m.ifsmArray i).ifaceIndex,
      p.startInterface ≠ (m.ifsmArray i).ifaceIndex → p.advertiser ≠ .peer ∧ p.advertiser ≠ .provider

instance : Decidable (NoSideExport m) :=
  inferInstanceAs (Decidable (∀ _, _ → _ → ∀ p ∈ _, _))

lemma noSideExport_iff : NoSideExport m ↔
    ∀ i, (m.ifsmArray i).currentState = .established → ∀ p ∈ m.paths,
    p.startInterface ≠ (m.ifsmArray i).ifaceIndex →
      ((m.ifsmArray i).neighborhood = .peer → p.advertiser ≠ .provider) ∧
      ((m.ifsmArray i).neighborhood = .provider → p.advertiser ≠ .peer) := by
  constructor
  · intro h i hi p hp hne
    constructor
    · intro hpeer hadv
      exact (h i hi (.inl hpeer) p (mem_getAdmissibleRoutes.mpr ⟨hp, .inr (.inl ⟨hpeer, by rw [hadv]; decide⟩)⟩)
        hne).2 hadv
    · intro hprovider hadv
      exact (h i hi (.inr hprovider) p
        (mem_getAdmissibleRoutes.mpr ⟨hp, .inr (.inr (.inr ⟨hprovider, by rw [hadv]; decide⟩))⟩) hne).1 hadv
  · intro h i hi hrel p hp hne
    obtain ⟨hp, hadm⟩ := mem_getAdmissibleRoutes.mp hp
    obtain ⟨hpeer, hprovider⟩ := h i hi p hp hne
    rcases hrel with hrel | hrel <;> simp only [hrel, hne, false_or, reduceCtorEq, false_and, or_false, true_and,
      forall_true_left, or_self] at hadm hpeer hprovider
    · exact ⟨hadm, hpeer⟩
    · exact ⟨hprovider, hadm⟩

lemma noSideExport_of_mayAdvertise (h : MayAdvertise m) : NoSideExport m := noSideExport_iff.mpr h.2

lemma Policy.Stored.told {m : M} {a : SimulatedMachine (T.count m)} {p : HopByHopPath}
    {rels : List InteractionType} (h : P.Stored m p rels) (ha : MayAdvertise a) {i : Fin (T.count m)}
    (hi : (a.ifsmArray i).currentState = .established) (hrel : (a.ifsmArray i).neighborhood = P.relation ⟨m, i⟩)
    (hindex : (a.ifsmArray i).ifaceIndex = i.val)
    (hp : p ∈ a.getAdmissibleRoutes (a.ifsmArray i).neighborhood (a.ifsmArray i).ifaceIndex) :
    P.Told (T.link ⟨m, i⟩) p.ases := by
  have hback : T.link (T.link ⟨m, i⟩) = ⟨m, i⟩ := T.link_link _
  have hwalk : P.Walk (T.link (T.link ⟨m, i⟩)).1 p.ases rels := by
    rw [hback]
    exact h.walk
  refine ⟨rels, hwalk, hwalk.asOf_mem, ?_⟩
  rw [P.relation_link]
  rcases h.learned with ⟨-, rfl⟩ | ⟨j, rest, earlier, hstart, hadv, rfl, hases, hmem⟩
  · exact .inr (List.pairwise_singleton _ _)
  rcases eq_or_ne j i with rfl | hne
  · exact .inl (by rw [hases]; exact List.mem_cons_of_mem _ hmem)
  -- told on another interface than the one it was learned on
  have hstart' : p.startInterface ≠ (a.ifsmArray i).ifaceIndex := by
    rw [hstart, hindex]
    exact fun he => hne (Fin.ext (by exact_mod_cast he))
  right
  by_cases hcustomer : P.relation ⟨m, i⟩ = .customer
  · rw [hcustomer]
    exact h.noValley.cons_provider
  · have hup : (a.ifsmArray i).neighborhood = .peer ∨ (a.ifsmArray i).neighborhood = .provider := by
      rw [hrel]
      have := P.relation_ne ⟨m, i⟩
      cases hi : P.relation ⟨m, i⟩ <;> simp_all
    have hno := noSideExport_of_mayAdvertise ha i hi hup p hp hstart'
    have hlearned : P.relation ⟨m, j⟩ = .customer := by
      rw [hadv] at hno
      have := P.relation_ne ⟨m, j⟩
      cases hj : P.relation ⟨m, j⟩ <;> simp_all
    have hv := h.noValley
    rw [hlearned] at hv ⊢
    exact hv.cons_customer _

/-! The frames that carry routes. -/

structure UpdateFrame (routes : List HopByHopPath) (frame : Buffer) : Prop where
  length : frame.length = updateLength routes
  header : ∃ len, Holds frame.data 34 (makeBgphdr len 2)
  body : Holds frame.data headerLength (updateBytes routes)
  short : ∀ p ∈ routes, p.ases.length < 2 ^ 16

lemma updateFrame_updateMessage {i : Fin n} {memory : ℕ → UInt8} {routes : List HopByHopPath} {frame : Buffer}
    (hp : ∀ p ∈ routes, p.ases.length < 2 ^ 16) (h : m.updateMessage i memory routes = some frame) :
    UpdateFrame routes frame := by
  obtain ⟨b, hb, hf⟩ := updateMessage_filled m i memory hp (updateLength_lt_of_updateMessage hp h)
  obtain rfl := Option.some_injective _ (h.symm.trans hb)
  obtain ⟨hheaders, hbody⟩ := Holds.append_iff.mp hf.holds
  rw [length_updateHeaders, Nat.zero_add] at hbody
  exact ⟨hf.length, ⟨_, (Holds.append_iff.mp hheaders).2⟩, hbody, hp⟩

namespace UpdateFrame

variable {routes : List HopByHopPath} {frame frame' : Buffer}

lemma delivers (h : UpdateFrame routes frame) (hd : Delivers frame frame') : UpdateFrame routes frame' := by
  have hl := length_updateBytes routes
  have hlen := h.length
  obtain ⟨len, hheader⟩ := h.header
  refine ⟨hd.1.trans h.length, ⟨len, hheader.congr fun k _ hk => hd.2 k ?_⟩, h.body.congr fun k _ hk => hd.2 k ?_,
    h.short⟩
  · rw [length_makeBgphdr] at hk
    simp only [headerLength] at hl
    omega
  · omega

lemma mem_updateRoutes (h : UpdateFrame routes frame) {i : Fin n} (hp : p ∈ m.updateRoutes frame.data i) :
    ∃ q ∈ routes, p.ases = q.ases ∧ p.startInterface = i.val ∧ p.advertiser = (m.ifsmArray i).neighborhood := by
  obtain ⟨hw, hcount, hroutes⟩ := holds_updateBytes h.body
  have h₀ : (0 : UInt16).toNat = 0 := rfl
  have hle : (UInt16.ofNat routes.length).toNat ≤ routes.length := by
    rw [UInt16.toNat_ofNat']
    exact Nat.mod_le _ _
  rw [updateRoutes, hw, h₀, Nat.add_zero, Nat.add_zero, hcount] at hp
  exact mem_advertisedPaths h.short (Holds.append_iff.mp hroutes).1 hle hp

end UpdateFrame

/-! What handling an update changes. -/

structure Policy.Obeys (P : Policy T) (m : M) (a : SimulatedMachine (T.count m)) : Prop where
  asNumber : a.asNumber = P.asOf m
  neighborhood : ∀ i, (a.ifsmArray i).neighborhood = P.relation ⟨m, i⟩
  ifaceIndex : ∀ i, (a.ifsmArray i).ifaceIndex = i.val
  stored : ∀ p ∈ a.paths, ∃ rels, P.Stored m p rels

namespace Policy.Obeys

variable {m : M} {a : SimulatedMachine (T.count m)}

lemma emptyTrashPath (h : P.Obeys m a) (target : AddressPrefix) : P.Obeys m (a.emptyTrashPath target) :=
  { h with stored := fun p hp => h.stored p (List.mem_of_mem_filter hp) }

lemma setIfsm (h : P.Obeys m a) (i : Fin (T.count m)) (timer : UInt8) :
    P.Obeys m (a.setIfsm i { a.ifsmArray i with ht := timer }) where
  asNumber := h.asNumber
  neighborhood j := by
    simp only [SimulatedMachine.setIfsm, put_apply]
    split
    · next he => rw [he, h.neighborhood]
    · exact h.neighborhood j
  ifaceIndex j := by
    simp only [SimulatedMachine.setIfsm, put_apply]
    split
    · next he => rw [he, h.ifaceIndex]
    · exact h.ifaceIndex j
  stored := h.stored

lemma stored_of_told {i : Fin (T.count m)} {q : HopByHopPath} {path : List UInt16} (ht : P.Told ⟨m, i⟩ path)
    (hloop : P.asOf m ∉ path) (hases : q.ases = P.asOf m :: path) (hstart : q.startInterface = i.val)
    (hadv : q.advertiser = P.relation ⟨m, i⟩) : ∃ rels, P.Stored m q rels := by
  obtain ⟨rels, hwalk, hmem, hor⟩ := ht
  refine ⟨P.relation ⟨m, i⟩ :: rels, ?_, hor.resolve_left hloop,
    .inr ⟨i, path, rels, hstart, hadv, rfl, hases, hmem⟩⟩
  rw [hases]
  exact .hop ⟨m, i⟩ hwalk

lemma processFrame_updateFrame (h : P.Obeys m a) {i : Fin (T.count m)} {routes : List HopByHopPath}
    {frame : Buffer} (hf : UpdateFrame routes frame) (ht : ∀ p ∈ routes, P.Told ⟨m, i⟩ p.ases) :
    P.Obeys m (a.processFrame frame i).1 ∧ ∀ j f, .sent j f ∉ (a.processFrame frame i).2 := by
  obtain ⟨len, hheader⟩ := hf.header
  by_cases he : (a.ifsmArray i).currentState = .established
  swap
  · rw [processFrame_update_ignored hheader he]
    exact ⟨h, fun _ _ => List.not_mem_nil⟩
  rw [processFrame_update hheader he, handleBgpUpdate_of_no_withdrawal a frame i (holds_updateBytes hf.body).1]
  obtain ⟨has, hifsm, hpaths, hout⟩ := foldl_acceptPath_inv (a.updateRoutes frame.data i) (a, [])
  refine ⟨.setIfsm ⟨has.trans h.asNumber, fun j => ?_, fun j => ?_, fun q hq => ?_⟩ i _,
    fun j f hs => (hout _ hs).elim List.not_mem_nil id⟩
  · rw [hifsm]
    exact h.neighborhood j
  · rw [hifsm]
    exact h.ifaceIndex j
  · rcases hpaths q hq with hq | ⟨p, hp, hloop, rfl⟩
    · exact h.stored q hq
    · obtain ⟨r, hr, hases, hstart, hadv⟩ := hf.mem_updateRoutes hp
      rw [h.asNumber, hases] at hloop
      exact stored_of_told (ht r hr) hloop (by rw [h.asNumber, hases]) hstart (hadv.trans (h.neighborhood i))

lemma processFrame_withdrawFrame (h : P.Obeys m a) {i : Fin (T.count m)} {target : AddressPrefix} {frame : Buffer}
    (hf : WithdrawFrame target frame) :
    P.Obeys m (a.processFrame frame i).1 ∧ ∀ j f, .sent j f ∈ (a.processFrame frame i).2 →
    WithdrawFrame target f := by
  by_cases he : (a.ifsmArray i).currentState = .established
  · obtain ⟨copy, hcopy, hp⟩ := Bgp.processFrame_withdrawFrame hf he
    rw [hp]
    refine ⟨(h.emptyTrashPath target).setIfsm i maxHT, fun j f hs => ?_⟩
    obtain ⟨k, -, hk⟩ := List.mem_map.mp hs
    cases hk
    exact hcopy _
  · rw [processFrame_update_ignored (Holds.append_iff.mp hf.holds).1 he]
    exact ⟨h, fun _ _ hs => absurd hs List.not_mem_nil⟩

end Policy.Obeys

lemma sent_of_advertise {memory : Fin n → ℕ → UInt8} {out : List (Output n)} (h : m.advertise memory = some out)
    {o : Output n} (ho : o ∈ out) : ∃ i frame, o = .sent i frame ∧ (m.ifsmArray i).currentState = .established ∧
      m.updateMessage i (memory i)
        (m.getAdmissibleRoutes (m.ifsmArray i).neighborhood (m.ifsmArray i).ifaceIndex) = some frame := by
  rw [advertise] at h
  have hall : ∀ i ∈ m.ifacesIn .established, (m.ifsmArray i).currentState = .established := by
    intro i hi
    simpa [ifacesIn] using hi
  revert hall h
  generalize m.ifacesIn .established = is
  intro h hall
  induction is generalizing out with
  | nil =>
    cases h
    cases ho
  | cons i is ih =>
    rw [List.mapM_cons] at h
    obtain ⟨o₁, h₁, h⟩ := Option.bind_eq_some_iff.mp h
    obtain ⟨out', h₂, h⟩ := Option.bind_eq_some_iff.mp h
    cases h
    rcases List.mem_cons.mp ho with rfl | ho
    · obtain ⟨frame, hframe, rfl⟩ := Option.map_eq_some_iff.mp h₁
      exact ⟨i, frame, rfl, hall i List.mem_cons_self, hframe⟩
    · exact ih ho h₂ fun j hj => hall j (List.mem_cons_of_mem _ hj)

namespace Network

lemma mem_emitted {m : M} {out : List (Output (T.count m))} {e : T.Port × Buffer} (h : e ∈ emitted T m out) :
    ∃ i frame, .sent i frame ∈ out ∧ e = (T.link ⟨m, i⟩, frame) := by
  obtain ⟨o, ho, he⟩ := List.mem_filterMap.mp h
  cases o with
  | sent i frame => exact ⟨i, frame, ho, (Option.some_injective _ he).symm⟩
  | stateChanged first second index => cases he
  | hijacked | undefined => cases he

def Carries (P : Policy T) (e : T.Port × Buffer) : Prop :=
  (∃ routes, UpdateFrame routes e.2 ∧ ∀ p ∈ routes, P.Told e.1 p.ases) ∨ ∃ target, WithdrawFrame target e.2

structure KeepsPolicy (P : Policy T) (s : Network T) : Prop where
  machines : ∀ m, P.Obeys m (s.machine m)
  inFlight : ∀ e ∈ s.inFlight, Carries P e

structure Started (P : Policy T) (s : Network T) : Prop where
  machines : ∀ m, ∃ info timer states, info.asNumber = P.asOf m ∧ (∀ i, info.neighborhood i = P.relation ⟨m, i⟩) ∧
    s.machine m = (initializeMachine info timer).withSessions states
  inFlight : s.inFlight = []

def allowed (s : Network T) : NetworkMove T → Prop
  | .advertise m _ => MayAdvertise (s.machine m)
  | _ => True

lemma Started.keepsPolicy {s : Network T} (h : s.Started P) : s.KeepsPolicy P where
  machines m := by
    obtain ⟨info, timer, states, has, hrel, hm⟩ := h.machines m
    rw [hm]
    refine ⟨has, hrel, fun _ => rfl, fun p hp => ⟨[], ?_⟩⟩
    obtain ⟨asset, -, rfl⟩ := List.mem_map.mp hp
    refine ⟨?_, .nil, .inl ⟨rfl, rfl⟩⟩
    rw [has]
    exact .origin m
  inFlight e he := by
    rw [h.inFlight] at he
    cases he

variable [DecidableEq M] {s t : Network T}

lemma machines_update (h : ∀ m, P.Obeys m (s.machine m)) {m : M} {a : SimulatedMachine (T.count m)}
    (ha : P.Obeys m a) (m' : M) : P.Obeys m' (Function.update s.machine m a m') := by
  rcases eq_or_ne m' m with rfl | hne
  · rwa [Function.update_self]
  · rw [Function.update_of_ne hne]
    exact h m'

lemma KeepsPolicy.advertise (h : s.KeepsPolicy P) {m : M} {memory : Fin (T.count m) → ℕ → UInt8}
    (hok : MayAdvertise (s.machine m)) (hstep : s.step (.advertise m memory) = some t) : t.KeepsPolicy P := by
  obtain ⟨out, hout, rfl⟩ := Option.map_eq_some_iff.mp hstep
  refine ⟨h.machines, fun e he => ?_⟩
  rcases List.mem_append.mp he with he | he
  · exact h.inFlight e he
  obtain ⟨i, frame, ho, rfl⟩ := mem_emitted he
  obtain ⟨i', frame', heq, hi, hframe⟩ := sent_of_advertise hout ho
  cases heq
  have ha := h.machines m
  refine .inl ⟨_, updateFrame_updateMessage (fun p hp => hok.1 p (mem_getAdmissibleRoutes.mp hp).1) hframe, ?_⟩
  intro p hp
  obtain ⟨rels, hr⟩ := ha.stored p (mem_getAdmissibleRoutes.mp hp).1
  exact hr.told hok hi (ha.neighborhood i) (ha.ifaceIndex i) hp

lemma KeepsPolicy.withdraw (h : s.KeepsPolicy P) {m : M} {target : AddressPrefix}
    (hstep : s.step (.withdraw m target) = some t) : t.KeepsPolicy P := by
  cases hstep
  refine ⟨machines_update h.machines ((h.machines m).emptyTrashPath target), fun e he => ?_⟩
  rcases List.mem_append.mp he with he | he
  · exact h.inFlight e he
  obtain ⟨i, frame, ho, rfl⟩ := mem_emitted he
  obtain ⟨j, -, hj⟩ := List.mem_map.mp ho
  cases hj
  exact .inr ⟨target, withdrawFrame_withdrawMessage _ _ _⟩

lemma KeepsPolicy.deliver (h : s.KeepsPolicy P) {k : ℕ} {tail : ℕ → UInt8}
    (hstep : s.step (.deliver k tail) = some t) : t.KeepsPolicy P := by
  obtain ⟨pre, d, frame, post, he, hm, hf⟩ := step_deliver_inv hstep
  have hd := delivers_received frame tail
  have hrest : ∀ e ∈ pre ++ post, Carries P e := by
    intro e hmem
    refine h.inFlight e ?_
    rw [he]
    simp only [List.mem_append, List.mem_cons] at hmem ⊢
    tauto
  have hprocess : P.Obeys d.1 ((s.machine d.1).processFrame (received frame tail) d.2).1 ∧
      ∀ e ∈ emitted T d.1 ((s.machine d.1).processFrame (received frame tail) d.2).2, Carries P e := by
    rcases h.inFlight (d, frame) (by simp [he]) with ⟨routes, hupdate, htold⟩ | ⟨target, hwithdraw⟩
    · obtain ⟨hobeys, hnone⟩ := (h.machines d.1).processFrame_updateFrame (hupdate.delivers hd) htold
      refine ⟨hobeys, fun e hmem => ?_⟩
      obtain ⟨j, f, hs, -⟩ := mem_emitted hmem
      exact absurd hs (hnone j f)
    · obtain ⟨hobeys, hsent⟩ := (h.machines d.1).processFrame_withdrawFrame (i := d.2) (hwithdraw.delivers hd)
      refine ⟨hobeys, fun e hmem => ?_⟩
      obtain ⟨j, f, hs, rfl⟩ := mem_emitted hmem
      exact .inr ⟨target, hsent j f hs⟩
  refine ⟨fun m => ?_, fun e hmem => ?_⟩
  · rw [hm]
    exact machines_update h.machines hprocess.1 m
  · rw [hf] at hmem
    rcases List.mem_append.mp hmem with hmem | hmem
    · exact hrest e hmem
    · exact hprocess.2 e hmem

lemma reaches_keepsPolicy (hs : s.Started P) (h : Reaches step allowed s t) : t.KeepsPolicy P := by
  refine h.invariant (KeepsPolicy P) (fun u e v hi hok hstep => ?_) hs.keepsPolicy
  cases e with
  | advertise m memory => exact hi.advertise hok hstep
  | withdraw m target => exact hi.withdraw hstep
  | deliver k tail => exact hi.deliver hstep

/-- In a run in which every `advertise` is allowed, all stored AS paths are free of valleys, and an `advertise`
that is allowed tells no peer and no provider what another peer or provider has told. -/
theorem advertised_paths_valleyFree (P : Policy T) (hs : s.Started P) (h : Reaches step allowed s t) :
    (∀ m, ∀ p ∈ (t.machine m).paths, P.ValleyFree m p.ases) ∧
      ∀ m memory, allowed t (.advertise m memory) → NoSideExport (t.machine m) := by
  refine ⟨fun m p hp => ?_, fun m memory hok => noSideExport_of_mayAdvertise hok⟩
  obtain ⟨rels, hr⟩ := ((reaches_keepsPolicy hs h).machines m).stored p hp
  exact ⟨rels, hr.walk, hr.noValley⟩

/-! A provider, its customer and the customer's peer in a line. -/

def line : Topology (Fin 3) where
  count m := if m = 1 then 2 else 1
  link
    | ⟨0, _⟩ => ⟨1, (0 : Fin 2)⟩
    | ⟨1, i⟩ => if i.val = 0 then ⟨0, (0 : Fin 1)⟩ else ⟨2, (0 : Fin 1)⟩
    | ⟨2, _⟩ => ⟨1, (1 : Fin 2)⟩
  link_link := by decide
  link_ne := by decide

def linePolicy : Policy line where
  asOf m := UInt16.ofNat (m.val + 1)
  relation
    | ⟨0, _⟩ => .customer
    | ⟨1, i⟩ => if i.val = 0 then .provider else .peer
    | ⟨2, _⟩ => .peer
  relation_link := by decide
  relation_ne := by decide

def lineNetwork : Network line :=
  ⟨fun m => establishedMachine _ (linePolicy.asOf m) fun i => linePolicy.relation ⟨m, i⟩, []⟩

lemma lineNetwork_started : lineNetwork.Started linePolicy :=
  ⟨fun m => ⟨⟨fun _ => 1, linePolicy.asOf m, [⟨UInt32.ofNat (linePolicy.asOf m).toNat, 8⟩], fun _ => 2,
    fun i => linePolicy.relation ⟨m, i⟩⟩, fun _ => 0, fun _ => .established, rfl, fun _ => rfl, rfl⟩, rfl⟩

lemma lineNetwork_mayAdvertise : MayAdvertise (lineNetwork.machine 0) := by
  change (∀ p ∈ _, _) ∧ ∀ i, _ → ∀ p ∈ _, _ → _
  decide

def learnMoves : List (NetworkMove line) := [.advertise 0 fun _ _ => 0, .deliver 0 fun _ => 0]

def learned : Network line := (play step lineNetwork learnMoves).getD lineNetwork

lemma play_learnMoves : play step lineNetwork learnMoves = some learned := by
  have h : (play step lineNetwork learnMoves).isSome := by decide
  obtain ⟨s, hs⟩ := Option.isSome_iff_exists.mp h
  rw [learned, hs]
  rfl

theorem advertised_paths_valleyFree_line :
    (∀ m, ∀ p ∈ (learned.machine m).paths, linePolicy.ValleyFree m p.ases) ∧
      ∀ m memory, allowed learned (.advertise m memory) → NoSideExport (learned.machine m) :=
  advertised_paths_valleyFree linePolicy lineNetwork_started
    (reaches_of_allOk learnMoves ⟨lineNetwork_mayAdvertise, by
      split
      · exact ⟨trivial, by split <;> trivial⟩
      · trivial⟩ play_learnMoves)

def tellMoves : List (NetworkMove line) := [.advertise 1 fun _ _ => 0, .deliver 1 fun _ => 0]

lemma line_valley : ¬linePolicy.ValleyFree 2 [3, 2, 1] := by
  rintro ⟨rels, hw, hv⟩
  obtain ⟨i, rest, rfl, hw₁⟩ := hw.inv
  have hlink : ∀ i, line.link ⟨2, i⟩ = ⟨1, (1 : Fin 2)⟩ := by decide
  have hpeer : ∀ i, linePolicy.relation ⟨2, i⟩ = .peer := by decide
  rw [hlink] at hw₁
  rw [hpeer] at hv
  obtain ⟨j, rest, rfl, hw₂⟩ := hw₁.inv
  have hback : ∀ j, linePolicy.relation ⟨1, j⟩ = .provider ∨ (line.link ⟨1, j⟩).1 = 2 := by decide
  rcases hback j with hj | hj
  · rw [hj] at hv
    rcases (List.pairwise_cons.mp hv).1 _ List.mem_cons_self with h | h <;> cases h
  · rw [hj] at hw₂
    exact absurd hw₂.asOf_mem (by decide)

theorem customer_tells_peer :
    lineNetwork.Started linePolicy ∧ Reaches step anyMove lineNetwork learned ∧ ¬NoSideExport (learned.machine 1) ∧
      ∃ t, Reaches step anyMove learned t ∧ ∃ p ∈ (t.machine 2).paths, ¬linePolicy.ValleyFree 2 p.ases := by
  refine ⟨lineNetwork_started, reaches_of_play _ play_learnMoves, by decide, ?_⟩
  have h : ((play step learned tellMoves).map fun t => (t.machine 2).paths.any fun p => p.ases == [3, 2, 1]) =
      some true := by decide
  obtain ⟨t, ht, hp⟩ := Option.map_eq_some_iff.mp h
  obtain ⟨p, hp, hases⟩ := List.any_eq_true.mp hp
  refine ⟨t, reaches_of_play _ ht, p, hp, ?_⟩
  rw [beq_iff_eq.mp hases]
  exact line_valley

end Network

end CourseArchive.Bgp
