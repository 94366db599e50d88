import CourseArchive.Dhcp.FreePool
import CourseArchive.Dhcp.LeaseExpiry
import CourseArchive.Dhcp.PoolOrder

/-! When no address is twice among those that the server has, offers or leases. -/

namespace CourseArchive.Dhcp

open Lib

namespace ServerMachine

variable {S : StdSort} {s t : ServerMachine}

def taken (s : ServerMachine) : List Ip := s.offeredIPs.map (·.ip) ++ s.givenIPs.map (·.ip)

def addresses (s : ServerMachine) : List Ip := s.ipPool ++ s.taken

def poolAddresses (ip : Ip) (mask : UInt8) : List Ip :=
  (List.range (poolTurns (32 - mask.toNat))).map (poolAddress ip (32 - mask.toNat))

def AddsFresh (s : ServerMachine) : Move → Prop
  | .addPool ip mask => ∀ a ∈ poolAddresses ip mask, a ∉ s.taken
  | _ => True

instance (s : ServerMachine) (e : Move) : Decidable (s.AddsFresh e) :=
  match e with
  | .addPool _ _ => inferInstanceAs (Decidable (∀ _ ∈ _, _))
  | .addTime _ => inferInstanceAs (Decidable True)
  | .printPool => inferInstanceAs (Decidable True)
  | .received _ => inferInstanceAs (Decidable True)

def sorted (s : ServerMachine) : Move → List Ip
  | .printPool => s.ipPool
  | .received frame =>
    match frame.dataType with
    | 0 => s.ipPool
    | 6 => if (s.givenIPs.find? (·.ip == frame.data.ip)).isSome then s.ipPool ++ [frame.data.ip] else []
    | _ => []
  | .addPool .. | .addTime _ => []

/-- `std::sort` only gets addresses that its comparison orders. -/
def SortsUncrossed (s : ServerMachine) (e : Move) : Prop :=
  ∀ a ∈ s.sorted e, ∀ b ∈ s.sorted e, Comparable a.octets b.octets

instance (s : ServerMachine) (e : Move) : Decidable (s.SortsUncrossed e) :=
  inferInstanceAs (Decidable (∀ _ ∈ _, ∀ _ ∈ _, Comparable _ _))

lemma SortsUncrossed.perm_sort {e : Move} (h : s.SortsUncrossed e) (S : StdSort) :
    (S.sort poolLess (s.sorted e)).Perm (s.sorted e) :=
  Uncrossed.perm_sort (s := ⟨s.sorted e, [], []⟩) h S

/-! Everything but `add_pool` only moves addresses. -/

lemma perm_addresses
    (h : ∀ a, t.ipPool.count a + (t.offeredIPs.map (·.ip)).count a + (t.givenIPs.map (·.ip)).count a =
    s.ipPool.count a + (s.offeredIPs.map (·.ip)).count a + (s.givenIPs.map (·.ip)).count a) :
    t.addresses.Perm s.addresses := by
  refine List.perm_iff_count.mpr fun a => ?_
  simp only [addresses, taken, List.count_append, ← Nat.add_assoc]
  exact h a

lemma count_eraseP {xs : List EthernetData} {p : EthernetData → Bool} {x : EthernetData} (h : xs.find? p = some x)
    (a : Ip) : (xs.map (·.ip)).count a = ([x.ip].count a) + ((xs.eraseP p).map (·.ip)).count a := by
  have := ((perm_cons_eraseP h).map (·.ip)).count_eq a
  rw [List.map_cons, ← List.singleton_append, List.count_append] at this
  exact this

lemma addTime_perm (time : ℤ) : (s.addTime S time).1.addresses.Perm s.addresses := by
  refine perm_addresses fun a => ?_
  have hips := ((S.perm timeLess (s.givenIPs.map fun given =>
    { given with time := given.time - UInt32.ofInt time }) (timeLess_strictWeakOrder.on _)).map (·.ip)).count_eq a
  rw [← List.takeWhile_append_dropWhile (p := fun given : EthernetData => given.time ≤ 0)
    (l := S.sort timeLess _), List.map_append, List.count_append, List.map_map] at hips
  have hsame : ((fun given : EthernetData => given.ip) ∘ fun given : EthernetData =>
      { given with time := given.time - UInt32.ofInt time }) = (·.ip) := rfl
  rw [hsame] at hips
  simp only [addTime, List.count_append]
  omega

lemma printPool_perm (hu : s.SortsUncrossed .printPool) : (s.printPool S).addresses.Perm s.addresses := by
  refine perm_addresses fun a => ?_
  have : (S.sort poolLess s.ipPool).count a = s.ipPool.count a := (hu.perm_sort S).count_eq a
  simp only [printPool]
  omega

lemma rDhcpDiscover_perm (frame : EthernetData) (hu : s.SortsUncrossed (.received ⟨0, frame⟩)) :
    (s.rDhcpDiscover S frame).1.addresses.Perm s.addresses := by
  rw [rDhcpDiscover]
  split
  · exact .refl _
  · next ip rest h =>
    refine perm_addresses fun a => ?_
    have hs : (S.sort poolLess s.ipPool).count a = s.ipPool.count a := (hu.perm_sort S).count_eq a
    rw [h, ← List.singleton_append, List.count_append] at hs
    simp only [List.map_append, List.map_cons, List.map_nil, List.count_append]
    omega

lemma rDhcpRequest_perm (frame : EthernetData) : (s.rDhcpRequest frame).1.addresses.Perm s.addresses := by
  rw [rDhcpRequest]
  split
  · exact .refl _
  · next offered h =>
    refine perm_addresses fun a => ?_
    have hip : offered.ip = frame.ip := by simpa using List.find?_some h
    have hs := count_eraseP h a
    rw [hip] at hs
    simp only [List.map_append, List.map_cons, List.map_nil, List.count_append]
    omega

lemma rDhcpAck_perm (frame : EthernetData) : (s.rDhcpAck frame).addresses.Perm s.addresses := by
  rw [rDhcpAck]
  split
  · exact .refl _
  · next offered h =>
    refine perm_addresses fun a => ?_
    have hs := count_eraseP h a
    simp only [List.count_append]
    omega

lemma rDhcpRelease_perm (frame : EthernetData) : (s.rDhcpRelease frame).addresses.Perm s.addresses := by
  rw [rDhcpRelease]
  split
  · exact .refl _
  · next given h =>
    refine perm_addresses fun a => ?_
    have hip : given.ip = frame.ip := by simpa using List.find?_some h
    have hs := count_eraseP h a
    rw [hip] at hs
    simp only [List.count_append]
    omega

lemma rDhcpExtendRequest_perm (frame : EthernetData) (hu : s.SortsUncrossed (.received ⟨6, frame⟩)) :
    (s.rDhcpExtendRequest S frame).1.addresses.Perm s.addresses := by
  rw [rDhcpExtendRequest]
  split
  · exact .refl _
  next given h =>
  split
  · exact .refl _
  next ip rest hsort =>
  refine perm_addresses fun a => ?_
  have hip : given.ip = frame.ip := by simpa using List.find?_some h
  have hs := count_eraseP h a
  have hsorted : s.sorted (.received ⟨6, frame⟩) = s.ipPool ++ [frame.ip] := if_pos (by rw [h]; rfl)
  have hp := (hu.perm_sort S).count_eq a
  rw [hsorted] at hp
  rw [hip] at hs
  rw [hsort, ← List.singleton_append, List.count_append, List.count_append] at hp
  simp only [List.map_append, List.map_cons, List.map_nil, List.count_append]
  omega

lemma processFrame_perm (frame : EthernetFrame) (hu : s.SortsUncrossed (.received frame)) :
    (s.processFrame S frame).1.addresses.Perm s.addresses := by
  obtain ⟨dataType, data⟩ := frame
  rw [processFrame]
  dsimp only
  split
  · exact rDhcpDiscover_perm data hu
  · exact rDhcpRequest_perm _
  · exact rDhcpAck_perm _
  · exact rDhcpRelease_perm _
  · exact rDhcpExtendRequest_perm data hu
  · exact .refl _

/-! What `add_pool` adds. -/

lemma addAddress_eq (newIp : Ip) :
    s.addAddress newIp = if newIp ∈ s.ipPool then s else { s with ipPool := s.ipPool ++ [newIp] } := by
  have h : s.findIpPool newIp = none ↔ newIp ∉ s.ipPool := by
    simp [findIpPool, List.findIdx?_eq_none_iff, List.forall_mem_ne']
  rw [addAddress]
  by_cases hm : newIp ∈ s.ipPool
  · rw [if_pos hm, if_neg fun hn => h.mp hn hm]
  · rw [if_neg hm, if_pos (h.mpr hm)]

lemma foldl_addAddress (added : List Ip) (hs : s.ipPool.Nodup) :
    (added.foldl addAddress s).taken = s.taken ∧ (added.foldl addAddress s).ipPool.Nodup ∧
      ∀ a, a ∈ (added.foldl addAddress s).ipPool ↔ a ∈ s.ipPool ∨ a ∈ added := by
  induction added generalizing s with
  | nil => exact ⟨rfl, hs, fun a => by simp⟩
  | cons newIp added ih =>
    rw [List.foldl_cons, addAddress_eq]
    split
    · next hm =>
      obtain ⟨ht, hn, hmem⟩ := ih hs
      refine ⟨ht, hn, fun a => (hmem a).trans ?_⟩
      rw [List.mem_cons]
      exact ⟨fun h => h.imp_right .inr, fun h => h.elim .inl fun h => h.elim (fun h => .inl (h ▸ hm)) .inr⟩
    · next hm =>
      obtain ⟨ht, hn, hmem⟩ := ih (s := { s with ipPool := s.ipPool ++ [newIp] })
        (List.nodup_append.mpr ⟨hs, List.nodup_singleton _, fun a ha b hb => by
          rintro rfl
          exact hm (List.mem_singleton.mp hb ▸ ha)⟩)
      refine ⟨ht, hn, fun a => (hmem a).trans ?_⟩
      simp only [List.mem_append, List.mem_cons, List.not_mem_nil, or_false]
      tauto

lemma addPool_nodup_iff {ip : Ip} {mask : UInt8} (hs : s.addresses.Nodup) (h : s.addPool ip mask = some t) :
    t.addresses.Nodup ↔ s.AddsFresh (.addPool ip mask) := by
  obtain ⟨hpool, htaken, hdisjoint⟩ := List.nodup_append.mp hs
  have ht : t = (poolAddresses ip mask).foldl addAddress s := by
    rw [addPool] at h
    split at h
    · cases h
    · rw [poolAddresses, List.foldl_map]
      exact (Option.some_injective _ h).symm
  obtain ⟨hsame, hnodup, hmem⟩ := foldl_addAddress (poolAddresses ip mask) hpool
  rw [← ht] at hsame hnodup hmem
  rw [addresses, hsame, List.nodup_append, AddsFresh]
  constructor
  · rintro ⟨-, -, hd⟩ a ha hat
    exact hd a ((hmem a).mpr (.inr ha)) a hat rfl
  · intro hfresh
    refine ⟨hnodup, htaken, fun a ha b hb => ?_⟩
    rintro rfl
    rcases (hmem a).mp ha with ha | ha
    · exact hdisjoint a ha a hb rfl
    · exact hfresh a ha hb

def KeepsUnique (s : ServerMachine) (e : Move) : Prop := s.AddsFresh e ∧ s.SortsUncrossed e

instance (s : ServerMachine) (e : Move) : Decidable (s.KeepsUnique e) := inferInstanceAs (Decidable (_ ∧ _))

lemma step_nodup {e : Move} (hs : s.addresses.Nodup) (hok : s.KeepsUnique e) (h : step S s e = some t) :
    t.addresses.Nodup := by
  cases e with
  | addPool ip mask => exact (addPool_nodup_iff hs h).mpr hok.1
  | addTime time =>
    cases h
    exact (addTime_perm time).nodup_iff.mpr hs
  | printPool =>
    cases h
    exact (printPool_perm hok.2).nodup_iff.mpr hs
  | received frame =>
    cases h
    exact (processFrame_perm frame hok.2).nodup_iff.mpr hs

lemma nodup_of_reaches (h : Reaches (step S) KeepsUnique initial s) : s.addresses.Nodup :=
  h.invariant (·.addresses.Nodup) (fun _ _ _ hi hok hstep => step_nodup hi hok hstep) List.nodup_nil

/-- As long as no pool is added that contains an offered or leased address, and only pools are sorted whose
addresses do not cross, every address is at one place only; and the first pool with an offered or leased address
puts one at two places. -/
theorem addresses_unique (S : StdSort) (h : Reaches (step S) KeepsUnique initial s) :
    s.addresses.Nodup ∧ ∀ ip mask t, step S s (.addPool ip mask) = some t →
      (t.addresses.Nodup ↔ s.AddsFresh (.addPool ip mask)) := by
  have hs := nodup_of_reaches h
  exact ⟨hs, fun _ _ _ hstep => addPool_nodup_iff hs hstep⟩

/-! Six addresses: one is leased and extended, one is leased, released and offered again, the others are free. -/

def fromClient (dataType client byte3 : UInt8) : Move :=
  .received ⟨dataType, Vector.replicate 6 client, ⟨10, 0, 0, byte3⟩, 0⟩

def leaseMoves : List Move :=
  [.addPool ⟨10, 0, 0, 4⟩ 30, fromClient 0 1 0, fromClient 0 2 0, fromClient 2 1 4, fromClient 2 2 5,
    fromClient 6 1 4, fromClient 4 2 5, fromClient 0 3 0, .addPool ⟨10, 0, 0, 8⟩ 31, .addTime 3, .printPool]

def leased : ServerMachine where
  ipPool := [⟨10, 0, 0, 6⟩, ⟨10, 0, 0, 7⟩, ⟨10, 0, 0, 8⟩, ⟨10, 0, 0, 9⟩]
  offeredIPs := [⟨Vector.replicate 6 3, ⟨10, 0, 0, 5⟩, 10⟩]
  givenIPs := [⟨Vector.replicate 6 1, ⟨10, 0, 0, 4⟩, 17⟩]

theorem addresses_unique_leases :
    play (step insertionSorting) initial leaseMoves = some leased ∧ leased.addresses.Nodup :=
  have h : play (step insertionSorting) initial leaseMoves = some leased := by decide
  ⟨h, (addresses_unique insertionSorting (reaches_of_allOk leaseMoves (by decide) h)).1⟩

theorem address_leased_twice :
    ∃ s, Reaches (step insertionSorting) anyMove initial s ∧ ¬s.addresses.Nodup ∧
      s.givenIPs = [⟨Vector.replicate 6 1, ⟨10, 0, 0, 4⟩, 10⟩, ⟨Vector.replicate 6 2, ⟨10, 0, 0, 4⟩, 10⟩] :=
  ⟨_, reaches_of_play [.addPool ⟨10, 0, 0, 4⟩ 32, fromClient 0 1 4, fromClient 2 1 4, .addPool ⟨10, 0, 0, 4⟩ 32,
      fromClient 0 2 4, fromClient 2 2 4]
    (show _ = some ⟨[], [], [⟨Vector.replicate 6 1, ⟨10, 0, 0, 4⟩, 10⟩, ⟨Vector.replicate 6 2, ⟨10, 0, 0, 4⟩, 10⟩]⟩
      by decide), by decide, rfl⟩

end ServerMachine

theorem BufferedServer.nodup_addresses {S : StdSort} (hS : S.Natural) {count : ℕ} {buffer : ℕ → UInt8}
    {s : BufferedServer} (h : Reaches (BufferedServer.step S count)
      (fun s e => s.KeepsPool e ∧ s.values.KeepsUnique (s.valueMove e)) (BufferedServer.initial buffer) s) :
    s.values.addresses.Nodup :=
  ServerMachine.nodup_of_reaches (BufferedServer.reaches_values hS h)

end CourseArchive.Dhcp
