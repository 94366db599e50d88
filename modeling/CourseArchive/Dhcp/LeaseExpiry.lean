import CourseArchive.Dhcp.Server

/-! What `add_time` does to the leases. -/

namespace CourseArchive.Dhcp

open Lib

section Sorted

variable {α : Type} {p : α → Bool} {l : List α}

lemma takeWhile_eq_filter (h : l.Pairwise fun a b => p b = true → p a = true) : l.takeWhile p = l.filter p := by
  induction l with
  | nil => rfl
  | cons a l ih =>
    obtain ⟨hhead, htail⟩ := List.pairwise_cons.mp h
    cases ha : p a with
    | true => rw [List.takeWhile_cons_of_pos ha, List.filter_cons_of_pos ha, ih htail]
    | false =>
      have hnone : ∀ b ∈ l, ¬p b = true := fun b hb hpb => by simp [hhead b hb hpb] at ha
      rw [List.takeWhile_cons_of_neg (by simp [ha]), List.filter_cons_of_neg (by simp [ha]),
        List.filter_eq_nil_iff.mpr hnone]

lemma dropWhile_eq_filter (h : l.Pairwise fun a b => p b = true → p a = true) :
    l.dropWhile p = l.filter fun a => !p a := by
  induction l with
  | nil => rfl
  | cons a l ih =>
    obtain ⟨hhead, htail⟩ := List.pairwise_cons.mp h
    cases ha : p a with
    | true => rw [List.dropWhile_cons_of_pos ha, List.filter_cons_of_neg (by simp [ha]), ih htail]
    | false =>
      have hall : ∀ b ∈ l, (!p b) = true := fun b hb => by
        cases hpb : p b with
        | false => rfl
        | true => simp [hhead b hb hpb] at ha
      rw [List.dropWhile_cons_of_neg (by simp [ha]), List.filter_cons_of_pos (by simp [ha]),
        List.filter_eq_self.mpr hall]

end Sorted

def EthernetData.after (given : EthernetData) (t : ℕ) : EthernetData :=
  { given with time := UInt32.ofNat (given.time.toNat - t) }

def EthernetData.minus (given : EthernetData) (time : ℤ) : EthernetData :=
  { given with time := given.time - UInt32.ofInt time }

namespace ServerMachine

variable {S : StdSort} {s : ServerMachine} {t : ℕ}

lemma timeLess_strictWeakOrder : StrictWeakOrder timeLess where
  irrefl a := by simp [timeLess]
  trans a b c := by
    simp only [timeLess, decide_eq_true_eq, UInt32.lt_iff_toNat_lt]
    omega
  between a b c := by
    simp only [timeLess, decide_eq_true_eq, UInt32.lt_iff_toNat_lt]
    omega

def reduced (s : ServerMachine) (time : ℤ) : List EthernetData := s.givenIPs.map (·.minus time)

lemma addTime_perm_filter (S : StdSort) (s : ServerMachine) (time : ℤ) :
    ∃ expired : List EthernetData, expired.Perm ((s.reduced time).filter fun given => given.time = 0) ∧
      (s.addTime S time).1.givenIPs.Perm ((s.reduced time).filter fun given => given.time ≠ 0) ∧
      (s.addTime S time).1.ipPool = s.ipPool ++ expired.map (·.ip) ∧
      (s.addTime S time).2 = expired.map tDhcpTimeout := by
  -- sorting puts the leases without time left in front, so that the loop finds them all
  have hperm := S.perm timeLess (s.reduced time) (timeLess_strictWeakOrder.on _)
  have hsorted : (S.sort timeLess (s.reduced time)).Pairwise fun a b =>
      decide (b.time ≤ 0) = true → decide (a.time ≤ 0) = true := by
    refine (S.ordered timeLess (s.reduced time) (timeLess_strictWeakOrder.on _)).imp fun {a b} h => ?_
    simp only [timeLess, decide_eq_false_iff_not, decide_eq_true_eq, UInt32.lt_iff_toNat_lt,
      UInt32.le_iff_toNat_le] at h ⊢
    omega
  have hzero : ∀ x : UInt32, x ≤ 0 ↔ x = 0 := fun x => by
    rw [UInt32.le_iff_toNat_le, ← UInt32.toNat_inj, UInt32.toNat_zero, Nat.le_zero]
  refine ⟨(S.sort timeLess (s.reduced time)).takeWhile fun given => given.time ≤ 0, ?_, ?_, rfl, rfl⟩
  · rw [takeWhile_eq_filter hsorted]
    simpa only [hzero] using hperm.filter fun given => decide (given.time ≤ 0)
  · change ((S.sort timeLess (s.reduced time)).dropWhile fun given => decide (given.time ≤ 0)).Perm _
    rw [dropWhile_eq_filter hsorted]
    simpa only [hzero, decide_not] using hperm.filter fun given => !decide (given.time ≤ 0)

lemma time_minus (given : EthernetData) (ht : t < 2 ^ 31) :
    (given.minus t).time.toNat = (2 ^ 32 - t + given.time.toNat) % 2 ^ 32 := by
  have hval : (UInt32.ofInt (t : ℤ)).toNat = t := by
    rw [UInt32.ofInt, UInt32.toNat_ofNat']
    omega
  rw [EthernetData.minus, UInt32.toNat_sub, hval]

lemma minus_time_eq_zero (given : EthernetData) (ht : t < 2 ^ 31) :
    (given.minus t).time = 0 ↔ given.time.toNat = t := by
  have hlt := given.time.toNat_lt
  rw [← UInt32.toNat_inj, time_minus given ht, UInt32.toNat_zero]
  omega

lemma minus_eq_after (given : EthernetData) (ht : t < 2 ^ 31) (h : t ≤ given.time.toNat) :
    given.minus t = given.after t := by
  have hlt := given.time.toNat_lt
  have htime : (given.minus t).time = UInt32.ofNat (given.time.toNat - t) := by
    rw [← UInt32.toNat_inj, time_minus given ht, UInt32.toNat_ofNat']
    omega
  exact congrArg (fun time => (⟨given.mac, given.ip, time⟩ : EthernetData)) htime

/-- The leases with at most `t` seconds left end: each address goes back to the pool once, and one timeout is
announced for it. The others have `t` seconds less. -/
structure Expires (S : StdSort) (s : ServerMachine) (t : ℕ) : Prop where
  ended : ∃ expired : List (Mac × Ip),
    expired.Perm ((s.givenIPs.filter fun given => given.time.toNat ≤ t).map fun given => (given.mac, given.ip)) ∧
      (s.addTime S t).1.ipPool = s.ipPool ++ expired.map Prod.snd ∧
      (s.addTime S t).2 = expired.map fun e => ⟨.timeout, e.1, e.2, none⟩
  kept : (s.addTime S t).1.givenIPs.Perm ((s.givenIPs.filter fun given => t < given.time.toNat).map (·.after t))
  offered : (s.addTime S t).1.offeredIPs = s.offeredIPs

lemma filter_reduced (s : ServerMachine) (ht : t < 2 ^ 31) :
    (s.reduced t).filter (fun given => given.time = 0) =
      (s.givenIPs.filter fun given => given.time.toNat = t).map (·.minus t) := by
  rw [reduced, List.filter_map]
  congr 1
  exact List.filter_congr fun given _ => by simp [minus_time_eq_zero given ht]

lemma filter_reduced_not (s : ServerMachine) (ht : t < 2 ^ 31) :
    (s.reduced t).filter (fun given => given.time ≠ 0) =
      (s.givenIPs.filter fun given => given.time.toNat ≠ t).map (·.minus t) := by
  rw [reduced, List.filter_map]
  congr 1
  exact List.filter_congr fun given _ => by simp [minus_time_eq_zero given ht]

/-- The time left has no sign: a lease that ended before the `t` seconds are over gets a very long time instead. -/
theorem leases_expire_iff (S : StdSort) (s : ServerMachine) (ht : t < 2 ^ 31) :
    s.Expires S t ↔ ∀ given ∈ s.givenIPs, t ≤ given.time.toNat := by
  obtain ⟨expired, hexpired, hkept, hpool, hsent⟩ := s.addTime_perm_filter S t
  rw [filter_reduced s ht] at hexpired
  rw [filter_reduced_not s ht] at hkept
  constructor
  · rintro ⟨⟨ended, hended, hpool', -⟩, -, -⟩
    -- as many addresses come back as there are leases with exactly `t` seconds
    have hlen : (s.givenIPs.filter fun given => given.time.toNat ≤ t).length =
        (s.givenIPs.filter fun given => given.time.toNat = t).length := by
      have h := congrArg List.length (hpool'.symm.trans hpool)
      have he := hexpired.length_eq
      have he' := hended.length_eq
      simp only [List.length_append, List.length_map] at h he he'
      omega
    rw [← List.countP_eq_length_filter, ← List.countP_eq_length_filter] at hlen
    have hsub : (s.givenIPs.filter fun given => given.time.toNat ≤ t).countP (fun given => given.time.toNat = t) =
        (s.givenIPs.filter fun given => given.time.toNat ≤ t).length := by
      rw [← List.countP_eq_length_filter, hlen, List.countP_filter]
      refine List.countP_congr fun given _ => ?_
      simp only [Bool.and_eq_true, decide_eq_true_eq]
      omega
    intro given hgiven
    by_contra hlt
    have heq := List.countP_eq_length.mp hsub given (List.mem_filter.mpr ⟨hgiven, by simp; omega⟩)
    simp only [decide_eq_true_eq] at heq
    omega
  · intro h
    have hended :
      (s.givenIPs.filter fun given => given.time.toNat = t) = s.givenIPs.filter fun given =>
      given.time.toNat ≤ t :=
      List.filter_congr fun given hgiven => by
        have := h given hgiven
        simp only [decide_eq_decide]
        omega
    have hleft :
      (s.givenIPs.filter fun given => given.time.toNat ≠ t) = s.givenIPs.filter fun given =>
      t < given.time.toNat :=
      List.filter_congr fun given hgiven => by
        have := h given hgiven
        simp only [decide_eq_decide]
        omega
    rw [hended] at hexpired
    rw [hleft] at hkept
    refine ⟨⟨expired.map fun given => (given.mac, given.ip), ?_, ?_, ?_⟩, ?_, rfl⟩
    · have := hexpired.map fun given => (given.mac, given.ip)
      rwa [List.map_map] at this
    · rw [hpool, List.map_map]
      rfl
    · rw [hsent, List.map_map]
      rfl
    · refine hkept.trans (.of_eq (List.map_congr_left fun given hgiven => ?_))
      exact minus_eq_after given ht (h given (List.mem_of_mem_filter hgiven))

def lease (byte : UInt8) (time : UInt32) : EthernetData := ⟨Vector.replicate 6 byte, ⟨10, 0, 0, byte⟩, time⟩

theorem leases_expire_iff_two : (⟨[], [], [lease 1 10, lease 2 5]⟩ : ServerMachine).Expires insertionSorting 5 ∧
    ((⟨[], [], [lease 1 10, lease 2 5]⟩ : ServerMachine).addTime insertionSorting 5).1 =
      ⟨[⟨10, 0, 0, 2⟩], [], [lease 1 5]⟩ :=
  ⟨(leases_expire_iff insertionSorting _ (by decide)).mpr (by decide), by decide⟩

theorem lease_never_expires : ¬(⟨[], [], [lease 1 10]⟩ : ServerMachine).Expires insertionSorting 11 ∧
    (⟨[], [], [lease 1 10]⟩ : ServerMachine).addTime insertionSorting 11 =
    (⟨[], [], [lease 1 4294967295]⟩, []) := by
  have hrun : (⟨[], [], [lease 1 10]⟩ : ServerMachine).addTime insertionSorting 11 =
    (⟨[], [], [lease 1 4294967295]⟩, []) := by
    rfl
  refine ⟨fun h => ?_, hrun⟩
  obtain ⟨expired, hperm, hpool, -⟩ := h.ended
  have hnil : expired = [] := by
    change (ServerMachine.addTime insertionSorting _ 11).1.ipPool = _ at hpool
    rw [hrun] at hpool
    simpa using hpool
  rw [hnil] at hperm
  have := hperm.length_eq
  revert this
  decide

end ServerMachine

end CourseArchive.Dhcp
