import CourseArchive.Dhcp.Server
import CourseArchive.Lib.AnyLess

/-! The order in which the server sorts its pool, and the order of the addresses as numbers. -/

namespace CourseArchive.Dhcp

open Lib

namespace Ip

def octets (a : Ip) : List ℕ := [a.byte0.toNat, a.byte1.toNat, a.byte2.toNat, a.byte3.toNat]

def value (a : Ip) : ℕ := a.byte0.toNat * 2 ^ 24 + a.byte1.toNat * 2 ^ 16 + a.byte2.toNat * 2 ^ 8 + a.byte3.toNat

lemma octets_lt_iff (a b : Ip) : a.octets < b.octets ↔ a.value < b.value := by
  have h₁ := a.byte1.toNat_lt
  have h₂ := a.byte2.toNat_lt
  have h₃ := a.byte3.toNat_lt
  have h₁' := b.byte1.toNat_lt
  have h₂' := b.byte2.toNat_lt
  have h₃' := b.byte3.toNat_lt
  simp only [octets, value, List.cons_lt_cons_iff, List.not_lt_nil, and_false, or_false]
  omega

end Ip

namespace ServerMachine

variable {s : ServerMachine} {S : StdSort}

lemma poolLess_eq (a b : Ip) : poolLess a b = anyLess a.octets b.octets := by
  simp only [poolLess, Ip.octets, anyLess, UInt8.lt_iff_toNat_lt, Bool.or_false]
  grind

def Uncrossed (s : ServerMachine) : Prop := ∀ a ∈ s.ipPool, ∀ b ∈ s.ipPool, Comparable a.octets b.octets

lemma Uncrossed.poolLess_iff (h : s.Uncrossed) {a b : Ip} (ha : a ∈ s.ipPool) (hb : b ∈ s.ipPool) :
    poolLess a b = true ↔ a.value < b.value := by
  rw [poolLess_eq, (h a ha b hb).anyLess_iff rfl, Ip.octets_lt_iff]

lemma Uncrossed.strictWeakOn (h : s.Uncrossed) : StrictWeakOn poolLess s.ipPool :=
  .of_key Ip.value fun _ ha _ hb => h.poolLess_iff ha hb

lemma uncrossed_of_strictWeakOn (h : StrictWeakOn poolLess s.ipPool) : s.Uncrossed := by
  intro a ha b hb
  rw [comparable_iff (show a.octets.length = b.octets.length from rfl), ← poolLess_eq, ← poolLess_eq]
  cases hab : poolLess a b with
  | false => exact .inl rfl
  | true => exact .inr (h.asymm ha hb hab)

lemma Uncrossed.perm_sort (h : s.Uncrossed) (S : StdSort) : (S.sort poolLess s.ipPool).Perm s.ipPool :=
  S.perm _ _ h.strictWeakOn

lemma Uncrossed.pairwise_sort (h : s.Uncrossed) (S : StdSort) :
    (S.sort poolLess s.ipPool).Pairwise fun a b => a.value ≤ b.value := by
  refine (S.ordered poolLess s.ipPool h.strictWeakOn).imp_of_mem fun {a b} ha hb hless => ?_
  have hmem := fun {x} => (h.perm_sort S).mem_iff (a := x)
  rw [← Bool.not_eq_true, h.poolLess_iff (hmem.mp hb) (hmem.mp ha)] at hless
  exact not_lt.mp hless

lemma exists_sort_of_crossed (h : ¬s.Uncrossed) : ∃ S : StdSort, S.Rearranges ∧
    ∃ a rest, S.sort poolLess s.ipPool = a :: rest ∧ ∃ b ∈ rest, b.value < a.value := by
  refine exists_sort_disordered (fun hweak => h (uncrossed_of_strictWeakOn hweak)) ?_
  by_contra hn
  push Not at hn
  refine h fun a ha b hb => ?_
  have hab : ¬a.octets < b.octets := fun hlt => ((Ip.octets_lt_iff a b).mp hlt).ne (hn a ha b hb)
  have hba : ¬b.octets < a.octets := fun hlt => ((Ip.octets_lt_iff b a).mp hlt).ne (hn b hb a ha)
  have heq : a.octets = b.octets := le_antisymm (not_lt.mp hba) (not_lt.mp hab)
  exact .inl (heq ▸ List.forall₂_refl _)

def OffersSmallest (S : StdSort) (s : ServerMachine) (frame : EthernetData) : Prop :=
  ∃ ip time, (s.rDhcpDiscover S frame).2 = [⟨.offer, frame.mac, ip, some time⟩] ∧ ip ∈ s.ipPool ∧
    ∀ a ∈ s.ipPool, ip.value ≤ a.value

lemma rDhcpDiscover_sent {ip : Ip} {rest : List Ip} (h : S.sort poolLess s.ipPool = ip :: rest)
    (frame : EthernetData) :
    (s.rDhcpDiscover S frame).2 = [⟨.offer, frame.mac, ip, some (timeOrTen frame.time)⟩] := by
  rw [rDhcpDiscover, h]

lemma Uncrossed.offersSmallest (h : s.Uncrossed) (S : StdSort) (hpool : s.ipPool ≠ []) (frame : EthernetData) :
    s.OffersSmallest S frame := by
  have hperm := h.perm_sort S
  have hsorted := h.pairwise_sort S
  cases hsort : S.sort poolLess s.ipPool with
  | nil => exact absurd (hsort ▸ hperm).symm.eq_nil hpool
  | cons ip rest =>
    rw [hsort] at hperm hsorted
    refine ⟨ip, _, rDhcpDiscover_sent hsort frame, hperm.mem_iff.mp List.mem_cons_self, fun a ha => ?_⟩
    rcases List.mem_cons.mp (hperm.mem_iff.mpr ha) with rfl | ha
    · exact le_rfl
    · exact (List.pairwise_cons.mp hsorted).1 a ha

lemma uncrossed_of_offersSmallest
    (h : ∀ S : StdSort, S.Rearranges → s.ipPool ≠ [] → ∀ frame, s.OffersSmallest S frame) :
    s.Uncrossed := by
  by_contra hcrossed
  obtain ⟨S, hS, a, rest, hsort, b, hb, hlt⟩ := exists_sort_of_crossed hcrossed
  have hmem : ∀ x ∈ a :: rest, x ∈ s.ipPool := fun x hx => (hS poolLess s.ipPool).mem_iff.mp (hsort ▸ hx)
  have hpool : s.ipPool ≠ [] := List.ne_nil_of_mem (hmem a List.mem_cons_self)
  obtain ⟨ip, time, hsent, -, hmin⟩ := h S hS hpool ⟨Vector.replicate 6 0, a, 0⟩
  rw [rDhcpDiscover_sent hsort, List.cons.injEq, Sent.mk.injEq] at hsent
  obtain rfl : a = ip := hsent.1.2.2.1
  exact absurd hlt (not_lt_of_ge (hmin b (hmem b (List.mem_cons_of_mem _ hb))))

lemma uncrossed_of_printPool
    (h : ∀ S : StdSort, S.Rearranges → (s.printPool S).ipPool.Pairwise fun a b => a.value ≤ b.value) :
    s.Uncrossed := by
  by_contra hcrossed
  obtain ⟨S, hS, a, rest, hsort, b, hb, hlt⟩ := exists_sort_of_crossed hcrossed
  have hsorted := h S hS
  rw [printPool, hsort] at hsorted
  exact absurd hlt (not_lt_of_ge ((List.pairwise_cons.mp hsorted).1 b hb))

/-- The comparison is a strict weak order on the pool, and the order of the numbers, exactly if no two addresses of
the pool cross; and exactly then every sort puts the smallest address first and prints the pool in increasing
order, whether it keeps to the standard only or rearranges every range. -/
theorem pool_ordered_iff (s : ServerMachine) :
    (StrictWeakOn poolLess s.ipPool ∧
        (∀ a ∈ s.ipPool, ∀ b ∈ s.ipPool, (poolLess a b = true ↔ a.value < b.value)) ↔ s.Uncrossed) ∧
      (((∀ S : StdSort, s.ipPool ≠ [] → ∀ frame, s.OffersSmallest S frame) ↔ s.Uncrossed) ∧
        ((∀ S : StdSort, S.Rearranges → s.ipPool ≠ [] → ∀ frame, s.OffersSmallest S frame) ↔ s.Uncrossed)) ∧
      ((∀ S : StdSort, (s.printPool S).ipPool.Pairwise fun a b => a.value ≤ b.value) ↔ s.Uncrossed) ∧
      ((∀ S : StdSort, S.Rearranges → (s.printPool S).ipPool.Pairwise fun a b => a.value ≤ b.value) ↔
        s.Uncrossed) := by
  refine ⟨⟨fun h => uncrossed_of_strictWeakOn h.1,
    fun h => ⟨h.strictWeakOn, fun a ha b hb => h.poolLess_iff ha hb⟩⟩,
    ⟨⟨fun h => uncrossed_of_offersSmallest fun S _ => h S, fun h => h.offersSmallest⟩,
      ⟨uncrossed_of_offersSmallest, fun h S _ => h.offersSmallest S⟩⟩,
    ⟨fun h => uncrossed_of_printPool fun S _ => h S, fun h => h.pairwise_sort⟩,
    ⟨uncrossed_of_printPool, fun h S _ => h.pairwise_sort S⟩⟩

theorem crossed_addresses :
    poolLess ⟨10, 0, 1, 0⟩ ⟨10, 0, 0, 255⟩ = true ∧ poolLess ⟨10, 0, 0, 255⟩ ⟨10, 0, 1, 0⟩ = true ∧
    (⟨10, 0, 0, 255⟩ : Ip).value < (⟨10, 0, 1, 0⟩ : Ip).value ∧
    ((⟨[⟨10, 0, 0, 255⟩, ⟨10, 0, 1, 0⟩], [], []⟩ : ServerMachine).printPool insertionSorting).ipPool =
      [⟨10, 0, 1, 0⟩, ⟨10, 0, 0, 255⟩] := by
  decide

end ServerMachine

end CourseArchive.Dhcp
