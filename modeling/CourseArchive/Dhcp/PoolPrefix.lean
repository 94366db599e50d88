import CourseArchive.Dhcp.PoolOrder
import CourseArchive.Dhcp.Uniqueness

/-! Which addresses `add_pool` adds. -/

namespace CourseArchive.Dhcp

open Lib

namespace Ip

def InPrefix (ip : Ip) (m : ℕ) (a : Ip) : Prop := a.value / 2 ^ (32 - m) = ip.value / 2 ^ (32 - m)

instance (ip : Ip) (m : ℕ) (a : Ip) : Decidable (ip.InPrefix m a) := inferInstanceAs (Decidable (_ = _))

structure SameNet (ip a : Ip) : Prop where
  byte0 : a.byte0 = ip.byte0
  byte1 : a.byte1 = ip.byte1
  byte2 : a.byte2 = ip.byte2

lemma sameNet_iff (ip a : Ip) : ip.SameNet a ↔ a.value / 2 ^ 8 = ip.value / 2 ^ 8 := by
  have h₁ := a.byte1.toNat_lt
  have h₂ := a.byte2.toNat_lt
  have h₃ := a.byte3.toNat_lt
  have h₁' := ip.byte1.toNat_lt
  have h₂' := ip.byte2.toNat_lt
  have h₃' := ip.byte3.toNat_lt
  constructor
  · rintro ⟨h0, h1, h2⟩
    simp only [value, h0, h1, h2]
    omega
  · intro h
    simp only [value] at h
    exact ⟨UInt8.toNat_inj.mp (by omega), UInt8.toNat_inj.mp (by omega), UInt8.toNat_inj.mp (by omega)⟩

lemma sameNet_of_inPrefix {ip a : Ip} {m : ℕ} (hm : 24 ≤ m) (h : ip.InPrefix m a) : ip.SameNet a := by
  have hpow : 2 ^ 8 = 2 ^ (32 - m) * 2 ^ (8 - (32 - m)) := by
    rw [← Nat.pow_add]
    congr 1
    omega
  rw [sameNet_iff, hpow, ← Nat.div_div_eq_div_mul, ← Nat.div_div_eq_div_mul, h]

lemma inPrefix_of_sameNet {ip a : Ip} {m : ℕ} (hm : m ≤ 24) (h : ip.SameNet a) : ip.InPrefix m a := by
  have hpow : 2 ^ (32 - m) = 2 ^ 8 * 2 ^ (24 - m) := by
    rw [← Nat.pow_add]
    congr 1
    omega
  rw [InPrefix, hpow, ← Nat.div_div_eq_div_mul, ← Nat.div_div_eq_div_mul, (sameNet_iff ip a).mp h]

lemma inPrefix_iff_byte3 {ip a : Ip} {m : ℕ} (h₀ : 24 ≤ m) (h₁ : m ≤ 32) (h : ip.SameNet a) :
    ip.InPrefix m a ↔ a.byte3.toNat / 2 ^ (32 - m) = ip.byte3.toNat / 2 ^ (32 - m) := by
  obtain ⟨h0, h1, h2⟩ := h
  obtain ⟨k, hk⟩ :
    ∃ k, ip.byte0.toNat * 2 ^ 24 + ip.byte1.toNat * 2 ^ 16 + ip.byte2.toNat * 2 ^ 8 = 2 ^ (32 - m) * k := by
    have hdvd : 2 ^ (32 - m) ∣ 2 ^ 8 := Nat.pow_dvd_pow 2 (by omega)
    obtain ⟨j, hj⟩ := hdvd
    refine ⟨j * (ip.byte0.toNat * 2 ^ 16 + ip.byte1.toNat * 2 ^ 8 + ip.byte2.toNat), ?_⟩
    rw [← Nat.mul_assoc, ← hj]
    ring
  have hpos : 0 < 2 ^ (32 - m) := Nat.two_pow_pos _
  simp only [InPrefix, value, h0, h1, h2, hk, Nat.mul_add_div hpos, Nat.add_left_cancel_iff]

end Ip

namespace ServerMachine

open Ip

variable {s t : ServerMachine} {ip a : Ip} {m : ℕ}

lemma poolAddress_sameNet (ip : Ip) (shift i : ℕ) : ip.SameNet (poolAddress ip shift i) := ⟨rfl, rfl, rfl⟩

lemma toNat_ofNat_mask {m : ℕ} (h : m ≤ 32) : (UInt8.ofNat m).toNat = m := by
  rw [UInt8.toNat_ofNat', Nat.mod_eq_of_lt (by omega)]

lemma mem_poolAddresses (h₀ : 1 ≤ m) (h₁ : m ≤ 32) :
    a ∈ poolAddresses ip (UInt8.ofNat m) ↔ m ≠ 1 ∧ ip.SameNet a ∧ ip.InPrefix m a := by
  -- the loop adds what `ip`'s own network of 256 addresses has in common with the prefix, and nothing for mask 1
  have hb := ip.byte3.toNat_lt
  have ha := a.byte3.toNat_lt
  simp only [poolAddresses, toNat_ofNat_mask h₁, List.mem_map, List.mem_range, poolTurns]
  by_cases hone : m = 1
  · subst hone
    simp
  rw [if_neg (by omega : ¬32 - m = 31)]
  have hbyte :
    ∀ i, (poolAddress ip (32 - m) i).byte3.toNat = (ip.byte3.toNat / 2 ^ (32 - m) * 2 ^ (32 - m) + i) % 256 := by
    intro i
    rw [poolAddress, UInt8.toNat_ofNat', Nat.shiftRight_eq_div_pow, Nat.shiftLeft_eq]
  constructor
  · rintro ⟨i, hi, rfl⟩
    refine ⟨hone, poolAddress_sameNet ip _ i, ?_⟩
    rcases le_or_gt m 24 with hm | hm
    · exact inPrefix_of_sameNet hm (poolAddress_sameNet ip _ i)
    · rw [inPrefix_iff_byte3 hm.le h₁ (poolAddress_sameNet ip _ i), hbyte]
      have hblock : ip.byte3.toNat / 2 ^ (32 - m) * 2 ^ (32 - m) + 2 ^ (32 - m) ≤ 256 := by
        have hpow : 256 = 2 ^ (m - 24) * 2 ^ (32 - m) := by
          rw [← Nat.pow_add, show m - 24 + (32 - m) = 8 by omega]
        have hdiv : ip.byte3.toNat / 2 ^ (32 - m) < 2 ^ (m - 24) := by
          rw [Nat.div_lt_iff_lt_mul (Nat.two_pow_pos _), ← hpow]
          exact hb
        calc ip.byte3.toNat / 2 ^ (32 - m) * 2 ^ (32 - m) + 2 ^ (32 - m)
            = (ip.byte3.toNat / 2 ^ (32 - m) + 1) * 2 ^ (32 - m) := by ring
          _ ≤ 2 ^ (m - 24) * 2 ^ (32 - m) := Nat.mul_le_mul_right _ hdiv
          _ = 256 := hpow.symm
      rw [Nat.mod_eq_of_lt (by omega), Nat.mul_comm, Nat.mul_add_div (Nat.two_pow_pos _), Nat.div_eq_of_lt hi,
        Nat.add_zero]
  · rintro ⟨-, hnet, hprefix⟩
    have heq : ∀ i, (poolAddress ip (32 - m) i).byte3.toNat = a.byte3.toNat → poolAddress ip (32 - m) i = a := by
      intro i hi
      obtain ⟨h0, h1, h2⟩ := hnet
      cases a
      simp only [poolAddress, Ip.mk.injEq] at h0 h1 h2 hi ⊢
      exact ⟨h0.symm, h1.symm, h2.symm, UInt8.toNat_inj.mp hi⟩
    rcases le_or_gt m 24 with hm | hm
    · have hpow : 2 ^ 8 ≤ 2 ^ (32 - m) := Nat.pow_le_pow_right (by omega) (by omega)
      refine ⟨a.byte3.toNat, by omega, heq _ ?_⟩
      rw [hbyte, Nat.div_eq_of_lt (by omega), Nat.zero_mul, Nat.zero_add, Nat.mod_eq_of_lt ha]
    · rw [inPrefix_iff_byte3 hm.le h₁ hnet] at hprefix
      refine ⟨a.byte3.toNat % 2 ^ (32 - m), Nat.mod_lt _ (Nat.two_pow_pos _), heq _ ?_⟩
      rw [hbyte, ← hprefix, Nat.div_add_mod', Nat.mod_eq_of_lt ha]

lemma foldl_addAddress_eq (added : List Ip) (s : ServerMachine) : ∃ new : List Ip,
    added.foldl addAddress s = { s with ipPool := s.ipPool ++ new } ∧ new.Nodup ∧ ∀ a, a ∈ new ↔
    a ∈ added ∧ a ∉ s.ipPool := by
  induction added generalizing s with
  | nil => exact ⟨[], by simp, List.nodup_nil, by simp⟩
  | cons newIp added ih =>
    rw [List.foldl_cons, addAddress_eq]
    split
    · next hmem =>
      obtain ⟨new, hfold, hnodup, hnew⟩ := ih s
      refine ⟨new, hfold, hnodup, fun a => (hnew a).trans ?_⟩
      rw [List.mem_cons]
      refine and_congr_left fun hnot => (or_iff_right ?_).symm
      rintro rfl
      exact hnot hmem
    · next hmem =>
      obtain ⟨new, hfold, hnodup, hnew⟩ := ih { s with ipPool := s.ipPool ++ [newIp] }
      refine ⟨newIp :: new, by simp [hfold], List.nodup_cons.mpr ⟨fun hn => ?_, hnodup⟩, fun a => ?_⟩
      · exact ((hnew newIp).mp hn).2 (List.mem_append_right _ (List.mem_singleton_self _))
      · simp only [List.mem_cons, hnew, List.mem_append, List.not_mem_nil, or_false, not_or]
        constructor
        · rintro (rfl | ⟨ha, hnot, -⟩)
          · exact ⟨.inl rfl, hmem⟩
          · exact ⟨.inr ha, hnot⟩
        · rintro ⟨rfl | ha, hnot⟩
          · exact .inl rfl
          · by_cases he : a = newIp
            · exact .inl he
            · exact .inr ⟨ha, hnot, he⟩

lemma addPool_eq (s : ServerMachine) (ip : Ip) (h₀ : 1 ≤ m) (h₁ : m ≤ 32) : ∃ new : List Ip,
    s.addPool ip (UInt8.ofNat m) = some { s with ipPool := s.ipPool ++ new } ∧ new.Nodup ∧
      ∀ a, a ∈ new ↔ (m ≠ 1 ∧ ip.SameNet a ∧ ip.InPrefix m a) ∧ a ∉ s.ipPool := by
  have hmask : ¬(UInt8.ofNat m = 0 ∨ 32 < UInt8.ofNat m) := by
    rw [← UInt8.toNat_inj, UInt8.lt_iff_toNat_lt, toNat_ofNat_mask h₁]
    simp only [UInt8.reduceToNat]
    omega
  obtain ⟨new, hfold, hnodup, hnew⟩ := foldl_addAddress_eq (poolAddresses ip (UInt8.ofNat m)) s
  simp only [mem_poolAddresses h₀ h₁] at hnew
  refine ⟨new, ?_, hnodup, hnew⟩
  rw [addPool, if_neg hmask, ← hfold, poolAddresses, List.foldl_map]

structure AddsPrefix (s : ServerMachine) (ip : Ip) (m : ℕ) (t : ServerMachine) : Prop where
  mem_iff : ∀ a, a ∈ t.ipPool ↔ a ∈ s.ipPool ∨ ip.InPrefix m a
  grows : ∃ new : List Ip, t = { s with ipPool := s.ipPool ++ new } ∧ new.Nodup ∧ ∀ a ∈ new, a ∉ s.ipPool

/-- The prefix lies in one network of 256 addresses, or the pool has already what lies outside that of `ip`. -/
def Reachable (s : ServerMachine) (ip : Ip) (m : ℕ) : Prop :=
  24 ≤ m ∨ 1 ≤ m ∧ ∀ a, ip.InPrefix m a → a ∈ s.ipPool ∨ m ≠ 1 ∧ ip.SameNet a

theorem addPool_addsPrefix_iff (s : ServerMachine) (ip : Ip) (hm : m ≤ 32) :
    (∃ t, s.addPool ip (UInt8.ofNat m) = some t ∧ s.AddsPrefix ip m t) ↔ s.Reachable ip m := by
  rcases Nat.eq_zero_or_pos m with rfl | hpos
  · simp [addPool, Reachable]
  obtain ⟨new, hrun, hnodup, hnew⟩ := s.addPool_eq ip hpos hm
  rw [hrun]
  constructor
  · rintro ⟨t, ht, hadds⟩
    obtain rfl := Option.some_injective _ ht
    refine .inr ⟨hpos, fun a ha => ?_⟩
    rcases List.mem_append.mp ((hadds.mem_iff a).mpr (.inr ha)) with hpool | hadded
    · exact .inl hpool
    · obtain ⟨⟨hone, hnet, -⟩, -⟩ := (hnew a).mp hadded
      exact .inr ⟨hone, hnet⟩
  · intro h
    have hcover : ∀ a, ip.InPrefix m a → a ∈ s.ipPool ∨ m ≠ 1 ∧ ip.SameNet a := by
      rcases h with h | ⟨-, h⟩
      · exact fun a ha => .inr ⟨by omega, sameNet_of_inPrefix h ha⟩
      · exact h
    refine ⟨_, rfl, fun a => ?_, new, rfl, hnodup, fun a ha => ((hnew a).mp ha).2⟩
    rw [List.mem_append, hnew]
    constructor
    · rintro (hpool | ⟨⟨-, -, hprefix⟩, -⟩)
      · exact .inl hpool
      · exact .inr hprefix
    · rintro (hpool | hprefix)
      · exact .inl hpool
      · by_cases hpool : a ∈ s.ipPool
        · exact .inl hpool
        · obtain ⟨hone, hnet⟩ := (hcover a hprefix).resolve_left hpool
          exact .inr ⟨⟨hone, hnet, hprefix⟩, hpool⟩

theorem addPool_addsPrefix_iff_four :
    ∃ t, initial.addPool ⟨10, 0, 0, 6⟩ 30 = some t ∧
    t.ipPool = [⟨10, 0, 0, 4⟩, ⟨10, 0, 0, 5⟩, ⟨10, 0, 0, 6⟩, ⟨10, 0, 0, 7⟩] ∧
      initial.AddsPrefix ⟨10, 0, 0, 6⟩ 30 t := by
  obtain ⟨t, ht, hadds⟩ :=
    (addPool_addsPrefix_iff initial ⟨10, 0, 0, 6⟩ (show 30 ≤ 32 by decide)).mpr (.inl (by decide))
  have hpool : (initial.addPool ⟨10, 0, 0, 6⟩ 30).map (·.ipPool) =
      some [⟨10, 0, 0, 4⟩, ⟨10, 0, 0, 5⟩, ⟨10, 0, 0, 6⟩, ⟨10, 0, 0, 7⟩] := by decide
  change initial.addPool ⟨10, 0, 0, 6⟩ 30 = some t at ht
  rw [ht] at hpool
  exact ⟨t, ht, Option.some_injective _ hpool, hadds⟩

theorem half_of_prefix_missing : ∃ t, initial.addPool ⟨10, 0, 0, 0⟩ 23 = some t ∧ ⟨10, 0, 0, 255⟩ ∈ t.ipPool ∧
    (⟨10, 0, 0, 0⟩ : Ip).InPrefix 23 ⟨10, 0, 1, 0⟩ ∧ ⟨10, 0, 1, 0⟩ ∉ t.ipPool := by
  obtain ⟨new, hrun, -, hnew⟩ := initial.addPool_eq ⟨10, 0, 0, 0⟩ (show 1 ≤ 23 by decide) (show 23 ≤ 32 by decide)
  have hpool : initial.ipPool ++ new = new := rfl
  refine ⟨_, hrun, ?_, by decide, ?_⟩
  · rw [hpool, hnew]
    exact ⟨⟨by decide, ⟨rfl, rfl, rfl⟩, by decide⟩, List.not_mem_nil⟩
  · rw [hpool, hnew]
    rintro ⟨⟨-, hnet, -⟩, -⟩
    exact absurd hnet.byte2 (by decide)

end ServerMachine

end CourseArchive.Dhcp
