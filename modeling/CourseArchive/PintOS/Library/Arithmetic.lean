import CourseArchive.Lib.QuotientEstimate

/-! 64-bit division without a 64-bit divide instruction (`lib/arithmetic.c`). `none` is the divide error of the
processor; negation of a signed number wraps. -/

namespace CourseArchive.PintOS.Library

open Lib

def divl (n : UInt64) (d : UInt32) : Option UInt32 :=
  if d ≠ 0 ∧ n.toNat / d.toNat < 2 ^ 32 then some (UInt32.ofNat (n.toNat / d.toNat)) else none

def shiftUp (limit : UInt32) (j : ℕ) (p : UInt32 × ℕ) : UInt32 × ℕ :=
  if p.1 ≤ limit then (p.1 <<< UInt32.ofNat j, p.2 + j) else p

def nlz (x : UInt32) : ℕ :=
  let p := shiftUp 0x0000FFFF 16 (x, 0)
  let p := shiftUp 0x00FFFFFF 8 p
  let p := shiftUp 0x0FFFFFFF 4 p
  let p := shiftUp 0x3FFFFFFF 2 p
  if p.1 ≤ 0x7FFFFFFF then p.2 + 1 else p.2

def udiv64 (n d : UInt64) : Option UInt64 := do
  if d >>> 32 = 0 then
    let b := (1 : UInt64) <<< 32
    let n1 := (n >>> 32).toUInt32
    let n0 := n.toUInt32
    let d0 := d.toUInt32
    if d0 = 0 then none
    let q ← divl (b * (n1 % d0).toUInt64 + n0.toUInt64) d0
    return q.toUInt64 + b * (n1 / d0).toUInt64
  else if n < d then return 0
  else
    let d1 := (d >>> 32).toUInt32
    let s := nlz d1
    let q ← divl (n >>> 1) ((d <<< UInt64.ofNat s) >>> 32).toUInt32
    let q := (q >>> UInt32.ofNat (31 - s)).toUInt64
    return if n - (q - 1) * d < d then q - 1 else q

def umod64 (n d : UInt64) : Option UInt32 := do
  return (n - d * (← udiv64 n d)).toUInt32

def abs64 (n : Int64) : UInt64 := if n ≥ 0 then n.toUInt64 else -n.toUInt64

def sdiv64 (n d : Int64) : Option Int64 := do
  let qAbs ← udiv64 (abs64 n) (abs64 d)
  return if decide (n < 0) = decide (d < 0) then qAbs.toInt64 else -qAbs.toInt64

def smod64 (n d : Int64) : Option Int32 := do
  return (n - d * (← sdiv64 n d)).toInt32

def divdi3 (n d : Int64) : Option Int64 := sdiv64 n d

def moddi3 (n d : Int64) : Option Int64 := (smod64 n d).map Int32.toInt64

def udivdi3 (n d : UInt64) : Option UInt64 := udiv64 n d

def umoddi3 (n d : UInt64) : Option UInt64 := (umod64 n d).map UInt32.toUInt64

/-! The number of leading zeros. -/

structure Moved (x₀ : UInt32) (p : UInt32 × ℕ) (low : ℕ) : Prop where
  value : p.1.toNat = x₀.toNat * 2 ^ p.2
  bound : 2 ^ low ≤ p.1.toNat

lemma Moved.shiftUp {x₀ : UInt32} {p : UInt32 × ℕ} {low j : ℕ} {limit : UInt32} (h : Moved x₀ p low)
    (hlimit : limit.toNat + 1 = 2 ^ (32 - j)) (hj : low + j + j = 32) :
    Moved x₀ (shiftUp limit j p) (low + j) := by
  rw [Library.shiftUp]
  by_cases hx : p.1 ≤ limit
  · have hle : p.1.toNat ≤ limit.toNat := UInt32.le_iff_toNat_le.mp hx
    have hj32 : j < 32 := by
      by_contra hge
      have hj0 : 32 - j = 0 := by omega
      rw [hj0] at hlimit
      have hbound := h.bound
      have hpow := Nat.two_pow_pos low
      omega
    have hsmall : p.1.toNat * 2 ^ j < 2 ^ 32 := by
      calc p.1.toNat * 2 ^ j < 2 ^ (32 - j) * 2 ^ j := Nat.mul_lt_mul_of_pos_right (by omega) (Nat.two_pow_pos j)
        _ = 2 ^ 32 := by
          rw [← pow_add]
          congr 1
          omega
    have hcnt : (UInt32.ofNat j).toNat = j := UInt32.toNat_ofNat_of_lt' (by simp [UInt32.size]; omega)
    have hshift : (p.1 <<< UInt32.ofNat j).toNat = p.1.toNat * 2 ^ j := by
      rw [UInt32.toNat_shiftLeft, hcnt, Nat.mod_eq_of_lt hj32, Nat.shiftLeft_eq, Nat.mod_eq_of_lt hsmall]
    rw [if_pos hx]
    refine ⟨?_, ?_⟩
    · rw [hshift, h.value, pow_add, mul_assoc]
    · rw [hshift, pow_add]
      exact Nat.mul_le_mul_right _ h.bound
  · rw [if_neg hx]
    rw [UInt32.le_iff_toNat_le] at hx
    refine ⟨h.value, ?_⟩
    have hlow : low + j = 32 - j := by omega
    rw [hlow]
    omega

lemma nlz_spec {x : UInt32} (hx : x ≠ 0) :
    2 ^ 31 ≤ x.toNat * 2 ^ nlz x ∧ x.toNat * 2 ^ nlz x < 2 ^ 32 ∧ nlz x ≤ 31 := by
  have hpos : 0 < x.toNat := Nat.pos_of_ne_zero fun h0 => hx (UInt32.toNat_inj.mp h0)
  have h₀ : Moved x (x, 0) 0 := ⟨by simp, hpos⟩
  have h₁ : Moved x (shiftUp 0x0000FFFF 16 (x, 0)) 16 := h₀.shiftUp rfl rfl
  have h₂ : Moved x (shiftUp 0x00FFFFFF 8 (shiftUp 0x0000FFFF 16 (x, 0))) 24 := h₁.shiftUp rfl rfl
  have h₃ : Moved x (shiftUp 0x0FFFFFFF 4 (shiftUp 0x00FFFFFF 8 (shiftUp 0x0000FFFF 16 (x, 0)))) 28 :=
    h₂.shiftUp rfl rfl
  have h₄ : Moved x
    (shiftUp 0x3FFFFFFF 2 (shiftUp 0x0FFFFFFF 4 (shiftUp 0x00FFFFFF 8 (shiftUp 0x0000FFFF 16 (x, 0))))) 30 :=
    h₃.shiftUp rfl rfl
  have hbounds : 2 ^ 31 ≤ x.toNat * 2 ^ nlz x ∧ x.toNat * 2 ^ nlz x < 2 ^ 32 := by
    rw [nlz]
    generalize shiftUp 0x3FFFFFFF 2
      (shiftUp 0x0FFFFFFF 4 (shiftUp 0x00FFFFFF 8 (shiftUp 0x0000FFFF 16 (x, 0)))) = p at *
    obtain ⟨hvalue, hbound⟩ := h₄
    have hlt := p.1.toNat_lt
    by_cases hp : p.1 ≤ 0x7FFFFFFF
    · have hle : p.1.toNat ≤ 2 ^ 31 - 1 := UInt32.le_iff_toNat_le.mp hp
      rw [if_pos hp, pow_succ 2 p.2, ← mul_assoc, ← hvalue]
      omega
    · rw [UInt32.le_iff_toNat_le] at hp
      have hgt : 2 ^ 31 - 1 < p.1.toNat := Nat.lt_of_not_le hp
      have hp' : ¬p.1 ≤ 0x7FFFFFFF := by rwa [UInt32.le_iff_toNat_le]
      rw [if_neg hp', ← hvalue]
      omega
  refine ⟨hbounds.1, hbounds.2, ?_⟩
  have hpow : 2 ^ nlz x < 2 ^ 32 := (Nat.le_mul_of_pos_left _ hpos).trans_lt hbounds.2
  have hlt := (Nat.pow_lt_pow_iff_right (by omega : 1 < 2)).mp hpow
  omega

lemma divl_eq {n : UInt64} {d : UInt32} (hd : 0 < d.toNat) (hq : n.toNat / d.toNat < 2 ^ 32) :
    ∃ q, divl n d = some q ∧ q.toNat = n.toNat / d.toNat := by
  have hd0 : d ≠ 0 := by
    rintro rfl
    exact lt_irrefl _ hd
  exact ⟨_, if_pos ⟨hd0, hq⟩, UInt32.toNat_ofNat_of_lt' hq⟩

lemma udiv64_small {n d : UInt64} (hd : d ≠ 0) (hsmall : d >>> 32 = 0) : udiv64 n d = some (n / d) := by
  have hdpos : 0 < d.toNat := Nat.pos_of_ne_zero fun h0 => hd (UInt64.toNat_inj.mp h0)
  have hd32 : d.toNat < 2 ^ 32 := by
    have hshift := congrArg UInt64.toNat hsmall
    simp only [UInt64.toNat_shiftRight, Nat.shiftRight_eq_div_pow, UInt64.toNat_zero] at hshift
    have h32 : (32 : UInt64).toNat % 64 = 32 := rfl
    rw [h32] at hshift
    exact (Nat.div_eq_zero_iff.mp hshift).resolve_left (by norm_num)
  have hd0 : d.toUInt32.toNat = d.toNat := by rw [UInt64.toNat_toUInt32, Nat.mod_eq_of_lt hd32]
  have hn64 := n.toNat_lt
  have hn1 : (n >>> 32).toUInt32.toNat = n.toNat / 2 ^ 32 := by
    rw [UInt64.toNat_toUInt32, UInt64.toNat_shiftRight, Nat.shiftRight_eq_div_pow]
    exact Nat.mod_eq_of_lt (Nat.div_lt_of_lt_mul hn64)
  have hn0 : n.toUInt32.toNat = n.toNat % 2 ^ 32 := UInt64.toNat_toUInt32 n
  have hlow : n.toNat % 2 ^ 32 < 2 ^ 32 := Nat.mod_lt _ (by norm_num)
  have hmod : (n.toNat / 2 ^ 32) % d.toNat < d.toNat := Nat.mod_lt _ hdpos
  have harg : ((1 : UInt64) <<< 32 * ((n >>> 32).toUInt32 % d.toUInt32).toUInt64 + n.toUInt32.toUInt64).toNat =
      2 ^ 32 * ((n.toNat / 2 ^ 32) % d.toNat) + n.toNat % 2 ^ 32 := by
    have hb : ((1 : UInt64) <<< 32).toNat = 2 ^ 32 := rfl
    rw [UInt64.toNat_add, UInt64.toNat_mul, UInt32.toNat_toUInt64, UInt32.toNat_toUInt64, UInt32.toNat_mod, hb,
      hn1, hn0, hd0,
      Nat.mod_eq_of_lt (a := 2 ^ 32 * _) (by omega), Nat.mod_eq_of_lt (by omega)]
  obtain ⟨q, hq, hqval⟩ :=
    divl_eq (n := (1 : UInt64) <<< 32 * ((n >>> 32).toUInt32 % d.toUInt32).toUInt64 + n.toUInt32.toUInt64)
    (d := d.toUInt32) (by rwa [hd0]) (by rw [harg, hd0]; exact second_digit_lt hdpos hlow)
  rw [harg, hd0] at hqval
  have hd0' : d.toUInt32 ≠ 0 := fun h0 => by
    have hzero := congrArg UInt32.toNat h0
    rw [hd0] at hzero
    exact hdpos.ne' hzero
  rw [udiv64, if_pos hsmall, if_neg hd0', hq]
  refine congrArg some (UInt64.toNat_inj.mp ?_)
  have hb : ((1 : UInt64) <<< 32).toNat = 2 ^ 32 := rfl
  have htwo := div_two_digits (2 ^ 32) d.toNat (n.toNat / 2 ^ 32) (n.toNat % 2 ^ 32) hdpos
  rw [Nat.div_add_mod] at htwo
  have hfit : n.toNat / d.toNat < 2 ^ 64 := (Nat.div_le_self _ _).trans_lt hn64
  rw [htwo] at hfit
  rw [UInt64.toNat_add, UInt64.toNat_mul, UInt32.toNat_toUInt64, UInt32.toNat_toUInt64, UInt32.toNat_div, hb, hn1,
    hd0, hqval,
    UInt64.toNat_div, htwo, Nat.mod_eq_of_lt (a := 2 ^ 32 * _) (by omega), Nat.mod_eq_of_lt (by omega)]

lemma upper_half {d : UInt64} {s : ℕ} (hs : s ≤ 31) (hds : d.toNat * 2 ^ s < 2 ^ 64) :
    ((d <<< UInt64.ofNat s) >>> 32).toUInt32.toNat = d.toNat / 2 ^ (32 - s) := by
  -- the upper half of the divisor once it has been moved up to fill the word
  have hpow : 2 ^ s * 2 ^ (32 - s) = 2 ^ 32 := by
    rw [← pow_add]
    congr 1
    omega
  have hcnt : (UInt64.ofNat s).toNat % 64 = s := by
    rw [UInt64.toNat_ofNat_of_lt' (by simp [UInt64.size]; omega)]
    omega
  have hshift : (d <<< UInt64.ofNat s).toNat = d.toNat * 2 ^ s := by
    rw [UInt64.toNat_shiftLeft, hcnt, Nat.shiftLeft_eq, Nat.mod_eq_of_lt hds]
  have h32 : (32 : UInt64).toNat % 64 = 32 := rfl
  have hfit : d.toNat * 2 ^ s / 2 ^ 32 < 2 ^ 32 := Nat.div_lt_of_lt_mul (by omega)
  rw [UInt64.toNat_toUInt32, UInt64.toNat_shiftRight, hshift, h32, Nat.shiftRight_eq_div_pow,
    Nat.mod_eq_of_lt hfit, ← hpow, mul_comm d.toNat, Nat.mul_div_mul_left _ _ (Nat.two_pow_pos s)]

lemma moved_divisor_lt {d s : ℕ} (hs : s ≤ 31) (hd : d / 2 ^ 32 * 2 ^ s < 2 ^ 32) : d * 2 ^ s < 2 ^ 64 := by
  have hpow : 2 ^ 32 = 2 ^ (32 - s) * 2 ^ s := by
    rw [← pow_add]
    congr 1
    omega
  have hfits : d / 2 ^ 32 + 1 ≤ 2 ^ (32 - s) := by
    refine Nat.lt_of_mul_lt_mul_right (a := 2 ^ s) ?_
    rwa [← hpow]
  calc d * 2 ^ s < (d / 2 ^ 32 + 1) * 2 ^ 32 * 2 ^ s :=
        Nat.mul_lt_mul_of_pos_right (by omega) (Nat.two_pow_pos s)
    _ ≤ 2 ^ (32 - s) * 2 ^ 32 * 2 ^ s := Nat.mul_le_mul_right _ (Nat.mul_le_mul_right _ hfits)
    _ = 2 ^ (32 - s) * 2 ^ s * 2 ^ 32 := Nat.mul_right_comm _ _ _
    _ = 2 ^ 64 := by rw [← hpow, ← pow_add]

lemma shifted_quotient {q : UInt32} {n v s : ℕ} (hs : s ≤ 31) (hq : q.toNat = n / 2 / v) :
    (q >>> UInt32.ofNat (31 - s)).toUInt64.toNat = n / (v * 2 ^ (32 - s)) := by
  have hcnt : (UInt32.ofNat (31 - s)).toNat % 32 = 31 - s := by
    rw [UInt32.toNat_ofNat_of_lt' (by simp [UInt32.size]; omega)]
    omega
  have hexp : 2 * (v * 2 ^ (31 - s)) = v * 2 ^ (32 - s) := by
    have hsucc : 32 - s = (31 - s) + 1 := by omega
    rw [hsucc, pow_succ]
    ring
  rw [UInt32.toNat_toUInt64, UInt32.toNat_shiftRight, hcnt, Nat.shiftRight_eq_div_pow, hq, Nat.div_div_eq_div_mul,
    Nat.div_div_eq_div_mul, hexp]

lemma leading_bits {d s : ℕ} (hs : s ≤ 31) (hlow : 2 ^ 31 ≤ d / 2 ^ 32 * 2 ^ s) :
    2 ^ 31 ≤ d / 2 ^ (32 - s) ∧ d / 2 ^ (32 - s) * 2 ^ (32 - s) ≤ d ∧
    d < (d / 2 ^ (32 - s) + 1) * 2 ^ (32 - s) := by
  -- the divisor moved up by its leading zeros: `v` is what is left of it when its last `32 - s` bits are dropped
  have hpow : 2 ^ s * 2 ^ (32 - s) = 2 ^ 32 := by
    rw [← pow_add]
    congr 1
    omega
  have hpk := Nat.two_pow_pos (32 - s)
  refine ⟨?_, Nat.div_mul_le_self _ _, ?_⟩
  · rw [Nat.le_div_iff_mul_le hpk]
    calc 2 ^ 31 * 2 ^ (32 - s) ≤ d / 2 ^ 32 * 2 ^ s * 2 ^ (32 - s) := Nat.mul_le_mul_right _ hlow
      _ = d / 2 ^ 32 * 2 ^ 32 := by rw [mul_assoc, hpow]
      _ ≤ d := Nat.div_mul_le_self _ _
  · rw [mul_comm]
    exact Nat.lt_mul_div_succ _ hpk

lemma correct_estimate {n d q : UInt64} (hd : 0 < d.toNat) (hdn : d.toNat ≤ n.toNat)
    (heq : n.toNat / d.toNat = if n.toNat - (q.toNat - 1) * d.toNat < d.toNat then q.toNat - 1 else q.toNat)
    (hlower : n.toNat / d.toNat ≤ q.toNat) (hupper : q.toNat ≤ n.toNat / d.toNat + 1) :
    (if n - (q - 1) * d < d then q - 1 else q) = n / d := by
  have hpos : 0 < n.toNat / d.toNat := Nat.div_pos hdn hd
  have hn64 := n.toNat_lt
  have hpred : (q - 1).toNat = q.toNat - 1 := by
    refine UInt64.toNat_sub_of_le q 1 (UInt64.le_iff_toNat_le.mpr ?_)
    exact hpos.trans_le hlower
  have hle : (q.toNat - 1) * d.toNat ≤ n.toNat :=
    (Nat.mul_le_mul_right _ (by omega)).trans (Nat.div_mul_le_self n.toNat d.toNat)
  have hmul : ((q - 1) * d).toNat = (q.toNat - 1) * d.toNat := by
    rw [UInt64.toNat_mul, hpred, Nat.mod_eq_of_lt (hle.trans_lt hn64)]
  have hsub : (n - (q - 1) * d).toNat = n.toNat - (q.toNat - 1) * d.toNat := by
    rw [UInt64.toNat_sub_of_le _ _ (UInt64.le_iff_toNat_le.mpr (by rwa [hmul])), hmul]
  have hcond :
    n - (q - 1) * d < d ↔ n.toNat - (q.toNat - 1) * d.toNat < d.toNat := by rw [UInt64.lt_iff_toNat_lt, hsub]
  refine UInt64.toNat_inj.mp ?_
  rw [UInt64.toNat_div, heq]
  by_cases hc : n.toNat - (q.toNat - 1) * d.toNat < d.toNat
  · rw [if_pos hc, if_pos (hcond.mpr hc), hpred]
  · rw [if_neg hc, if_neg (hcond.not.mpr hc)]

lemma udiv64_large {n d : UInt64} (hlarge : ¬d >>> 32 = 0) (hdn : ¬n < d) : udiv64 n d = some (n / d) := by
  have hn64 := n.toNat_lt
  have hle : d.toNat ≤ n.toNat := UInt64.le_iff_toNat_le.mp (UInt64.not_lt.mp hdn)
  have hd1 : (d >>> 32).toUInt32.toNat = d.toNat / 2 ^ 32 := by
    rw [UInt64.toNat_toUInt32, UInt64.toNat_shiftRight, Nat.shiftRight_eq_div_pow]
    exact Nat.mod_eq_of_lt (Nat.div_lt_of_lt_mul d.toNat_lt)
  have hd1' : (d >>> 32).toUInt32 ≠ 0 := by
    intro h0
    refine hlarge (UInt64.toNat_inj.mp ?_)
    have hzero := congrArg UInt32.toNat h0
    rw [hd1] at hzero
    rw [UInt64.toNat_shiftRight, Nat.shiftRight_eq_div_pow]
    exact hzero
  obtain ⟨hlow, hhigh, hs⟩ := nlz_spec hd1'
  rw [hd1] at hlow hhigh
  generalize hcount : nlz (d >>> 32).toUInt32 = s at hlow hhigh hs
  have hv := upper_half hs (moved_divisor_lt hs hhigh)
  obtain ⟨hvlow, hvle, hvlt⟩ := leading_bits hs hlow
  generalize d.toNat / 2 ^ (32 - s) = v at *
  have hv0 : 0 < v := (Nat.two_pow_pos 31).trans_le hvlow
  have hdpos : 0 < d.toNat := (Nat.mul_pos hv0 (Nat.two_pow_pos _)).trans_le hvle
  have hhalf : (n >>> 1).toNat = n.toNat / 2 := by
    rw [UInt64.toNat_shiftRight, Nat.shiftRight_eq_div_pow]
    rfl
  have hfit : (n >>> 1).toNat / ((d <<< UInt64.ofNat s) >>> 32).toUInt32.toNat < 2 ^ 32 := by
    rw [hv, hhalf]
    refine Nat.div_lt_of_lt_mul ?_
    calc n.toNat / 2 < 2 ^ 31 * 2 ^ 32 := by omega
      _ ≤ v * 2 ^ 32 := Nat.mul_le_mul_right _ hvlow
  obtain ⟨q, hq, hqval⟩ := divl_eq (by rwa [hv]) hfit
  rw [hv, hhalf] at hqval
  rw [udiv64, if_neg hlarge, if_neg hdn]
  simp only [hcount, hq]
  have hqq := shifted_quotient hs hqval
  have hlower : n.toNat / d.toNat ≤ _ := div_le_estimate hv0 hvle
  have hupper : _ ≤ n.toNat / d.toNat + 1 := estimate_le (by omega) (by omega) hvlow hvle hvlt hn64
  rw [← hqq] at hlower hupper
  exact congrArg some (correct_estimate hdpos hle (div_eq_of_estimate hdpos hlower hupper hle) hlower hupper)

lemma udiv64_eq {d : UInt64} (hd : d ≠ 0) (n : UInt64) : udiv64 n d = some (n / d) := by
  by_cases hsmall : d >>> 32 = 0
  · exact udiv64_small hd hsmall
  · by_cases hlt : n < d
    · have hzero : n / d = 0 := UInt64.toNat_inj.mp (by
        rw [UInt64.toNat_div]
        exact Nat.div_eq_of_lt (UInt64.lt_iff_toNat_lt.mp hlt))
      rw [udiv64, if_neg hsmall, if_pos hlt, hzero]
      rfl
    · exact udiv64_large hsmall hlt

/-- Unsigned division never takes the divide error of `DIVL`, and the quotient is exact. -/
theorem udivdi3_exact {d : UInt64} (hd : d ≠ 0) (n : UInt64) :
    ∃ q, udivdi3 n d = some q ∧ q.toNat = n.toNat / d.toNat :=
  ⟨n / d, udiv64_eq hd n, UInt64.toNat_div n d⟩

theorem udivdi3_exact_wide : ∃ q, udivdi3 0xFFFFFFFFFFFFFFFF 0x100000001 = some q ∧
    q.toNat = UInt64.toNat 0xFFFFFFFFFFFFFFFF / UInt64.toNat 0x100000001 := udivdi3_exact (by decide) _

/-! Signed division. -/

lemma negative_iff (n : Int64) : decide (n < 0) = n.toBitVec.msb := by
  rw [← BitVec.slt_zero_eq_msb]
  exact Bool.decide_coe _

lemma abs64_toBitVec (n : Int64) : (abs64 n).toBitVec = if n.toBitVec.msb then -n.toBitVec else n.toBitVec := by
  have hneg : n ≥ 0 ↔ ¬n.toBitVec.msb = true := by
    rw [← negative_iff, decide_eq_true_eq, ge_iff_le, Int64.not_lt]
  by_cases hmsb : n.toBitVec.msb = true
  · rw [abs64, if_neg (fun h0 => hneg.mp h0 hmsb), if_pos hmsb]
    rfl
  · rw [abs64, if_pos (hneg.mpr hmsb), if_neg hmsb]
    rfl

lemma abs64_ne_zero {d : Int64} (hd : d ≠ 0) : abs64 d ≠ 0 := by
  intro h0
  refine hd (Int64.toBitVec_inj.mp ?_)
  have hbits := congrArg UInt64.toBitVec h0
  rw [abs64_toBitVec] at hbits
  split at hbits
  · exact BitVec.neg_eq_zero_iff.mp hbits
  · exact hbits

lemma sdiv64_eq {d : Int64} (hd : d ≠ 0) (n : Int64) : sdiv64 n d = some (n / d) := by
  rw [sdiv64, udiv64_eq (abs64_ne_zero hd)]
  refine congrArg some (Int64.toBitVec_inj.mp ?_)
  have hq : (abs64 n / abs64 d).toBitVec = (abs64 n).toBitVec / (abs64 d).toBitVec := rfl
  rw [negative_iff, negative_iff, Int64.toBitVec_div, BitVec.sdiv_eq]
  cases hn : n.toBitVec.msb <;> cases hdm : d.toBitVec.msb <;>
    simp [hq, abs64_toBitVec, hn, hdm]

/-- Signed division rounds towards zero; only the quotient that does not fit in 64 bits wraps. -/
theorem divdi3_exact {n d : Int64} (hd : d ≠ 0) (hfit : n ≠ Int64.minValue ∨ d ≠ -1) :
    ∃ q, divdi3 n d = some q ∧ q.toInt = n.toInt.tdiv d.toInt := by
  refine ⟨n / d, sdiv64_eq hd n, ?_⟩
  rcases hfit with hn | hd'
  · exact Int64.toInt_div_of_ne_left n d hn
  · exact Int64.toInt_div_of_ne_right n d hd'

theorem divdi3_exact_negative : ∃ q, divdi3 (-10000000000) 4294967297 = some q ∧
    q.toInt = Int.tdiv (Int64.toInt (-10000000000)) (Int64.toInt 4294967297) :=
    divdi3_exact (by decide) (.inr (by decide))

lemma umod64_eq {d : UInt64} (hd : d ≠ 0) (n : UInt64) : umod64 n d = some (n % d).toUInt32 := by
  rw [umod64, udiv64_eq hd]
  have hmod : n - d * (n / d) = n % d := by
    refine UInt64.toNat_inj.mp ?_
    have hle : d.toNat * (n.toNat / d.toNat) ≤ n.toNat := Nat.mul_div_le _ _
    have hmul : (d * (n / d)).toNat = d.toNat * (n.toNat / d.toNat) := by
      rw [UInt64.toNat_mul, UInt64.toNat_div, Nat.mod_eq_of_lt (hle.trans_lt n.toNat_lt)]
    have hdm := Nat.div_add_mod n.toNat d.toNat
    rw [UInt64.toNat_sub_of_le _ _ (UInt64.le_iff_toNat_le.mpr (by rwa [hmul])), hmul, UInt64.toNat_mod]
    omega
  exact congrArg (fun r : UInt64 => some r.toUInt32) hmod

lemma smod64_eq {d : Int64} (hd : d ≠ 0) (n : Int64) : smod64 n d = some (n % d).toInt32 := by
  rw [smod64, sdiv64_eq hd]
  have hmod : n - d * (n / d) = n % d := by
    refine Int64.toInt_inj.mp ?_
    have hfits : (n % d).toInt.bmod (2 ^ 64) = (n % d).toInt := Int64.toInt_bmod _
    rw [← hfits, Int64.toInt_sub, Int64.toInt_mul, Int64.toInt_div, Int64.toInt_mod, Int.tmod_def,
      Int.sub_bmod_bmod, Int.sub_bmod, Int.mul_bmod_bmod, ← Int.sub_bmod]
  exact congrArg (fun r : Int64 => some r.toInt32) hmod

/-- Both remainders come out through 32 bits: they are right exactly when they fit. -/
theorem remainders_exact_iff {n d : UInt64} {m e : Int64} (hd : d ≠ 0) (he : e ≠ 0) :
    ((∃ r, umoddi3 n d = some r ∧ r.toNat = n.toNat % d.toNat) ↔ n.toNat % d.toNat < 2 ^ 32) ∧
    ((∃ r, moddi3 m e = some r ∧ r.toInt = m.toInt.tmod e.toInt) ↔
      -2 ^ 31 ≤ m.toInt.tmod e.toInt ∧ m.toInt.tmod e.toInt < 2 ^ 31) := by
  constructor
  · rw [umoddi3, umod64_eq hd]
    simp only [Option.map_some, Option.some.injEq, exists_eq_left', UInt32.toNat_toUInt64, UInt64.toNat_toUInt32,
      UInt64.toNat_mod]
    exact ⟨fun heq => heq ▸ Nat.mod_lt _ (by norm_num), Nat.mod_eq_of_lt⟩
  · rw [moddi3, smod64_eq he]
    simp only [Option.map_some, Option.some.injEq, exists_eq_left', Int32.toInt_toInt64, Int64.toInt_toInt32,
      Int64.toInt_mod]
    generalize m.toInt.tmod e.toInt = r
    constructor
    · intro heq
      have hlow := Int.le_bmod (x := r) (m := 2 ^ 32) (by norm_num)
      have hhigh := Int.bmod_lt (x := r) (m := 2 ^ 32) (by norm_num)
      rw [heq] at hlow hhigh
      omega
    · exact fun hr => Int.bmod_eq_of_le (by omega) (by omega)

theorem remainders_exact_iff_wide :
    ((∃ r, umoddi3 0x1FFFFFFFE 0xFFFFFFFFFFFFFFFF = some r ∧
      r.toNat = UInt64.toNat 0x1FFFFFFFE % UInt64.toNat 0xFFFFFFFFFFFFFFFF) ↔
      UInt64.toNat 0x1FFFFFFFE % UInt64.toNat 0xFFFFFFFFFFFFFFFF < 2 ^ 32) ∧
    ((∃ r, moddi3 (-7) 2 = some r ∧ r.toInt = (Int64.toInt (-7)).tmod (Int64.toInt 2)) ↔
      -2 ^ 31 ≤ (Int64.toInt (-7)).tmod (Int64.toInt 2) ∧ (Int64.toInt (-7)).tmod (Int64.toInt 2) < 2 ^ 31) :=
  remainders_exact_iff (by decide) (by decide)

end CourseArchive.PintOS.Library
