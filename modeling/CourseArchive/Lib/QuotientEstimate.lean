import Mathlib.Tactic

/-! A quotient estimated from the leading bits of the divisor is right or one too large. -/

namespace CourseArchive.Lib

variable {n d v k w : ℕ}

lemma div_two_digits (b d hi lo : ℕ) (hd : 0 < d) :
    (b * hi + lo) / d = (b * (hi % d) + lo) / d + b * (hi / d) := by
  have hsplit : b * hi + lo = b * (hi % d) + lo + d * (b * (hi / d)) := by
    calc b * hi + lo = b * (hi % d + d * (hi / d)) + lo := by rw [Nat.mod_add_div]
      _ = b * (hi % d) + lo + d * (b * (hi / d)) := by ring
  rw [hsplit, Nat.add_mul_div_left _ _ hd]

lemma second_digit_lt {b d hi lo : ℕ} (hd : 0 < d) (hlo : lo < b) : (b * (hi % d) + lo) / d < b := by
  refine Nat.div_lt_of_lt_mul ?_
  have hmod : hi % d + 1 ≤ d := Nat.mod_lt hi hd
  calc b * (hi % d) + lo < b * (hi % d) + b := by omega
    _ = b * (hi % d + 1) := by ring
    _ ≤ b * d := Nat.mul_le_mul_left b hmod
    _ = d * b := mul_comm b d

lemma div_le_estimate (hv : 0 < v) (hle : v * 2 ^ k ≤ d) : n / d ≤ n / (v * 2 ^ k) :=
  Nat.div_le_div_left hle (Nat.mul_pos hv (Nat.two_pow_pos k))

lemma estimate_le (hk : 0 < k) (hkw : k ≤ w + 1) (hv : 2 ^ w ≤ v) (hle : v * 2 ^ k ≤ d) (hlt : d < (v + 1) * 2 ^ k)
    (hn : n < 2 ^ (2 * w + 2)) : n / (v * 2 ^ k) ≤ n / d + 1 := by
  -- `v` is the divisor without its last `k` bits. When it fills a half word, a dividend of two words is divided by
  -- it with an error of at most one
  have hpk := Nat.two_pow_pos k
  have hv0 : 0 < v := (Nat.two_pow_pos w).trans_le hv
  have hd0 : 0 < d := (Nat.mul_pos hv0 hpk).trans_le hle
  have hpow : 2 ^ (w + k) ≤ v * 2 ^ k := by
    rw [pow_add]
    exact Nat.mul_le_mul_right _ hv
  have hq : n / d + 1 ≤ 2 ^ (w + 2 - k) := by
    refine Nat.div_lt_of_lt_mul (hn.trans_le ?_)
    calc 2 ^ (2 * w + 2) = 2 ^ (w + k) * 2 ^ (w + 2 - k) := by
          rw [← pow_add]
          congr 1
          omega
      _ ≤ d * 2 ^ (w + 2 - k) := Nat.mul_le_mul_right _ (hpow.trans hle)
  -- the part of the divisor that is left out weighs less than one more divisor
  have herror : (n / d + 1) * (2 ^ k - 1) ≤ v * 2 ^ k := by
    rcases Nat.lt_or_ge 1 k with hk₂ | hk₁
    · calc (n / d + 1) * (2 ^ k - 1) ≤ 2 ^ (w + 2 - k) * 2 ^ k := Nat.mul_le_mul hq (Nat.sub_le _ _)
        _ = 2 ^ (w + 2) := by
          rw [← pow_add]
          congr 1
          omega
        _ ≤ 2 ^ (w + k) := Nat.pow_le_pow_right (by omega) (by omega)
        _ ≤ v * 2 ^ k := hpow
    · obtain rfl : k = 1 := by omega
      calc (n / d + 1) * (2 ^ 1 - 1) = n / d + 1 := by norm_num
        _ ≤ 2 ^ (w + 1) := hq
        _ ≤ v * 2 ^ 1 := hpow
  have hdm : d ≤ v * 2 ^ k + (2 ^ k - 1) := by
    rw [Nat.add_mul, one_mul] at hlt
    omega
  have hdiv : n < (n / d + 1) * d := by
    rw [mul_comm]
    exact Nat.lt_mul_div_succ n hd0
  rw [← Nat.lt_succ_iff, Nat.div_lt_iff_lt_mul (Nat.mul_pos hv0 hpk)]
  calc n < (n / d + 1) * d := hdiv
    _ ≤ (n / d + 1) * (v * 2 ^ k + (2 ^ k - 1)) := Nat.mul_le_mul_left _ hdm
    _ = (n / d + 1) * (v * 2 ^ k) + (n / d + 1) * (2 ^ k - 1) := Nat.mul_add _ _ _
    _ ≤ (n / d + 1) * (v * 2 ^ k) + v * 2 ^ k := Nat.add_le_add_left herror _
    _ = (n / d + 1).succ * (v * 2 ^ k) := (Nat.succ_mul _ _).symm

lemma div_eq_of_estimate {q : ℕ} (hd : 0 < d) (hle : n / d ≤ q) (hge : q ≤ n / d + 1) (hdn : d ≤ n) :
    n / d = if n - (q - 1) * d < d then q - 1 else q := by
  have hpos : 0 < n / d := Nat.div_pos hdn hd
  rcases Nat.eq_or_lt_of_le hle with rfl | hlt
  · have hmul : (n / d - 1) * d + d ≤ n := by
      rw [← Nat.succ_mul, Nat.succ_eq_add_one, Nat.sub_add_cancel hpos]
      exact Nat.div_mul_le_self n d
    rw [if_neg (by omega)]
  · obtain rfl : q = n / d + 1 := by omega
    have hmod := Nat.mod_lt n hd
    have hdm := Nat.div_add_mod n d
    rw [mul_comm] at hdm
    rw [Nat.add_sub_cancel, if_pos (by omega)]

end CourseArchive.Lib
