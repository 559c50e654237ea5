import Mathlib.Algebra.Order.Field.Power
import Mathlib.Data.Rat.Cast.Order
import Mathlib.Tactic.FieldSimp
import Mathlib.Tactic.GCongr
import Mathlib.Tactic.Linarith
import Mathlib.Tactic.Positivity
import Mathlib.Tactic.Ring
import StackScript.Decimal.Shortest

/-!
Which ratios round to a binary64 number.

A number `m · 2 ^ q` is the nearest one to every ratio in its interval. So any decimal in the interval is
read back as that number, however its digits are laid out.

* `Canonical`: the pairs `m`, `q` that a pattern stands for, `patternOf` their pattern;
* `RoundsTo`: a rational number lies in the interval of a pair;
* `floorLog2_spec`, `roundHalfEven_eq`: the two roundings, downwards and to the nearest;
* `nearestBits_of_roundsTo`, `nearestDecimalBits_of_roundsTo`: the pattern that a ratio rounds to.
-/

namespace StackScript

/-- The pairs of a significand and an exponent that a pattern of a finite number stands for. -/
structure Canonical (m : Nat) (q : Int) : Prop where
  lt : m < 2 ^ 53
  least : -1074 ≤ q
  greatest : q ≤ 971
  normal : q = -1074 ∨ 2 ^ 52 ≤ m

/-! ### Powers as ratios -/

theorem pow_toNat_div (b : ℚ) (k : ℤ) : b ^ k.toNat / b ^ (-k).toNat = b ^ k := by
  obtain hk | hk := le_total 0 k
  · rw [Int.toNat_of_nonpos (by omega : -k ≤ 0), pow_zero, div_one, ← zpow_natCast,
      Int.toNat_of_nonneg hk]
  · rw [Int.toNat_of_nonpos hk, pow_zero, ← zpow_natCast, Int.toNat_of_nonneg (by omega), zpow_neg,
      one_div, inv_inv]

theorem unscale_ratio (n d : Nat) (q : Int) :
    ((unscale n d q).1 : ℚ) / (unscale n d q).2 = (n : ℚ) / d / 2 ^ q := by
  simp only [unscale, Nat.pow_eq]
  push_cast
  rw [← pow_toNat_div 2 q]
  field_simp

theorem unscale_pos {n d : Nat} (q : Int) (hd : 0 < d) : 0 < (unscale n d q).2 :=
  Nat.mul_pos hd (Nat.pow_pos (by decide))

/-! ### The two roundings -/

/-- The difference of the logarithms is that of the ratio, or too great by one. -/
theorem log2_sub_log2_spec {n d : Nat} (hn : 0 < n) (hd : 0 < d) :
    (2 : ℚ) ^ ((n.log2 : ℤ) - d.log2 - 1) ≤ n / d ∧ (n : ℚ) / d < 2 ^ ((n.log2 : ℤ) - d.log2 + 1) := by
  have hd' : (0 : ℚ) < d := by exact_mod_cast hd
  have hn₁ : (2 : ℚ) ^ n.log2 ≤ n := by exact_mod_cast Nat.log2_self_le hn.ne'
  have hn₂ : (n : ℚ) < 2 ^ (n.log2 + 1) := by exact_mod_cast Nat.lt_log2_self
  have hd₁ : (2 : ℚ) ^ d.log2 ≤ d := by exact_mod_cast Nat.log2_self_le hd.ne'
  have hd₂ : (d : ℚ) < 2 ^ (d.log2 + 1) := by exact_mod_cast Nat.lt_log2_self
  constructor
  · rw [le_div_iff₀ hd']
    calc (2 : ℚ) ^ ((n.log2 : ℤ) - d.log2 - 1) * d
        ≤ 2 ^ ((n.log2 : ℤ) - d.log2 - 1) * 2 ^ (d.log2 + 1) := by gcongr
      _ = 2 ^ n.log2 := by
        rw [← zpow_natCast, ← zpow_natCast, ← zpow_add₀ two_ne_zero]
        congr 1
        push_cast
        ring
      _ ≤ n := hn₁
  · rw [div_lt_iff₀ hd']
    calc (n : ℚ) < 2 ^ (n.log2 + 1) := hn₂
      _ = 2 ^ ((n.log2 : ℤ) - d.log2 + 1) * 2 ^ d.log2 := by
        rw [← zpow_natCast, ← zpow_natCast, ← zpow_add₀ two_ne_zero]
        congr 1
        push_cast
        ring
      _ ≤ 2 ^ ((n.log2 : ℤ) - d.log2 + 1) * d := by gcongr

/-- The logarithm is that of the greatest power of two that is not above the ratio. -/
theorem floorLog2_spec {n d : Nat} (hn : 0 < n) (hd : 0 < d) :
    (2 : ℚ) ^ floorLog2 n d ≤ n / d ∧ (n : ℚ) / d < 2 ^ (floorLog2 n d + 1) := by
  obtain ⟨hlow, hhigh⟩ := log2_sub_log2_spec hn hd
  have hscaled := unscale_ratio n d ((n.log2 : ℤ) - d.log2)
  have hpos : (0 : ℚ) < (unscale n d ((n.log2 : ℤ) - d.log2)).2 := by
    exact_mod_cast unscale_pos _ hd
  rw [floorLog2]
  simp only
  split
  · next hle =>
    refine ⟨?_, hhigh⟩
    have hone : (1 : ℚ) ≤ n / d / 2 ^ ((n.log2 : ℤ) - d.log2) := by
      rw [← hscaled, le_div_iff₀ hpos, one_mul]
      exact_mod_cast hle
    rwa [le_div_iff₀ (zpow_pos two_pos _), one_mul] at hone
  · next hlt =>
    refine ⟨hlow, ?_⟩
    have hone : (n : ℚ) / d / 2 ^ ((n.log2 : ℤ) - d.log2) < 1 := by
      rw [← hscaled, div_lt_iff₀ hpos, one_mul]
      exact_mod_cast Nat.lt_of_not_le hlt
    rw [div_lt_iff₀ (zpow_pos two_pos _), one_mul] at hone
    rwa [sub_add_cancel]

/-- A quotient is rounded to a number that it is at most half away from, or less than that if the
number is odd. -/
theorem roundHalfEven_eq {n d m : Nat} (hd : 0 < d) (hlow : 2 * (m * d) ≤ 2 * n + d)
    (hhigh : 2 * n ≤ 2 * (m * d) + d)
    (hodd : m % 2 = 1 → 2 * (m * d) < 2 * n + d ∧ 2 * n < 2 * (m * d) + d) :
    roundHalfEven n d = m := by
  have hmod := Nat.mod_lt n hd
  have hdiv := Nat.div_add_mod n d
  rw [roundHalfEven]
  generalize n / d = k at hdiv ⊢
  generalize n % d = r at hmod hdiv ⊢
  rw [Nat.mul_comm] at hdiv
  -- the quotient rounded down is the number or the one before it
  have hle : k ≤ m := by
    by_contra hlt
    have := Nat.mul_le_mul_right d (Nat.succ_le_of_lt (Nat.lt_of_not_le hlt))
    rw [Nat.succ_mul] at this
    omega
  have hge : m ≤ k + 1 := by
    by_contra hlt
    have := Nat.mul_le_mul_right d (Nat.succ_le_of_lt (Nat.lt_of_not_le hlt))
    rw [Nat.succ_mul, Nat.add_one_mul] at this
    omega
  obtain rfl | rfl : k = m ∨ m = k + 1 := by omega
  · split_ifs <;> omega
  · rw [Nat.add_one_mul k d] at hlow hhigh hodd
    split_ifs <;> omega

/-! ### Numbers near to a pair -/

/-- How far down the ratios go that round to `m · 2 ^ q`, in units of `2 ^ q`. -/
def gapBelow (m : Nat) (q : Int) : ℚ :=
  if m = 2 ^ 52 ∧ q ≠ -1074 then 1 / 4 else 1 / 2

theorem gapBelow_le (m : Nat) (q : Int) : gapBelow m q ≤ 1 / 2 := by
  unfold gapBelow
  split_ifs <;> norm_num

/-- The rational number `v` rounds to `m · 2 ^ q`. The ends of the interval do so if `m` is even. -/
structure RoundsTo (m : Nat) (q : Int) (v : ℚ) : Prop where
  low : m - gapBelow m q ≤ v / 2 ^ q
  high : v / 2 ^ q ≤ m + 1 / 2
  odd : m % 2 = 1 → m - gapBelow m q < v / 2 ^ q ∧ v / 2 ^ q < m + 1 / 2

section Nearest

variable {m n d : Nat} {q : Int} {v : ℚ}

/-- The distance is at most a half, or less than that if `m` is odd. -/
theorem roundHalfEven_unscale (hd : 0 < d) (hlow : m - 1 / 2 ≤ (n : ℚ) / d / 2 ^ q)
    (hhigh : (n : ℚ) / d / 2 ^ q ≤ m + 1 / 2)
    (hodd : m % 2 = 1 → m - 1 / 2 < (n : ℚ) / d / 2 ^ q ∧ (n : ℚ) / d / 2 ^ q < m + 1 / 2) :
    roundHalfEven (unscale n d q).1 (unscale n d q).2 = m := by
  rw [← unscale_ratio] at hlow hhigh hodd
  have hpos := unscale_pos (n := n) q hd
  generalize unscale n d q = r at hlow hhigh hodd hpos ⊢
  have hpos' : (0 : ℚ) < r.2 := by exact_mod_cast hpos
  rw [le_div_iff₀ hpos'] at hlow
  rw [div_le_iff₀ hpos'] at hhigh
  rw [lt_div_iff₀ hpos', div_lt_iff₀ hpos'] at hodd
  refine roundHalfEven_eq hpos ?_ ?_ fun hm => ⟨?_, ?_⟩
  · have : 2 * ((m : ℚ) * r.2) ≤ 2 * r.1 + r.2 := by linarith
    exact_mod_cast this
  · have : 2 * (r.1 : ℚ) ≤ 2 * ((m : ℚ) * r.2) + r.2 := by linarith
    exact_mod_cast this
  · have : 2 * ((m : ℚ) * r.2) < 2 * r.1 + r.2 := by linarith [(hodd hm).1]
    exact_mod_cast this
  · have : 2 * (r.1 : ℚ) < 2 * ((m : ℚ) * r.2) + r.2 := by linarith [(hodd hm).2]
    exact_mod_cast this

/-- The pattern of a pair. -/
def patternOf (m : Nat) (q : Int) : Nat :=
  (q + 1074).toNat * 2 ^ 52 + m

theorem patternOf_lt (h : Canonical m q) : patternOf m q < Binary64.infinityBits := by
  have := h.lt
  have := h.least
  have := h.greatest
  unfold patternOf Binary64.infinityBits
  simp only [Nat.pow_eq]
  omega

theorem nearestBits_eq {k : Nat} (hn : 0 < n) (hq : max (floorLog2 n d - 52) (-1074) = q)
    (hk : roundHalfEven (unscale n d q).1 (unscale n d q).2 = k)
    (hlt : patternOf k q < Binary64.infinityBits) : nearestBits n d = patternOf k q := by
  rw [nearestBits, if_neg hn.ne', hq]
  show min ((q + 1074).toNat * Nat.pow 2 52 + roundHalfEven (unscale n d q).1 (unscale n d q).2) _ = _
  rw [hk]
  exact Nat.min_eq_left hlt.le

/-- The exponent of a ratio is `q` where the ratio has 53 bits in units of `2 ^ q`, and also below that
if there is no lesser exponent. -/
theorem exponent_eq {x : ℚ} (hn : 0 < n) (hd : 0 < d) (hx : (n : ℚ) / d / 2 ^ q = x)
    (hleast : -1074 ≤ q) (hlow : 2 ^ 52 ≤ x ∨ q = -1074) (hhigh : x < 2 ^ 53) :
    max (floorLog2 n d - 52) (-1074) = q := by
  obtain ⟨h₁, h₂⟩ := floorLog2_spec hn hd
  have hone : (1 : ℚ) < 2 := by norm_num
  have hv : (n : ℚ) / d = x * 2 ^ q := by
    rw [← hx, div_mul_cancel₀ _ (zpow_pos two_pos q).ne']
  rw [hv] at h₁ h₂
  have hless : floorLog2 n d < q + 53 := by
    refine (zpow_lt_zpow_iff_right₀ hone).mp (h₁.trans_lt ?_)
    rw [zpow_add₀ two_ne_zero, mul_comm]
    exact mul_lt_mul_of_pos_left (by exact_mod_cast hhigh) (zpow_pos two_pos q)
  obtain hlow | rfl := hlow
  · have hmore : q + 52 < floorLog2 n d + 1 := by
      refine (zpow_lt_zpow_iff_right₀ hone).mp (lt_of_le_of_lt ?_ h₂)
      rw [zpow_add₀ two_ne_zero, mul_comm]
      exact mul_le_mul_of_nonneg_right (by exact_mod_cast hlow) (zpow_pos two_pos q).le
    omega
  · omega

/-- A ratio in the interval of a number has its pattern. Only a ratio below a power of two may have a
lesser exponent than that has; it is rounded up to the power. -/
theorem nearestBits_of_roundsTo (hcanonical : Canonical m q) (hm : 0 < m) (hd : 0 < d)
    (h : RoundsTo m q (n / d)) : nearestBits n d = patternOf m q := by
  obtain ⟨hlow, hhigh, hodd⟩ := h
  have hgap := gapBelow_le m q
  have hm₁ : (1 : ℚ) ≤ m := by exact_mod_cast hm
  have hm₂ : (m : ℚ) + 1 ≤ 2 ^ 53 := by exact_mod_cast hcanonical.lt
  have hn : 0 < n := by
    rw [Nat.pos_iff_ne_zero]
    rintro rfl
    rw [Nat.cast_zero, zero_div, zero_div] at hlow
    linarith
  by_cases hbelow : (n : ℚ) / d / 2 ^ q < 2 ^ 52 ∧ q ≠ -1074
  · -- the number is a power of two, and the ratio has half the unit
    obtain ⟨hless, hq⟩ := hbelow
    have hnormal := hcanonical.normal.resolve_left hq
    obtain rfl : m = 2 ^ 52 := by
      have : (m : ℚ) < 2 ^ 52 + 1 := by linarith
      have : m < 2 ^ 52 + 1 := by exact_mod_cast this
      omega
    rw [gapBelow, if_pos ⟨rfl, hq⟩] at hlow
    push_cast at hlow
    have hhalf : (n : ℚ) / d / 2 ^ (q - 1) = 2 * ((n : ℚ) / d / 2 ^ q) := by
      rw [zpow_sub_one₀ two_ne_zero, ← div_div, div_inv_eq_mul, mul_comm]
    have hround := roundHalfEven_unscale (m := 2 ^ 53) (q := q - 1) hd
      (by rw [hhalf]; push_cast; linarith) (by rw [hhalf]; push_cast; linarith)
      (fun h => absurd h (by decide))
    have hleast := hcanonical.least
    have hexponent := exponent_eq hn hd hhalf (by omega) (.inl (by linarith)) (by linarith)
    have hpattern : patternOf (2 ^ 53) (q - 1) = patternOf (2 ^ 52) q := by
      have hsucc : (q + 1074).toNat = (q - 1 + 1074).toNat + 1 := by omega
      rw [patternOf, patternOf, hsucc]
      ring
    have hlt := patternOf_lt hcanonical
    rw [← hpattern] at hlt ⊢
    exact nearestBits_eq hn hexponent hround hlt
  · have hlow' : (m : ℚ) - 1 / 2 ≤ (n : ℚ) / d / 2 ^ q := by linarith
    have hround := roundHalfEven_unscale hd hlow' hhigh
      fun h => ⟨by linarith [(hodd h).1], (hodd h).2⟩
    have hexponent := exponent_eq hn hd rfl hcanonical.least
      (by
        by_contra hnot
        rw [not_or, not_le] at hnot
        exact hbelow hnot)
      (by linarith)
    exact nearestBits_eq hn hexponent hround (patternOf_lt hcanonical)

/-! ### Decimals -/

/-- What rounds to a number is neither too small for that nor too great. -/
theorem RoundsTo.bounds (hcanonical : Canonical m q) (hm : 0 < m) (h : RoundsTo m q v) :
    (2 : ℚ) ^ (-1075 : ℤ) ≤ v ∧ v < 2 ^ (1024 : ℤ) := by
  have hgap := gapBelow_le m q
  have hm₁ : (1 : ℚ) ≤ m := by exact_mod_cast hm
  have hm₂ : (m : ℚ) + 1 ≤ 2 ^ 53 := by exact_mod_cast hcanonical.lt
  have hq : (0 : ℚ) < 2 ^ q := zpow_pos two_pos q
  constructor
  · have hlow := (le_div_iff₀ hq).mp h.low
    have hleast : (2 : ℚ) ^ (-1074 : ℤ) ≤ 2 ^ q :=
      zpow_le_zpow_right₀ (by norm_num) hcanonical.least
    have hhalf : (2 : ℚ) ^ (-1075 : ℤ) = 2 ^ (-1074 : ℤ) * 2⁻¹ := by
      rw [← zpow_sub_one₀ two_ne_zero]
      rfl
    have hle : 2⁻¹ * 2 ^ q ≤ (m - gapBelow m q) * 2 ^ q :=
      mul_le_mul_of_nonneg_right (by linarith) hq.le
    linarith
  · have hgreatest : (2 : ℚ) ^ q ≤ 2 ^ (971 : ℤ) :=
      zpow_le_zpow_right₀ (by norm_num) hcanonical.greatest
    calc v ≤ (m + 1 / 2) * 2 ^ q := (div_le_iff₀ hq).mp h.high
      _ < 2 ^ (53 : ℤ) * 2 ^ q := mul_lt_mul_of_pos_right (by push_cast; linarith) hq
      _ ≤ 2 ^ (53 : ℤ) * 2 ^ (971 : ℤ) := by gcongr
      _ = 2 ^ (1024 : ℤ) := (zpow_add₀ two_ne_zero _ _).symm

section Reach

variable {c : Nat} {e : Int}

theorem two_pow_le_ten_pow (k : Nat) : (2 : ℚ) ^ (3 * k) ≤ 10 ^ k := by
  rw [pow_mul]
  gcongr
  norm_num

theorem two_zpow_1200_le : (2 : ℚ) ^ (1200 : ℤ) ≤ 10 ^ (400 : ℤ) :=
  two_pow_le_ten_pow 400

theorem exponent_le_of_lt (hc : 0 < c) (h : (c : ℚ) * 10 ^ e < 2 ^ (1024 : ℤ)) : e ≤ 400 := by
  by_contra he
  have hc₁ : (1 : ℚ) ≤ c := by exact_mod_cast hc
  have hten : (0 : ℚ) < 10 ^ e := zpow_pos (by norm_num) e
  have hpow : (10 : ℚ) ^ (400 : ℤ) ≤ 10 ^ e := zpow_le_zpow_right₀ (by norm_num) (by omega)
  have htwo : (2 : ℚ) ^ (1024 : ℤ) ≤ 2 ^ (1200 : ℤ) := zpow_le_zpow_right₀ (by norm_num) (by norm_num)
  have hmul : (10 : ℚ) ^ e ≤ c * 10 ^ e := le_mul_of_one_le_left hten.le hc₁
  exact h.not_ge (htwo.trans (two_zpow_1200_le.trans (hpow.trans hmul)))

theorem le_exponent_of_le (h : (2 : ℚ) ^ (-1075 : ℤ) ≤ c * 10 ^ e) : -400 ≤ e + (c.log2 + 1) := by
  by_contra he
  have hten : (0 : ℚ) < 10 ^ e := zpow_pos (by norm_num) e
  have hlog : (c : ℚ) < 10 ^ ((c.log2 : ℤ) + 1) := by
    have h₂ : (c : ℚ) < 2 ^ (c.log2 + 1) := by exact_mod_cast Nat.lt_log2_self
    have h₁₀ : (2 : ℚ) ^ (c.log2 + 1) ≤ 10 ^ (c.log2 + 1) := by gcongr; norm_num
    exact_mod_cast h₂.trans_le h₁₀
  have hpow : (10 : ℚ) ^ ((c.log2 : ℤ) + 1) * 10 ^ e ≤ 10 ^ (-400 : ℤ) := by
    rw [← zpow_add₀ (by norm_num)]
    exact zpow_le_zpow_right₀ (by norm_num) (by omega)
  have hinv : (10 : ℚ) ^ (-400 : ℤ) ≤ 2 ^ (-1200 : ℤ) := by
    rw [zpow_neg, zpow_neg]
    exact inv_anti₀ (zpow_pos two_pos _) two_zpow_1200_le
  have htwo : (2 : ℚ) ^ (-1200 : ℤ) ≤ 2 ^ (-1075 : ℤ) :=
    zpow_le_zpow_right₀ (by norm_num) (by norm_num)
  have hmul := (mul_lt_mul_of_pos_right hlog hten).trans_le hpow
  exact h.not_gt (hmul.trans_le (hinv.trans htwo))

end Reach

/-- The decimal is read as the number, however its digits and its exponent are divided. -/
theorem nearestDecimalBits_of_roundsTo {c : Nat} {e : Int} (hcanonical : Canonical m q) (hm : 0 < m)
    (h : RoundsTo m q (c * 10 ^ e)) : nearestDecimalBits c e = patternOf m q := by
  obtain ⟨hsmall, hgreat⟩ := h.bounds hcanonical hm
  have hratio : (((c * Nat.pow 10 e.toNat : ℕ) : ℚ)) / (Nat.pow 10 (-e).toNat : ℕ) = c * 10 ^ e := by
    simp only [Nat.pow_eq]
    push_cast
    rw [mul_div_assoc, pow_toNat_div]
  have hc : 0 < c := by
    rw [Nat.pos_iff_ne_zero]
    rintro rfl
    rw [Nat.cast_zero, zero_mul] at hsmall
    exact absurd hsmall (not_le.mpr (zpow_pos two_pos _))
  rw [nearestDecimalBits, if_neg hc.ne', if_neg (not_lt.mpr (exponent_le_of_lt hc hgreat)),
    if_neg (not_lt.mpr (le_exponent_of_le hsmall))]
  exact nearestBits_of_roundsTo hcanonical hm (Nat.pow_pos (by decide)) (hratio ▸ h)

end Nearest

end StackScript
