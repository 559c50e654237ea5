import StackScript.Proofs.Rounding

/-!
The shortest decimal reads back.

The decimal that is chosen for a number rounds to that number. For up to sixteen digits this has been
tested. With seventeen digits the nearest decimal is at most half a unit of the last digit away, which
is less than the gap to the next number, because `2 ^ 53 < 10 ^ 16`.

* `Decimal.value`: the number that a decimal stands for;
* `magnitude_spec`: where the first digit stands;
* `roundsTo_of_contains`, `roundsTo_nearest`: decimals that have been tested, and the last one;
* `shortest_roundsTo`: the decimal that is chosen.
-/

namespace StackScript

/-- The number that a decimal stands for. -/
def Decimal.value (d : Decimal) : ℚ :=
  d.coefficient * 10 ^ d.exponent

theorem Decimal.value_stripZeros (fuel : Nat) (d : Decimal) : (stripZeros fuel d).value = d.value := by
  induction fuel generalizing d with
  | zero => rfl
  | succ fuel ih =>
    rw [stripZeros]
    split
    · next hzero =>
      have hdiv : (d.coefficient : ℚ) = (d.coefficient / 10 : ℕ) * 10 := by
        exact_mod_cast (Nat.div_mul_cancel (Nat.dvd_of_mod_eq_zero hzero)).symm
      rw [ih, value, value, hdiv, zpow_add_one₀ (by norm_num)]
      ring
    · rfl

/-! ### The first digit -/

section Magnitude

variable {n d : Nat}

theorem below_iff (hd : 0 < d) (k : ℤ) :
    n * Nat.pow 10 (-k).toNat < d * Nat.pow 10 k.toNat ↔ (n : ℚ) / d < 10 ^ k := by
  have hd' : (0 : ℚ) < d := by exact_mod_cast hd
  have hpow : (0 : ℚ) < 10 ^ (-k).toNat := by positivity
  rw [div_lt_iff₀ hd', ← pow_toNat_div, div_mul_eq_mul_div, lt_div_iff₀ hpow, mul_comm _ (d : ℚ)]
  simp only [Nat.pow_eq]
  exact_mod_cast Iff.rfl

/-- Powers of two in powers of ten: `2 ^ 4096` lies between `10 ^ 1233` and `10 ^ 1234`. -/
theorem estimate_le {e : ℤ} (h : -8192 ≤ e) : (10 : ℚ) ^ (e * 1233 / 4096 - 2) ≤ 2 ^ e := by
  have hlow : (10 : ℚ) ^ (1233 : ℤ) ≤ 2 ^ (4096 : ℤ) := by
    have : 10 ^ 1233 ≤ 2 ^ 4096 := by decide +kernel
    exact_mod_cast this
  have hhigh : (2 : ℚ) ^ (4096 : ℤ) ≤ 10 ^ (1234 : ℤ) := by
    have : 2 ^ 4096 ≤ 10 ^ 1234 := by decide +kernel
    exact_mod_cast this
  have hdiv := Int.mul_ediv_self_le (x := e * 1233) (k := 4096) (by decide)
  -- both sides are compared by their powers
  have hroot : ((10 : ℚ) ^ (e * 1233 / 4096 - 2)) ^ 4096 ≤ (2 ^ e) ^ 4096 := by
    rw [← zpow_natCast, ← zpow_natCast, ← zpow_mul, ← zpow_mul]
    push_cast
    obtain he | he := le_total 0 e
    · calc (10 : ℚ) ^ ((e * 1233 / 4096 - 2) * 4096) ≤ 10 ^ (1233 * e) :=
            zpow_le_zpow_right₀ (by norm_num) (by omega)
        _ = (10 ^ (1233 : ℤ)) ^ e := zpow_mul _ _ _
        _ ≤ (2 ^ (4096 : ℤ)) ^ e := zpow_le_zpow_left₀ he (zpow_pos (by norm_num) _).le hlow
        _ = 2 ^ (e * 4096) := by rw [← zpow_mul, mul_comm]
    · calc (10 : ℚ) ^ ((e * 1233 / 4096 - 2) * 4096) ≤ 10 ^ (1234 * e) :=
            zpow_le_zpow_right₀ (by norm_num) (by omega)
        _ = ((10 ^ (1234 : ℤ)) ^ (-e))⁻¹ := by rw [← zpow_mul, ← zpow_neg, mul_neg, neg_neg]
        _ ≤ ((2 ^ (4096 : ℤ)) ^ (-e))⁻¹ :=
            inv_anti₀ (zpow_pos (zpow_pos two_pos _) _)
              (zpow_le_zpow_left₀ (by omega) (zpow_pos two_pos _).le hhigh)
        _ = 2 ^ (e * 4096) := by rw [← zpow_mul, ← zpow_neg, mul_neg, neg_neg, mul_comm]
  exact (pow_le_pow_iff_left₀ (zpow_pos (by norm_num) _).le (zpow_pos two_pos _).le (by decide)).mp hroot

/-- No place before the first digit's is claimed. -/
theorem magnitude_spec (hn : 0 < n) (hd : 0 < d) (hlog : -8192 ≤ floorLog2 n d) :
    (10 : ℚ) ^ (magnitude n d - 1) ≤ n / d := by
  have hestimate := (estimate_le hlog).trans (floorLog2_spec hn hd).1
  rw [magnitude]
  simp only [decide_eq_true_eq, below_iff hd]
  -- the ratio is not below the power that was tested before, or not below the estimate
  split_ifs with h₁ h₂ h₃
  · rwa [sub_sub]
  · exact not_lt.mp h₁
  · rw [add_sub_cancel_right]
    exact not_lt.mp h₂
  · rw [show ∀ k : ℤ, k + 2 - 1 = k + 1 by intro k; ring]
    exact not_lt.mp h₃

end Magnitude

/-! ### Decimals in the interval -/

section Interval

variable {m c : Nat} {q g : Int}

/-- What the number, its interval and decimals are measured in. -/
def measure (q g : Int) : ℚ :=
  2 ^ (q - 2).toNat * 10 ^ (-g).toNat

theorem measure_pos (q g : Int) : 0 < measure q g := by
  unfold measure
  positivity

theorem quarter_unit (q : Int) : (2 : ℚ) ^ (q - 2).toNat / 2 ^ (2 - q).toNat = 2 ^ q / 4 := by
  rw [show 2 - q = -(q - 2) by ring, pow_toNat_div, zpow_sub₀ two_ne_zero]
  norm_num

theorem inUnits_den (m : Nat) (q g : Int) (x : ℚ) :
    x * ((RoundingInterval.of m q).inUnits g).den = 4 * (x * 10 ^ g / 2 ^ q) * measure q g := by
  have htwo := quarter_unit q
  have hq : (2 : ℚ) ^ q ≠ 0 := zpow_ne_zero q two_ne_zero
  rw [div_eq_div_iff (by positivity) (by norm_num)] at htwo
  rw [← pow_toNat_div 10 g]
  simp only [RoundingInterval.inUnits, RoundingInterval.of, Nat.pow_eq, measure]
  push_cast
  field_simp
  rw [mul_assoc, mul_comm _ ((2 : ℚ) ^ q), ← htwo]
  ring

theorem inUnits_value (m : Nat) (q g : Int) :
    (((RoundingInterval.of m q).inUnits g).value : ℚ) = 4 * m * measure q g := by
  simp only [RoundingInterval.inUnits, RoundingInterval.of, Nat.pow_eq, measure]
  push_cast
  ring

theorem inUnits_low (hm : 0 < m) (q g : Int) :
    (((RoundingInterval.of m q).inUnits g).low : ℚ) = 4 * (m - gapBelow m q) * measure q g := by
  simp only [RoundingInterval.inUnits, RoundingInterval.of, Nat.pow_eq, measure, gapBelow]
  split_ifs
  · rw [Nat.cast_mul, Nat.cast_mul, Nat.cast_sub (by omega)]
    push_cast
    ring
  · rw [Nat.cast_mul, Nat.cast_mul, Nat.cast_sub (by omega)]
    push_cast
    ring

theorem inUnits_high (m : Nat) (q g : Int) :
    (((RoundingInterval.of m q).inUnits g).high : ℚ) = 4 * (m + 1 / 2) * measure q g := by
  simp only [RoundingInterval.inUnits, RoundingInterval.of, Nat.pow_eq, measure]
  push_cast
  ring

theorem roundsTo_of_contains (hm : 0 < m)
    (h : ((RoundingInterval.of m q).inUnits g).contains c = true) : RoundsTo m q (c * 10 ^ g) := by
  have hpos := measure_pos q g
  have hclosed : ((RoundingInterval.of m q).inUnits g).closed = decide (m % 2 = 0) := rfl
  rw [RoundingInterval.contains, hclosed] at h
  have hlow := inUnits_low hm q g
  have hhigh := inUnits_high m q g
  have hden := inUnits_den m q g c
  generalize (RoundingInterval.of m q).inUnits g = r at h hlow hhigh hden
  by_cases heven : m % 2 = 0
  · rw [if_pos (by simpa using heven), Bool.and_eq_true, decide_eq_true_eq, decide_eq_true_eq] at h
    have h₁ : (r.low : ℚ) ≤ c * r.den := by exact_mod_cast h.1
    have h₂ : (c : ℚ) * r.den ≤ r.high := by exact_mod_cast h.2
    rw [hlow, hden] at h₁
    rw [hden, hhigh] at h₂
    have h₁ := le_of_mul_le_mul_right h₁ hpos
    have h₂ := le_of_mul_le_mul_right h₂ hpos
    exact ⟨by linarith, by linarith, fun hodd => by omega⟩
  · rw [if_neg (by simpa using heven), Bool.and_eq_true, decide_eq_true_eq, decide_eq_true_eq] at h
    have h₁ : (r.low : ℚ) < c * r.den := by exact_mod_cast h.1
    have h₂ : (c : ℚ) * r.den < r.high := by exact_mod_cast h.2
    rw [hlow, hden] at h₁
    rw [hden, hhigh] at h₂
    have h₁ := lt_of_mul_lt_mul_right h₁ hpos.le
    have h₂ := lt_of_mul_lt_mul_right h₂ hpos.le
    exact ⟨by linarith, by linarith, fun _ => ⟨by linarith, by linarith⟩⟩

theorem contains_of_nearestInside? {r : RoundingInterval} (h : r.nearestInside? = some c) :
    r.contains c = true := by
  rw [RoundingInterval.nearestInside?] at h
  split at h
  · next hfloor hceil =>
    obtain rfl := Option.some.inj h
    rw [RoundingInterval.nearest]
    split_ifs
    · exact hfloor
    · exact hceil
  · next hfloor _ =>
    obtain rfl := Option.some.inj h
    exact hfloor
  · next _ hceil =>
    obtain rfl := Option.some.inj h
    exact hceil
  · cases h

/-! ### The last grid -/

theorem abs_nearest_sub_le {r : RoundingInterval} (hden : 0 < r.den) :
    |(r.nearest : ℚ) - r.value / r.den| ≤ 1 / 2 := by
  have hden' : (0 : ℚ) < r.den := by exact_mod_cast hden
  have hdiv : (r.value : ℚ) = r.den * (r.value / r.den : ℕ) + (r.value % r.den : ℕ) := by
    exact_mod_cast (Nat.div_add_mod r.value r.den).symm
  have hsplit : (r.value : ℚ) / r.den = (r.value / r.den : ℕ) + (r.value % r.den : ℕ) / (r.den : ℚ) := by
    rw [div_eq_iff hden'.ne', add_mul, div_mul_cancel₀ _ hden'.ne', mul_comm]
    exact hdiv
  have hmod : ((r.value % r.den : ℕ) : ℚ) / r.den < 1 := by
    rw [div_lt_one hden']
    exact_mod_cast Nat.mod_lt r.value hden
  rw [hsplit, RoundingInterval.nearest, abs_le]
  split_ifs with hless
  · have : ((r.value % r.den : ℕ) : ℚ) / r.den < 1 / 2 := by
      rw [div_lt_div_iff₀ hden' (by norm_num), one_mul, mul_comm]
      exact_mod_cast hless
    have : (0 : ℚ) ≤ ((r.value % r.den : ℕ) : ℚ) / r.den := by positivity
    constructor <;> linarith
  · have : (1 : ℚ) / 2 ≤ ((r.value % r.den : ℕ) : ℚ) / r.den := by
      rw [div_le_div_iff₀ (by norm_num) hden', one_mul, mul_comm]
      exact_mod_cast not_lt.mp hless
    push_cast
    constructor <;> linarith

/-- On the grid of `10 ^ g` the nearest decimal is at most half a unit of the grid away. -/
theorem abs_nearest_inUnits_sub_le (m : Nat) (q g : Int) :
    |((RoundingInterval.of m q).inUnits g).nearest * ((10 : ℚ) ^ g / 2 ^ q) - m|
      ≤ (10 : ℚ) ^ g / 2 ^ q / 2 := by
  have hunit : (0 : ℚ) < 10 ^ g / 2 ^ q := div_pos (zpow_pos (by norm_num) g) (zpow_pos two_pos q)
  have hpos := measure_pos q g
  have hden : (((RoundingInterval.of m q).inUnits g).den : ℚ)
      = 4 * (10 ^ g / 2 ^ q) * measure q g := by
    simpa using inUnits_den m q g 1
  have hden' : (0 : ℚ) < ((RoundingInterval.of m q).inUnits g).den := by
    rw [hden]
    positivity
  have hnear := abs_nearest_sub_le (r := (RoundingInterval.of m q).inUnits g)
    (by exact_mod_cast hden')
  rw [inUnits_value, hden, mul_div_mul_right _ _ hpos.ne', mul_div_mul_left _ _ (by norm_num)]
    at hnear
  generalize (10 : ℚ) ^ g / 2 ^ q = δ at hunit hnear ⊢
  have hscaled := mul_le_mul_of_nonneg_right hnear hunit.le
  rw [← abs_of_pos hunit, ← abs_mul, sub_mul, abs_of_pos hunit, div_mul_cancel₀ _ hunit.ne'] at hscaled
  linarith

/-- Seventeen digits are enough: half a unit of the last one is less than the gap below the number. -/
theorem roundsTo_nearest (hcanonical : Canonical m q) (hm : 0 < m)
    (hsmall : (10 : ℚ) ^ g * 10 ^ 16 ≤ m * 2 ^ q) :
    RoundsTo m q (((RoundingInterval.of m q).inUnits g).nearest * 10 ^ g) := by
  have hm₁ : (1 : ℚ) ≤ m := by exact_mod_cast hm
  have hm₂ : (m : ℚ) + 1 ≤ 2 ^ 53 := by exact_mod_cast hcanonical.lt
  have hgap : (m : ℚ) / (2 * 10 ^ 16) < gapBelow m q := by
    rw [gapBelow]
    split_ifs with hpower
    · rw [hpower.1]
      norm_num
    · linarith
  have hgap' := gapBelow_le m q
  -- one unit of the grid, measured in the last bit of the number
  have hunit : (10 : ℚ) ^ g / 2 ^ q ≤ m / 10 ^ 16 := by
    rw [div_le_div_iff₀ (zpow_pos two_pos q) (by norm_num)]
    exact hsmall
  have hnear := abs_nearest_inUnits_sub_le m q g
  rw [abs_le] at hnear
  have hlow : (m : ℚ) - gapBelow m q
      < ((RoundingInterval.of m q).inUnits g).nearest * 10 ^ g / 2 ^ q := by
    rw [mul_div_assoc]
    linarith [hnear.1]
  have hhigh : ((RoundingInterval.of m q).inUnits g).nearest * 10 ^ g / 2 ^ q < (m : ℚ) + 1 / 2 := by
    rw [mul_div_assoc]
    linarith [hnear.2]
  exact ⟨hlow.le, hhigh.le, fun _ => ⟨hlow, hhigh⟩⟩

/-! ### The decimal that is chosen -/

/-- As there are 17 digits at last, whatever is taken rounds to the number. -/
theorem shortestFrom_spec (hcanonical : Canonical m q) (hm : 0 < m) {k : Int}
    (hk : (10 : ℚ) ^ (k - 1) ≤ m * 2 ^ q) (fuel digits : Nat) (hfuel : digits + fuel = 17) :
    RoundsTo m q (shortestFrom (.of m q) k fuel digits).value := by
  induction fuel generalizing digits with
  | zero =>
    obtain rfl : digits = 17 := hfuel
    refine roundsTo_nearest hcanonical hm (le_of_eq_of_le ?_ hk)
    rw [← zpow_natCast (10 : ℚ) 16, ← zpow_add₀ (by norm_num)]
    congr 1
    push_cast
    ring
  | succ fuel ih =>
    rw [shortestFrom]
    split
    · next hinside => exact roundsTo_of_contains hm (contains_of_nearestInside? hinside)
    · exact ih (digits + 1) (by omega)

end Interval

/-- The decimal that is chosen for a number rounds to it. -/
theorem shortest_roundsTo {m : Nat} {q : Int} (hcanonical : Canonical m q) (hm : 0 < m) :
    RoundsTo m q (shortest m q).value := by
  have hm₁ : (1 : ℚ) ≤ m := by exact_mod_cast hm
  have hratio : ((RoundingInterval.of m q).value : ℚ) / (RoundingInterval.of m q).den = m * 2 ^ q := by
    simp only [RoundingInterval.of, Nat.pow_eq]
    push_cast
    rw [mul_div_assoc, quarter_unit]
    ring
  have hvalue : 0 < (RoundingInterval.of m q).value :=
    Nat.mul_pos (Nat.mul_pos (by decide) hm) (Nat.pow_pos (by decide))
  have hden : 0 < (RoundingInterval.of m q).den := Nat.pow_pos (by decide)
  -- the least number has the logarithm -1074
  have hlog : -8192 ≤ floorLog2 (RoundingInterval.of m q).value (RoundingInterval.of m q).den := by
    have h := (floorLog2_spec hvalue hden).2
    rw [hratio] at h
    have hleast : (2 : ℚ) ^ (-1074 : ℤ) ≤ m * 2 ^ q :=
      (zpow_le_zpow_right₀ (by norm_num) hcanonical.least).trans
        (le_mul_of_one_le_left (zpow_pos two_pos q).le hm₁)
    have := (zpow_lt_zpow_iff_right₀ (by norm_num : (1 : ℚ) < 2)).mp (hleast.trans_lt h)
    omega
  have hk := magnitude_spec hvalue hden hlog
  rw [hratio] at hk
  rw [shortest, Decimal.value_stripZeros]
  exact shortestFrom_spec hcanonical hm hk 16 1 rfl

end StackScript
