import Mathlib.Algebra.Order.Field.Power
import Mathlib.Data.Int.Log
import Mathlib.Data.Rat.Floor
import Mathlib.Tactic.FieldSimp
import Mathlib.Tactic.Linarith
import Mathlib.Tactic.Positivity
import Mathlib.Tactic.Ring
import SchemaAtlas.Decimal.Double

/-!
# Rounding to doubles

What a fraction is rounded to depends only on its value, and a double is rounded to itself: its
significand has at most 53 bits, so none is lost at the last place that the double has on its own.
-/
namespace SchemaAtlas.Double

/-! ### The last place of a fraction -/

theorem two_pow_toNat (e : Int) : (2 : ℚ) ^ e.toNat = 2 ^ e * 2 ^ (-e).toNat := by
  rw [← zpow_natCast, ← zpow_natCast, ← zpow_add₀ two_ne_zero]
  congr 1
  omega

theorem two_pow_le_div_iff {num den : Nat} (hden : 0 < den) (e : Int) :
    (2 : ℚ) ^ e ≤ num / den ↔ den * Nat.pow 2 e.toNat ≤ num * Nat.pow 2 (-e).toNat := by
  have hden' : (0 : ℚ) < den := by exact_mod_cast hden
  have hpow : (0 : ℚ) < 2 ^ (-e).toNat := by positivity
  rw [le_div_iff₀ hden', ← Nat.cast_le (α := ℚ)]
  push_cast [Nat.pow_eq]
  rw [two_pow_toNat e, ← mul_assoc, mul_le_mul_iff_of_pos_right hpow, mul_comm]

/-- The power of two that is found is the greatest one not above the fraction. -/
theorem floorLog2_spec {num den : Nat} (hnum : 0 < num) (hden : 0 < den) :
    (2 : ℚ) ^ floorLog2 num den ≤ num / den ∧ (num : ℚ) / den < 2 ^ (floorLog2 num den + 1) := by
  have hden' : (0 : ℚ) < den := by exact_mod_cast hden
  have hnumLow : ((2 ^ num.log2 : ℕ) : ℚ) ≤ num := by exact_mod_cast Nat.log2_self_le hnum.ne'
  have hnumHigh : (num : ℚ) < ((2 ^ (num.log2 + 1) : ℕ) : ℚ) := by exact_mod_cast Nat.lt_log2_self
  have hdenLow : ((2 ^ den.log2 : ℕ) : ℚ) ≤ den := by exact_mod_cast Nat.log2_self_le hden.ne'
  have hdenHigh : (den : ℚ) < ((2 ^ (den.log2 + 1) : ℕ) : ℚ) := by exact_mod_cast Nat.lt_log2_self
  push_cast at hnumLow hnumHigh hdenLow hdenHigh
  set a := num.log2
  set b := den.log2
  have hlow : (2 : ℚ) ^ ((a : ℤ) - b - 1) ≤ num / den := by
    rw [le_div_iff₀ hden']
    calc (2 : ℚ) ^ ((a : ℤ) - b - 1) * den
        ≤ 2 ^ ((a : ℤ) - b - 1) * 2 ^ (b + 1) := by gcongr
      _ = 2 ^ a := by
        rw [← zpow_natCast, ← zpow_natCast, ← zpow_add₀ two_ne_zero]
        congr 1
        push_cast
        ring
      _ ≤ num := hnumLow
  have hhigh : (num : ℚ) / den < 2 ^ ((a : ℤ) - b + 1) := by
    rw [div_lt_iff₀ hden']
    calc (num : ℚ) < 2 ^ (a + 1) := hnumHigh
      _ = 2 ^ ((a : ℤ) - b + 1) * 2 ^ b := by
        rw [← zpow_natCast, ← zpow_natCast, ← zpow_add₀ two_ne_zero]
        congr 1
        push_cast
        ring
      _ ≤ 2 ^ ((a : ℤ) - b + 1) * den := by gcongr
  have hreached : (if (a : ℤ) - b ≥ 0 then den * Nat.pow 2 ((a : ℤ) - b).toNat ≤ num
      else den ≤ num * Nat.pow 2 (-((a : ℤ) - b)).toNat) ↔ (2 : ℚ) ^ ((a : ℤ) - b) ≤ num / den := by
    rw [two_pow_le_div_iff hden]
    split
    · have hzero : (-((a : ℤ) - b)).toNat = 0 := by omega
      simp only [hzero, Nat.pow_eq, pow_zero, mul_one]
    · have hzero : ((a : ℤ) - b).toNat = 0 := by omega
      simp only [hzero, Nat.pow_eq, pow_zero, mul_one]
  unfold floorLog2
  dsimp only
  by_cases h : (2 : ℚ) ^ ((a : ℤ) - b) ≤ num / den
  · rw [if_pos (hreached.2 h)]
    exact ⟨h, hhigh⟩
  · rw [if_neg (mt hreached.1 h), sub_add_cancel]
    exact ⟨hlow, not_le.1 h⟩

theorem floorLog2_eq_log {num den : Nat} (hnum : 0 < num) (hden : 0 < den) :
    floorLog2 num den = Int.log 2 ((num : ℚ) / den) := by
  obtain ⟨hlow, hhigh⟩ := floorLog2_spec hnum hden
  have hpos : (0 : ℚ) < num / den := by positivity
  have hle := (Int.zpow_le_iff_le_log (b := 2) (by norm_num) hpos).1 (by exact_mod_cast hlow)
  have hlt := (Int.lt_zpow_iff_log_lt (b := 2) (by norm_num) hpos).1 (by exact_mod_cast hhigh)
  omega

/-! ### Rounded quotients -/

theorem roundQuotient_mul_left {k : Nat} (hk : 0 < k) (num den : Nat) :
    roundQuotient (k * num) (k * den) = roundQuotient num den := by
  have hlt : 2 * (k * (num % den)) < k * den ↔ 2 * (num % den) < den := by
    rw [Nat.mul_left_comm, Nat.mul_lt_mul_left hk]
  have heq : 2 * (k * (num % den)) = k * den ↔ 2 * (num % den) = den := by
    rw [Nat.mul_left_comm, Nat.mul_right_inj hk.ne']
  simp only [roundQuotient, Nat.mul_div_mul_left _ _ hk, Nat.mul_mod_mul_left, hlt, heq]

/-- Equal fractions are rounded alike. -/
theorem roundQuotient_congr {a b c d : Nat} (hb : 0 < b) (hd : 0 < d) (h : a * d = c * b) :
    roundQuotient a b = roundQuotient c d := by
  rw [← roundQuotient_mul_left hd a b, ← roundQuotient_mul_left hb c d, Nat.mul_comm d a, h,
    Nat.mul_comm c b, Nat.mul_comm d b]

theorem roundQuotient_mul_self {den : Nat} (hden : 0 < den) (m : Nat) :
    roundQuotient (m * den) den = m := by
  simp [roundQuotient, Nat.mul_div_cancel m hden, hden]

theorem roundQuotient_le {num den m : Nat} (hden : 0 < den) (h : num ≤ m * den) :
    roundQuotient num den ≤ m := by
  have hfloor : num / den ≤ m := Nat.div_le_of_le_mul (by rwa [Nat.mul_comm])
  unfold roundQuotient
  dsimp only
  split
  · exact hfloor
  · rename_i hup
    -- at the bound itself nothing is left to be rounded up
    by_contra hover
    have hm : num / den = m := by omega
    have hmod := Nat.div_add_mod num den
    rw [hm, Nat.mul_comm] at hmod
    have hzero : num % den = 0 := by omega
    simp [hzero, hden] at hup

/-! ### Significands -/

theorem significand_eq (num den : Nat) :
    significand num den = roundQuotient (num * 2 ^ (-lastPlace num den).toNat)
      (den * 2 ^ (lastPlace num den).toNat) := by
  unfold significand
  dsimp only
  split
  · have hzero : (-lastPlace num den).toNat = 0 := by omega
    rw [hzero, pow_zero, mul_one, Nat.pow_eq]
  · have hzero : (lastPlace num den).toNat = 0 := by omega
    rw [hzero, pow_zero, mul_one, Nat.pow_eq]

theorem lastPlace_eq {num den : Nat} (hnum : 0 < num) (hden : 0 < den) :
    lastPlace num den = max (Int.log 2 ((num : ℚ) / den) - 52) (-1074) := by
  rw [lastPlace, floorLog2_eq_log hnum hden]

/-- A significand has at most 53 bits, unless it is the least number with one more. -/
theorem significand_le {num den : Nat} (hnum : 0 < num) (hden : 0 < den) :
    significand num den ≤ 2 ^ 53 := by
  have hden' : (0 : ℚ) < den := by exact_mod_cast hden
  rw [significand_eq]
  set p := lastPlace num den with hp
  apply roundQuotient_le (by positivity)
  have hlt : (num : ℚ) / den < 2 ^ (p + 53) := by
    refine (floorLog2_spec hnum hden).2.trans_le (zpow_le_zpow_right₀ (by norm_num) ?_)
    rw [hp, lastPlace]
    omega
  rw [div_lt_iff₀ hden'] at hlt
  rw [← Nat.cast_le (α := ℚ)]
  push_cast
  rw [two_pow_toNat p]
  calc (num : ℚ) * 2 ^ (-p).toNat ≤ 2 ^ (p + 53) * den * 2 ^ (-p).toNat := by gcongr
    _ = 2 ^ 53 * (den * (2 ^ p * 2 ^ (-p).toNat)) := by
      rw [zpow_add₀ two_ne_zero, show (2 : ℚ) ^ (53 : ℤ) = 2 ^ 53 from rfl]
      ring

/-- What is a whole number of last places is not changed by rounding. -/
theorem significand_of_eq {num den m : Nat} (hden : 0 < den)
    (h : (num : ℚ) / den = m * 2 ^ lastPlace num den) : significand num den = m := by
  have hden' : (0 : ℚ) < den := by exact_mod_cast hden
  rw [significand_eq]
  set p := lastPlace num den
  have hexact : num * 2 ^ (-p).toNat = m * (den * 2 ^ p.toNat) := by
    rw [div_eq_iff hden'.ne'] at h
    rw [← Nat.cast_inj (R := ℚ)]
    push_cast
    rw [h, two_pow_toNat p]
    ring
  rw [hexact]
  exact roundQuotient_mul_self (by positivity) m

/-! ### Nearest doubles -/

theorem nearest_zero (negative : Bool) (den : Nat) : nearest negative 0 den = zero negative := rfl

/-- The value of a double with the given significand and last place. -/
def magnitude (digits : Nat) (place : Int) : ℚ := digits * 2 ^ place

theorem nearest_of_significand_eq_zero {negative : Bool} {num den : Nat}
    (h : significand num den = 0) : nearest negative num den = zero negative := by
  unfold nearest
  split
  · rfl
  · dsimp only
    rw [if_pos h]

theorem nearest_of_significand_ne_zero {negative : Bool} {num den : Nat} (hnum : num ≠ 0)
    (h : significand num den ≠ 0) :
    nearest negative num den =
      if (limit : ℚ) ≤ magnitude (significand num den) (lastPlace num den) then infinite negative
      else finite (if negative then -magnitude (significand num den) (lastPlace num den)
        else magnitude (significand num den) (lastPlace num den)) := by
  have hmagnitude : (if lastPlace num den ≥ 0 then
        ((significand num den * Nat.pow 2 (lastPlace num den).toNat : Nat) : ℚ)
      else mkRat (significand num den) (Nat.pow 2 (-lastPlace num den).toNat)) =
      magnitude (significand num den) (lastPlace num den) := by
    rw [magnitude]
    split
    · rename_i hplace
      push_cast [Nat.pow_eq]
      rw [← zpow_natCast, Int.toNat_of_nonneg hplace]
    · rename_i hplace
      have hnat : (((-lastPlace num den).toNat : ℕ) : ℤ) = -lastPlace num den := by omega
      rw [Rat.mkRat_eq_div]
      push_cast [Nat.pow_eq]
      rw [← zpow_natCast, hnat, zpow_neg, div_inv_eq_mul]
  unfold nearest
  rw [if_neg hnum]
  dsimp only
  rw [if_neg h, hmagnitude]

/-- Equal fractions are rounded to the same double. -/
theorem nearest_congr {negative : Bool} {a b c d : Nat} (hb : 0 < b) (hd : 0 < d)
    (h : (a : ℚ) / b = c / d) : nearest negative a b = nearest negative c d := by
  have hb' : (b : ℚ) ≠ 0 := by exact_mod_cast hb.ne'
  have hd' : (d : ℚ) ≠ 0 := by exact_mod_cast hd.ne'
  have hcross : a * d = c * b := by
    rw [div_eq_div_iff hb' hd'] at h
    exact_mod_cast h
  rcases Nat.eq_zero_or_pos a with rfl | ha
  · have hc : c = 0 := by
      rw [zero_mul] at hcross
      exact (Nat.mul_eq_zero.1 hcross.symm).resolve_right hb.ne'
    rw [hc, nearest_zero, nearest_zero]
  · have hc : 0 < c := by
      have hpos : 0 < c * b := hcross ▸ Nat.mul_pos ha hd
      exact Nat.pos_of_mul_pos_right hpos
    have hplace : lastPlace a b = lastPlace c d := by
      rw [lastPlace_eq ha hb, lastPlace_eq hc hd, h]
    have hdigits : significand a b = significand c d := by
      rw [significand_eq, significand_eq, hplace]
      refine roundQuotient_congr (by positivity) (by positivity) ?_
      calc a * 2 ^ (-lastPlace c d).toNat * (d * 2 ^ (lastPlace c d).toNat)
          = a * d * (2 ^ (-lastPlace c d).toNat * 2 ^ (lastPlace c d).toNat) := by ring
        _ = c * 2 ^ (-lastPlace c d).toNat * (b * 2 ^ (lastPlace c d).toNat) := by
          rw [hcross]
          ring
    by_cases hzero : significand c d = 0
    · rw [nearest_of_significand_eq_zero (hdigits.trans hzero),
        nearest_of_significand_eq_zero hzero]
    · rw [nearest_of_significand_ne_zero ha.ne' (hdigits ▸ hzero),
        nearest_of_significand_ne_zero hc.ne' hzero, hdigits, hplace]

/-! ### Rounded doubles -/

/-- The double is what its value is rounded to. The undefined double has no value. -/
def Rounded : Double → Prop
  | finite q => ofRat q = finite q
  | negativeZero | infinite _ => True
  | undefined => False

theorem rounded_zero (negative : Bool) : (zero negative).Rounded := by
  cases negative
  · exact rfl
  · exact trivial

theorem le_lastPlace (num den : Nat) : -1074 ≤ lastPlace num den := le_max_right _ _

/-- At its own last place a double has a whole significand as well. -/
theorem exists_eq_magnitude {num den digits : Nat} {place : Int} (hnum : 0 < num) (hden : 0 < den)
    (h : (num : ℚ) / den = magnitude digits place) (hdigits : digits ≤ 2 ^ 53)
    (hplace : -1074 ≤ place) :
    ∃ m : Nat, (num : ℚ) / den = magnitude m (lastPlace num den) := by
  by_cases hle : lastPlace num den ≤ place
  · refine ⟨digits * 2 ^ (place - lastPlace num den).toNat, ?_⟩
    have hnat : (((place - lastPlace num den).toNat : ℕ) : ℤ) = place - lastPlace num den := by omega
    rw [h, magnitude, magnitude]
    push_cast
    rw [← zpow_natCast, hnat, mul_assoc, ← zpow_add₀ two_ne_zero, sub_add_cancel]
  · -- the significand is one bit too long: it is the power of two that has 54 bits
    have hlog : lastPlace num den = floorLog2 num den - 52 := by
      rw [lastPlace] at hle ⊢
      omega
    have hlow : (2 : ℚ) ^ (lastPlace num den + 52) ≤ magnitude digits place := by
      rw [hlog, sub_add_cancel, ← h]
      exact (floorLog2_spec hnum hden).1
    have hbits : magnitude digits place ≤ 2 ^ (place + 53) := by
      rw [magnitude, add_comm, zpow_add₀ two_ne_zero]
      have hdigits' : (digits : ℚ) ≤ 2 ^ (53 : ℤ) := by exact_mod_cast hdigits
      gcongr
    have hexponent : lastPlace num den + 52 ≤ place + 53 :=
      (zpow_le_zpow_iff_right₀ (by norm_num : (1 : ℚ) < 2)).1 (hlow.trans hbits)
    have hnext : lastPlace num den + 52 = place + 53 := by omega
    rw [hnext] at hlow
    refine ⟨2 ^ 52, ?_⟩
    rw [h, hbits.antisymm hlow, magnitude, show lastPlace num den = place + 1 by omega,
      Nat.cast_pow, Nat.cast_ofNat, ← zpow_natCast, ← zpow_add₀ two_ne_zero]
    congr 1
    push_cast
    ring

/-- A fraction that is a double already is rounded to it. -/
theorem nearest_of_eq_magnitude {negative : Bool} {num den digits : Nat} {place : Int}
    (hnum : 0 < num) (hden : 0 < den) (h : (num : ℚ) / den = magnitude digits place)
    (hdigits : digits ≤ 2 ^ 53) (hplace : -1074 ≤ place)
    (hlimit : magnitude digits place < (limit : ℚ)) :
    nearest negative num den =
      finite (if negative then -magnitude digits place else magnitude digits place) := by
  obtain ⟨m, hm⟩ := exists_eq_magnitude hnum hden h hdigits hplace
  have hsignificand : significand num den = m := significand_of_eq hden hm
  have hvalue : magnitude m (lastPlace num den) = magnitude digits place := hm.symm.trans h
  have hpos : (0 : ℚ) < num / den := by positivity
  have hne : m ≠ 0 := by
    rintro rfl
    rw [hm, magnitude, Nat.cast_zero, zero_mul] at hpos
    exact hpos.false
  rw [nearest_of_significand_ne_zero hnum.ne' (hsignificand ▸ hne), hsignificand, hvalue,
    if_neg (not_le.2 hlimit)]

theorem natAbs_num_div_den (q : ℚ) : (q.num.natAbs : ℚ) / q.den = |q| := by
  conv_rhs => rw [← Rat.num_div_den q]
  rw [abs_div, Nat.abs_cast, Nat.cast_natAbs, Int.cast_abs]

/-- Rounding gives rounded doubles. -/
theorem rounded_nearest (negative : Bool) (num : Nat) {den : Nat} (hden : 0 < den) :
    (nearest negative num den).Rounded := by
  rcases Nat.eq_zero_or_pos num with rfl | hnum
  · exact rounded_zero negative
  · by_cases hzero : significand num den = 0
    · rw [nearest_of_significand_eq_zero hzero]
      exact rounded_zero negative
    · rw [nearest_of_significand_ne_zero hnum.ne' hzero]
      split
      · exact trivial
      · rename_i hlimit
        set m := magnitude (significand num den) (lastPlace num den) with hm
        have hpos : 0 < m := by
          have hdigits : (0 : ℚ) < significand num den := by exact_mod_cast Nat.pos_of_ne_zero hzero
          rw [hm, magnitude]
          positivity
        have hround : ∀ q : ℚ, |q| = m → ofRat q = finite (if decide (q < 0) then -m else m) := by
          intro q hq
          have hnum' : 0 < q.num.natAbs := by
            rw [Int.natAbs_pos, Rat.num_ne_zero, ← abs_pos, hq]
            exact hpos
          exact nearest_of_eq_magnitude hnum' q.den_pos ((natAbs_num_div_den q).trans hq)
            (significand_le hnum hden) (le_lastPlace num den) (not_le.1 hlimit)
        cases negative with
        | false =>
          have hsign : decide (m < 0) = false := decide_eq_false hpos.not_gt
          have hself := hround m (abs_of_pos hpos)
          rwa [hsign] at hself
        | true =>
          have hsign : decide (-m < 0) = true := decide_eq_true (neg_lt_zero.2 hpos)
          have hself := hround (-m) ((abs_neg m).trans (abs_of_pos hpos))
          rwa [hsign] at hself

theorem rounded_ofDecimal (negative : Bool) (digits : Nat) (exponent : Int) :
    (ofDecimal negative digits exponent).Rounded := by
  unfold ofDecimal
  dsimp only
  split
  · exact rounded_zero negative
  · split
    · exact trivial
    · split
      · exact rounded_zero negative
      · split
        · exact rounded_nearest negative _ Nat.one_pos
        · exact rounded_nearest negative _ (Nat.pow_pos (by decide))

end SchemaAtlas.Double
