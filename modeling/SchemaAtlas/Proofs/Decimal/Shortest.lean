import SchemaAtlas.Decimal.Shortest
import SchemaAtlas.Proofs.Decimal.Rounding

/-!
# Shortest digits read back

Whichever grid the digits of a double are taken from, what they write is rounded to the double.
-/
namespace SchemaAtlas.Double

theorem scaled_pos (digits : Nat) (exponent : Int) : 0 < (scaled digits exponent).2 := by
  unfold scaled
  split
  · exact Nat.one_pos
  · exact Nat.pow_pos (by decide)

/-- The fraction is what the digits write. -/
theorem scaled_eq (digits : Nat) (exponent : Int) :
    ((scaled digits exponent).1 : ℚ) / (scaled digits exponent).2 = digits * 10 ^ exponent := by
  unfold scaled
  split
  · rename_i h
    push_cast [Nat.pow_eq]
    rw [div_one, ← zpow_natCast, Int.toNat_of_nonneg h]
  · have hnat : (((-exponent).toNat : ℕ) : ℤ) = -exponent := by omega
    push_cast [Nat.pow_eq]
    rw [← zpow_natCast, hnat, zpow_neg, div_inv_eq_mul]

/-- The digits are rounded to the same double as the fraction. -/
def ReadsBack (num den : Nat) (written : Nat × Int) : Prop :=
  nearest false (scaled written.1 written.2).1 (scaled written.1 written.2).2 =
    nearest false num den

instance (num den : Nat) (written : Nat × Int) : Decidable (ReadsBack num den written) :=
  inferInstanceAs (Decidable (_ = _))

theorem readsBack_of_gridNeighbour? {num den found : Nat} {exponent : Int}
    (h : gridNeighbour? num den exponent = some found) : ReadsBack num den (found, exponent) := by
  unfold gridNeighbour? at h
  dsimp only at h
  split at h
  · rename_i hreads
    obtain rfl := Option.some.inj h
    exact of_decide_eq_true hreads
  · split at h
    · rename_i hreads
      obtain rfl := Option.some.inj h
      exact of_decide_eq_true hreads
    · split at h
      · rename_i hreads
        obtain rfl := Option.some.inj h
        exact of_decide_eq_true hreads
      · cases h

/-- The fraction is rounded to a double between zero and the limit. -/
structure Regular (num den : Nat) : Prop where
  num_pos : 0 < num
  den_pos : 0 < den
  significand_ne_zero : significand num den ≠ 0
  lt_limit : magnitude (significand num den) (lastPlace num den) < (limit : ℚ)

namespace Regular

variable {num den : Nat}

theorem nearest_eq (h : Regular num den) :
    nearest false num den = finite (magnitude (significand num den) (lastPlace num den)) := by
  rw [nearest_of_significand_ne_zero h.num_pos.ne' h.significand_ne_zero,
    if_neg (not_le.2 h.lt_limit)]
  rfl

theorem magnitude_pos (h : Regular num den) :
    0 < magnitude (significand num den) (lastPlace num den) := by
  have hdigits : (0 : ℚ) < significand num den := by
    exact_mod_cast Nat.pos_of_ne_zero h.significand_ne_zero
  rw [magnitude]
  positivity

theorem exactDigits_eq (num den : Nat) :
    ((exactDigits num den).1 : ℚ) * 10 ^ (exactDigits num den).2 =
      magnitude (significand num den) (lastPlace num den) := by
  unfold exactDigits
  dsimp only
  rw [magnitude]
  split
  · rename_i h
    push_cast [Nat.pow_eq]
    rw [mul_one, ← zpow_natCast, Int.toNat_of_nonneg h]
  · have hnat : (((-lastPlace num den).toNat : ℕ) : ℤ) = -lastPlace num den := by omega
    push_cast [Nat.pow_eq]
    rw [← zpow_natCast, hnat, mul_assoc, zpow_neg, ← inv_zpow, ← mul_zpow]
    norm_num

theorem readsBack_exactDigits (h : Regular num den) : ReadsBack num den (exactDigits num den) := by
  have hvalue := (scaled_eq _ _).trans (exactDigits_eq num den)
  have hden := scaled_pos (exactDigits num den).1 (exactDigits num den).2
  have hnum : 0 < (scaled (exactDigits num den).1 (exactDigits num den).2).1 := by
    refine Nat.pos_of_ne_zero fun hzero => ?_
    rw [hzero, Nat.cast_zero, zero_div] at hvalue
    exact h.magnitude_pos.ne hvalue
  rw [ReadsBack, h.nearest_eq]
  exact nearest_of_eq_magnitude hnum hden hvalue (significand_le h.num_pos h.den_pos)
    (le_lastPlace num den) h.lt_limit

theorem readsBack_shortestFrom (h : Regular num den) (point : Int) (remaining digits : Nat) :
    ReadsBack num den (shortestFrom num den point remaining digits) := by
  induction remaining generalizing digits with
  | zero => exact h.readsBack_exactDigits
  | succ remaining ih =>
    rw [shortestFrom]
    split
    · rename_i found hfound
      exact readsBack_of_gridNeighbour? hfound
    · exact ih (digits + 1)

/-- The shortest digits of a double are rounded to it. -/
theorem readsBack_shortest (h : Regular num den) : ReadsBack num den (shortest num den) :=
  h.readsBack_shortestFrom _ _ _

/-- So they write no zero. -/
theorem shortest_ne_zero (h : Regular num den) : (shortest num den).1 ≠ 0 := by
  intro hzero
  have hreads := h.readsBack_shortest
  have hvalue := scaled_eq (shortest num den).1 (shortest num den).2
  have hden : ((scaled (shortest num den).1 (shortest num den).2).2 : ℚ) ≠ 0 := by
    exact_mod_cast (scaled_pos _ _).ne'
  rw [hzero, Nat.cast_zero, zero_mul, ← hzero, div_eq_zero_iff, or_iff_left hden,
    Nat.cast_eq_zero] at hvalue
  rw [ReadsBack, hvalue, nearest_zero, h.nearest_eq] at hreads
  exact h.magnitude_pos.ne (Double.finite.inj hreads)

end Regular

end SchemaAtlas.Double
