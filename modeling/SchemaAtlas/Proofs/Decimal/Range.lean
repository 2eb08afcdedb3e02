import SchemaAtlas.Proofs.Decimal.Rounding

/-!
# The range of doubles

A fraction of at least `2 ^ 1024` is rounded to infinity, and one below half of the least subnormal
number to zero. So the exponents that are decided by the number of digits alone are decided as the
exact fraction would be: a decimal fraction is read as the double nearest to it.
-/
namespace SchemaAtlas.Double

theorem le_roundQuotient {num den m : Nat} (hden : 0 < den) (h : m * den ≤ num) :
    m ≤ roundQuotient num den := by
  have hfloor : m ≤ num / den := (Nat.le_div_iff_mul_le hden).2 h
  unfold roundQuotient
  dsimp only
  split
  · exact hfloor
  · exact hfloor.trans (Nat.le_succ _)

theorem roundQuotient_eq_zero {num den : Nat} (h : 2 * num < den) : roundQuotient num den = 0 := by
  have hlt : num < den := by omega
  simp [roundQuotient, Nat.div_eq_of_lt hlt, Nat.mod_eq_of_lt hlt, h]

/-- In the range of the normal numbers a significand has 53 bits. -/
theorem le_significand {num den : Nat} (hnum : 0 < num) (hden : 0 < den)
    (h : -1022 ≤ floorLog2 num den) : 2 ^ 52 ≤ significand num den := by
  have hden' : (0 : ℚ) < den := by exact_mod_cast hden
  have hplace : lastPlace num den = floorLog2 num den - 52 := by
    rw [lastPlace]
    omega
  have hlow := (floorLog2_spec hnum hden).1
  rw [le_div_iff₀ hden', show floorLog2 num den = 52 + lastPlace num den by omega] at hlow
  rw [significand_eq]
  set p := lastPlace num den
  refine le_roundQuotient (by positivity) ?_
  rw [← Nat.cast_le (α := ℚ)]
  push_cast
  rw [two_pow_toNat p]
  calc (2 : ℚ) ^ 52 * (den * (2 ^ p * 2 ^ (-p).toNat))
      = 2 ^ (52 + p) * den * 2 ^ (-p).toNat := by
        rw [zpow_add₀ two_ne_zero, show (2 : ℚ) ^ (52 : ℤ) = 2 ^ 52 from rfl]
        ring
    _ ≤ num * 2 ^ (-p).toNat := by gcongr

theorem limit_eq : limit = Nat.pow 2 1024 := by
  unfold limit
  with_reducible rfl

theorem cast_limit : (limit : ℚ) = 2 ^ (1024 : ℤ) := by
  simp only [limit_eq, Nat.pow_eq, Nat.cast_pow, Nat.cast_ofNat, zpow_ofNat]

/-- From the limit on, what a fraction is rounded to is out of range as well. -/
theorem nearest_of_limit_le {negative : Bool} {num den : Nat} (hden : 0 < den)
    (h : (limit : ℚ) ≤ num / den) : nearest negative num den = infinite negative := by
  rw [cast_limit] at h
  have hpos : (0 : ℚ) < num / den := (zpow_pos two_pos _).trans_le h
  have hnum : 0 < num := by
    by_contra hzero
    rw [Nat.eq_zero_of_not_pos hzero, Nat.cast_zero, zero_div] at hpos
    exact hpos.false
  have hlog : 1024 ≤ floorLog2 num den := by
    rw [floorLog2_eq_log hnum hden]
    exact (Int.zpow_le_iff_le_log (b := 2) Nat.one_lt_two hpos).1 h
  have hsignificand := le_significand hnum hden (by omega)
  have hplace : 972 ≤ lastPlace num den := by
    rw [lastPlace]
    omega
  have hmagnitude : (limit : ℚ) ≤ magnitude (significand num den) (lastPlace num den) := by
    have hdigits : (2 : ℚ) ^ (52 : ℤ) ≤ significand num den := by exact_mod_cast hsignificand
    rw [cast_limit, magnitude, show (1024 : ℤ) = 52 + 972 from rfl, zpow_add₀ two_ne_zero]
    have hpow : (2 : ℚ) ^ (972 : ℤ) ≤ 2 ^ lastPlace num den :=
      zpow_le_zpow_right₀ one_le_two hplace
    gcongr
  have hne : significand num den ≠ 0 := by
    intro hzero
    rw [hzero] at hsignificand
    exact absurd hsignificand (by decide)
  rw [nearest_of_significand_ne_zero hnum.ne' hne, if_pos hmagnitude]

/-- Below half of the least subnormal number nothing is left of a fraction. -/
theorem nearest_of_lt_least {negative : Bool} {num den : Nat} (hden : 0 < den)
    (h : (num : ℚ) / den < 2 ^ (-1075 : ℤ)) : nearest negative num den = zero negative := by
  rcases Nat.eq_zero_or_pos num with rfl | hnum
  · exact nearest_zero negative den
  have hden' : (0 : ℚ) < den := by exact_mod_cast hden
  have hpos : (0 : ℚ) < num / den := by positivity
  have hlog : floorLog2 num den < -1075 := by
    rw [floorLog2_eq_log hnum hden]
    exact (Int.lt_zpow_iff_log_lt (b := 2) Nat.one_lt_two hpos).1 h
  have hplace : lastPlace num den = 1 + -1075 := by
    rw [lastPlace]
    omega
  refine nearest_of_significand_eq_zero ?_
  rw [div_lt_iff₀ hden'] at h
  rw [significand_eq]
  refine roundQuotient_eq_zero ?_
  rw [← Nat.cast_lt (α := ℚ)]
  push_cast
  rw [two_pow_toNat (lastPlace num den)]
  have hpow : (0 : ℚ) < 2 ^ (-lastPlace num den).toNat := by positivity
  calc (2 : ℚ) * (num * 2 ^ (-lastPlace num den).toNat)
      < 2 * (2 ^ (-1075 : ℤ) * den * 2 ^ (-lastPlace num den).toNat) := by gcongr
    _ = den * (2 ^ lastPlace num den * 2 ^ (-lastPlace num den).toNat) := by
      rw [show (2 : ℚ) ^ lastPlace num den = 2 * 2 ^ (-1075 : ℤ) by
        rw [hplace, zpow_add₀ two_ne_zero, zpow_one]]
      ring

/-- A number lies between the powers of ten that the number of its digits says. -/
theorem toDigits_bounds {n : Nat} (hn : n ≠ 0) :
    (10 : ℚ) ^ (((Nat.toDigits 10 n).length : ℤ) - 1) ≤ n ∧
      (n : ℚ) < 10 ^ ((Nat.toDigits 10 n).length : ℤ) := by
  have hpos : 0 < (Nat.toDigits 10 n).length := Nat.length_toDigits_pos
  have hhigh : n < 10 ^ (Nat.toDigits 10 n).length :=
    (Nat.length_toDigits_le_iff (by decide) hpos).1 le_rfl
  have hlow : 10 ^ ((Nat.toDigits 10 n).length - 1) ≤ n := by
    by_contra hlt
    have hmore : 0 < (Nat.toDigits 10 n).length - 1 := by
      rcases Nat.eq_zero_or_pos ((Nat.toDigits 10 n).length - 1) with hone | hmore
      · rw [hone, pow_zero] at hlt
        omega
      · exact hmore
    have hle := (Nat.length_toDigits_le_iff (by decide) hmore).2 (Nat.not_le.1 hlt)
    omega
  rw [show ((Nat.toDigits 10 n).length : ℤ) - 1 = (((Nat.toDigits 10 n).length - 1 : ℕ) : ℤ) by omega,
    zpow_natCast, zpow_natCast]
  exact ⟨by exact_mod_cast hlow, by exact_mod_cast hhigh⟩

theorem two_zpow_le_ten_zpow {a b : ℤ} (hb : 0 ≤ b) (h : a ≤ 3 * b) : (2 : ℚ) ^ a ≤ 10 ^ b :=
  calc (2 : ℚ) ^ a ≤ 2 ^ (3 * b) := zpow_le_zpow_right₀ one_le_two h
    _ = (2 ^ (3 : ℤ)) ^ b := zpow_mul 2 3 b
    _ ≤ 10 ^ b := zpow_le_zpow_left₀ hb (by positivity) (by norm_num)

/-- The double of a decimal fraction is the one nearest to it, however far out its digits are. -/
theorem ofDecimal_eq_nearest (negative : Bool) (digits places : Nat) :
    ofDecimal negative digits (-(places : Int)) = nearest negative digits (Nat.pow 10 places) := by
  have hden : 0 < Nat.pow 10 places := Nat.pow_pos (by decide)
  have hvalue : (digits : ℚ) / (Nat.pow 10 places : ℕ) = digits * 10 ^ (-(places : ℤ)) := by
    rw [Nat.pow_eq, Nat.cast_pow, Nat.cast_ofNat, zpow_neg, zpow_natCast, div_eq_mul_inv]
  have hten : (0 : ℚ) < 10 ^ (-(places : ℤ)) := by positivity
  unfold ofDecimal
  split
  · rename_i hzero
    rw [hzero, nearest_zero]
  rename_i hdigits
  obtain ⟨hlow, hhigh⟩ := toDigits_bounds hdigits
  dsimp only
  split
  · rename_i htop
    refine (nearest_of_limit_le hden ?_).symm
    rw [hvalue, cast_limit]
    calc (2 : ℚ) ^ (1024 : ℤ) ≤ 10 ^ (400 : ℤ) := two_zpow_le_ten_zpow (by decide) (by decide)
      _ ≤ 10 ^ (((Nat.toDigits 10 digits).length : ℤ) - 1 + -(places : ℤ)) :=
        zpow_le_zpow_right₀ (by norm_num) (by omega)
      _ = 10 ^ (((Nat.toDigits 10 digits).length : ℤ) - 1) * 10 ^ (-(places : ℤ)) :=
        zpow_add₀ (by norm_num) _ _
      _ ≤ digits * 10 ^ (-(places : ℤ)) := by gcongr
  split
  · rename_i htop
    refine (nearest_of_lt_least hden ?_).symm
    rw [hvalue]
    calc digits * (10 : ℚ) ^ (-(places : ℤ))
        < 10 ^ ((Nat.toDigits 10 digits).length : ℤ) * 10 ^ (-(places : ℤ)) := by gcongr
      _ = 10 ^ (((Nat.toDigits 10 digits).length : ℤ) + -(places : ℤ)) :=
        (zpow_add₀ (by norm_num) _ _).symm
      _ ≤ 10 ^ (-400 : ℤ) := zpow_le_zpow_right₀ (by norm_num) (by omega)
      _ ≤ 2 ^ (-1075 : ℤ) := by
        rw [zpow_neg, zpow_neg]
        exact inv_anti₀ (zpow_pos two_pos _) (two_zpow_le_ten_zpow (by decide) (by decide))
  split
  · have hplaces : places = 0 := by omega
    subst hplaces
    exact congrArg (nearest negative · 1) (Nat.mul_one digits)
  · rw [neg_neg, Int.toNat_natCast]

end SchemaAtlas.Double
