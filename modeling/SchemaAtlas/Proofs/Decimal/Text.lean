import SchemaAtlas.Number
import SchemaAtlas.Proofs.Decimal.Shortest
import SchemaAtlas.Proofs.Text.Digits

/-!
# The text of a double

Whether it is laid out positionally or with an exponent, the text of a double writes its shortest
digits at their place. What the text writes is therefore rounded to the double, and doubles with the
same text stand for the same quantity.
-/
namespace SchemaAtlas

namespace Text

theorem foldl_digits (cs : List Char) (value : Nat) :
    cs.foldl (fun value c => value * 10 + (digitValue? c).getD 0) value =
      value * 10 ^ cs.length + digitsValue cs := by
  unfold digitsValue
  induction cs generalizing value with
  | nil => simp
  | cons c cs ih =>
    rw [List.foldl_cons, List.foldl_cons, ih, ih (0 * 10 + _), List.length_cons]
    ring

theorem digitsValue_append (cs ds : List Char) :
    digitsValue (cs ++ ds) = digitsValue cs * 10 ^ ds.length + digitsValue ds := by
  rw [digitsValue, List.foldl_append, foldl_digits ds]
  rfl

theorem digitsValue_zeros (k : Nat) : digitsValue (List.replicate k '0') = 0 := by
  induction k with
  | zero => rfl
  | succ k ih =>
    have hzero : digitsValue ['0'] = 0 := by decide
    rw [List.replicate_succ', digitsValue_append, ih, hzero, Nat.zero_mul]

theorem digitsValue_append_zeros (cs : List Char) (k : Nat) :
    digitsValue (cs ++ List.replicate k '0') = digitsValue cs * 10 ^ k := by
  rw [digitsValue_append, digitsValue_zeros, List.length_replicate, Nat.add_zero]

theorem digitsValue_zeros_append (k : Nat) (cs : List Char) :
    digitsValue (List.replicate k '0' ++ cs) = digitsValue cs := by
  rw [digitsValue_append, digitsValue_zeros, Nat.zero_mul, Nat.zero_add]

/-- A row of decimal digits. -/
def IsDigits (cs : List Char) : Prop := ∀ c ∈ cs, c.isDigit = true

theorem isDigits_zero : IsDigits ['0'] := List.forall_mem_singleton.2 rfl

theorem isDigits_toDigits (n : Nat) : IsDigits (Nat.toDigits 10 n) :=
  fun _ h => Nat.isDigit_of_mem_toDigits (by decide) (by decide) h

theorem isDigits_zeros (k : Nat) : IsDigits (List.replicate k '0') := by
  intro c hc
  rw [List.eq_of_mem_replicate hc]
  decide

namespace IsDigits

variable {cs ds : List Char}

theorem append (h : IsDigits cs) (h' : IsDigits ds) : IsDigits (cs ++ ds) := by
  intro c hc
  rcases List.mem_append.1 hc with hc | hc
  · exact h c hc
  · exact h' c hc

theorem ne (h : IsDigits cs) {mark : Char} (hmark : mark.isDigit = false) :
    ∀ c ∈ cs, (c != mark) = true := by
  intro c hc
  rw [bne_iff_ne]
  rintro rfl
  rw [h c hc] at hmark
  cases hmark

end IsDigits
end Text

namespace Double

open Text

/-! ### Decimals and what they write -/

/-- Digits with a point between them, or with an exponent behind them, and what they write. -/
inductive Spells : List Char → ℚ → Prop
  | positional (whole fraction : List Char) (hne : whole ≠ []) (hwhole : IsDigits whole)
    (hfraction : IsDigits fraction) :
    Spells (whole ++ '.' :: fraction)
      (digitsValue (whole ++ fraction) * 10 ^ (-(fraction.length : ℤ)))
  | scientific (whole fraction exponent : List Char) (negative : Bool) (hne : whole ≠ [])
    (hwhole : IsDigits whole) (hfraction : IsDigits fraction) (hexponent : IsDigits exponent) :
    Spells
      (whole ++ (if fraction = [] then [] else '.' :: fraction) ++
        'e' :: (if negative then '-' else '+') :: exponent)
      (digitsValue (whole ++ fraction) * 10 ^ (-(fraction.length : ℤ)) *
        10 ^ (if negative then -(digitsValue exponent : ℤ) else digitsValue exponent))

/-- What digits write that may have a point between them. -/
def pointedValue (cs : List Char) : ℚ :=
  digitsValue (cs.filter (· != '.')) * 10 ^ (-(((cs.dropWhile (· != '.')).drop 1).length : ℤ))

/-- What an exponent writes, from its sign on. -/
def exponentValue : List Char → ℤ
  | [] => 0
  | sign :: digits => if sign = '-' then -(digitsValue digits : ℤ) else digitsValue digits

def decimalValue (cs : List Char) : ℚ :=
  pointedValue (cs.takeWhile (· != 'e')) * 10 ^ exponentValue ((cs.dropWhile (· != 'e')).drop 1)

theorem pointedValue_of_point {whole fraction : List Char} (hwhole : IsDigits whole)
    (hfraction : IsDigits fraction) :
    pointedValue (whole ++ '.' :: fraction) =
      digitsValue (whole ++ fraction) * 10 ^ (-(fraction.length : ℤ)) := by
  have hpoint : ∀ c ∈ ('.' :: fraction).head?, (c != '.') = false := by
    rintro c ⟨⟩
    rfl
  have hfilter : (whole ++ '.' :: fraction).filter (· != '.') = whole ++ fraction := by
    rw [List.filter_append, List.filter_cons_of_neg (by simp),
      List.filter_eq_self.2 (hwhole.ne (by decide)),
      List.filter_eq_self.2 (hfraction.ne (by decide))]
  rw [pointedValue, hfilter, dropWhile_append_of_head (hwhole.ne (by decide)) hpoint]
  rfl

theorem pointedValue_of_digits {whole : List Char} (hwhole : IsDigits whole) :
    pointedValue whole = digitsValue whole := by
  rw [pointedValue, List.filter_eq_self.2 (hwhole.ne (by decide)),
    List.dropWhile_eq_nil_iff.2 (hwhole.ne (by decide))]
  simp

namespace Spells

variable {cs : List Char} {x y : ℚ}

theorem decimalValue_eq (h : Spells cs x) : decimalValue cs = x := by
  cases h with
  | positional whole fraction hne hwhole hfraction =>
    have hplain : ∀ c ∈ whole ++ '.' :: fraction, (c != 'e') = true := by
      intro c hc
      rcases List.mem_append.1 hc with hc | hc
      · exact hwhole.ne (by decide) c hc
      · rcases List.mem_cons.1 hc with rfl | hc
        · rfl
        · exact hfraction.ne (by decide) c hc
    rw [decimalValue, List.takeWhile_eq_self_iff.2 hplain, List.dropWhile_eq_nil_iff.2 hplain,
      pointedValue_of_point hwhole hfraction]
    simp [exponentValue]
  | scientific whole fraction exponent negative hne hwhole hfraction hexponent =>
    have hplain : ∀ c ∈ whole ++ (if fraction = [] then [] else '.' :: fraction),
        (c != 'e') = true := by
      intro c hc
      rcases List.mem_append.1 hc with hc | hc
      · exact hwhole.ne (by decide) c hc
      · split at hc
        · cases hc
        · rcases List.mem_cons.1 hc with rfl | hc
          · rfl
          · exact hfraction.ne (by decide) c hc
    have hmark : ∀ c ∈ ('e' :: (if negative then '-' else '+') :: exponent).head?,
        (c != 'e') = false := by
      rintro c ⟨⟩
      rfl
    have hpointed : pointedValue (whole ++ (if fraction = [] then [] else '.' :: fraction)) =
        digitsValue (whole ++ fraction) * 10 ^ (-(fraction.length : ℤ)) := by
      split
      · rename_i hnil
        subst hnil
        rw [List.append_nil, pointedValue_of_digits hwhole]
        simp
      · exact pointedValue_of_point hwhole hfraction
    rw [decimalValue, takeWhile_append_of_head hplain hmark, dropWhile_append_of_head hplain hmark,
      hpointed, List.drop_succ_cons, List.drop_zero, exponentValue]
    cases negative <;> rfl

theorem exists_cons (h : Spells cs x) : ∃ c rest, cs = c :: rest ∧ c.isDigit = true := by
  have hhead : ∀ {whole rest : List Char}, whole ≠ [] → IsDigits whole →
      ∃ c others, whole ++ rest = c :: others ∧ c.isDigit = true := by
    intro whole rest hne hwhole
    obtain ⟨c, others, rfl⟩ := List.exists_cons_of_ne_nil hne
    exact ⟨c, others ++ rest, rfl, hwhole c List.mem_cons_self⟩
  cases h with
  | positional _ _ hne hwhole => exact hhead hne hwhole
  | scientific _ _ _ _ hne hwhole =>
    rw [List.append_assoc]
    exact hhead hne hwhole

/-- A decimal is no whole number: it has a point or an exponent. -/
theorem exists_mark (h : Spells cs x) : '.' ∈ cs ∨ 'e' ∈ cs := by
  cases h with
  | positional => exact .inl (List.mem_append_right _ List.mem_cons_self)
  | scientific => exact .inr (List.mem_append_right _ List.mem_cons_self)

theorem mem_cases (h : Spells cs x) {c : Char} (hc : c ∈ cs) :
    c.isDigit = true ∨ c ∈ ['.', 'e', '+', '-'] := by
  cases h with
  | positional whole fraction hne hwhole hfraction =>
    rcases List.mem_append.1 hc with hc | hc
    · exact .inl (hwhole c hc)
    · rcases List.mem_cons.1 hc with rfl | hc
      · exact .inr (by decide)
      · exact .inl (hfraction c hc)
  | scientific whole fraction exponent negative hne hwhole hfraction hexponent =>
    rcases List.mem_append.1 hc with hc | hc
    · rcases List.mem_append.1 hc with hc | hc
      · exact .inl (hwhole c hc)
      · split at hc
        · cases hc
        · rcases List.mem_cons.1 hc with rfl | hc
          · exact .inr (by decide)
          · exact .inl (hfraction c hc)
    · rcases List.mem_cons.1 hc with rfl | hc
      · exact .inr (by decide)
      · rcases List.mem_cons.1 hc with rfl | hc
        · cases negative <;> exact .inr (by decide)
        · exact .inl (hexponent c hc)

end Spells

/-! ### Layouts -/

theorem exists_append_zeros (cs : List Char) :
    ∃ k, cs = dropTrailingZeros cs ++ List.replicate k '0' := by
  have hzeros : cs.reverse.takeWhile (· = '0') =
      List.replicate (cs.reverse.takeWhile (· = '0')).length '0' := by
    refine List.eq_replicate_length.2 fun c hc => ?_
    have hzero := List.mem_takeWhile_imp hc
    exact of_decide_eq_true hzero
  refine ⟨(cs.reverse.takeWhile (· = '0')).length, ?_⟩
  have hparts := congrArg List.reverse
    (List.takeWhile_append_dropWhile (p := (· = '0')) (l := cs.reverse))
  rw [List.reverse_append, List.reverse_reverse, hzeros, List.reverse_replicate] at hparts
  exact hparts.symm

variable {ds : List Char}

/-- Positionally the digits stand at their place. -/
theorem spells_positional (hne : ds ≠ []) (hds : IsDigits ds) (point : Int) :
    Spells (positional ds point).toList (digitsValue ds * 10 ^ (point - ds.length)) := by
  unfold positional
  dsimp only
  rw [String.toList_ofList]
  split
  · -- the digits begin behind the point
    rename_i hpoint
    have hspells := Spells.positional ['0'] (List.replicate (-point).toNat '0' ++ ds) (by simp)
      isDigits_zero ((isDigits_zeros _).append hds)
    have hdigits : digitsValue (['0'] ++ (List.replicate (-point).toNat '0' ++ ds)) =
        digitsValue ds := by
      rw [digitsValue_append, digitsValue_zeros_append]
      simp [show digitsValue ['0'] = 0 by decide]
    have hexponent : -((List.replicate (-point).toNat '0' ++ ds).length : ℤ) =
        point - ds.length := by
      rw [List.length_append, List.length_replicate]
      omega
    rwa [hdigits, hexponent] at hspells
  · split
    · -- the digits end in front of the point
      rename_i hlength
      have hspells := Spells.positional (ds ++ List.replicate (point.toNat - ds.length) '0') ['0']
        (List.append_ne_nil_of_left_ne_nil hne _) (hds.append (isDigits_zeros _)) isDigits_zero
      have hdigits : (digitsValue (ds ++ List.replicate (point.toNat - ds.length) '0' ++ ['0']) : ℚ) *
          10 ^ (-((['0'] : List Char).length : ℤ)) =
          digitsValue ds * 10 ^ (point - ds.length) := by
        have hnat : ((point.toNat - ds.length : ℕ) : ℤ) = point - ds.length := by omega
        rw [digitsValue_append, digitsValue_append_zeros, show digitsValue ['0'] = 0 by decide,
          ← hnat, zpow_natCast]
        simp
      rwa [hdigits] at hspells
    · -- the point stands between the digits
      rename_i hpoint hlength
      have hwhole : ds.take point.toNat ≠ [] := by
        rw [Ne, List.take_eq_nil_iff]
        rintro (hzero | hnil)
        · omega
        · exact hne hnil
      have hspells := Spells.positional (ds.take point.toNat) (ds.drop point.toNat) hwhole
        (fun c hc => hds c (List.mem_of_mem_take hc)) fun c hc => hds c (List.mem_of_mem_drop hc)
      have hexponent : -((ds.drop point.toNat).length : ℤ) = point - ds.length := by
        rw [List.length_drop]
        omega
      rwa [List.take_append_drop, hexponent] at hspells

/-- With an exponent they stand at their place as well. -/
theorem spells_scientific (layout : Layout) (hne : ds ≠ []) (hds : IsDigits ds) (exponent : Int) :
    Spells (scientific layout ds exponent).toList
      (digitsValue ds * 10 ^ (exponent + 1 - ds.length)) := by
  have hlength : 0 < ds.length := List.length_pos_iff.2 hne
  have hwhole : ds.take 1 ≠ [] := by
    rw [Ne, List.take_eq_nil_iff]
    rintro (hzero | hnil)
    · cases hzero
    · exact hne hnil
  have hwritten : IsDigits (Nat.toDigits 10 exponent.natAbs) := isDigits_toDigits _
  have hspells := Spells.scientific (ds.take 1) (ds.drop 1)
    (List.replicate (layout.exponentWidth - (Nat.toDigits 10 exponent.natAbs).length) '0' ++
      Nat.toDigits 10 exponent.natAbs) (decide (exponent < 0)) hwhole
    (fun c hc => hds c (List.mem_of_mem_take hc)) (fun c hc => hds c (List.mem_of_mem_drop hc))
    ((isDigits_zeros _).append hwritten)
  have hvalue : (if decide (exponent < 0) = true then -(exponent.natAbs : ℤ)
      else exponent.natAbs) = exponent := by
    by_cases hneg : exponent < 0
    · rw [if_pos (decide_eq_true hneg)]
      omega
    · rw [if_neg (by simpa using hneg)]
      omega
  have hplace : -((ds.drop 1).length : ℤ) + exponent = exponent + 1 - ds.length := by
    rw [List.length_drop]
    omega
  have hpoint : (if ds.drop 1 = [] then [] else '.' :: ds.drop 1) =
      if ds.length > 1 then '.' :: ds.drop 1 else [] := by
    by_cases hone : ds.length > 1
    · rw [if_pos hone, if_neg]
      rw [List.drop_eq_nil_iff]
      omega
    · rw [if_neg hone, if_pos]
      rw [List.drop_eq_nil_iff]
      omega
  rw [List.take_append_drop, digitsValue_zeros_append, digitsValue_toDigits, hvalue, mul_assoc,
    ← zpow_add₀ (by norm_num), hplace, hpoint] at hspells
  unfold scientific
  dsimp only
  rw [String.toList_ofList]
  simpa only [List.append_assoc, List.cons_append, decide_eq_true_eq] using hspells

/-- The text of a double writes its shortest digits. -/
theorem Regular.spells_magnitudeText {num den : Nat} (h : Regular num den) :
    Spells (magnitudeText num den).toList
      ((shortest num den).1 * 10 ^ (shortest num den).2) := by
  obtain ⟨k, hk⟩ := exists_append_zeros (Nat.toDigits 10 (shortest num den).1)
  set ds := dropTrailingZeros (Nat.toDigits 10 (shortest num den).1) with hds
  have hfound : (shortest num den).1 = digitsValue ds * 10 ^ k := by
    rw [← digitsValue_append_zeros, ← hk, digitsValue_toDigits]
  have hne : ds ≠ [] := by
    intro hnil
    rw [hnil] at hfound
    exact h.shortest_ne_zero (hfound.trans (Nat.zero_mul _))
  have hdigits : IsDigits ds := by
    intro c hc
    refine isDigits_toDigits (shortest num den).1 c ?_
    rw [hk]
    exact List.mem_append_left _ hc
  have hvalue : ((shortest num den).1 : ℚ) * 10 ^ (shortest num den).2 =
      digitsValue ds *
        10 ^ ((Nat.toDigits 10 (shortest num den).1).length + (shortest num den).2 - ds.length) := by
    have hcast : ((shortest num den).1 : ℚ) = digitsValue ds * 10 ^ k := by exact_mod_cast hfound
    have hplace : (((Nat.toDigits 10 (shortest num den).1).length : ℕ) : ℤ) +
        (shortest num den).2 - ds.length = k + (shortest num den).2 := by
      rw [hk, List.length_append, List.length_replicate]
      push_cast
      ring
    rw [hplace, zpow_add₀ (by norm_num), zpow_natCast, ← mul_assoc, hcast]
  rw [hvalue]
  unfold magnitudeText
  dsimp only
  rw [← hds]
  split
  · exact spells_positional hne hdigits _
  · have hspells := spells_scientific layout hne hdigits
      ((Nat.toDigits 10 (shortest num den).1).length + (shortest num den).2 - 1)
    rwa [sub_add_cancel] at hspells

/-! ### Reading back -/

theorem nearest_not (negative : Bool) (num den : Nat) :
    nearest (!negative) num den = (nearest negative num den).neg := by
  have hzero : zero (!negative) = (zero negative).neg := by
    cases negative <;> simp [zero, neg]
  by_cases hnum : num = 0
  · rw [hnum, nearest_zero, nearest_zero, hzero]
  · by_cases hdigits : significand num den = 0
    · rw [nearest_of_significand_eq_zero hdigits, nearest_of_significand_eq_zero hdigits, hzero]
    · have hmagnitude : magnitude (significand num den) (lastPlace num den) ≠ 0 := by
        rw [magnitude]
        have hcast : (significand num den : ℚ) ≠ 0 := by exact_mod_cast hdigits
        positivity
      rw [nearest_of_significand_ne_zero hnum hdigits, nearest_of_significand_ne_zero hnum hdigits]
      split
      · rfl
      · cases negative
        · simp [neg, hmagnitude]
        · simp [neg, hmagnitude]

/-- What a signed decimal writes. -/
def signedValue : List Char → ℚ
  | '-' :: cs => -decimalValue cs
  | cs => decimalValue cs

/-- The quantity that the text of a double stands for. -/
def readText (cs : List Char) : Quantity :=
  if cs = ['i', 'n', 'f'] then .infinite false
  else if cs = ['-', 'i', 'n', 'f'] then .infinite true
  else (Number.double (ofRat (signedValue cs))).quantity

theorem regular_of_rounded {q : ℚ} (h : (finite q).Rounded) (hq : q ≠ 0) :
    Regular q.num.natAbs q.den := by
  have hround : nearest (decide (q < 0)) q.num.natAbs q.den = finite q := h
  have hnum : 0 < q.num.natAbs := by
    rw [Int.natAbs_pos]
    exact Rat.num_ne_zero.2 hq
  have hdigits : significand q.num.natAbs q.den ≠ 0 := by
    intro hzero
    rw [nearest_of_significand_eq_zero hzero, zero] at hround
    split at hround
    · cases hround
    · exact hq (Double.finite.inj hround).symm
  refine ⟨hnum, q.den_pos, hdigits, not_le.1 fun hlimit => ?_⟩
  rw [nearest_of_significand_ne_zero hnum.ne' hdigits, if_pos hlimit] at hround
  cases hround

/-- A value with the magnitude of what the shortest digits write is rounded to the double. -/
theorem ofRat_of_abs_eq {q x : ℚ} (h : (finite q).Rounded) (hq : q ≠ 0)
    (habs : |x| = (shortest q.num.natAbs q.den).1 * 10 ^ (shortest q.num.natAbs q.den).2)
    (hsign : x < 0 ↔ q < 0) : ofRat x = finite q := by
  have hregular := regular_of_rounded h hq
  have hreads := hregular.readsBack_shortest
  have hfraction : (x.num.natAbs : ℚ) / x.den =
      (scaled (shortest q.num.natAbs q.den).1 (shortest q.num.natAbs q.den).2).1 /
        (scaled (shortest q.num.natAbs q.den).1 (shortest q.num.natAbs q.den).2).2 := by
    rw [natAbs_num_div_den, scaled_eq, habs]
  have hpositive : nearest false x.num.natAbs x.den = nearest false q.num.natAbs q.den :=
    (nearest_congr x.den_pos (scaled_pos _ _) hfraction).trans hreads
  have hnegative : nearest true x.num.natAbs x.den = nearest true q.num.natAbs q.den := by
    rw [← Bool.not_false, nearest_not, nearest_not, hpositive]
  have hround : ofRat q = finite q := h
  rw [← hround, ofRat, ofRat, show decide (x < 0) = decide (q < 0) from decide_eq_decide.2 hsign]
  cases decide (q < 0)
  · exact hpositive
  · exact hnegative

theorem signedValue_of_spells {cs : List Char} {x : ℚ} (h : Spells cs x) : signedValue cs = x := by
  obtain ⟨c, rest, rfl, hc⟩ := h.exists_cons
  rw [signedValue]
  · exact h.decimalValue_eq
  · rintro others heq
    obtain ⟨rfl, -⟩ := List.cons.inj heq
    cases hc

theorem signedValue_neg (cs : List Char) : signedValue ('-' :: cs) = -decimalValue cs := rfl

theorem readText_of_isDigit {c : Char} {rest : List Char} (hc : c.isDigit = true) :
    readText (c :: rest) = (Number.double (ofRat (signedValue (c :: rest)))).quantity ∧
      readText ('-' :: c :: rest) =
        (Number.double (ofRat (signedValue ('-' :: c :: rest)))).quantity := by
  have hletter : c ≠ 'i' := by
    rintro rfl
    cases hc
  have hminus : c ≠ '-' := by
    rintro rfl
    cases hc
  constructor
  · simp [readText, hletter, hminus]
  · simp [readText, hletter]

theorem spells_zero : Spells ['0', '.', '0'] 0 := by
  have hspells := Spells.positional ['0'] ['0'] (by simp) isDigits_zero isDigits_zero
  have hzero : digitsValue (['0'] ++ ['0']) = 0 := by decide
  rwa [hzero, Nat.cast_zero, zero_mul] at hspells

/-- The text of a number within the range: a decimal, behind a minus or not. -/
theorem exists_spells_text {d : Double} (h : d.Rounded) :
    (∃ negative, d = infinite negative) ∨ ∃ (negative : Bool) (cs : List Char) (x : ℚ),
      Spells cs x ∧ d.text.toList = (if negative then '-' :: cs else cs) ∧
        (Number.double (ofRat (if negative then -x else x))).quantity =
          (Number.double d).quantity := by
  cases d with
  | undefined => exact h.elim
  | infinite negative => exact .inl ⟨negative, rfl⟩
  | negativeZero => exact .inr ⟨true, _, 0, spells_zero, rfl, by rw [neg_zero, ite_self]; rfl⟩
  | finite q =>
    right
    by_cases hq : q = 0
    · subst hq
      exact ⟨false, _, 0, spells_zero, rfl, rfl⟩
    · have hregular := regular_of_rounded h hq
      have hspells := hregular.spells_magnitudeText
      set x : ℚ := (shortest q.num.natAbs q.den).1 * 10 ^ (shortest q.num.natAbs q.den).2 with hx
      have hpos : 0 < x := by
        have hfound : (0 : ℚ) < (shortest q.num.natAbs q.den).1 := by
          exact_mod_cast Nat.pos_of_ne_zero hregular.shortest_ne_zero
        rw [hx]
        positivity
      rw [text, if_neg hq]
      by_cases hneg : q < 0
      · have hround : ofRat (-x) = finite q := by
          refine ofRat_of_abs_eq h hq (by rw [abs_neg, abs_of_pos hpos]) ?_
          exact iff_of_true (neg_lt_zero.2 hpos) hneg
        refine ⟨true, _, x, hspells, ?_, ?_⟩
        · rw [if_pos hneg, String.toList_append]
          rfl
        · rw [if_pos rfl, hround]
      · have hround : ofRat x = finite q := by
          refine ofRat_of_abs_eq h hq (abs_of_pos hpos) ?_
          exact iff_of_false hpos.not_gt hneg
        refine ⟨false, _, x, hspells, ?_, ?_⟩
        · rw [if_neg hneg, String.empty_append]
          rfl
        · rw [if_neg Bool.false_ne_true, hround]

/-- The text of a rounded double reads back as the double, but for the sign of a zero. -/
theorem readText_text {d : Double} (h : d.Rounded) :
    readText d.text.toList = (Number.double d).quantity := by
  obtain ⟨negative, rfl⟩ | ⟨negative, cs, x, hspells, htext, hquantity⟩ := exists_spells_text h
  · cases negative <;> rfl
  · obtain ⟨c, rest, rfl, hc⟩ := hspells.exists_cons
    rw [htext, ← hquantity]
    cases negative with
    | true =>
      rw [if_pos rfl, if_pos rfl, (readText_of_isDigit hc).2, signedValue_neg,
        hspells.decimalValue_eq]
    | false =>
      rw [if_neg Bool.false_ne_true, if_neg Bool.false_ne_true, (readText_of_isDigit hc).1,
        signedValue_of_spells hspells]

/-- Rounded doubles with the same text stand for the same quantity. -/
theorem quantity_of_text_eq {d d' : Double} (h : d.Rounded) (h' : d'.Rounded)
    (heq : d.text = d'.text) : (Number.double d).quantity = (Number.double d').quantity := by
  rw [← readText_text h, ← readText_text h', heq]

end Double
end SchemaAtlas
