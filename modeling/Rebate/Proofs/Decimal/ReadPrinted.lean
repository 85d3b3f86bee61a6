import Rebate.Proofs.Decimal.Rounding

/-!
Reading a decimal back from its text. Its numeral has just its digits and its fraction digits, all
of which fit, so that nothing is rounded and the scale comes back with the number.
-/

set_option autoImplicit false
set_option relaxedAutoImplicit false

namespace Rebate

namespace Numeral

variable {n : Numeral}

private theorem spelled_toChars (h : n.whole ≠ []) : n.Spelled n.toChars := by
  have hsigned : Signed n.negative (if n.negative then ['-'] else []) := by
    cases n.negative with
    | true => exact .minus
    | false => exact .none
  refine ⟨_, _, List.append_assoc _ _ _, hsigned, ?_⟩
  by_cases hfraction : n.fraction = []
  · rw [if_pos hfraction, hfraction, List.append_nil]
    exact .whole h
  · rw [if_neg hfraction]
    exact .point h

private theorem ofChars?_toChars (h : n.whole ≠ []) : ofChars? n.toChars = some n :=
  ofChars?_eq_some_iff.mpr (spelled_toChars h)

end Numeral

namespace Decimal

variable {a b : Decimal}

theorem eq_of_toRat_eq (hnumber : a.toRat = b.toRat) (hscale : a.scale = b.scale) : a = b := by
  have hcoeff : a.coeff = b.coeff := by
    have hequiv : a.coeff * powerOfTen b.scale = b.coeff * powerOfTen a.scale :=
      equiv_iff_toRat_eq.mpr hnumber
    rw [hscale] at hequiv
    have hpos : (powerOfTen b.scale : Int) ≠ 0 := by exact_mod_cast (powerOfTen_pos _).ne'
    exact Int.eq_of_mul_eq_mul_right hpos hequiv
  cases a
  cases b
  cases hcoeff
  cases hscale
  rfl

private theorem length_fraction_toNumeral (a : Decimal) : a.toNumeral.fraction.length = a.scale :=
  Digits.length_ofNatFixed _ _

private theorem toNat_toNumeral (a : Decimal) :
    Digits.toNat (a.toNumeral.whole ++ a.toNumeral.fraction) = a.coeff.natAbs := by
  rw [Digits.toNat_append, length_fraction_toNumeral, toNumeral, Digits.toNat_ofNat,
    Digits.toNat_ofNatFixed, Nat.mul_comm]
  exact Nat.div_add_mod _ _

private theorem coeff_toNumeral (a : Decimal) : a.toNumeral.coeff = a.coeff := by
  rw [Numeral.coeff, toNat_toNumeral, toNumeral]
  by_cases hnegative : a.coeff < 0
  · simp only [hnegative, decide_true, if_true]
    omega
  · simp only [hnegative, decide_false, Bool.false_eq_true, if_false]
    omega

private theorem toRat_toNumeral (a : Decimal) : a.toNumeral.toRat = a.toRat := by
  rw [Numeral.toRat_eq_mkRat, coeff_toNumeral, length_fraction_toNumeral]
  rfl

/-- A decimal is read back from its text, with its scale. -/
theorem ofChars?_toNumeral (a : Decimal) : ofChars? a.toNumeral.toChars = some a := by
  obtain ⟨b, hread, hnumber⟩ := exists_ofNumeral? (toRat_toNumeral a).symm
  have hfits : Digits.toNat (a.toNumeral.whole ++ a.toNumeral.fraction) < limit :=
    toNat_toNumeral a ▸ a.coeff_lt
  have hscale : b.scale = a.scale := by
    have hplaces := scale_of_ofNumeral? hread hfits (length_fraction_toNumeral a ▸ a.scale_le)
    rw [hplaces, length_fraction_toNumeral]
  rw [ofChars?, Numeral.ofChars?_toChars (Digits.ofNat_ne_nil _)]
  rw [Option.bind_some, hread, eq_of_toRat_eq (hnumber.trans (toRat_toNumeral a)) hscale]

theorem ofChars?_toString (a : Decimal) : ofChars? (toString a).toList = some a := by
  have htext : (toString a).toList = a.toNumeral.toChars := String.toList_ofList
  rw [htext, ofChars?_toNumeral]

end Decimal

end Rebate
