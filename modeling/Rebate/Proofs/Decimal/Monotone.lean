import Rebate.Proofs.Decimal.Rounding

/-!
Rounding keeps the order of numbers. Two numbers may be read with different scales. The one with
fewer places then either is exact, and a point of the other's grid, or it is so large that no
coefficient with one more place would hold it.
-/

set_option autoImplicit false
set_option relaxedAutoImplicit false

namespace Rebate.Decimal

namespace Magnitude

variable {m n : Magnitude} {x y : Rat} {more : Nat}

private theorem toRat_eq_div {places : Nat} (h : places = m.scale + more) :
    m.toRat = ((m.coeff * powerOfTen more : Nat) : Rat) / powerOfTen places := by
  have hunit := one_le_powerOfTen m.scale
  have hmore := one_le_powerOfTen more
  rw [toRat, h, powerOfTen_add_rat, Nat.cast_mul]
  field_simp

private theorem div_le_div_of_coeff_le {a b : Nat} (h : a ≤ b) (places : Nat) :
    (a : Rat) / powerOfTen places ≤ b / powerOfTen places :=
  div_le_div_of_nonneg_right (by exact_mod_cast h) (Nat.cast_nonneg _)

private theorem Settled.coeff_le {c : Nat} (h : Settled x m) (hc : x * powerOfTen m.scale ≤ c) :
    m.coeff ≤ c := by
  have habove := h.above
  have hlt : (m.coeff : Rat) < c + 1 := by linarith
  exact Nat.le_of_lt_succ (by exact_mod_cast hlt)

private theorem Settled.le_coeff {c : Nat} (h : Settled x m) (hc : c ≤ x * powerOfTen m.scale) :
    c ≤ m.coeff := by
  have hbelow := h.below
  have hlt : (c : Rat) < m.coeff + 1 := by linarith
  exact Nat.le_of_lt_succ (by exact_mod_cast hlt)

private theorem Settled.limit_le (h : Settled x m)
    (hlarge : limit - 1 / 2 ≤ x * powerOfTen (m.scale + 1)) : limit ≤ 10 * m.coeff := by
  have hbelow := h.below
  have hlt : (limit : Rat) < 10 * m.coeff + 6 := by
    rw [powerOfTen_succ_rat] at hlarge
    linarith
  have hlt : limit < 10 * m.coeff + 6 := by exact_mod_cast hlt
  -- A carry leaves a coefficient of a tenth of the limit, which is six above a multiple of ten.
  have hsix : limit % 10 = 6 := by decide
  omega

section

variable (hm : Settled x m) (hn : Settled y n) (hx : 0 ≤ x) (hxy : x ≤ y)

include hxy in
private theorem scaled_le (places : Nat) : x * powerOfTen places ≤ y * powerOfTen places :=
  mul_le_mul_of_nonneg_right hxy (Nat.cast_nonneg _)

include hm hn hxy in
private theorem toRat_le_of_same_scale (h : m.scale = n.scale) : m.toRat ≤ n.toRat := by
  have habove := hm.above
  have hbelow := hn.below
  have hscaled := scaled_le hxy n.scale
  have hlt : (m.coeff : Rat) < n.coeff + 1 := by
    rw [h] at habove
    linarith
  have hle : m.coeff ≤ n.coeff := Nat.le_of_lt_succ (by exact_mod_cast hlt)
  rw [toRat, toRat, h]
  exact div_le_div_of_coeff_le hle n.scale

include hm hn hx hxy in
private theorem toRat_le_of_finer (h : m.scale < n.scale) : m.toRat ≤ n.toRat := by
  obtain ⟨more, hmore⟩ := Nat.exists_eq_add_of_le h.le
  rcases hm.full with hexact | hmax | hlarge
  · rw [toRat_eq_div hmore]
    refine div_le_div_of_coeff_le (hn.le_coeff ?_) n.scale
    calc ((m.coeff * powerOfTen more : Nat) : Rat)
        = x * powerOfTen n.scale := by
          rw [hmore, powerOfTen_add_rat, Nat.cast_mul, ← hexact, mul_assoc]
      _ ≤ y * powerOfTen n.scale := scaled_le hxy n.scale
  · have := n.scale_le
    omega
  · -- The larger number would be too large for the place behind, which it has.
    exfalso
    have hbelow := hn.below
    have hcoeff := n.coeff_add_one_le
    have hplaces : (powerOfTen (m.scale + 1) : Rat) ≤ powerOfTen n.scale := by
      exact_mod_cast powerOfTen_le h
    have hgrows : x * powerOfTen (m.scale + 1) ≤ y * powerOfTen n.scale :=
      mul_le_mul hxy hplaces (Nat.cast_nonneg _) (hx.trans hxy)
    linarith

include hm hn hxy in
private theorem toRat_le_of_coarser (h : n.scale < m.scale) : m.toRat ≤ n.toRat := by
  obtain ⟨more, hmore⟩ := Nat.exists_eq_add_of_le h.le
  rw [toRat_eq_div hmore]
  refine div_le_div_of_coeff_le ?_ m.scale
  rcases hn.full with hexact | hmax | hlarge
  · apply hm.coeff_le
    calc x * powerOfTen m.scale
        ≤ y * powerOfTen m.scale := scaled_le hxy m.scale
      _ = ((n.coeff * powerOfTen more : Nat) : Rat) := by
          rw [hmore, powerOfTen_add_rat, Nat.cast_mul, ← hexact, mul_assoc]
  · have := m.scale_le
    omega
  · -- The larger number was rounded beyond the last coefficient that the next place could have.
    have hten : 10 ≤ powerOfTen more := powerOfTen_le (show 1 ≤ more by omega)
    calc m.coeff
        ≤ limit := m.coeff_lt.le
      _ ≤ 10 * n.coeff := hn.limit_le hlarge
      _ ≤ n.coeff * powerOfTen more := by
          rw [Nat.mul_comm]
          exact Nat.mul_le_mul_left _ hten

include hm hn hx hxy in
private theorem toRat_le_of_settled : m.toRat ≤ n.toRat := by
  rcases Nat.lt_trichotomy m.scale n.scale with hscale | hscale | hscale
  · exact toRat_le_of_finer hm hn hx hxy hscale
  · exact toRat_le_of_same_scale hm hn hxy hscale
  · exact toRat_le_of_coarser hm hn hxy hscale

end

private theorem toRat_nonneg (m : Magnitude) : 0 ≤ m.toRat :=
  div_nonneg (Nat.cast_nonneg _) (Nat.cast_nonneg _)

private theorem Settled.toRat_eq_zero (h : Settled x m) (hx : x = 0) : m.toRat = 0 := by
  have hcoeff : m.coeff ≤ 0 := h.coeff_le (by rw [hx, zero_mul, Nat.cast_zero])
  rw [toRat, Nat.le_zero.mp hcoeff, Nat.cast_zero, zero_div]

end Magnitude

open Magnitude

private theorem exists_settled_of_ofNumeral? {n : Numeral} {d : Decimal}
    (h : ofNumeral? n = some d) :
    ∃ m, Settled n.size m ∧ d.toRat = if n.negative then -m.toRat else m.toRat := by
  obtain ⟨m, hm, rfl⟩ := Option.map_eq_some_iff.mp h
  refine ⟨m, ?_, toRat_ofMagnitude_eq n.negative m⟩
  have hsettles := hm ▸ ofDigits?_settles n.whole n.fraction
  cases hsettles with
  | fits hsettled => exact hsettled

/-- What numerals are read as is in the order of their numbers. -/
theorem le_of_ofNumeral? {a b : Numeral} {d e : Decimal} (ha : ofNumeral? a = some d)
    (hb : ofNumeral? b = some e) (h : a.toRat ≤ b.toRat) : d ≤ e := by
  obtain ⟨m, hm, hd⟩ := exists_settled_of_ofNumeral? ha
  obtain ⟨n, hn, he⟩ := exists_settled_of_ofNumeral? hb
  have hmnonneg := m.toRat_nonneg
  have hnnonneg := n.toRat_nonneg
  have hasize := a.size_nonneg
  have hbsize := b.size_nonneg
  rw [le_iff_toRat_le, hd, he]
  rw [a.toRat_eq_size, b.toRat_eq_size] at h
  cases hasign : a.negative with
  | false =>
    cases hbsign : b.negative with
    | false =>
      have hsizes : a.size ≤ b.size := by simpa [hasign, hbsign] using h
      exact toRat_le_of_settled hm hn hasize hsizes
    | true =>
      -- No number with a sign reaches one without but zero.
      have hsizes : a.size ≤ -b.size := by simpa [hasign, hbsign] using h
      have hazero : m.toRat = 0 := hm.toRat_eq_zero (by linarith)
      have hbzero : n.toRat = 0 := hn.toRat_eq_zero (by linarith)
      simp [hazero, hbzero]
  | true =>
    cases hbsign : b.negative with
    | false =>
      simp only [if_true, Bool.false_eq_true, if_false]
      linarith
    | true =>
      have hsizes : b.size ≤ a.size := by simpa [hasign, hbsign] using h
      have hle := toRat_le_of_settled hn hm hbsize hsizes
      simpa using hle

end Rebate.Decimal
