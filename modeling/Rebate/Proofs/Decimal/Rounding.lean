import Mathlib.Algebra.Order.Field.Basic
import Mathlib.Tactic.FieldSimp
import Mathlib.Tactic.Linarith
import Rebate.Proofs.Decimal.Exact
import Rebate.Proofs.Decimal.NumeralGrammar

/-!
How far the decimal that is read may be from the number that is spelled. Taking a digit that fits
does not change the number that the digits denote, read and unread together. The first digit that
does not fit rounds, and then what has been read is off by half a unit of its last place at most, at
a place behind which no other could have been taken. It is out of range just if the number reaches
the middle between the largest coefficient and the limit.
-/

set_option autoImplicit false
set_option relaxedAutoImplicit false

namespace Rebate

theorem one_le_powerOfTen (n : Nat) : (1 : Rat) ≤ powerOfTen n := by
  exact_mod_cast powerOfTen_pos n

theorem powerOfTen_succ_rat (n : Nat) : (powerOfTen (n + 1) : Rat) = 10 * powerOfTen n := by
  rw [powerOfTen_succ]
  push_cast
  rfl

theorem powerOfTen_add_rat (m n : Nat) :
    (powerOfTen (m + n) : Rat) = powerOfTen m * powerOfTen n := by
  rw [powerOfTen_add, Nat.cast_mul]

namespace Digits

def afterPoint (digits : Digits) : Rat :=
  toNat digits / powerOfTen digits.length

private theorem afterPoint_nil : afterPoint [] = 0 := by
  simp [afterPoint, toNat]

private theorem afterPoint_nonneg (digits : Digits) : 0 ≤ digits.afterPoint :=
  div_nonneg (Nat.cast_nonneg _) (Nat.cast_nonneg _)

private theorem afterPoint_lt_one (digits : Digits) : digits.afterPoint < 1 := by
  rw [afterPoint, div_lt_one (by exact_mod_cast powerOfTen_pos _)]
  exact_mod_cast toNat_lt digits

private theorem afterPoint_cons (d : Digit) (digits : Digits) :
    afterPoint (d :: digits) = (d.val + digits.afterPoint) / 10 := by
  have hpos := one_le_powerOfTen digits.length
  rw [afterPoint, afterPoint, toNat_cons, List.length_cons, powerOfTen_succ_rat]
  push_cast
  field_simp

end Digits

namespace Decimal

namespace Magnitude

def toRat (m : Magnitude) : Rat :=
  m.coeff / powerOfTen m.scale

def followedBy (m : Magnitude) (digits : Digits) : Rat :=
  (m.coeff + digits.afterPoint) / powerOfTen m.scale

/-- What a number may be read as: nothing if it is out of range, and else a magnitude within half a
unit of its own last place. -/
inductive Rounded (x : Rat) : Option Magnitude → Prop
  | fits {m : Magnitude} (hrange : x < limit - 1 / 2)
      (hclose : |m.toRat - x| ≤ 1 / 2 / powerOfTen m.scale) : Rounded x (some m)
  | large (hrange : (limit : Rat) - 1 / 2 ≤ x) : Rounded x none

/-- A magnitude is settled for a number if it is the number rounded to the places of the magnitude,
and if one more place would not have changed it or could not have been taken. -/
structure Settled (x : Rat) (m : Magnitude) : Prop where
  above : m.coeff ≤ x * powerOfTen m.scale + 1 / 2
  below : x * powerOfTen m.scale < m.coeff + 1 / 2
  full : x * powerOfTen m.scale = m.coeff ∨ m.scale = maxScale ∨
    limit - 1 / 2 ≤ x * powerOfTen (m.scale + 1)

inductive Settles (x : Rat) : Option Magnitude → Prop
  | fits {m : Magnitude} (h : Settled x m) : Settles x (some m)
  | large (hrange : (limit : Rat) - 1 / 2 ≤ x) : Settles x none

variable {m next : Magnitude} {d : Digit} {digits : Digits}

theorem coeff_add_one_le (m : Magnitude) : (m.coeff : Rat) + 1 ≤ limit := by
  exact_mod_cast m.coeff_lt

private theorem Rounded.exists_iff {x : Rat} {result : Option Magnitude} (h : Rounded x result) :
    (∃ m, result = some m) ↔ x < limit - 1 / 2 := by
  cases h with
  | fits hrange hclose => simpa using hrange
  | large hrange => simpa using hrange

private theorem Rounded.abs_sub_le {x : Rat} (h : Rounded x (some m)) :
    |m.toRat - x| ≤ 1 / 2 / powerOfTen m.scale := by
  cases h with
  | fits hrange hclose => exact hclose

private theorem followedBy_of_pushFraction? (h : m.pushFraction? d = some next) :
    next.followedBy digits = m.followedBy (d :: digits) := by
  have hpos := one_le_powerOfTen m.scale
  obtain ⟨hcoeff, hscale⟩ := pushFraction?_eq_some h
  rw [followedBy, followedBy, hcoeff, hscale, powerOfTen_succ_rat, Digits.afterPoint_cons]
  push_cast
  field_simp
  ring

private theorem Settled.abs_sub_le {x : Rat} (h : Settled x m) :
    |m.toRat - x| ≤ 1 / 2 / powerOfTen m.scale := by
  have hpos : (0 : Rat) < powerOfTen m.scale := by exact_mod_cast powerOfTen_pos m.scale
  have habove := h.above
  have hbelow := h.below
  have hunits : m.toRat - x = (m.coeff - x * powerOfTen m.scale) / powerOfTen m.scale := by
    rw [toRat]
    field_simp
  rw [hunits, abs_div, abs_of_pos hpos]
  apply div_le_div_of_nonneg_right _ hpos.le
  rw [abs_le]
  constructor <;> linarith

private theorem Settled.lt_limit {x : Rat} (h : Settled x m) (hx : 0 ≤ x) : x < limit - 1 / 2 := by
  have hbelow := h.below
  have hcoeff := m.coeff_add_one_le
  calc x ≤ x * powerOfTen m.scale := le_mul_of_one_le_right hx (one_le_powerOfTen m.scale)
    _ < limit - 1 / 2 := by linarith

private theorem Settles.rounded {x : Rat} {result : Option Magnitude} (h : Settles x result)
    (hx : 0 ≤ x) : Rounded x result := by
  cases h with
  | fits h => exact .fits (h.lt_limit hx) h.abs_sub_le
  | large hrange => exact .large hrange

private theorem settled_of_units {y : Rat} (habove : m.coeff ≤ y + 1 / 2)
    (hbelow : y < m.coeff + 1 / 2)
    (hfull : y = m.coeff ∨ m.scale = maxScale ∨ limit - 1 / 2 ≤ 10 * y) :
    Settled (y / powerOfTen m.scale) m := by
  have hpos := one_le_powerOfTen m.scale
  have hunits : y / powerOfTen m.scale * powerOfTen m.scale = y := by
    field_simp
  have hnext : y / powerOfTen m.scale * powerOfTen (m.scale + 1) = 10 * y := by
    rw [powerOfTen_succ_rat]
    field_simp
  exact ⟨by rwa [hunits], by rwa [hunits], by rwa [hunits, hnext]⟩

private theorem settled_of_carry {f : Rat} {places : Nat} (hplaces : m.scale + 1 = places)
    (hcoeff : m.coeff = (limit + 4) / 10) (hhalf : 1 / 2 ≤ f) (hone : f < 1) :
    Settled ((limit - 1 + f) / powerOfTen places) m := by
  -- Without its last place the coefficient is off by four to four and a half units of that place,
  -- which is less than half a unit of the place before.
  have hten : 10 * (m.coeff : Rat) = limit + 4 := by
    have hdvd : 10 * ((limit + 4) / 10) = limit + 4 := by decide
    rw [hcoeff]
    exact_mod_cast hdvd
  rw [← hplaces, powerOfTen_succ_rat, ← div_div]
  apply settled_of_units
  · linarith
  · linarith
  · right
    right
    linarith

private theorem next?_settles {f : Rat} (hhalf : 1 / 2 ≤ f) (hone : f < 1)
    (hfull : m.scale = maxScale ∨ limit ≤ 10 * (m.coeff + f)) :
    Settles ((m.coeff + f) / powerOfTen m.scale) m.next? := by
  rw [next?]
  split
  · next hfits =>
    apply Settles.fits
    refine @settled_of_units { m with coeff := m.coeff + 1, coeff_lt := hfits } (m.coeff + f)
      ?_ ?_ ?_
    · push_cast
      linarith
    · push_cast
      linarith
    · exact Or.inr (hfull.imp_right fun h => by linarith)
  · next hlast =>
    -- From the largest coefficient there is no step up but the one to the place before.
    have hcoeff : (m.coeff : Rat) = limit - 1 := by
      have := m.coeff_lt
      rw [show limit = m.coeff + 1 by omega]
      push_cast
      ring
    rw [hcoeff]
    split
    · next hscale =>
      rw [hscale]
      apply Settles.large
      rw [show powerOfTen 0 = 1 from rfl, Nat.cast_one, div_one]
      linarith
    · next hscale =>
      apply Settles.fits
      exact settled_of_carry (Nat.sub_add_cancel (Nat.pos_of_ne_zero hscale)) rfl hhalf hone

private theorem round?_settles (hpush : m.pushFraction? d = none) (digits : Digits) :
    Settles (m.followedBy (d :: digits)) (m.round? d) := by
  have hnonneg := digits.afterPoint_nonneg
  have hlt := digits.afterPoint_lt_one
  have hzero : (0 : Rat) ≤ d.val := Nat.cast_nonneg _
  have hfull : m.scale = maxScale ∨
      (limit : Rat) ≤ 10 * (m.coeff + (d.val + digits.afterPoint) / 10) := by
    rcases le_of_pushFraction? hpush with hcoeff | hscale
    · have hcoeff : (limit : Rat) ≤ 10 * m.coeff + d.val := by exact_mod_cast hcoeff
      right
      linarith
    · exact Or.inl (Nat.le_antisymm m.scale_le hscale)
  rw [followedBy, Digits.afterPoint_cons, round?]
  split
  · next hdown =>
    have hdigit : (d.val : Rat) ≤ 4 := by exact_mod_cast Nat.le_of_lt_succ hdown
    apply Settles.fits
    apply settled_of_units
    · linarith
    · linarith
    · exact Or.inr (hfull.imp_right fun h => by linarith)
  · next hup =>
    have hdigit : (5 : Rat) ≤ d.val := by exact_mod_cast Nat.le_of_not_lt hup
    have hnine : (d.val : Rat) ≤ 9 := by exact_mod_cast Nat.le_of_lt_succ d.isLt
    apply next?_settles _ _ hfull
    · linarith
    · linarith

private theorem readFraction?_settles (m : Magnitude) (digits : Digits) :
    Settles (m.followedBy digits) (m.readFraction? digits) := by
  -- Each digit that fits moves from the unread to the read ones, and their number stays the same.
  induction digits generalizing m with
  | nil =>
    rw [followedBy, Digits.afterPoint_nil, add_zero, readFraction?]
    apply Settles.fits
    apply settled_of_units
    · linarith
    · linarith
    · exact Or.inl rfl
  | cons d digits ih =>
    rw [readFraction?]
    cases hpush : m.pushFraction? d with
    | none => exact round?_settles hpush digits
    | some next =>
      rw [← followedBy_of_pushFraction? hpush]
      exact ih next

private theorem coeff_of_foldlM_pushWhole? (h : digits.foldlM pushWhole? m = some next) :
    next.coeff = m.coeff * powerOfTen digits.length + Digits.toNat digits := by
  induction digits generalizing m with
  | nil =>
    obtain rfl := Option.some.inj h
    simp [Digits.toNat, powerOfTen]
  | cons d digits ih =>
    rw [List.foldlM_cons, pushWhole?] at h
    split at h
    · rw [ih h, Digits.pushed_toNat_cons]
    · cases h

theorem ofDigits?_settles (whole fraction : Digits) :
    Settles (Digits.toNat whole + fraction.afterPoint) (ofDigits? whole fraction) := by
  by_cases hfits : Digits.toNat whole < limit
  · obtain ⟨m, hread, hscale, hcoeff⟩ := exists_ofDigits?_eq fraction hfits
    have hnumber : m.followedBy fraction = Digits.toNat whole + fraction.afterPoint := by
      rw [followedBy, hscale, hcoeff, show powerOfTen 0 = 1 from rfl, Nat.cast_one, div_one]
    rw [hread, ← hnumber]
    exact m.readFraction?_settles fraction
  · have hread : whole.foldlM pushWhole? zero = none := by
      by_contra hsome
      obtain ⟨m, hm⟩ := Option.ne_none_iff_exists'.mp hsome
      have hcoeff := coeff_of_foldlM_pushWhole? hm
      have := m.coeff_lt
      simp only [zero, Nat.zero_mul, Nat.zero_add] at hcoeff
      omega
    have hlimit : (limit : Rat) ≤ Digits.toNat whole := by exact_mod_cast Nat.le_of_not_lt hfits
    have hfraction := fraction.afterPoint_nonneg
    rw [ofDigits?, hread]
    apply Settles.large
    linarith

private theorem ofDigits?_rounded (whole fraction : Digits) :
    Rounded (Digits.toNat whole + fraction.afterPoint) (ofDigits? whole fraction) :=
  (ofDigits?_settles whole fraction).rounded
    (add_nonneg (Nat.cast_nonneg _) fraction.afterPoint_nonneg)

private theorem exists_readFraction?_of_fits
    (hcoeff : m.coeff * powerOfTen digits.length + Digits.toNat digits < limit)
    (hscale : m.scale + digits.length ≤ maxScale) :
    ∃ m', m.readFraction? digits = some m' ∧ m'.scale = m.scale + digits.length := by
  induction digits generalizing m with
  | nil => exact ⟨m, rfl, rfl⟩
  | cons d digits ih =>
    rw [List.length_cons] at hscale
    rw [Digits.pushed_toNat_cons] at hcoeff
    have hdigit : 10 * m.coeff + d < limit :=
      Nat.lt_of_le_of_lt (Nat.le_mul_of_pos_right _ (powerOfTen_pos _))
        (Nat.lt_of_le_of_lt (Nat.le_add_right _ _) hcoeff)
    have hplace : m.scale < maxScale := by omega
    rw [readFraction?, pushFraction?, dif_pos ⟨hdigit, hplace⟩]
    have hplaces : m.scale + 1 + digits.length = m.scale + (digits.length + 1) := by omega
    rw [List.length_cons, ← hplaces]
    exact @ih ⟨10 * m.coeff + d, m.scale + 1, hdigit, hplace⟩ hcoeff (hplaces ▸ hscale)

end Magnitude

end Decimal

namespace Numeral

def size (n : Numeral) : Rat :=
  Digits.toNat n.whole + n.fraction.afterPoint

theorem toRat_eq_size (n : Numeral) : n.toRat = if n.negative then -n.size else n.size := by
  have hpos : (powerOfTen n.fraction.length : Rat) ≠ 0 := by
    exact_mod_cast (powerOfTen_pos _).ne'
  have hsize : mkRat (Digits.toNat (n.whole ++ n.fraction)) (powerOfTen n.fraction.length) =
      n.size := by
    rw [Rat.mkRat_eq_div, Digits.toNat_append, size, Digits.afterPoint]
    push_cast
    field_simp
  rw [toRat, hsize]

theorem size_nonneg (n : Numeral) : 0 ≤ n.size :=
  add_nonneg (Nat.cast_nonneg _) n.fraction.afterPoint_nonneg

private theorem abs_toRat (n : Numeral) : |n.toRat| = n.size := by
  rw [toRat_eq_size]
  split
  · rw [abs_neg, abs_of_nonneg n.size_nonneg]
  · exact abs_of_nonneg n.size_nonneg

end Numeral

namespace Decimal

open Magnitude

variable {d : Decimal} {n : Numeral}

theorem toRat_ofMagnitude_eq (negative : Bool) (m : Magnitude) :
    (ofMagnitude negative m).toRat = if negative then -m.toRat else m.toRat := by
  rw [toRat, Rat.mkRat_eq_div, ofMagnitude, Magnitude.toRat]
  cases negative with
  | true => simp [neg_div]
  | false => simp

private theorem exists_ofNumeral?_iff :
    (∃ d, ofNumeral? n = some d) ↔ |n.toRat| < limit - 1 / 2 := by
  rw [n.abs_toRat, Numeral.size, ← (ofDigits?_rounded n.whole n.fraction).exists_iff]
  simp only [ofNumeral?, Option.map_eq_some_iff]
  constructor
  · rintro ⟨d, m, hm, -⟩
    exact ⟨m, hm⟩
  · rintro ⟨m, hm⟩
    exact ⟨ofMagnitude n.negative m, m, hm, rfl⟩

private theorem abs_sub_le_of_ofNumeral? (h : ofNumeral? n = some d) :
    |d.toRat - n.toRat| ≤ 1 / 2 / powerOfTen d.scale := by
  obtain ⟨m, hm, rfl⟩ := Option.map_eq_some_iff.mp h
  have hclose := (hm ▸ ofDigits?_rounded n.whole n.fraction).abs_sub_le
  rw [toRat_ofMagnitude_eq, n.toRat_eq_size]
  cases n.negative with
  | true =>
    rw [if_pos rfl, if_pos rfl, neg_sub_neg, abs_sub_comm]
    exact hclose
  | false => exact hclose

theorem scale_of_ofNumeral? (h : ofNumeral? n = some d)
    (hfits : Digits.toNat (n.whole ++ n.fraction) < limit)
    (hplaces : n.fraction.length ≤ maxScale) : d.scale = n.fraction.length := by
  obtain ⟨m, hm, rfl⟩ := Option.map_eq_some_iff.mp h
  rw [Digits.toNat_append] at hfits
  have hwhole : Digits.toNat n.whole < limit :=
    Nat.lt_of_le_of_lt (Nat.le_mul_of_pos_right _ (powerOfTen_pos n.fraction.length)) (by omega)
  obtain ⟨before, hread, hscale, hcoeff⟩ := exists_ofDigits?_eq n.fraction hwhole
  obtain ⟨m', hm', hplaces'⟩ := @exists_readFraction?_of_fits before n.fraction
    (by rwa [hcoeff]) (by rwa [hscale, Nat.zero_add])
  obtain rfl : m' = m := Option.some.inj (hm'.symm.trans (hread.symm.trans hm))
  rw [hscale, Nat.zero_add] at hplaces'
  exact hplaces'

private theorem toRat_of_exact (h : ofNumeral? n = some d) {m : Int} {s : Nat}
    (hm : m.natAbs < limit)
    (hs : s ≤ maxScale) (hexact : n.toRat = m / powerOfTen s) : d.toRat = n.toRat := by
  obtain ⟨b, hb, hexact⟩ := @exists_ofNumeral? ⟨m, s, hm, hs⟩ n
    ((Rat.mkRat_eq_div m (powerOfTen s)).trans hexact.symm)
  obtain rfl : b = d := Option.some.inj (hb.symm.trans h)
  exact hexact

private theorem negative_toNumeral_of_zero (h : d.toRat = 0) : d.toNumeral.negative = false := by
  have hcoeff : d.coeff = 0 := Rat.mkRat_eq_zero (powerOfTen_pos _).ne' |>.mp h
  rw [toNumeral, hcoeff]
  rfl

/-- A string is a number just if it is spelled by the grammar of numerals and rounds to less than
the limit. The decimal is off by half a unit of its last place at most, and not at all if the number
is that of some decimal; it has all fraction digits if all digits fit, and zero has no sign. -/
theorem ofString?_rounds (text : String) :
    ((∃ d, ofString? text = some d) ↔
      ∃ n : Numeral, n.Spelled text.toList ∧ |n.toRat| < limit - 1 / 2) ∧
    ∀ (d : Decimal) (n : Numeral), ofString? text = some d → n.Spelled text.toList →
      |d.toRat - n.toRat| ≤ 1 / 2 / powerOfTen d.scale ∧
      (∀ (m : Int) (s : Nat), m.natAbs < limit → s ≤ maxScale → n.toRat = m / powerOfTen s →
        d.toRat = n.toRat) ∧
      (Digits.toNat (n.whole ++ n.fraction) < limit → n.fraction.length ≤ maxScale →
        d.scale = n.fraction.length) ∧
      (d.toRat = 0 → d.toNumeral.negative = false) := by
  constructor
  · simp only [ofString?, ofChars?, Option.bind_eq_some_iff, Numeral.ofChars?_eq_some_iff,
      ← exists_ofNumeral?_iff]
    constructor
    · rintro ⟨d, n, hspelled, h⟩
      exact ⟨n, hspelled, d, h⟩
    · rintro ⟨n, hspelled, d, h⟩
      exact ⟨d, n, hspelled, h⟩
  · intro d n hd hspelled
    have hn := Numeral.ofChars?_eq_some_iff.mpr hspelled
    have h : ofNumeral? n = some d := by
      rw [ofString?, ofChars?, hn] at hd
      exact hd
    exact ⟨abs_sub_le_of_ofNumeral? h, fun m s hm hs => toRat_of_exact h hm hs,
      scale_of_ofNumeral? h, negative_toNumeral_of_zero⟩

theorem ofString?_rounds_carry_and_zero :
    (∃ d, ofString? "7922816251426433759354395033.55" = some d ∧
      d.coeff = 7922816251426433759354395034 ∧ d.scale = 0 ∧
      ∃ n : Numeral, n.Spelled "7922816251426433759354395033.55".toList ∧
        |d.toRat - n.toRat| ≤ 1 / 2 / powerOfTen d.scale) ∧
    ∃ d, ofString? "-0.00" = some d ∧
      ∃ n : Numeral, n.Spelled "-0.00".toList ∧ n.negative = true ∧
        n.toRat = (0 : Int) / powerOfTen 0 ∧ d.toRat = n.toRat ∧
        Digits.toNat (n.whole ++ n.fraction) < limit ∧ n.fraction.length ≤ maxScale ∧
        d.scale = n.fraction.length ∧ d.toRat = 0 ∧ d.toNumeral.negative = false := by
  constructor
  · obtain ⟨n, hn⟩ : ∃ n, Numeral.ofChars? "7922816251426433759354395033.55".toList = some n :=
      Option.isSome_iff_exists.mp (by decide +kernel)
    have hspelled := Numeral.ofChars?_eq_some_iff.mp hn
    have hd : ofString? "7922816251426433759354395033.55" =
        some ((ofString? "7922816251426433759354395033.55").getD 0) := by decide +kernel
    obtain ⟨hclose, -⟩ := (ofString?_rounds _).2 _ n hd hspelled
    exact ⟨_, hd, by decide +kernel, by decide +kernel, n, hspelled, hclose⟩
  · have hspelled : Numeral.Spelled ⟨true, [0], [0, 0]⟩ "-0.00".toList :=
      Numeral.ofChars?_eq_some_iff.mp (by decide +kernel)
    have hd : ofString? "-0.00" = some ((ofString? "-0.00").getD 0) := by decide +kernel
    have hexact : Numeral.toRat ⟨true, [0], [0, 0]⟩ = (0 : Int) / powerOfTen 0 := by
      decide +kernel
    have hdigits : Digits.toNat [0, 0, 0] < limit := by decide
    have hplaces : [(0 : Digit), 0].length ≤ maxScale := by decide
    have hzero : ((ofString? "-0.00").getD 0).toRat = 0 := by decide +kernel
    obtain ⟨-, hsame, hscale, hsign⟩ := (ofString?_rounds _).2 _ _ hd hspelled
    exact ⟨_, hd, _, hspelled, rfl, hexact, hsame 0 0 (by decide) (by decide) hexact, hdigits,
      hplaces, hscale hdigits hplaces, hzero, hsign hzero⟩

end Decimal

end Rebate
