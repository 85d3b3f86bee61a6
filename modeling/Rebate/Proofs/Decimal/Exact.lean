import Mathlib.Tactic.Ring
import Rebate.Decimal.Numeral

/-!
Numerals whose number is the number of some decimal. The digits that do not fit into the coefficient
or the scale are all zeros then, so that nothing is rounded: every such numeral is read, and the
decimal denotes just what its digits say, whatever the number of digits.
-/

set_option autoImplicit false
set_option relaxedAutoImplicit false

namespace Rebate

theorem powerOfTen_add (m n : Nat) : powerOfTen (m + n) = powerOfTen m * powerOfTen n :=
  Nat.pow_add 10 m n

theorem powerOfTen_le {m n : Nat} (h : m ≤ n) : powerOfTen m ≤ powerOfTen n :=
  Nat.pow_le_pow_right (by decide) h

namespace Digits

theorem toNat_append (left right : Digits) :
    toNat (left ++ right) = toNat left * powerOfTen right.length + toNat right := by
  have hfold : ∀ start : Nat, right.foldl (fun (n : Nat) (d : Digit) => 10 * n + d) start =
      start * powerOfTen right.length + toNat right := by
    induction right with
    | nil =>
      intro start
      simp [toNat, powerOfTen]
    | cons d right ih =>
      intro start
      rw [toNat, List.foldl_cons, List.foldl_cons, ih, ih, List.length_cons, powerOfTen_succ,
        Nat.add_mul, Nat.mul_zero, Nat.zero_add, Nat.mul_left_comm, Nat.mul_assoc]
      omega
  rw [toNat, List.foldl_append]
  exact hfold _

theorem toNat_cons (d : Digit) (digits : Digits) :
    toNat (d :: digits) = d * powerOfTen digits.length + toNat digits := by
  have h := toNat_append [d] digits
  simpa [toNat] using h

theorem pushed_toNat_cons (n : Nat) (d : Digit) (digits : Digits) :
    n * powerOfTen (d :: digits).length + toNat (d :: digits) =
      (10 * n + d) * powerOfTen digits.length + toNat digits := by
  rw [toNat_cons, List.length_cons, powerOfTen_succ]
  ring

theorem toNat_lt (digits : Digits) : toNat digits < powerOfTen digits.length := by
  induction digits with
  | nil => exact powerOfTen_pos 0
  | cons d digits ih =>
    have hd : (d + 1 : Nat) * powerOfTen digits.length ≤ 10 * powerOfTen digits.length :=
      Nat.mul_le_mul_right _ d.isLt
    rw [toNat_cons, List.length_cons, powerOfTen_succ]
    rw [Nat.add_mul] at hd
    omega

end Digits

namespace Decimal

namespace Magnitude

/-- The digits read so far denote `number / 10 ^ places`. -/
def Denotes (m : Magnitude) (number places : Nat) : Prop :=
  m.coeff * powerOfTen places = number * powerOfTen m.scale

variable {m exact : Magnitude} {digits : Digits}

private theorem Denotes.mul_ten_le {number places more : Nat} (h : m.Denotes number (places + more))
    (hscale : places < m.scale) : number * 10 ≤ m.coeff * powerOfTen more := by
  obtain ⟨extra, hextra⟩ := Nat.exists_eq_add_of_lt hscale
  rw [Denotes, hextra, powerOfTen_succ, powerOfTen_add, powerOfTen_add] at h
  have hshift : m.coeff * powerOfTen more = number * 10 * powerOfTen extra := by
    apply Nat.eq_of_mul_eq_mul_right (powerOfTen_pos places)
    rw [Nat.mul_assoc, Nat.mul_comm (powerOfTen more), h]
    ac_rfl
  rw [hshift]
  exact Nat.le_mul_of_pos_right _ (powerOfTen_pos extra)

private theorem Denotes.powerOfTen_dvd {number places more : Nat}
    (h : m.Denotes number (places + more))
    (hscale : m.scale ≤ places) : powerOfTen more ∣ number := by
  obtain ⟨extra, hextra⟩ := Nat.exists_eq_add_of_le hscale
  rw [Denotes, hextra, powerOfTen_add, powerOfTen_add] at h
  refine ⟨m.coeff * powerOfTen extra, ?_⟩
  apply Nat.eq_of_mul_eq_mul_right (powerOfTen_pos m.scale)
  rw [← h]
  ac_rfl

theorem le_of_pushFraction? {d : Digit} (h : m.pushFraction? d = none) :
    limit ≤ 10 * m.coeff + d ∨ maxScale ≤ m.scale := by
  rw [pushFraction?] at h
  split at h
  · cases h
  · omega

private theorem toNat_eq_zero_of_pushFraction? {d : Digit} (hpush : m.pushFraction? d = none)
    (hexact : exact.Denotes
      (m.coeff * powerOfTen (d :: digits).length + Digits.toNat (d :: digits))
      (m.scale + (d :: digits).length)) :
    Digits.toNat (d :: digits) = 0 := by
  rcases Nat.lt_or_ge m.scale exact.scale with hscale | hscale
  · -- The number has a place for the digit, and a coefficient that is too large with it.
    exfalso
    have hcoeff : 10 * m.coeff + d ≤ exact.coeff := by
      apply Nat.le_of_mul_le_mul_right _ (powerOfTen_pos (d :: digits).length)
      calc (10 * m.coeff + d) * powerOfTen (d :: digits).length
          = (m.coeff * powerOfTen (d :: digits).length + d * powerOfTen digits.length) * 10 := by
            rw [List.length_cons, powerOfTen_succ]
            ring
        _ ≤ (m.coeff * powerOfTen (d :: digits).length + Digits.toNat (d :: digits)) * 10 := by
            rw [Digits.toNat_cons]
            omega
        _ ≤ exact.coeff * powerOfTen (d :: digits).length := hexact.mul_ten_le hscale
    have hlt := exact.coeff_lt
    have hle := exact.scale_le
    have := le_of_pushFraction? hpush
    omega
  · -- The number has no place behind those that are read, so it is a multiple of their unit.
    have hdvd : powerOfTen (d :: digits).length ∣ Digits.toNat (d :: digits) :=
      (Nat.dvd_add_right (Nat.dvd_mul_left _ m.coeff)).mp (hexact.powerOfTen_dvd hscale)
    exact Nat.eq_zero_of_dvd_of_lt hdvd (Digits.toNat_lt (d :: digits))

theorem pushFraction?_eq_some {d : Digit} {next : Magnitude} (h : m.pushFraction? d = some next) :
    next.coeff = 10 * m.coeff + d ∧ next.scale = m.scale + 1 := by
  rw [pushFraction?] at h
  split at h
  · obtain rfl := Option.some.inj h
    exact ⟨rfl, rfl⟩
  · cases h

private theorem exists_readFraction? (hexact : exact.Denotes
      (m.coeff * powerOfTen digits.length + Digits.toNat digits) (m.scale + digits.length)) :
    ∃ m', m.readFraction? digits = some m' ∧
      m'.Denotes (m.coeff * powerOfTen digits.length + Digits.toNat digits)
        (m.scale + digits.length) := by
  induction digits generalizing m with
  | nil => exact ⟨m, rfl, by simp [Denotes, Digits.toNat, powerOfTen]⟩
  | cons d digits ih =>
    rw [readFraction?]
    cases hpush : m.pushFraction? d with
    | none =>
      have hzero := toNat_eq_zero_of_pushFraction? hpush hexact
      have hdigit : d.val = 0 := by
        rw [Digits.toNat_cons, Nat.add_eq_zero_iff, Nat.mul_eq_zero] at hzero
        have := powerOfTen_pos digits.length
        omega
      have hround : m.round? d = some m := if_pos (by omega)
      refine ⟨m, hround, ?_⟩
      rw [Denotes, hzero, powerOfTen_add]
      ring
    | some next =>
      obtain ⟨hcoeff, hscale⟩ := pushFraction?_eq_some hpush
      have hplaces : m.scale + (d :: digits).length = next.scale + digits.length := by
        rw [hscale, List.length_cons]
        omega
      rw [Digits.pushed_toNat_cons, ← hcoeff, hplaces] at hexact ⊢
      exact ih hexact

private theorem exists_foldlM_pushWhole? (m : Magnitude)
    (hfits : m.coeff * powerOfTen digits.length + Digits.toNat digits < limit) :
    ∃ m', digits.foldlM pushWhole? m = some m' ∧ m'.scale = m.scale ∧
      m'.coeff = m.coeff * powerOfTen digits.length + Digits.toNat digits := by
  induction digits generalizing m with
  | nil => exact ⟨m, rfl, rfl, by simp [Digits.toNat, powerOfTen]⟩
  | cons d digits ih =>
    rw [Digits.pushed_toNat_cons] at hfits ⊢
    have hdigit : 10 * m.coeff + d < limit :=
      Nat.lt_of_le_of_lt (Nat.le_mul_of_pos_right _ (powerOfTen_pos _))
        (Nat.lt_of_le_of_lt (Nat.le_add_right _ _) hfits)
    rw [List.foldlM_cons, pushWhole?, dif_pos hdigit]
    exact ih { m with coeff := 10 * m.coeff + d, coeff_lt := hdigit } hfits

theorem exists_ofDigits?_eq {whole : Digits} (fraction : Digits)
    (hfits : Digits.toNat whole < limit) :
    ∃ m : Magnitude, ofDigits? whole fraction = m.readFraction? fraction ∧ m.scale = 0 ∧
      m.coeff = Digits.toNat whole := by
  obtain ⟨m, hread, hscale, hcoeff⟩ := @exists_foldlM_pushWhole? whole zero
    (by simpa [zero] using hfits)
  refine ⟨m, ?_, hscale, by simpa [zero] using hcoeff⟩
  rw [ofDigits?, hread]
  rfl

private theorem exists_ofDigits? {whole fraction : Digits}
    (hexact : exact.Denotes (Digits.toNat (whole ++ fraction)) fraction.length) :
    ∃ m, ofDigits? whole fraction = some m ∧
      m.Denotes (Digits.toNat (whole ++ fraction)) fraction.length := by
  rw [Digits.toNat_append] at hexact ⊢
  have hwhole : Digits.toNat whole < limit := by
    apply Nat.lt_of_le_of_lt _ exact.coeff_lt
    apply Nat.le_of_mul_le_mul_right _ (powerOfTen_pos fraction.length)
    rw [hexact]
    exact Nat.le_trans (Nat.le_add_right _ _) (Nat.le_mul_of_pos_right _ (powerOfTen_pos _))
  obtain ⟨m, hread, hscale, hcoeff⟩ := exists_ofDigits?_eq fraction hwhole
  have hfraction := @exists_readFraction? m exact fraction
  rw [hscale, hcoeff, Nat.zero_add] at hfraction
  rw [hread]
  exact hfraction hexact

end Magnitude

end Decimal

def Numeral.coeff (n : Numeral) : Int :=
  if n.negative then -Digits.toNat (n.whole ++ n.fraction) else Digits.toNat (n.whole ++ n.fraction)

theorem Numeral.toRat_eq_mkRat (n : Numeral) :
    n.toRat = mkRat n.coeff (powerOfTen n.fraction.length) := by
  rw [toRat, coeff]
  cases n.negative with
  | true => exact Rat.neg_mkRat _ _
  | false => rfl

namespace Decimal

variable {a : Decimal} {n : Numeral}

theorem toRat_eq_numeral_iff : a.toRat = n.toRat ↔
    a.coeff * powerOfTen n.fraction.length = n.coeff * powerOfTen a.scale := by
  rw [toRat, Numeral.toRat_eq_mkRat]
  exact Rat.mkRat_eq_iff (powerOfTen_pos _).ne' (powerOfTen_pos _).ne'

private theorem toRat_ofMagnitude {m : Magnitude}
    (h : m.Denotes (Digits.toNat (n.whole ++ n.fraction)) n.fraction.length) :
    (ofMagnitude n.negative m).toRat = n.toRat := by
  have hint : (m.coeff * powerOfTen n.fraction.length : Int) =
      Digits.toNat (n.whole ++ n.fraction) * powerOfTen m.scale := by
    exact_mod_cast h
  rw [toRat_eq_numeral_iff, Numeral.coeff, ofMagnitude]
  cases n.negative with
  | true => simp [hint]
  | false => exact hint

def magnitude (a : Decimal) : Magnitude where
  coeff := a.coeff.natAbs
  scale := a.scale
  coeff_lt := a.coeff_lt
  scale_le := a.scale_le

/-- A numeral is read as a decimal that denotes the same number, if there is one. -/
theorem exists_ofNumeral? (h : a.toRat = n.toRat) :
    ∃ b, ofNumeral? n = some b ∧ b.toRat = n.toRat := by
  have hexact : a.magnitude.Denotes (Digits.toNat (n.whole ++ n.fraction)) n.fraction.length := by
    have habs := congrArg Int.natAbs (toRat_eq_numeral_iff.mp h)
    have hcoeff : n.coeff.natAbs = Digits.toNat (n.whole ++ n.fraction) := by
      rw [Numeral.coeff]
      split <;> simp
    rwa [Int.natAbs_mul, Int.natAbs_mul, Int.natAbs_natCast, Int.natAbs_natCast, hcoeff] at habs
  obtain ⟨m, hread, hdenotes⟩ := Magnitude.exists_ofDigits? hexact
  refine ⟨ofMagnitude n.negative m, ?_, toRat_ofMagnitude hdenotes⟩
  rw [ofNumeral?, hread]
  rfl

end Decimal

end Rebate
