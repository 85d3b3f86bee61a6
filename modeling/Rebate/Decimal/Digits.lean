/-!
Decimal digits, and natural numbers written in them. A row of digits stands with the most
significant digit first, and leading zeros do not change the number it denotes.
-/

set_option autoImplicit false
set_option relaxedAutoImplicit false

namespace Rebate

def powerOfTen (n : Nat) : Nat :=
  Nat.pow 10 n

theorem powerOfTen_pos (n : Nat) : 0 < powerOfTen n :=
  Nat.pow_pos (by decide)

theorem powerOfTen_succ (n : Nat) : powerOfTen (n + 1) = 10 * powerOfTen n :=
  Nat.pow_succ'

abbrev Digit := Fin 10

def Digit.ofChar? (c : Char) : Option Digit :=
  if h : '0'.toNat ≤ c.toNat ∧ c.toNat ≤ '9'.toNat then
    some ⟨c.toNat - '0'.toNat, by have : '9'.toNat = '0'.toNat + 9 := rfl; omega⟩
  else
    none

def Digit.toChar (d : Digit) : Char :=
  Char.ofNat ('0'.toNat + d)

theorem Digit.ofChar?_toChar (d : Digit) : Digit.ofChar? d.toChar = some d := by
  revert d
  decide

/-- A row of digits, the most significant one first. -/
abbrev Digits := List Digit

namespace Digits

def toNat (digits : Digits) : Nat :=
  digits.foldl (fun (n : Nat) (d : Digit) => 10 * n + d) 0

@[simp] theorem toNat_append_singleton (digits : Digits) (d : Digit) :
    toNat (digits ++ [d]) = 10 * toNat digits + d := by
  simp [toNat]

/-- The digits of a number without leading zeros; zero is written as one digit. -/
def ofNat (n : Nat) : Digits :=
  if n < 10 then [Fin.ofNat 10 n] else ofNat (n / 10) ++ [Fin.ofNat 10 n]

/-- The last `width` digits of a number, filled up with leading zeros. -/
def ofNatFixed : Nat → Nat → Digits
  | 0, _ => []
  | width + 1, n => ofNatFixed width (n / 10) ++ [Fin.ofNat 10 n]

theorem toNat_ofNat (n : Nat) : toNat (ofNat n) = n := by
  fun_induction ofNat n with
  | case1 n h => simp [toNat, Nat.mod_eq_of_lt h]
  | case2 n h ih => simp [ih]; omega

theorem toNat_ofNatFixed (width n : Nat) : toNat (ofNatFixed width n) = n % powerOfTen width := by
  induction width generalizing n with
  | zero => simp [ofNatFixed, toNat, powerOfTen, Nat.mod_one]
  | succ width ih => simp [ofNatFixed, ih, powerOfTen_succ, Nat.mod_mul]; omega

theorem length_ofNatFixed (width n : Nat) : (ofNatFixed width n).length = width := by
  induction width generalizing n with
  | zero => rfl
  | succ width ih => simp [ofNatFixed, ih]

theorem ofNat_ne_nil (n : Nat) : ofNat n ≠ [] := by
  rw [ofNat]
  split <;> simp

def toChars (digits : Digits) : List Char :=
  digits.map Digit.toChar

def ofChars? (chars : List Char) : Option Digits :=
  chars.mapM Digit.ofChar?

theorem ofChars?_toChars (digits : Digits) : ofChars? (toChars digits) = some digits := by
  induction digits with
  | nil => rfl
  | cons d digits ih =>
    simp only [ofChars?, toChars, List.map_cons, List.mapM_cons, Digit.ofChar?_toChar] at ih ⊢
    simp [ih]

end Digits

end Rebate
