import Rebate.Decimal.Basic
import Rebate.Decimal.Digits

/-!
Digits become a decimal one after another, from the left. A digit of the whole part that no longer
fits makes the number too large. A digit of the fraction that no longer fits, because the
coefficient or the scale would grow out of bounds, ends the reading and rounds what has been read:
up from five on, down below.
-/

set_option autoImplicit false
set_option relaxedAutoImplicit false

namespace Rebate.Decimal

/-- A decimal without its sign, while its digits are being read. -/
structure Magnitude where
  coeff : Nat
  scale : Nat
  coeff_lt : coeff < limit
  scale_le : scale ≤ maxScale

namespace Magnitude

def zero : Magnitude where
  coeff := 0
  scale := 0
  coeff_lt := limit_pos
  scale_le := Nat.zero_le _

def pushWhole? (m : Magnitude) (d : Digit) : Option Magnitude :=
  if h : 10 * m.coeff + d < limit then
    some { m with coeff := 10 * m.coeff + d, coeff_lt := h }
  else
    none

def pushFraction? (m : Magnitude) (d : Digit) : Option Magnitude :=
  if h : 10 * m.coeff + d < limit ∧ m.scale < maxScale then
    some { coeff := 10 * m.coeff + d, scale := m.scale + 1, coeff_lt := h.1, scale_le := h.2 }
  else
    none

/-- The next coefficient. The step from the largest one gives up its last digit, the tenth part of
the limit being rounded to nearest, and is impossible if there is no digit after the point. -/
def next? (m : Magnitude) : Option Magnitude :=
  if h : m.coeff + 1 < limit then
    some { m with coeff := m.coeff + 1, coeff_lt := h }
  else if m.scale = 0 then
    none
  else
    some
      { coeff := (limit + 4) / 10
        scale := m.scale - 1
        coeff_lt := by decide
        scale_le := by have := m.scale_le; omega }

def round? (m : Magnitude) (d : Digit) : Option Magnitude :=
  if d.val < 5 then some m else m.next?

/-- Takes digits after the point as long as they fit and rounds by the first that does not. -/
def readFraction? (m : Magnitude) : Digits → Option Magnitude
  | [] => some m
  | d :: digits =>
    match m.pushFraction? d with
    | some m' => m'.readFraction? digits
    | none => m.round? d

def ofDigits? (whole fraction : Digits) : Option Magnitude := do
  let m ← whole.foldlM pushWhole? zero
  m.readFraction? fraction

end Magnitude

def ofMagnitude (negative : Bool) (m : Magnitude) : Decimal where
  coeff := if negative then -m.coeff else m.coeff
  scale := m.scale
  coeff_lt := by have := m.coeff_lt; split <;> omega
  scale_le := m.scale_le

end Rebate.Decimal
