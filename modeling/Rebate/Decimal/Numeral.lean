import Rebate.Decimal.Magnitude
import Rebate.Text.Keyword

/-!
Numerals are what numbers look like in text: an optional sign, then digits with at most one point
before, among or after them, and at least one digit. Only ASCII digits count. A decimal is written
with exactly as many fraction digits as its scale says, with at least one digit before the point,
and with a sign only if it is negative.
-/

set_option autoImplicit false
set_option relaxedAutoImplicit false

namespace Rebate

/-- A number as it is written, apart from a plus sign and a point without digits after it. -/
structure Numeral where
  negative : Bool
  whole : Digits
  fraction : Digits
deriving DecidableEq, Repr

namespace Numeral

def point : Text.Keyword where
  word := ['.']

def splitSign : List Char → Bool × List Char
  | '-' :: body => (true, body)
  | '+' :: body => (false, body)
  | body => (false, body)

def ofChars? (text : List Char) : Option Numeral := do
  let (negative, body) := splitSign text
  let (before, behind) := (point.cut? body).getD (body, [])
  let whole ← Digits.ofChars? before
  let fraction ← Digits.ofChars? behind
  if whole = [] ∧ fraction = [] then none else some { negative, whole, fraction }

/-- The characters of a numeral. The point is left out if no digit follows it. -/
def toChars (n : Numeral) : List Char :=
  let sign := if n.negative then ['-'] else []
  let fraction := if n.fraction = [] then [] else '.' :: Digits.toChars n.fraction
  sign ++ Digits.toChars n.whole ++ fraction

def toRat (n : Numeral) : Rat :=
  let size := mkRat (Digits.toNat (n.whole ++ n.fraction)) (powerOfTen n.fraction.length)
  if n.negative then -size else size

end Numeral

namespace Decimal

def ofNumeral? (n : Numeral) : Option Decimal :=
  (Magnitude.ofDigits? n.whole n.fraction).map (ofMagnitude n.negative)

def toNumeral (a : Decimal) : Numeral where
  negative := a.coeff < 0
  whole := Digits.ofNat (a.coeff.natAbs / powerOfTen a.scale)
  fraction := Digits.ofNatFixed a.scale a.coeff.natAbs

def ofChars? (text : List Char) : Option Decimal :=
  (Numeral.ofChars? text).bind ofNumeral?

def ofString? (text : String) : Option Decimal :=
  ofChars? text.toList

instance : ToString Decimal where
  toString a := String.ofList a.toNumeral.toChars

end Decimal

end Rebate
