/-!
Blanks are the code points with the Unicode property White_Space, twenty-five in all. A text is
trimmed by removing the blanks at one end or at both.
-/

set_option autoImplicit false
set_option relaxedAutoImplicit false

namespace Rebate.Text

/-- The first and last code point of each run of blanks, in increasing order. -/
def blankRuns : List (Nat × Nat) :=
  [(0x0009, 0x000D), (0x0020, 0x0020), (0x0085, 0x0085), (0x00A0, 0x00A0), (0x1680, 0x1680),
   (0x2000, 0x200A), (0x2028, 0x2029), (0x202F, 0x202F), (0x205F, 0x205F), (0x3000, 0x3000)]

def isBlank (c : Char) : Bool :=
  blankRuns.any fun (first, last) => first ≤ c.toNat && c.toNat ≤ last

def trimStart (text : List Char) : List Char :=
  text.dropWhile isBlank

def trimEnd (text : List Char) : List Char :=
  (text.reverse.dropWhile isBlank).reverse

def trim (text : List Char) : List Char :=
  trimEnd (trimStart text)

theorem length_trimStart_le (text : List Char) : (trimStart text).length ≤ text.length :=
  (List.dropWhile_sublist isBlank).length_le

end Rebate.Text
