import Rebate.Text.Blank
import Rebate.Text.Keyword

/-!
The lines of a file. A line ends at a line feed, and one carriage return directly before the line
feed belongs to the ending. What follows the last line feed is a line too, unless it is empty; a
carriage return there is part of it. Lines are numbered from one before any of them is left out.
-/

set_option autoImplicit false
set_option relaxedAutoImplicit false

namespace Rebate.Text

def lineFeed : Keyword where
  word := ['\n']

def dropReturn (text : List Char) : List Char :=
  if text.getLast? = some '\r' then text.dropLast else text

def lines (text : List Char) : List (List Char) :=
  let pieces := lineFeed.split text
  let ended := pieces.dropLast.map dropReturn
  let last := pieces.getLast (lineFeed.split_ne_nil text)
  if last = [] then ended else ended ++ [last]

end Rebate.Text

namespace Rebate

structure Line where
  number : Nat
  text : String
deriving DecidableEq, Repr

namespace Line

def ofTexts (texts : List String) : List Line :=
  (texts.zipIdx 1).map fun (text, number) => { number, text }

def ofFile (file : String) : List Line :=
  ofTexts ((Text.lines file.toList).map String.ofList)

/-- A line is meant as a rule if its first character that is not blank exists and is no `#`. -/
def HoldsRule (line : Line) : Prop :=
  ∃ c ∈ (Text.trimStart line.text.toList).head?, c ≠ '#'

instance (line : Line) : Decidable line.HoldsRule :=
  -- By name: the search may also find the instance that tries every character.
  Option.decidableExistsMem (Text.trimStart line.text.toList).head?

/-- The lines of a file that are meant as rules, with the numbers they have in the file. -/
def rulesOfFile (file : String) : List Line :=
  (ofFile file).filter fun line => line.HoldsRule

end Line

end Rebate
