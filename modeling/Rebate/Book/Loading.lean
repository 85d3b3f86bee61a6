import Rebate.Book.Notice
import Rebate.Rule.Reader

/-!
Loading a book from text. A strict load stops at the first line that is no rule; a lenient load
rejects such lines, gives notice of each, and goes on. Both look at the same lines, in order.
-/

set_option autoImplicit false
set_option relaxedAutoImplicit false

namespace Rebate

structure LineError where
  number : Nat
  error : ReadError
deriving DecidableEq, Repr

def LineError.message (e : LineError) : String :=
  let number := e.number
  let reason := e.error.message
  s!"line {number}: {reason}"

inductive FileError where
  | missing
  | notText
  | line (error : LineError)
deriving DecidableEq, Repr

namespace Book

def pushLine (book : Book) (line : Line) : Except LineError Book :=
  match Rule.read line.text with
  | .ok rule => .ok (book.push rule)
  | .error error => .error { number := line.number, error }

def pushOrReject (book : Book) (line : Line) : Noted Book :=
  match Rule.read line.text with
  | .ok rule => return book.push rule
  | .error error => do
    let rejection := { line, error }
    Noted.note (.skipped rejection)
    return book.reject rejection

def read (text : String) : Except LineError Book :=
  (Line.rulesOfFile text).foldlM pushLine empty

def readLenient (text : String) : Noted Book :=
  (Line.rulesOfFile text).foldlM pushOrReject empty

/-- Loads a list of rule texts leniently. Each of them is taken for a rule, whatever it holds. -/
def ofRules (texts : List String) : Noted Book :=
  (Line.ofTexts texts).foldlM pushOrReject empty

/-- The text of a file, given its bytes if there is such a file. -/
def textOfFile (file : Option ByteArray) : Except FileError String :=
  match file with
  | none => .error .missing
  | some bytes =>
    match String.fromUTF8? bytes with
    | some text => .ok text
    | none => .error .notText

def ofFile (file : Option ByteArray) : Except FileError Book := do
  let text ← textOfFile file
  (read text).mapError .line

def ofFileLenient (file : Option ByteArray) : Except FileError (Noted Book) := do
  let text ← textOfFile file
  return readLenient text

end Book

end Rebate
