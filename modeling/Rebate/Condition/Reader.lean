import Rebate.Condition.Outline
import Rebate.ReadError

/-!
Reading the text of a condition. The text is split at `OU`, each group at `E`, and the negations
are taken off each leaf; what is left is cut at a comparison symbol, if it has one. No step looks
at quotation marks or parentheses. The leaves are read from left to right, and the first error is
the answer.
-/

set_option autoImplicit false
set_option relaxedAutoImplicit false

namespace Rebate

open Text

def unquote? : List Char → Option (List Char)
  | '"' :: rest => if rest.getLast? = some '"' then some rest.dropLast else none
  | _ => none

/-- The value that a token spells. A number is tried first, and a quotation last. -/
def Value.ofToken? (token : List Char) : Option Value :=
  (Decimal.ofChars? token).map .number <|>
  (truth? (String.ofList token)).map .boolean <|>
  (unquote? token).map fun s => .text (String.ofList s)

def isOperatorChar (c : Char) : Bool :=
  c == '<' || c == '>' || c == '=' || c == '!'

/-- Reads an operand. The fragment is the text that an error shows if the operand is missing. -/
def Operand.read (fragment token : List Char) : Except ReadError Operand :=
  let token := trim token
  if token = [] then
    .error (.emptyOperand (String.ofList (trim fragment)))
  else
    match Value.ofToken? token with
    | some v => .ok (.const v)
    | none =>
      if token.any fun c => isOperatorChar c || isBlank c then
        .error (.unsupportedOperator (String.ofList token))
      else
        .ok (.var (String.ofList token))

/-- Cuts a text at the first relation of the search order whose symbol it contains. -/
def Relation.cut? (text : List Char) : Option (Relation × List Char × List Char) :=
  searchOrder.findSome? fun r => (r.symbol.cut? text).map (r, ·)

def Atom.read (text : List Char) : Except ReadError Atom :=
  match Relation.cut? text with
  | some (r, left, right) => do
    let a ← Operand.read text left
    let b ← Operand.read text right
    return .comparison a r b
  | none => do
    let a ← Operand.read text text
    return .single a

/-- Counts the negations at the start of a text, blanks before them left out, on top of those
already counted, and returns what follows them. -/
def Negation.strip (counted : Nat) (text : List Char) : Nat × List Char :=
  match h : opening.after? (trimStart text) with
  | some rest =>
    have := Keyword.length_lt_of_after? h
    have := length_trimStart_le text
    strip (counted + 1) rest
  | none => (counted, text)
termination_by text.length

def Outline.requireNesting (depth : Nat) : Except ReadError Unit :=
  if depth ≤ maxNesting then .ok () else .error (.tooDeeplyNested depth maxNesting)

def Leaf.read (text : List Char) : Except ReadError Leaf := do
  let (negations, rest) := Negation.strip 0 text
  Outline.requireNesting negations
  let atom ← Atom.read rest
  return { negations, atom }

def Group.read (text : List Char) : Except ReadError Group := do
  let group ← (Connective.and.separator.split text).mapM Leaf.read
  Outline.requireNesting (nesting group)
  return group

def Outline.read (text : List Char) : Except ReadError Outline := do
  let outline ← (Connective.or.separator.split text).mapM Group.read
  requireNesting (nesting outline)
  return outline

def Condition.read (text : String) : Except ReadError Condition := do
  let outline ← Outline.read text.toList
  return outline.toCondition

end Rebate
