import Rebate.Proofs.Condition.ReaderSteps
import Rebate.Proofs.Decimal.NumeralText
import Rebate.Proofs.Text.Trimming
import Rebate.Rule.Reader

/-!
The ways to write an outline down. Blanks stand around every operand and before every negation, as
many as one likes; a connective has one space on either side of its own, and a negation one behind
it. Written texts keep their meaning under trimming, and no word of the language occurs in them
except where it was put.
-/

set_option autoImplicit false
set_option relaxedAutoImplicit false

namespace Rebate

open Text

def Plain (text : List Char) : Prop :=
  ∀ c ∈ text, isBlank c = false ∧ isOperatorChar c = false

instance (text : List Char) : Decidable (Plain text) :=
  List.decidableBAll _ text

def NoSymbol (text : List Char) : Prop :=
  ∀ c ∈ text, c ≠ '<' ∧ c ≠ '>' ∧ c ≠ '='

instance (text : List Char) : Decidable (NoSymbol text) :=
  List.decidableBAll _ text

/-- The tokens for an operand. A quotation holds no symbol of a relation and no word that a rule is
split at; a name is none of those words, and nothing that is read as a value. -/
inductive Operand.Spelled : Operand → List Char → Prop
  | number {a : Decimal} {token : List Char} (h : Decimal.ofChars? token = some a) :
      Spelled (.const (.number a)) token
  | truth (b : Bool) : Spelled (.const (.boolean b)) (if b then "true" else "false").toList
  | quotation {s : List Char} (hsymbol : NoSymbol s) (hjoint : Unjoined s)
      (hthen : ¬ Rule.thenWord.word <:+: s) :
      Spelled (.const (.text (String.ofList s))) ('"' :: s ++ ['"'])
  | name {token : List Char} (hne : token ≠ []) (hplain : Plain token)
      (hthen : ¬ Rule.thenWord.word <:+: token)
      (hnumber : Decimal.ofChars? token = none)
      (htruth : token ≠ "true".toList ∧ token ≠ "false".toList)
      (hquoted : ∀ s, token ≠ '"' :: s ++ ['"'])
      (hnegation : token ≠ Negation.word) (hjoint : ∀ c : Connective, token ≠ c.word) :
      Spelled (.var (String.ofList token)) token

inductive Operand.Written : Operand → List Char → Prop
  | between {a : Operand} {before token after : List Char} (hbefore : AllBlank before)
      (htoken : a.Spelled token) (hafter : AllBlank after) :
      Written a (before ++ token ++ after)

inductive Atom.Written : Atom → List Char → Prop
  | single {a : Operand} {text : List Char} (h : a.Written text) : Written (.single a) text
  | comparison {a b : Operand} {r : Relation} {left right : List Char}
      (hleft : a.Written left) (hright : b.Written right) :
      Written (.comparison a r b) (left ++ r.symbol.word ++ right)

inductive Leaf.Written : Leaf → List Char → Prop
  | plain {atom : Atom} {text : List Char} (h : atom.Written text) : Written ⟨0, atom⟩ text
  | negated {n : Nat} {atom : Atom} {before text : List Char} (hbefore : AllBlank before)
      (h : Written ⟨n, atom⟩ text) :
      Written ⟨n + 1, atom⟩ (before ++ Negation.opening.word ++ text)

/-- Some parts, at least one, are written with a connective between each two neighbours. -/
inductive Connective.Joined {α : Type} (c : Connective) (Written : α → List Char → Prop) :
    List α → List Char → Prop
  | one {x : α} {text : List Char} (h : Written x text) : Joined c Written [x] text
  | more {x : α} {xs : List α} {text rest : List Char} (h : Written x text)
      (hrest : Joined c Written xs rest) :
      Joined c Written (x :: xs) (text ++ c.separator.word ++ rest)

def Group.Written (group : Group) (text : List Char) : Prop :=
  Connective.and.Joined Leaf.Written group text

def Outline.Written (outline : Outline) (text : List Char) : Prop :=
  Connective.or.Joined Group.Written outline text

theorem Plain.not_mem {text : List Char} (h : Plain text) {c : Char}
    (hc : isBlank c = true ∨ isOperatorChar c = true) : c ∉ text := by
  intro hmem
  obtain ⟨hblank, hoperator⟩ := h c hmem
  rcases hc with hc | hc
  · exact absurd hc (by simp [hblank])
  · exact absurd hc (by simp [hoperator])

/-- A token in one piece: no blank and no operator splits it, and it is no word of the language. -/
structure Solid (token : List Char) : Prop where
  ne_nil : token ≠ []
  plain : Plain token
  ne_negation : token ≠ Negation.word
  ne_joint : ∀ c : Connective, token ≠ c.word
  not_then : ¬ Rule.thenWord.word <:+: token

theorem Solid.of_number {a : Decimal} {token : List Char} (h : Decimal.ofChars? token = some a) :
    Solid token := by
  have hpart : ∀ c, Numeral.isPart c = false → c ∉ token := by
    intro c hc hmem
    exact absurd (Decimal.isPart_of_mem h hmem) (by simp [hc])
  refine ⟨Decimal.ne_nil_of_ofChars? h, ?_, ?_, ?_, ?_⟩
  · intro c hc
    have hp := Decimal.isPart_of_mem h hc
    exact ⟨Numeral.isBlank_of_isPart hp, Numeral.isOperatorChar_of_isPart hp⟩
  · rintro rfl
    exact hpart 'N' (by decide) (by decide)
  · rintro c rfl
    cases c with
    | and => exact hpart 'E' (by decide) (by decide)
    | or => exact hpart 'U' (by decide) (by decide)
  · intro hthen
    exact hpart 'E' (by decide) (hthen.subset (by decide))

theorem Solid.of_truth (b : Bool) : Solid (if b then "true" else "false").toList := by
  cases b <;> refine ⟨by decide, by decide, by decide, ?_, by decide⟩ <;> intro c <;>
    cases c <;> decide

theorem Operand.Spelled.solid_or_quotation {a : Operand} {token : List Char}
    (h : a.Spelled token) :
    Solid token ∨ ∃ s, token = '"' :: s ++ ['"'] ∧ NoSymbol s ∧ Unjoined s ∧
      ¬ Rule.thenWord.word <:+: s := by
  cases h with
  | number h => exact Or.inl (Solid.of_number h)
  | truth b => exact Or.inl (Solid.of_truth b)
  | @quotation s hsymbol hjoint hthen => exact Or.inr ⟨s, rfl, hsymbol, hjoint, hthen⟩
  | name hne hplain hthen hnumber htruth hquoted hnegation hjoint =>
    exact Or.inl ⟨hne, hplain, hnegation, hjoint, hthen⟩

theorem Operand.Spelled.tight {a : Operand} {token : List Char} (h : a.Spelled token) :
    Tight token := by
  rcases h.solid_or_quotation with hsolid | ⟨s, rfl, -⟩
  · exact Tight.of_no_blank hsolid.ne_nil fun c hc => (hsolid.plain c hc).1
  · exact Tight.of_ends (by decide) (by decide)

theorem Operand.Spelled.noSymbol {a : Operand} {token : List Char} (h : a.Spelled token) :
    NoSymbol token := by
  intro c hc
  rcases h.solid_or_quotation with hsolid | ⟨s, rfl, hsymbol, -⟩
  · have hplain := (hsolid.plain c hc).2
    refine ⟨?_, ?_, ?_⟩ <;> rintro rfl <;> exact absurd hplain (by decide)
  · simp only [List.cons_append, List.mem_cons, List.mem_append, List.not_mem_nil, or_false] at hc
    rcases hc with rfl | hc | rfl
    · decide
    · exact hsymbol c hc
    · decide

/-- What is written one way is written without the blanks at its ends, too. -/
structure Trimmable (Written : List Char → Prop) : Prop where
  start : ∀ {text}, Written text → trimStart text ≠ [] ∧ Written (trimStart text)
  finish : ∀ {text}, Written text → trimEnd text ≠ [] ∧ Written (trimEnd text)

private theorem Operand.trimmable (a : Operand) : Trimmable a.Written := by
  refine ⟨?_, ?_⟩
  · rintro _ ⟨hbefore, htoken, hafter⟩
    rw [htoken.tight.trimStart_blanks_append hbefore]
    have hwritten := Operand.Written.between .nil htoken hafter
    exact ⟨by simp [htoken.tight.ne_nil], hwritten⟩
  · rintro _ ⟨hbefore, htoken, hafter⟩
    rw [htoken.tight.trimEnd_append_blanks hafter]
    have hwritten := Operand.Written.between hbefore htoken .nil
    rw [List.append_nil] at hwritten
    exact ⟨by simp [htoken.tight.ne_nil], hwritten⟩

private theorem Atom.trimmable (atom : Atom) : Trimmable atom.Written := by
  refine ⟨?_, ?_⟩
  · rintro _ (h | ⟨hleft, hright⟩)
    · exact ⟨(Operand.trimmable _).start h |>.1, .single ((Operand.trimmable _).start h).2⟩
    · obtain ⟨hne, hleft'⟩ := (Operand.trimmable _).start hleft
      rw [List.append_assoc, trimStart_append hne, ← List.append_assoc]
      exact ⟨by simp [hne], .comparison hleft' hright⟩
  · rintro _ (h | ⟨hleft, hright⟩)
    · exact ⟨(Operand.trimmable _).finish h |>.1, .single ((Operand.trimmable _).finish h).2⟩
    · obtain ⟨hne, hright'⟩ := (Operand.trimmable _).finish hright
      rw [trimEnd_append hne]
      exact ⟨by simp [hne], .comparison hleft hright'⟩

private theorem Leaf.trimmable (leaf : Leaf) : Trimmable leaf.Written := by
  refine ⟨?_, ?_⟩
  · rintro _ (h | ⟨hbefore, h⟩)
    · obtain ⟨hne, h'⟩ := (Atom.trimmable _).start h
      exact ⟨hne, .plain h'⟩
    · have hword : trimStart Negation.opening.word = Negation.opening.word := by decide
      have hne : trimStart Negation.opening.word ≠ [] := by decide
      rw [List.append_assoc, trimStart_append_of_allBlank hbefore, trimStart_append hne, hword]
      exact ⟨by simp [Negation.opening], .negated .nil h⟩
  · intro text h
    induction h with
    | plain h =>
      obtain ⟨hne, h'⟩ := (Atom.trimmable _).finish h
      exact ⟨hne, .plain h'⟩
    | negated hbefore h ih =>
      obtain ⟨hne, h'⟩ := ih
      rw [trimEnd_append hne]
      exact ⟨by simp [hne], .negated hbefore h'⟩

private theorem Connective.Joined.trimmable {α : Type} {c : Connective}
    {Written : α → List Char → Prop} (hWritten : ∀ x, Trimmable (Written x)) (xs : List α) :
    Trimmable (c.Joined Written xs) := by
  refine ⟨?_, ?_⟩
  · rintro _ (h | ⟨h, hrest⟩)
    · obtain ⟨hne, h'⟩ := (hWritten _).start h
      exact ⟨hne, .one h'⟩
    · obtain ⟨hne, h'⟩ := (hWritten _).start h
      rw [List.append_assoc, trimStart_append hne, ← List.append_assoc]
      exact ⟨by simp [hne], .more h' hrest⟩
  · intro text h
    induction h with
    | one h =>
      obtain ⟨hne, h'⟩ := (hWritten _).finish h
      exact ⟨hne, .one h'⟩
    | more h hrest ih =>
      obtain ⟨hne, hrest'⟩ := ih
      rw [trimEnd_append hne]
      exact ⟨by simp [hne], .more h hrest'⟩

theorem Outline.Written.trim {outline : Outline} {text : List Char} (h : outline.Written text) :
    outline.Written (trim text) := by
  have hgroup : ∀ group : Group, Trimmable group.Written :=
    fun group => Connective.Joined.trimmable Leaf.trimmable group
  have houtline : Trimmable outline.Written := Connective.Joined.trimmable hgroup outline
  exact (houtline.finish (houtline.start h).2).2

/-- A property of texts that blanks and operators between two of them do not destroy. -/
structure Glued (P : List Char → Prop) : Prop where
  nil : P []
  glue : ∀ {left right : List Char} {c : Char}, isBlank c = true ∨ isOperatorChar c = true →
    P left → P right → P (left ++ c :: right)

namespace Glued

variable {P : List Char → Prop} {blanks text : List Char}

theorem blanks_append (hP : Glued P) (hblanks : AllBlank blanks) (h : P text) :
    P (blanks ++ text) := by
  induction blanks with
  | nil => exact h
  | cons c blanks ih =>
    have hrest : P (blanks ++ text) := ih fun d hd => hblanks d (List.mem_cons_of_mem c hd)
    exact hP.glue (Or.inl (hblanks c List.mem_cons_self)) hP.nil hrest

theorem append_blanks (hP : Glued P) (h : P text) (hblanks : AllBlank blanks) :
    P (text ++ blanks) := by
  cases blanks with
  | nil => simpa using h
  | cons c blanks =>
    have hrest : AllBlank blanks := fun d hd => hblanks d (List.mem_cons_of_mem c hd)
    have hafter : P (blanks ++ []) := hP.blanks_append hrest hP.nil
    rw [List.append_nil] at hafter
    exact hP.glue (Or.inl (hblanks c List.mem_cons_self)) h hafter

private theorem operand (hP : Glued P) (htoken : ∀ {a : Operand} {token}, a.Spelled token → P token)
    {a : Operand} (h : a.Written text) : P text := by
  obtain ⟨hbefore, hspelled, hafter⟩ := h
  exact hP.append_blanks (hP.blanks_append hbefore (htoken hspelled)) hafter

private theorem atom (hP : Glued P) (htoken : ∀ {a : Operand} {token}, a.Spelled token → P token)
    {atom : Atom} (h : atom.Written text) : P text := by
  rcases h with h | ⟨hleft, hright⟩
  · exact hP.operand htoken h
  · next r left right =>
    have hleft := hP.operand htoken hleft
    have hright := hP.operand htoken hright
    rw [List.append_assoc]
    cases r with
    | gt => exact hP.glue (Or.inr rfl) hleft hright
    | lt => exact hP.glue (Or.inr rfl) hleft hright
    | eq => exact hP.glue (Or.inr rfl) hleft hright
    | ge =>
      have hright : P ([] ++ '=' :: right) := hP.glue (Or.inr rfl) hP.nil hright
      exact hP.glue (Or.inr rfl) hleft hright
    | le =>
      have hright : P ([] ++ '=' :: right) := hP.glue (Or.inr rfl) hP.nil hright
      exact hP.glue (Or.inr rfl) hleft hright

theorem leaf (hP : Glued P) (htoken : ∀ {a : Operand} {token}, a.Spelled token → P token)
    (hnegation : P Negation.word) {leaf : Leaf} (h : leaf.Written text) : P text := by
  induction h with
  | plain h => exact hP.atom htoken h
  | @negated n atom before text hbefore h ih =>
    have hword : P (before ++ Negation.word) := hP.blanks_append hbefore hnegation
    have hsplit : before ++ Negation.opening.word ++ text =
        (before ++ Negation.word) ++ ' ' :: text := by simp [Negation.opening]
    rw [hsplit]
    exact hP.glue (Or.inl (by decide)) hword ih

theorem joined (hP : Glued P) {α : Type} {Written : α → List Char → Prop} {c : Connective}
    (hWritten : ∀ {x text}, Written x text → P text) (hword : P c.word) {xs : List α}
    (h : c.Joined Written xs text) : P text := by
  induction h with
  | one h => exact hWritten h
  | @more x xs text rest h hrest ih =>
    have hsplit : text ++ c.separator.word ++ rest = text ++ ' ' :: (c.word ++ ' ' :: rest) := by
      simp [Connective.separator]
    rw [hsplit]
    have hspace : isBlank ' ' = true ∨ isOperatorChar ' ' = true := Or.inl (by decide)
    exact hP.glue hspace (hWritten h) (hP.glue hspace hword ih)

end Glued

end Rebate
