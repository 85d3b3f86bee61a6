import Rebate.Proofs.Rule.NormalForm
import Rebate.Proofs.Rule.ReadWritten
import Rebate.Proofs.Text.OccurrenceCount

/-!
What a read error says of the text. The number of times that `ENTAO` occurs is looked at first, then
the text behind it, and the condition last. An error of the condition shows a piece of it, in which
the fault can be seen, or a nesting above the limit.
-/

set_option autoImplicit false
set_option relaxedAutoImplicit false

namespace Rebate

open Text

/-- What an error says of the text of a condition that could not be read. -/
def ReadError.Describes (condition : List Char) (e : ReadError) : Prop :=
  match e with
  | missingThen _ => False
  | invalidDiscount _ => False
  | unsupportedOperator token =>
    token.toList <:+: condition ∧ Tight token.toList ∧
      (∃ c ∈ token.toList, isOperatorChar c = true ∨ isBlank c = true) ∧
      Decimal.ofChars? token.toList = none ∧ (token ≠ "true" ∧ token ≠ "false") ∧
      ∀ s, token.toList ≠ '"' :: s ++ ['"']
  | emptyOperand fragment =>
    fragment.toList <:+: condition ∧ trim fragment.toList = fragment.toList ∧
      (fragment = "" ∨ ∃ r : Relation,
        r.symbol.word <+: fragment.toList ∨ r.symbol.word <:+ fragment.toList)
  | tooDeeplyNested depth max => max = 256 ∧ 256 < depth

namespace ReadError

variable {condition piece : List Char} {e : ReadError}

private theorem Describes.mono (h : e.Describes piece) (hpiece : piece <:+: condition) :
    e.Describes condition := by
  cases e with
  | missingThen found => exact h
  | invalidDiscount text => exact h
  | unsupportedOperator token => exact ⟨h.1.trans hpiece, h.2⟩
  | emptyOperand fragment => exact ⟨h.1.trans hpiece, h.2⟩
  | tooDeeplyNested depth max => exact h

end ReadError

variable {text : List Char} {e : ReadError}

private theorem Relation.tight_symbol (r : Relation) : Tight r.symbol.word := by
  have hblank : (r.symbol.word.all fun c => !isBlank c) = true := by
    cases r <;> decide
  exact Tight.of_no_blank r.symbol.word_ne_nil (by simpa using hblank)

private theorem Operand.error_of_read {fragment : List Char}
    (h : Operand.read fragment text = .error e) :
    trim text = [] ∧ e = .emptyOperand (String.ofList (trim fragment)) ∨
      trim text ≠ [] ∧ Value.ofToken? (trim text) = none ∧
        (∃ c ∈ trim text, isOperatorChar c = true ∨ isBlank c = true) ∧
        e = .unsupportedOperator (String.ofList (trim text)) := by
  rw [Operand.read] at h
  split at h
  · next hnil => exact Or.inl ⟨hnil, (Except.error.inj h).symm⟩
  · next hne =>
    split at h
    · cases h
    · next hvalue =>
      split at h
      · next hany =>
        simp only [List.any_eq_true, Bool.or_eq_true] at hany
        exact Or.inr ⟨hne, hvalue, hany, (Except.error.inj h).symm⟩
      · cases h

private theorem Operand.describes_of_read {fragment : List Char}
    (h : Operand.read fragment text = .error e) (htext : text <:+: fragment)
    (hmissing : AllBlank text → trim fragment = [] ∨ ∃ r : Relation,
      r.symbol.word <+: trim fragment ∨ r.symbol.word <:+ trim fragment) :
    e.Describes fragment := by
  rcases Operand.error_of_read h with ⟨hnil, rfl⟩ | ⟨hne, hvalue, hforeign, rfl⟩
  · have hedge := hmissing (allBlank_of_trim_eq_nil hnil)
    rw [ReadError.Describes, String.toList_ofList]
    exact ⟨infix_trim fragment, trim_trim fragment,
      hedge.imp_left fun hempty => congrArg String.ofList hempty⟩
  · obtain ⟨hnumber, ⟨htrue, hfalse⟩, hquoted⟩ := Value.ofToken?_eq_none_iff.mp hvalue
    rw [ReadError.Describes, String.toList_ofList]
    refine ⟨(infix_trim text).trans htext, Tight.of_trim hne, hforeign, hnumber, ⟨?_, ?_⟩, hquoted⟩
    · exact fun heq => htrue (by rw [← heq, String.toList_ofList])
    · exact fun heq => hfalse (by rw [← heq, String.toList_ofList])

private theorem Atom.describes_of_read (h : Atom.read text = .error e) : e.Describes text := by
  rw [Atom.read] at h
  split at h
  · next r left right hcut =>
    obtain ⟨hleft, hright⟩ := Relation.infix_of_cut? hcut
    have htext : text = left ++ r.symbol.word ++ right := Relation.eq_of_cut? hcut
    cases ha : Operand.read text left with
    | error e' =>
      obtain rfl : e' = e := by simpa [ha, bind, Except.bind] using h
      refine Operand.describes_of_read ha hleft fun hblank => Or.inr ⟨r, Or.inl ?_⟩
      rw [htext]
      exact r.tight_symbol.prefix_trim hblank
    | ok a =>
      cases hb : Operand.read text right with
      | error e' =>
        obtain rfl : e' = e := by simpa [ha, hb, bind, Except.bind] using h
        refine Operand.describes_of_read hb hright fun hblank => Or.inr ⟨r, Or.inr ?_⟩
        rw [htext]
        exact r.tight_symbol.suffix_trim hblank
      | ok b => simp [ha, hb, bind, Except.bind, pure, Except.pure] at h
  · cases ha : Operand.read text text with
    | error e' =>
      obtain rfl : e' = e := by simpa [ha, bind, Except.bind] using h
      refine Operand.describes_of_read ha List.infix_rfl fun hblank => Or.inl ?_
      exact trimEnd_eq_nil_iff.mpr fun c hc => hblank c ((List.dropWhile_suffix isBlank).subset hc)
    | ok a => simp [ha, bind, Except.bind, pure, Except.pure] at h

private theorem Outline.requireNesting_eq_error {depth : Nat}
    (h : requireNesting depth = .error e) : e.Describes text := by
  rw [requireNesting] at h
  split at h
  · cases h
  · next hdeep =>
    obtain rfl := Except.error.inj h
    exact ⟨rfl, Nat.lt_of_not_le hdeep⟩

private theorem Leaf.describes_of_read (h : Leaf.read text = .error e) : e.Describes text := by
  rw [Leaf.read] at h
  simp only [bind, Except.bind] at h
  cases hnesting : Outline.requireNesting (Negation.strip 0 text).1 with
  | error e' =>
    obtain rfl : e' = e := by simpa [hnesting] using h
    exact Outline.requireNesting_eq_error hnesting
  | ok u =>
    simp only [hnesting] at h
    cases hatom : Atom.read (Negation.strip 0 text).2 with
    | error e' =>
      obtain rfl : e' = e := by simpa [hatom] using h
      exact (Atom.describes_of_read hatom).mono (Negation.suffix_strip 0 text).isInfix
    | ok atom => simp [hatom, pure, Except.pure] at h

private theorem exists_of_mapM_eq_error {α β : Type} {read : α → Except ReadError β}
    {pieces : List α}
    (h : pieces.mapM read = .error e) : ∃ piece ∈ pieces, read piece = .error e := by
  induction pieces with
  | nil => cases h
  | cons piece pieces ih =>
    rw [List.mapM_cons] at h
    cases hpiece : read piece with
    | error e' =>
      obtain rfl : e' = e := by simpa [hpiece, bind, Except.bind] using h
      exact ⟨piece, List.mem_cons_self, hpiece⟩
    | ok part =>
      cases hrest : pieces.mapM read with
      | error e' =>
        obtain rfl : e' = e := by simpa [hpiece, hrest, bind, Except.bind] using h
        obtain ⟨later, hmem, hlater⟩ := ih hrest
        exact ⟨later, List.mem_cons_of_mem piece hmem, hlater⟩
      | ok parts => simp [hpiece, hrest, bind, Except.bind, pure, Except.pure] at h

/-- Parts that are joined are refused truly if each part is. -/
theorem describes_of_joined {α : Type} {read : List Char → Except ReadError α}
    {depth : List α → Nat} (c : Connective)
    (hread : ∀ {piece e}, read piece = .error e → e.Describes piece)
    (h : (do
      let parts ← (c.separator.split text).mapM read
      Outline.requireNesting (depth parts)
      return parts) = .error e) : e.Describes text := by
  cases hparts : (c.separator.split text).mapM read with
  | error e' =>
    obtain rfl : e' = e := by simpa [hparts, bind, Except.bind] using h
    obtain ⟨piece, hmem, hpiece⟩ := exists_of_mapM_eq_error hparts
    exact (hread hpiece).mono (Keyword.infix_of_mem_split hmem)
  | ok parts =>
    cases hnesting : Outline.requireNesting (depth parts) with
    | error e' =>
      obtain rfl : e' = e := by simpa [hparts, hnesting, bind, Except.bind] using h
      exact Outline.requireNesting_eq_error hnesting
    | ok u => simp [hparts, hnesting, bind, Except.bind, pure, Except.pure] at h

private theorem Group.describes_of_read (h : Group.read text = .error e) : e.Describes text :=
  describes_of_joined .and Leaf.describes_of_read h

private theorem Outline.describes_of_read (h : Outline.read text = .error e) : e.Describes text :=
  describes_of_joined .or Group.describes_of_read h

namespace Rule

variable {source : String}

private theorem length_split_thenWord (source : String) :
    (thenWord.split source.toList).length = thenWord.occurrences source.toList + 1 :=
  Keyword.length_split (c := 'E') rfl (by decide) source.toList

private theorem read_of_occurrences_ne_one (h : thenWord.occurrences source.toList ≠ 1) :
    read source = .error (.missingThen (thenWord.occurrences source.toList)) := by
  have hlength := length_split_thenWord source
  rw [read]
  split
  · next head tail hsplit =>
    rw [hsplit, List.length_cons, List.length_singleton] at hlength
    omega
  · rw [hlength, Nat.add_sub_cancel]

private theorem exists_split_of_occurrences (h : thenWord.occurrences source.toList = 1) :
    ∃ head tail, thenWord.split source.toList = [head, tail] := by
  have hlength := length_split_thenWord source
  rw [h] at hlength
  exact List.length_eq_two.mp hlength

private theorem read_of_no_discount {head tail : List Char}
    (hsplit : thenWord.split source.toList = [head, tail])
    (hdiscount : Decimal.ofChars? (trim tail) = none) :
    read source = .error (.invalidDiscount (String.ofList (trim tail))) := by
  rw [read, hsplit]
  simp only [hdiscount]

private theorem read_eq_error_iff {head tail : List Char} {discount : Decimal}
    (hsplit : thenWord.split source.toList = [head, tail])
    (hdiscount : Decimal.ofChars? (trim tail) = some discount) :
    read source = .error e ↔ Outline.read (trim head) = .error e := by
  rw [read_of_split hsplit hdiscount]
  cases Outline.read (trim head) with
  | error e' => simp [bind, Except.bind]
  | ok outline => simp [bind, Except.bind, pure, Except.pure]

/-- A text without just one `ENTAO` is refused with the number of times that the word occurs. Else
a text behind the word that is no number is shown, whatever the condition is. Else the error is one
of the condition, and it describes the condition. -/
theorem read_eq_error (source : String) :
    (∀ found, read source = .error (.missingThen found) ↔
      thenWord.occurrences source.toList ≠ 1 ∧ found = thenWord.occurrences source.toList) ∧
    (thenWord.occurrences source.toList = 1 →
      ∃ head tail, source.toList = head ++ thenWord.word ++ tail ∧
        (∀ text, read source = .error (.invalidDiscount text) ↔
          Decimal.ofChars? (trim tail) = none ∧ text = String.ofList (trim tail)) ∧
        ∀ discount e, Decimal.ofChars? (trim tail) = some discount → read source = .error e →
          Outline.read (trim head) = .error e ∧ e.Describes (trim head)) := by
  by_cases honce : thenWord.occurrences source.toList = 1
  · obtain ⟨head, tail, hsplit⟩ := exists_split_of_occurrences honce
    cases hdiscount : Decimal.ofChars? (trim tail) with
    | none =>
      have hread := read_of_no_discount hsplit hdiscount
      refine ⟨fun found => ?_, fun _ => ⟨head, tail, Keyword.eq_of_split_eq_pair hsplit, ?_, ?_⟩⟩
      · simp [hread, honce]
      · simp [hread, hdiscount, eq_comm]
      · simp [hdiscount]
    | some discount =>
      have hdescribes : ∀ {e}, read source = .error e →
          Outline.read (trim head) = .error e ∧ e.Describes (trim head) := by
        intro e he
        have houtline := (read_eq_error_iff hsplit hdiscount).mp he
        exact ⟨houtline, Outline.describes_of_read houtline⟩
      refine ⟨fun found => ⟨fun he => (hdescribes he).2.elim, fun h => absurd honce h.1⟩,
        fun _ => ⟨head, tail, Keyword.eq_of_split_eq_pair hsplit, fun text => ?_, ?_⟩⟩
      · simp only [hdiscount, reduceCtorEq, false_and, iff_false]
        exact fun he => (hdescribes he).2
      · exact fun _ e _ he => hdescribes he
  · have hread := read_of_occurrences_ne_one honce
    refine ⟨fun found => ?_, fun h => absurd h honce⟩
    simp [hread, honce, eq_comm]

def arrowSource : String :=
  "primeiraCompra E NÃO quantidade => 5 ENTAO 10"

theorem read_eq_error_arrow :
    thenWord.occurrences arrowSource.toList = 1 ∧
      read arrowSource = .error (.unsupportedOperator "quantidade =") ∧
      ∃ head tail, arrowSource.toList = head ++ thenWord.word ++ tail ∧
        (ReadError.unsupportedOperator "quantidade =").Describes (trim head) := by
  have honce : thenWord.occurrences arrowSource.toList = 1 := by decide +kernel
  have hread : read arrowSource = .error (.unsupportedOperator "quantidade =") := by decide +kernel
  obtain ⟨head, tail, hsource, hinvalid, hcondition⟩ := (read_eq_error arrowSource).2 honce
  refine ⟨honce, hread, head, tail, hsource, ?_⟩
  cases hdiscount : Decimal.ofChars? (trim tail) with
  | none =>
    have hrefused := (hinvalid _).mpr ⟨hdiscount, rfl⟩
    cases hrefused.symm.trans hread
  | some discount => exact (hcondition discount _ hdiscount hread).2

end Rule

end Rebate
