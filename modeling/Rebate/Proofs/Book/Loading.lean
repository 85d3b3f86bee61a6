import Rebate.Book.Loading
import Rebate.Proofs.Rule.FlatScan
import Rebate.Proofs.Text.Lines

/-!
What a load keeps of a file. A lenient load puts every line that is meant as a rule either among the
rules or among the rejections, in order and with the number it has in the file, and gives notice of
each rejection. A strict load gives the same book if nothing is rejected, and else stops at the
first rejection.
-/

set_option autoImplicit false
set_option relaxedAutoImplicit false

namespace Rebate

open Text

namespace Line

def rule? (line : Line) : Option Rule :=
  (Rule.read line.text).toOption

def rejection? (line : Line) : Option Rejection :=
  match Rule.read line.text with
  | .ok _ => none
  | .error error => some { line, error }

variable {line : Line} {lines : List Line} {rejection : Rejection}

private theorem rejection?_eq_none_iff :
    line.rejection? = none ↔ ∃ rule, Rule.read line.text = .ok rule := by
  rw [rejection?]
  cases Rule.read line.text <;> simp

private theorem line_of_rejection? (h : line.rejection? = some rejection) :
    rejection.line = line := by
  rw [rejection?] at h
  cases hread : Rule.read line.text with
  | ok rule => simp [hread] at h
  | error error =>
    simp only [hread, Option.some.injEq] at h
    rw [← h]

private theorem forall₂_rule? (h : ∀ line ∈ lines, line.rejection? = none) :
    List.Forall₂ (fun line rule => Rule.read line.text = .ok rule) lines
      (lines.filterMap rule?) := by
  induction lines with
  | nil => exact .nil
  | cons line lines ih =>
    obtain ⟨hhead, hrest⟩ := List.forall_mem_cons.mp h
    obtain ⟨rule, hread⟩ := rejection?_eq_none_iff.mp hhead
    have hrule : line.rule? = some rule := by
      rw [rule?, hread]
      rfl
    rw [List.filterMap_cons_some hrule]
    exact .cons hread (ih hrest)

private theorem filter_number_lt {before after : List Line}
    (h : (before ++ line :: after).Pairwise fun a b => a.number < b.number) :
    (before ++ line :: after).filter (fun a => a.number < line.number) = before := by
  obtain ⟨-, hafter, hbefore⟩ := List.pairwise_append.mp h
  have hsmaller : before.filter (fun a => a.number < line.number) = before := by
    rw [List.filter_eq_self]
    intro a ha
    exact decide_eq_true (hbefore a ha line List.mem_cons_self)
  have hlarger : (line :: after).filter (fun a => a.number < line.number) = [] := by
    rw [List.filter_eq_nil_iff]
    intro a ha
    rw [decide_eq_true_eq, Nat.not_lt]
    rcases List.mem_cons.mp ha with rfl | ha
    · exact Nat.le_refl _
    · exact Nat.le_of_lt ((List.pairwise_cons.mp hafter).1 a ha)
  rw [List.filter_append, hsmaller, hlarger, List.append_nil]

end Line

namespace Book

private theorem foldlM_pushOrReject (book : Book) (lines : List Line) :
    lines.foldlM pushOrReject book =
      { value :=
          { rules := book.rules ++ lines.filterMap Line.rule?
            rejected := book.rejected ++ lines.filterMap Line.rejection? }
        notices := (lines.filterMap Line.rejection?).map .skipped } := by
  induction lines generalizing book with
  | nil =>
    simp only [List.filterMap_nil, List.append_nil]
    rfl
  | cons line lines ih =>
    rw [List.foldlM_cons, pushOrReject, List.filterMap_cons, List.filterMap_cons, Line.rule?,
      Line.rejection?]
    cases Rule.read line.text with
    | ok rule =>
      rw [pure_bind, ih]
      simp [push, Except.toOption]
    | error error =>
      simp only [bind, pure, ih]
      simp [Noted.note, reject, Except.toOption]

private theorem foldlM_pushLine (book : Book) (lines : List Line) :
    lines.foldlM pushLine book =
      match lines.filterMap Line.rejection? with
      | [] => .ok { book with rules := book.rules ++ lines.filterMap Line.rule? }
      | first :: _ => .error { number := first.line.number, error := first.error } := by
  induction lines generalizing book with
  | nil =>
    simp only [List.filterMap_nil, List.append_nil]
    rfl
  | cons line lines ih =>
    rw [List.foldlM_cons, pushLine, List.filterMap_cons, List.filterMap_cons, Line.rule?,
      Line.rejection?]
    cases Rule.read line.text with
    | ok rule =>
      show lines.foldlM pushLine (book.push rule) = _
      rw [ih]
      simp [push, Except.toOption]
    | error error => rfl

theorem readLenient_eq (text : String) :
    readLenient text =
      { value :=
          { rules := (Line.rulesOfFile text).filterMap Line.rule?
            rejected := (Line.rulesOfFile text).filterMap Line.rejection? }
        notices := ((Line.rulesOfFile text).filterMap Line.rejection?).map .skipped } :=
  foldlM_pushOrReject empty _

theorem read_eq_match (text : String) :
    read text =
      match (readLenient text).value.rejected with
      | [] => .ok { rules := (readLenient text).value.rules }
      | rejection :: _ => .error { number := rejection.line.number, error := rejection.error } := by
  rw [readLenient_eq]
  exact foldlM_pushLine empty (Line.rulesOfFile text)

/-- A strict load gives the book of the lenient one if nothing is rejected. Else it stops at the
first rejection, and the rules of all lines before that one come first in the lenient book. -/
theorem read_eq_readLenient (text : String) :
    match (readLenient text).value.rejected with
    | [] => read text = .ok (readLenient text).value
    | first :: _ =>
      read text = .error { number := first.line.number, error := first.error } ∧
        ∃ rules,
          List.Forall₂ (fun line rule => Rule.read line.text = .ok rule)
            ((Line.rulesOfFile text).filter fun line => line.number < first.line.number) rules ∧
          rules <+: (readLenient text).value.rules := by
  have hread : read text = _ := foldlM_pushLine empty (Line.rulesOfFile text)
  rw [hread, readLenient_eq]
  cases hrejected : (Line.rulesOfFile text).filterMap Line.rejection? with
  | nil => rfl
  | cons first later =>
    refine ⟨rfl, ?_⟩
    obtain ⟨before, line, after, hlines, hbefore, hline, -⟩ :=
      List.filterMap_eq_cons_iff.mp hrejected
    have hordered := Line.pairwise_rulesOfFile text
    rw [hlines] at hordered
    rw [Line.line_of_rejection? hline, hlines, Line.filter_number_lt hordered,
      List.filterMap_append]
    exact ⟨_, Line.forall₂_rule? hbefore, List.prefix_append _ _⟩

/-- Every line is accounted for in its turn: the source of the next rule if it is read, and else the
next rejection, with the reason. -/
inductive Interleaved : List Line → List Rule → List Rejection → Prop
  | nil : Interleaved [] [] []
  | rule {line : Line} {rule : Rule} {lines : List Line} {rules : List Rule}
      {rejected : List Rejection} (hread : Rule.read line.text = .ok rule)
      (hsource : rule.source = line.text) (h : Interleaved lines rules rejected) :
      Interleaved (line :: lines) (rule :: rules) rejected
  | rejection {line : Line} {error : ReadError} {lines : List Line} {rules : List Rule}
      {rejected : List Rejection} (hread : Rule.read line.text = .error error)
      (h : Interleaved lines rules rejected) :
      Interleaved (line :: lines) rules ({ line, error } :: rejected)

variable {lines : List Line} {rules : List Rule} {rejected : List Rejection}

private theorem interleaved_filterMap (lines : List Line) :
    Interleaved lines (lines.filterMap Line.rule?) (lines.filterMap Line.rejection?) := by
  induction lines with
  | nil => exact .nil
  | cons line lines ih =>
    rw [List.filterMap_cons, List.filterMap_cons, Line.rule?, Line.rejection?]
    cases hread : Rule.read line.text with
    | ok rule => exact .rule hread (Rule.source_of_read hread) ih
    | error error => exact .rejection hread ih

namespace Interleaved

private theorem length_eq (h : Interleaved lines rules rejected) :
    rules.length + rejected.length = lines.length := by
  induction h with
  | nil => rfl
  | rule hread hsource h ih =>
    simp only [List.length_cons]
    omega
  | rejection hread h ih =>
    simp only [List.length_cons]
    omega

private theorem map_line_sublist (h : Interleaved lines rules rejected) :
    (rejected.map Rejection.line).Sublist lines := by
  induction h with
  | nil => exact .slnil
  | rule hread hsource h ih => exact .cons _ ih
  | rejection hread h ih => exact .cons_cons _ ih

end Interleaved

private theorem foldl_push (book : Book) (later : List Rule) :
    later.foldl push book = { book with rules := book.rules ++ later } := by
  induction later generalizing book with
  | nil => simp
  | cons rule later ih =>
    rw [List.foldl_cons, ih]
    simp [push]

/-- A lenient load accounts for each line of the file that is meant as a rule, and for nothing else:
once, in order, and under its number. It gives one notice of each rejection, and rules that are
added later leave what was loaded as it is. -/
theorem readLenient_accounts (text : String) :
    (∀ line, line ∈ Line.rulesOfFile text ↔ line.StandsIn text ∧
      ∃ blanks c rest, line.text.toList = blanks ++ c :: rest ∧ AllBlank blanks ∧
        isBlank c = false ∧ c ≠ '#') ∧
    (Line.rulesOfFile text).Pairwise (fun a b => a.number < b.number) ∧
    Interleaved (Line.rulesOfFile text) (readLenient text).value.rules
      (readLenient text).value.rejected ∧
    (readLenient text).value.rejected.Pairwise (fun a b => a.line.number < b.line.number) ∧
    (readLenient text).value.size + (readLenient text).value.rejected.length =
      (Line.rulesOfFile text).length ∧
    (readLenient text).notices = (readLenient text).value.rejected.map .skipped ∧
    ∀ later : List Rule, later.foldl push (readLenient text).value =
      { rules := (readLenient text).value.rules ++ later
        rejected := (readLenient text).value.rejected } := by
  have hordered := Line.pairwise_rulesOfFile text
  have hinterleaved := interleaved_filterMap (Line.rulesOfFile text)
  rw [readLenient_eq]
  refine ⟨?_, hordered, hinterleaved, ?_, hinterleaved.length_eq, rfl, ?_⟩
  · intro line
    rw [Line.rulesOfFile, List.mem_filter, decide_eq_true_eq, Line.mem_ofFile_iff,
      Line.holdsRule_iff]
  · rw [← List.pairwise_map (f := Rejection.line) (R := fun a b => a.number < b.number)]
    exact hordered.sublist hinterleaved.map_line_sublist
  · intro later
    exact foldl_push _ later

end Book

end Rebate
