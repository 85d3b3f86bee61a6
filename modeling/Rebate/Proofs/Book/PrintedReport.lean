import Rebate.Proofs.Book.BestDiscount
import Rebate.Proofs.Book.Loading
import Rebate.Proofs.Condition.Inquiry
import Rebate.Proofs.Decimal.ReadPrinted
import Rebate.Proofs.Rule.NormalForm

/-!
The printed report of a book that was loaded. It has one line for each rule and one for the best
discount, and no other line feeds than those between them: the text of a rule is a line of the
file, and a fault names nothing but a variable, which is one token of that line.
-/

set_option autoImplicit false
set_option relaxedAutoImplicit false

namespace Rebate

open Text

def OneLine (text : String) : Prop :=
  '\n' ∉ text.toList

instance (text : String) : Decidable (OneLine text) :=
  inferInstanceAs (Decidable (¬ _))

/-- The line of a report that tells what became of a rule. -/
inductive Rule.ReportedAs (p : Purchase) (rule : Rule) : String → Prop
  | applied {discount : Decimal} (heval : rule.evaluate p = .ok (some discount))
      (hpositive : 0 < discount) :
      ReportedAs p rule ("[applied] " ++ rule.source ++ " -> " ++ toString discount ++ "%")
  | notApplied {granted : Option Decimal} (heval : rule.evaluate p = .ok granted)
      (hnone : ∀ discount ∈ granted, ¬ 0 < discount) :
      ReportedAs p rule ("[not applied] " ++ rule.source)
  | failed {fault : Fault} (heval : rule.evaluate p = .error fault) :
      ReportedAs p rule ("[failed] " ++ rule.source ++ ": " ++ fault.message)

/-- The lines of a printed report: what stands between its line feeds. -/
def Report.printedLines (report : Report) : List String :=
  ((toString report).split '\n').toList.map String.Slice.copy

private theorem OneLine.append {left right : String} (hleft : OneLine left)
    (hright : OneLine right) : OneLine (left ++ right) := by
  rw [OneLine, String.toList_append, List.mem_append, not_or]
  exact ⟨hleft, hright⟩

namespace Inquiry

variable {α β : Type} {x : Inquiry α} {f : α → Inquiry β} {name : String}

private theorem mem_names_bind (h : name ∈ (x >>= f).names) :
    name ∈ x.names ∨ ∃ a, name ∈ (f a).names := by
  simp only [Bind.bind] at h
  cases hx : x.result with
  | error fault =>
    simp only [hx] at h
    exact Or.inl h
  | ok a =>
    simp only [hx, List.mem_append] at h
    exact h.imp_right fun h => ⟨a, h⟩

private theorem mem_names_lift_bind {step : Except Fault α}
    (h : name ∈ (liftM step >>= f : Inquiry β).names) : ∃ a, name ∈ (f a).names := by
  refine (mem_names_bind h).resolve_left fun hstep => ?_
  cases hstep

end Inquiry

namespace Condition

private theorem var_mem_parts {p : Purchase} {e : Condition} {name : String}
    (h : name ∈ (e.inquire p).names) : var name ∈ e.parts := by
  -- The names of a computation are those of its steps, and only a variable is a step that asks.
  induction e with
  | const v => cases h
  | var own =>
    obtain rfl : name = own := List.mem_singleton.mp h
    exact List.mem_cons_self
  | compare left r right ihleft ihright =>
    rw [parts, List.mem_cons, List.mem_append]
    rcases Inquiry.mem_names_bind h with hleft | ⟨v, h⟩
    · exact Or.inr (Or.inl (ihleft hleft))
    rcases Inquiry.mem_names_bind h with hright | ⟨w, h⟩
    · exact Or.inr (Or.inr (ihright hright))
    obtain ⟨b, hnone⟩ := Inquiry.mem_names_lift_bind h
    cases hnone
  | join left c right ihleft ihright =>
    rw [parts, List.mem_cons, List.mem_append]
    rcases Inquiry.mem_names_bind h with hleft | ⟨v, h⟩
    · exact Or.inr (Or.inl (ihleft hleft))
    obtain ⟨decided, h⟩ := Inquiry.mem_names_lift_bind h
    split at h
    · rcases Inquiry.mem_names_bind h with hright | ⟨w, h⟩
      · exact Or.inr (Or.inr (ihright hright))
      obtain ⟨b, hnone⟩ := Inquiry.mem_names_lift_bind h
      cases hnone
    · cases h
  | negate part ih =>
    rw [parts, List.mem_cons]
    rcases Inquiry.mem_names_bind h with hpart | ⟨v, h⟩
    · exact Or.inr (ih hpart)
    obtain ⟨b, hnone⟩ := Inquiry.mem_names_lift_bind h
    cases hnone

end Condition

private theorem Kind.oneLine (k : Kind) : OneLine (toString k) := by
  cases k <;> decide

private theorem Relation.oneLine (r : Relation) : OneLine (toString r) := by
  cases r <;> decide

private theorem Site.oneLine (site : Site) : OneLine (toString site) := by
  cases site with
  | comparison r =>
    have hstart : OneLine "comparison '" := by decide
    exact (hstart.append r.oneLine).append (by decide)
  | joint c => cases c <;> decide
  | negation => decide

private theorem Fault.oneLine_message {fault : Fault}
    (h : ∀ name, fault = .unknownVariable name → OneLine name) : OneLine fault.message := by
  cases fault with
  | unknownVariable name =>
    have hstart : OneLine "unknown variable '" := by decide
    exact (hstart.append (h name rfl)).append (by decide)
  | typeMismatch site expected found =>
    have hstart : OneLine "type mismatch in " := by decide
    have hsite := hstart.append site.oneLine
    have hexpected := (hsite.append (by decide : OneLine ": expected ")).append expected.oneLine
    exact (hexpected.append (by decide : OneLine ", found ")).append found.oneLine
  | unsupportedComparison r kind =>
    have hstart : OneLine "operator '" := by decide
    have hkind := (hstart.append r.oneLine).append (by decide : OneLine "' is not supported for ")
    exact (hkind.append kind.oneLine).append (by decide)
  | nonBooleanCondition found =>
    have hstart : OneLine "rule condition must be boolean, found " := by decide
    exact hstart.append found.oneLine

private theorem Decimal.oneLine (d : Decimal) : OneLine (toString d) := by
  intro hmem
  have hpart := Decimal.isPart_of_mem d.ofChars?_toString hmem
  exact absurd hpart (by decide)

namespace Rule

variable {rule : Rule} {source line : String} {p : Purchase}

private theorem isName_of_read {name : String} (h : read source = .ok rule)
    (hname : .var name ∈ rule.condition.parts) : IsName name.toList := by
  obtain ⟨head, tail, outline, hsplit, houtline, -, hcondition, -⟩ := read_eq_ok h
  have hhead : head ∈ thenWord.split source.toList := hsplit ▸ List.mem_cons_self
  have hthen : ¬ thenWord.word <:+: trim head := by
    intro hmem
    exact Keyword.not_infix_of_mem_split hhead (hmem.trans (infix_trim head))
  exact Outline.admissible_of_read hthen houtline (.var name) (hcondition ▸ hname)

private theorem oneLine_fault {fault : Fault} (h : read source = .ok rule)
    (hfault : rule.evaluate p = .error fault) : OneLine fault.message := by
  refine Fault.oneLine_message fun name hname => ?_
  subst hname
  have hasked := (Condition.mem_names_of_unknownVariable (eval_of_evaluate hfault)).1
  have hplain := (isName_of_read h (Condition.var_mem_parts hasked)).plain
  exact hplain.not_mem (Or.inl (by decide))

private theorem reportedAs_verdict (p : Purchase) (rule : Rule) :
    rule.ReportedAs p (toString (rule.verdict p)) := by
  have hverdict : rule.verdict p = { source := rule.source, outcome := rule.outcome p } := rfl
  rw [hverdict, outcome]
  cases heval : rule.evaluate p with
  | error fault => exact .failed heval
  | ok granted =>
    cases granted with
    | none => exact .notApplied heval (by simp)
    | some discount =>
      by_cases hpositive : 0 < discount
      · simp only [if_pos hpositive]
        exact .applied heval hpositive
      · simp only [if_neg hpositive]
        exact .notApplied heval (by simpa using hpositive)

private theorem ReportedAs.oneLine (h : rule.ReportedAs p line) (hsource : OneLine rule.source)
    (hfault : ∀ fault, rule.evaluate p = .error fault → OneLine fault.message) : OneLine line := by
  cases h with
  | @applied discount heval hpositive =>
    have hstart : OneLine "[applied] " := by decide
    have hrule := (hstart.append hsource).append (by decide : OneLine " -> ")
    exact (hrule.append discount.oneLine).append (by decide)
  | notApplied heval hnone =>
    have hstart : OneLine "[not applied] " := by decide
    exact hstart.append hsource
  | failed heval =>
    have hstart : OneLine "[failed] " := by decide
    exact ((hstart.append hsource).append (by decide)).append (hfault _ heval)

end Rule

namespace Text

private theorem LineBehind.not_mem {text before line : List Char}
    (h : LineBehind text before line) : '\n' ∉ line := by
  cases h with
  | @ended body after htext hstart hbody =>
    rw [dropReturn]
    split
    · exact fun hmem => hbody ((List.dropLast_sublist body).subset hmem)
    · exact hbody
  | last htext hstart hbody hne => exact hbody

end Text

private theorem Line.StandsIn.oneLine {file : String} {line : Line} (h : line.StandsIn file) :
    OneLine line.text := by
  obtain ⟨before, hline, -⟩ := h
  exact hline.not_mem

namespace Book

variable {text : String} {book : Book} {rule : Rule}

private theorem rules_eq_of_load (h : read text = .ok book ∨ (readLenient text).value = book) :
    book.rules = (readLenient text).value.rules := by
  rcases h with h | rfl
  · rw [read_eq_match] at h
    split at h
    · exact (congrArg rules (Except.ok.inj h)).symm
    · cases h
  · rfl

private theorem exists_line_of_load (h : read text = .ok book ∨ (readLenient text).value = book)
    (hrule : rule ∈ book.rules) :
    ∃ line : Line, line.StandsIn text ∧ Rule.read line.text = .ok rule := by
  rw [rules_eq_of_load h, readLenient_eq] at hrule
  obtain ⟨line, hline, hread⟩ := List.mem_filterMap.mp hrule
  refine ⟨line, Line.mem_ofFile_iff.mp (List.mem_of_mem_filter hline), ?_⟩
  rw [Line.rule?] at hread
  cases hresult : Rule.read line.text with
  | error error => simp [hresult, Except.toOption] at hread
  | ok other =>
    rw [hresult] at hread
    exact congrArg _ (Option.some.inj hread)

private theorem oneLine_of_load (h : read text = .ok book ∨ (readLenient text).value = book)
    (p : Purchase) : ∀ rule ∈ book.rules,
      (∃ line : Line, line.StandsIn text ∧ line.text = rule.source) ∧ OneLine rule.source ∧
        ∀ fault, rule.evaluate p = .error fault → OneLine fault.message := by
  intro rule hrule
  obtain ⟨line, hstands, hread⟩ := exists_line_of_load h hrule
  have hsource : rule.source = line.text := Rule.source_of_read hread
  refine ⟨⟨line, hstands, hsource.symm⟩, hsource ▸ hstands.oneLine, fun fault hfault => ?_⟩
  exact Rule.oneLine_fault hread hfault

end Book

private theorem Report.printedLines_eq {report : Report}
    (h : ∀ v ∈ report.verdicts, OneLine (toString v)) : report.printedLines = report.lines := by
  have hlines : ∀ line ∈ report.lines, '\n' ∉ line.toList := by
    intro line hline
    rcases List.mem_append.mp hline with hline | hline
    · obtain ⟨v, hv, rfl⟩ := List.mem_map.mp hline
      exact h v hv
    · obtain rfl := List.mem_singleton.mp hline
      have hstart : OneLine "best discount: " := by decide
      exact (hstart.append report.best.oneLine).append (by decide)
  have hne : report.lines ≠ [] := by simp [lines]
  have hsplit := String.toList_split_intercalate hlines
  rw [if_neg hne] at hsplit
  exact hsplit

namespace Book

/-- The printed report on a book that was loaded has a line for each rule, which tells what became
of it, and one for the best discount. All of a rule's line is printed there as it stands in the
file, and no fault of a rule breaks it. -/
theorem evaluate_printedLines {text : String} {book : Book}
    (h : read text = .ok book ∨ (readLenient text).value = book) (p : Purchase) :
    (book.evaluate p).value.printedLines =
        (book.evaluate p).value.verdicts.map toString ++
          ["best discount: " ++ toString (book.evaluate p).value.best ++ "%"] ∧
      (book.evaluate p).value.printedLines.length = book.size + 1 ∧
      List.Forall₂ (Rule.ReportedAs p) book.rules ((book.evaluate p).value.verdicts.map toString) ∧
      ∀ rule ∈ book.rules,
        (∃ line : Line, line.StandsIn text ∧ line.text = rule.source) ∧ OneLine rule.source ∧
          ∀ fault, rule.evaluate p = .error fault → OneLine fault.message := by
  have hloaded := oneLine_of_load h p
  have hverdicts : ∀ v ∈ (book.evaluate p).value.verdicts, OneLine (toString v) := by
    rw [value_evaluate]
    intro v hv
    obtain ⟨rule, hrule, rfl⟩ := List.mem_map.mp hv
    obtain ⟨-, hsource, hfault⟩ := hloaded rule hrule
    exact (rule.reportedAs_verdict p).oneLine hsource hfault
  have hprinted := Report.printedLines_eq hverdicts
  refine ⟨hprinted, ?_, ?_, hloaded⟩
  · rw [hprinted, Report.lines, value_evaluate, List.length_append, List.length_map,
      List.length_map]
    rfl
  · rw [value_evaluate, List.forall₂_map_right_iff, List.forall₂_map_right_iff, List.forall₂_same]
    exact fun rule _ => rule.reportedAs_verdict p

def couponText : String :=
  "cupom\"1 ENTAO 7\r\n\n# fim\ntrue ENTAO 10\r"

def couponBook : Book where
  rules :=
    [{ condition := .var "cupom\"1", discount := .ofInt64 7, source := "cupom\"1 ENTAO 7" },
     { condition := .const (.boolean true), discount := .ofInt64 10, source := "true ENTAO 10\r" }]

theorem evaluate_printedLines_coupon :
    read couponText = .ok couponBook ∧
      (couponBook.evaluate {}).value.printedLines =
        ["[failed] cupom\"1 ENTAO 7: unknown variable 'cupom\"1'",
          "[applied] true ENTAO 10\r -> 10%", "best discount: 10%"] ∧
      OneLine "true ENTAO 10\r" := by
  have hread : read couponText = .ok couponBook := by decide +kernel
  obtain ⟨hprinted, -, -, hrules⟩ := evaluate_printedLines (Or.inl hread) {}
  obtain ⟨-, hsource, -⟩ := hrules _ (List.mem_cons_of_mem _ List.mem_cons_self)
  refine ⟨hread, ?_, hsource⟩
  rw [hprinted]
  decide +kernel

end Book

end Rebate
