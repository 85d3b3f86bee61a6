import Rebate.Proofs.Book.BestDiscount
import Rebate.Proofs.Book.Loading
import Rebate.Proofs.Text.JoinedLines

/-!
Loading two files set one behind the other. If the first one ends where a line begins, both loads
give what they give for each file alone, put together, with the line numbers of the second file
raised by the line feeds of the first. So a report on both files is the two reports in turn, and its
best discount is the larger one of theirs.
-/

set_option autoImplicit false
set_option relaxedAutoImplicit false

namespace Rebate

open Text

def Rejection.shift (places : Nat) (rejection : Rejection) : Rejection :=
  { rejection with line := rejection.line.shift places }

def LineError.shift (places : Nat) (e : LineError) : LineError :=
  { e with number := e.number + places }

private theorem Line.rejection?_shift (places : Nat) (line : Line) :
    (line.shift places).rejection? = line.rejection?.map (Rejection.shift places) := by
  rw [rejection?, rejection?, shift]
  cases Rule.read line.text <;> rfl

namespace Book

variable {first second : String}

private theorem rules_append (hfirst : BeforeLine first.toList) :
    (readLenient (first ++ second)).value.rules =
      (readLenient first).value.rules ++ (readLenient second).value.rules := by
  simp only [readLenient_eq, Line.rulesOfFile_append hfirst, List.filterMap_append,
    List.filterMap_map]
  rfl

private theorem rejected_append (hfirst : BeforeLine first.toList) :
    (readLenient (first ++ second)).value.rejected =
      (readLenient first).value.rejected ++
        (readLenient second).value.rejected.map (Rejection.shift (first.toList.count '\n')) := by
  simp only [readLenient_eq, Line.rulesOfFile_append hfirst, List.filterMap_append,
    List.filterMap_map, List.map_filterMap, Function.comp_def, Line.rejection?_shift]

private theorem read_append (hfirst : BeforeLine first.toList) :
    read (first ++ second) =
      match read first, read second with
      | .error e, _ => .error e
      | .ok _, .error e => .error (e.shift (first.toList.count '\n'))
      | .ok a, .ok b => .ok { rules := a.rules ++ b.rules } := by
  rw [read_eq_match, read_eq_match, read_eq_match, rejected_append hfirst, rules_append hfirst]
  cases (readLenient first).value.rejected with
  | cons rejection later => rfl
  | nil =>
    cases (readLenient second).value.rejected with
    | cons rejection later => rfl
    | nil => rfl

/-- Every report on the joint book is the reports on two books in turn, and the best discount is the
larger one of theirs. -/
def Joins (a b joint : Book) : Prop :=
  ∀ p, (joint.evaluate p).value.verdicts =
      (a.evaluate p).value.verdicts ++ (b.evaluate p).value.verdicts ∧
    (joint.evaluate p).value.best = max (a.evaluate p).value.best (b.evaluate p).value.best

private theorem best_append (verdicts later : List Verdict) :
    (Report.mk (verdicts ++ later)).best =
      max (Report.mk verdicts).best (Report.mk later).best := by
  have happlied : (Report.mk (verdicts ++ later)).applied =
      (Report.mk verdicts).applied ++ (Report.mk later).applied := List.filterMap_append ..
  have hpositive : 0 ≤ (Report.mk verdicts).best := Decimal.le_foldl_max 0 _
  calc (Report.mk (verdicts ++ later)).best
      = (Report.mk later).applied.foldl max (Report.mk verdicts).best := by
        rw [Report.best, happlied, List.foldl_append]
        rfl
    _ = (Report.mk later).applied.foldl max (max (Report.mk verdicts).best 0) := by
        rw [Decimal.max_of_le hpositive]
    _ = max (Report.mk verdicts).best (Report.mk later).best := List.foldl_assoc

private theorem joins_of_rules {a b joint : Book} (h : joint.rules = a.rules ++ b.rules) :
    Joins a b joint := by
  intro p
  rw [value_evaluate, value_evaluate, value_evaluate, h, List.map_append]
  exact ⟨rfl, best_append _ _⟩

/-- Loading two files, the first of which ends where a line begins, is loading each of them and
putting the books together. -/
theorem load_append {first second : String} (hfirst : BeforeLine first.toList) :
    (readLenient (first ++ second)).value.rules =
        (readLenient first).value.rules ++ (readLenient second).value.rules ∧
      (readLenient (first ++ second)).value.rejected =
        (readLenient first).value.rejected ++
          (readLenient second).value.rejected.map (Rejection.shift (first.toList.count '\n')) ∧
      read (first ++ second) =
        (match read first, read second with
        | .error e, _ => .error e
        | .ok _, .error e => .error (e.shift (first.toList.count '\n'))
        | .ok a, .ok b => .ok { rules := a.rules ++ b.rules }) ∧
      Joins (readLenient first).value (readLenient second).value
        (readLenient (first ++ second)).value ∧
      ∀ a b joint, read first = .ok a → read second = .ok b → read (first ++ second) = .ok joint →
        Joins a b joint := by
  refine ⟨rules_append hfirst, rejected_append hfirst, read_append hfirst,
    joins_of_rules (rules_append hfirst), ?_⟩
  intro a b joint ha hb hjoint
  rw [read_append hfirst, ha, hb] at hjoint
  obtain rfl := Except.ok.inj hjoint
  exact joins_of_rules rfl

def tariffHead : String :=
  "# tarifa\nvalor > 100 ENTAO 5\r\n"

def tariffTail : String :=
  "primeiraCompra ENTAO 10\nvalor ENTAO"

theorem load_append_tariff :
    BeforeLine tariffHead.toList ∧ (∃ book, read tariffHead = .ok book) ∧
      read tariffTail = .error { number := 2, error := .invalidDiscount "" } ∧
      read (tariffHead ++ tariffTail) = .error { number := 4, error := .invalidDiscount "" } := by
  have hstart : BeforeLine tariffHead.toList :=
    Or.inr ⟨"# tarifa\nvalor > 100 ENTAO 5\r".toList, by decide⟩
  have hbook : (read tariffHead).toOption.isSome = true := by
    decide +kernel
  have htail : read tariffTail = .error { number := 2, error := .invalidDiscount "" } := by
    decide +kernel
  cases hhead : read tariffHead with
  | error e => simp [hhead, Except.toOption] at hbook
  | ok book =>
    have hread := (@load_append _ tariffTail hstart).2.2.1
    rw [hhead, htail] at hread
    exact ⟨hstart, ⟨book, rfl⟩, htail, hread⟩

end Book

end Rebate
