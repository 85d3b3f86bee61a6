import Rebate.Proofs.Condition.Inquiry
import Rebate.Proofs.Condition.Kinds
import Rebate.Proofs.Decimal.Exact
import Rebate.Proofs.Rule.ReadWritten

/-!
Rules that compare two numbers. Each of the two is the quantity, the total or a numeral whose
number some decimal denotes, and the numeral on the right may be quoted. Such a rule is read with
any blanks around the numbers, it has an answer for every purchase, and it grants its discount just
if the exact numbers stand in the relation.
-/

set_option autoImplicit false
set_option relaxedAutoImplicit false

namespace Rebate

open Text

namespace Relation

def Relates : Relation → Rat → Rat → Prop
  | gt, x, y => y < x
  | lt, x, y => x < y
  | eq, x, y => x = y
  | ge, x, y => y ≤ x
  | le, x, y => x ≤ y

instance (r : Relation) (x y : Rat) : Decidable (r.Relates x y) := by
  cases r <;> unfold Relates <;> infer_instance

theorem holds_iff_relates (r : Relation) (a b : Decimal) :
    r.Holds a b ↔ r.Relates a.toRat b.toRat := by
  cases r with
  | gt => exact Decimal.lt_iff_toRat_lt
  | lt => exact Decimal.lt_iff_toRat_lt
  | eq => exact Decimal.equiv_iff_toRat_eq
  | ge => exact Decimal.le_iff_toRat_le
  | le => exact Decimal.le_iff_toRat_le

end Relation

theorem Operand.spelled_fact {name : String} (h : name ∈ Purchase.names) :
    (Operand.var name).Spelled name.toList := by
  rw [← String.ofList_toList (s := name), String.toList_ofList]
  simp only [Purchase.names, List.mem_cons, List.not_mem_nil, or_false] at h
  rcases h with rfl | rfl | rfl | rfl <;>
    exact .name (by decide) (by decide) (Keyword.cut?_eq_none_iff.mp (by decide)) (by decide)
      (by decide) (by simp) (by decide) (by intro c; cases c <;> decide)

section

variable {d : Decimal} {before token after : List Char}

theorem Operand.spelled_quotation (hbefore : AllBlank before)
    (h : Decimal.ofChars? token = some d) (hafter : AllBlank after) :
    (Operand.const (.text (String.ofList (before ++ token ++ after)))).Spelled
      ('"' :: (before ++ token ++ after) ++ ['"']) := by
  have hforeign : ∀ c, isBlank c = false → Numeral.isPart c = false →
      c ∉ before ++ token ++ after := by
    intro c hblank hpart hmem
    rw [List.mem_append, List.mem_append] at hmem
    rcases hmem with (hmem | hmem) | hmem
    · exact absurd (hbefore c hmem) (by simp [hblank])
    · exact absurd (Decimal.isPart_of_mem h hmem) (by simp [hpart])
    · exact absurd (hafter c hmem) (by simp [hblank])
  apply Operand.Spelled.quotation
  · intro c hc
    refine ⟨?_, ?_, ?_⟩ <;> rintro rfl <;> exact hforeign _ (by decide) (by decide) hc
  · intro c hword
    cases c with
    | and => exact hforeign 'E' (by decide) (by decide) (hword.subset (by decide))
    | or => exact hforeign 'U' (by decide) (by decide) (hword.subset (by decide))
  · intro hword
    exact hforeign 'E' (by decide) (by decide) (hword.subset (by decide))

theorem Value.toDecimal?_between (hbefore : AllBlank before)
    (h : Decimal.ofChars? token = some d) (hafter : AllBlank after) :
    (Value.text (String.ofList (before ++ token ++ after))).toDecimal? = some d := by
  have htight : Tight token := (Operand.Spelled.number h).tight
  rw [toDecimal?, String.toList_ofList, htight.trim_eq hbefore hafter]
  exact h

end

inductive Amount where
  | quantity
  | total
  | literal (n : Numeral)

namespace Amount

def toRat (p : Purchase) : Amount → Rat
  | quantity => p.quantity.toInt
  | total => p.total.toRat
  | literal n => n.toRat

inductive Spelled : Amount → List Char → Prop
  | quantity : Spelled quantity "quantidade".toList
  | total : Spelled total "valor".toList
  | literal {n : Numeral} {token : List Char} {a : Decimal}
      (h : Numeral.ofChars? token = some n) (hexact : a.toRat = n.toRat) :
      Spelled (literal n) token

/-- The tokens for an amount on the right, where a numeral may stand in quotation marks, with blanks
around it. -/
inductive SpelledRight : Amount → List Char → Prop
  | bare {amount : Amount} {token : List Char} (h : amount.Spelled token) :
      SpelledRight amount token
  | quoted {n : Numeral} {before token after : List Char} (hbefore : AllBlank before)
      (h : (literal n).Spelled token) (hafter : AllBlank after) :
      SpelledRight (literal n) ('"' :: (before ++ token ++ after) ++ ['"'])

variable {amount : Amount} {token : List Char}

private theorem exists_ofChars? {n : Numeral} (h : (literal n).Spelled token) :
    ∃ a, Decimal.ofChars? token = some a ∧ a.toRat = n.toRat := by
  cases h with
  | literal htoken hexact =>
    obtain ⟨a, hread, ha⟩ := Decimal.exists_ofNumeral? hexact
    refine ⟨a, ?_, ha⟩
    rw [Decimal.ofChars?, htoken]
    exact hread

private theorem toRat_ofInt64 (n : Int64) : (Decimal.ofInt64 n).toRat = n.toInt :=
  Rat.mkRat_one _

private theorem Spelled.exists_operand (h : amount.Spelled token) :
    ∃ a : Operand, a.Spelled token ∧
      ∀ p, ∃ d, a.toCondition.eval p = .ok (.number d) ∧ d.toRat = amount.toRat p := by
  cases h with
  | quantity =>
    refine ⟨.var "quantidade", Operand.spelled_fact (by decide), fun p => ?_⟩
    exact ⟨.ofInt64 p.quantity, rfl, toRat_ofInt64 p.quantity⟩
  | total => exact ⟨.var "valor", Operand.spelled_fact (by decide), fun p => ⟨p.total, rfl, rfl⟩⟩
  | literal htoken hexact =>
    obtain ⟨d, hread, hd⟩ := exists_ofChars? (.literal htoken hexact)
    exact ⟨.const (.number d), .number hread, fun p => ⟨d, rfl, hd⟩⟩

private theorem SpelledRight.exists_operand (h : amount.SpelledRight token) :
    ∃ a : Operand, a.Spelled token ∧
      ∀ p, ∃ v d, a.toCondition.eval p = .ok v ∧ v.toDecimal? = some d ∧
        d.toRat = amount.toRat p := by
  cases h with
  | bare h =>
    obtain ⟨a, hspelled, heval⟩ := h.exists_operand
    refine ⟨a, hspelled, fun p => ?_⟩
    obtain ⟨d, heval, hd⟩ := heval p
    exact ⟨.number d, d, heval, rfl, hd⟩
  | @quoted n before token after hbefore h hafter =>
    obtain ⟨d, hread, hd⟩ := exists_ofChars? h
    exact ⟨_, Operand.spelled_quotation hbefore hread hafter, fun p =>
      ⟨_, d, rfl, Value.toDecimal?_between hbefore hread hafter, hd⟩⟩

end Amount

namespace Rule

/-- The texts of a rule that compares two amounts, with any blanks around the amounts and around the
number of the discount. -/
inductive Compares (left : Amount) (r : Relation) (right : Amount) (discount : Decimal) :
    List Char → Prop
  | intro {before₁ token₁ after₁ before₂ token₂ after₂ before₃ number after₃ : List Char}
      (hbefore₁ : AllBlank before₁) (hleft : left.Spelled token₁) (hafter₁ : AllBlank after₁)
      (hbefore₂ : AllBlank before₂) (hright : right.SpelledRight token₂)
      (hafter₂ : AllBlank after₂) (hbefore₃ : AllBlank before₃)
      (hnumber : Decimal.ofChars? number = some discount) (hafter₃ : AllBlank after₃) :
      Compares left r right discount
        (before₁ ++ token₁ ++ after₁ ++ r.symbol.word ++ (before₂ ++ token₂ ++ after₂) ++
          thenWord.word ++ (before₃ ++ number ++ after₃))

theorem evaluate_comparison {left right : Condition} {r : Relation} {discount a b : Decimal}
    {source : String} {p : Purchase} {v : Value} (hleft : left.eval p = .ok (.number a))
    (hright : right.eval p = .ok v) (hv : v.toDecimal? = some b) :
    evaluate { condition := .compare left r right, discount, source } p =
      .ok (if r.Holds a b then some discount else none) := by
  have hcompare := Condition.eval_compare hleft hright (Value.compare_number hv a r)
  have hrule := @Condition.ruleEvaluate_of_eval ⟨_, discount, source⟩ p _ hcompare
  simpa only [decide_eq_true_eq] using hrule

/-- A rule that compares two amounts is read, and it grants its discount to just those purchases for
which the exact numbers stand in the relation. -/
theorem evaluate_compares {left right : Amount} {r : Relation} {discount : Decimal}
    {source : String} (h : Compares left r right discount source.toList) :
    ∃ rule, read source = .ok rule ∧ ∀ p, rule.evaluate p =
      .ok (if r.Relates (left.toRat p) (right.toRat p) then some discount else none) := by
  generalize htext : source.toList = text at h
  obtain ⟨hbefore₁, hleft, hafter₁, hbefore₂, hright, hafter₂, hbefore₃, hnumber, hafter₃⟩ := h
  obtain ⟨a, ha, hleft⟩ := hleft.exists_operand
  obtain ⟨b, hb, hright⟩ := hright.exists_operand
  have hatom : Atom.Written (.comparison a r b) _ :=
    .comparison (.between hbefore₁ ha hafter₁) (.between hbefore₂ hb hafter₂)
  have houtline : Outline.Written [[⟨0, .comparison a r b⟩]] _ := .one (.one (.plain hatom))
  have hwritten : Written [[⟨0, .comparison a r b⟩]] discount source.toList :=
    htext ▸ .intro houtline hbefore₃ hnumber hafter₃
  refine ⟨_, hwritten.read_comparison, fun p => ?_⟩
  obtain ⟨d, heval, hd⟩ := hleft p
  obtain ⟨v, d', heval', hv, hd'⟩ := hright p
  have hholds : r.Holds d d' ↔ r.Relates (left.toRat p) (right.toRat p) := by
    rw [← hd, ← hd']
    exact r.holds_iff_relates d d'
  simp only [evaluate_comparison heval heval' hv, hholds]

def tenNumeral : Numeral where
  negative := false
  whole := .ofNatFixed 2 10
  fraction := .ofNatFixed 1 0

def bulkSource : String :=
  "quantidade>=\t\" 10.0\u00a0\" ENTAO +5."

theorem evaluate_compares_bulk :
    Compares .quantity .ge (.literal tenNumeral) (.ofInt64 5) bulkSource.toList ∧
      ∃ rule, read bulkSource = .ok rule ∧ ∀ p, rule.evaluate p =
        .ok (if Relation.ge.Relates (Amount.quantity.toRat p) ((Amount.literal tenNumeral).toRat p)
          then some (.ofInt64 5) else none) := by
  have htab : AllBlank ['\t'] := by decide
  have hspace : AllBlank [' '] := by decide
  have hwide : AllBlank ['\u00a0'] := by decide
  have hten : (Decimal.ofInt64 10).toRat = tenNumeral.toRat :=
    Decimal.toRat_eq_numeral_iff.mpr (by decide)
  have hliteral : (Amount.literal tenNumeral).Spelled "10.0".toList := .literal (by decide) hten
  have hnumber : Decimal.ofChars? "+5.".toList = some (.ofInt64 5) := by decide
  have hpieces : Compares .quantity .ge (.literal tenNumeral) (.ofInt64 5) _ :=
    .intro .nil .quantity .nil htab (.quoted hspace hliteral hwide) hspace hspace hnumber .nil
  have hsource : ∀ text, Compares .quantity .ge (.literal tenNumeral) (.ofInt64 5) text →
      text = bulkSource.toList →
      Compares .quantity .ge (.literal tenNumeral) (.ofInt64 5) bulkSource.toList :=
    fun _ h hsame => hsame ▸ h
  have hcompares := hsource _ hpieces (by decide +kernel)
  exact ⟨hcompares, evaluate_compares hcompares⟩

end Rule

end Rebate
