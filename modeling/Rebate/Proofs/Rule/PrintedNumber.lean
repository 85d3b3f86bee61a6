import Mathlib.Logic.Function.Basic
import Rebate.Proofs.Decimal.ReadPrinted
import Rebate.Proofs.Rule.LiteralOrder

/-!
Numbers that are printed and read again. The text of a decimal is a numeral of just its digits, so
that it comes back with its scale from between any blanks. In quotation marks to the right of the
total such a text asks for a number, and to the left of it for a text.
-/

set_option autoImplicit false
set_option relaxedAutoImplicit false

namespace Rebate

open Text

namespace Decimal

def quotation (d : Decimal) : List Char :=
  '"' :: (Value.number d).toText.toList ++ ['"']

private theorem ofChars?_toText (d : Decimal) : ofChars? (Value.number d).toText.toList = some d :=
  d.ofChars?_toString

private theorem toText_injective :
    Function.Injective fun d : Decimal => (Value.number d).toText := by
  intro a b h
  have hread : ofChars? (Value.number a).toText.toList = some b :=
    (congrArg (fun text : String => ofChars? text.toList) h).trans (ofChars?_toText b)
  exact Option.some.inj ((ofChars?_toText a).symm.trans hread)

private theorem eq_iff_toRat_eq_and_scale_eq {a b : Decimal} :
    a = b ↔ a.toRat = b.toRat ∧ a.scale = b.scale := by
  constructor
  · rintro rfl
    exact ⟨rfl, rfl⟩
  · exact fun h => eq_of_toRat_eq h.1 h.2

private theorem spelled_quotation (d : Decimal) :
    (Operand.const (.text (Value.number d).toText)).Spelled d.quotation := by
  have hspelled := Operand.spelled_quotation .nil (ofChars?_toText d) .nil
  rw [quotation]
  simpa only [List.nil_append, List.append_nil, String.ofList_toList] using hspelled

end Decimal

private theorem Operand.Written.condition_read {a : Operand} {text : String}
    (h : a.Written text.toList) : Condition.read text = .ok a.toCondition := by
  have houtline : Outline.Written [[⟨0, .single a⟩]] text.toList := .one (.one (.plain (.single h)))
  have hnesting : Outline.nesting [[⟨0, .single a⟩]] ≤ Outline.maxNesting := by
    simp [Outline.nesting, Group.nesting]
  rw [Condition.read, houtline.read hnesting]
  rfl

namespace Rule

variable {d discount : Decimal} {number : List Char}

private theorem evaluate_total_eq_text (hnumber : Decimal.ofChars? number = some discount) :
    ∃ rule, read (comparisonText "valor".toList .eq d.quotation number) = .ok rule ∧
      ∀ p, rule.evaluate p = .ok (if p.total.toRat = d.toRat then some discount else none) := by
  have htotal : (Operand.var "valor").Spelled "valor".toList := Operand.spelled_fact (by decide)
  have hwritten := written_comparisonText (r := .eq) htotal d.spelled_quotation hnumber
  refine ⟨_, hwritten.read_comparison, fun p => ?_⟩
  have hd : (Value.text (Value.number d).toText).toDecimal? = some d := by
    have hbetween := Value.toDecimal?_between .nil (Decimal.ofChars?_toText d) .nil
    simpa only [List.nil_append, List.append_nil, String.ofList_toList] using hbetween
  have hholds : Relation.eq.Holds p.total d ↔ p.total.toRat = d.toRat :=
    Relation.holds_iff_relates .eq p.total d
  rw [evaluate_comparison rfl rfl hd]
  simp only [hholds]

private theorem evaluate_text_comparison {left right : Condition} {source s : String} {p : Purchase}
    {v : Value} (hleft : left.eval p = .ok (.text s)) (hright : right.eval p = .ok v) :
    evaluate { condition := .compare left .eq right, discount, source } p =
      .ok (if s = v.toText then some discount else none) := by
  have hcompare := Condition.eval_compare hleft hright (Value.compare_text s v)
  have hrule := @Condition.ruleEvaluate_of_eval ⟨_, discount, source⟩ p _ hcompare
  simpa only [decide_eq_true_eq] using hrule

private theorem evaluate_text_eq_total (hnumber : Decimal.ofChars? number = some discount) :
    ∃ rule, read (comparisonText d.quotation .eq "valor".toList number) = .ok rule ∧
      ∀ p, rule.evaluate p =
        .ok (if p.total.toRat = d.toRat ∧ p.total.scale = d.scale then some discount
          else none) := by
  have htotal : (Operand.var "valor").Spelled "valor".toList := Operand.spelled_fact (by decide)
  have hwritten := written_comparisonText (r := .eq) d.spelled_quotation htotal hnumber
  refine ⟨_, hwritten.read_comparison, fun p => ?_⟩
  have hsame : (Value.number d).toText = (Value.number p.total).toText ↔
      p.total.toRat = d.toRat ∧ p.total.scale = d.scale := by
    rw [Decimal.toText_injective.eq_iff, eq_comm, Decimal.eq_iff_toRat_eq_and_scale_eq]
  rw [evaluate_text_comparison rfl rfl]
  simp only [hsame]

/-- A decimal is read back from its text, with its scale and whatever the blanks around it, so that
no other decimal has this text. Quoted to the right of the total the text stands for the number, and
only to the left of it for the way the number is written, too. -/
theorem printed_roundTrip (d : Decimal) :
    (∀ before after : String, AllBlank before.toList → AllBlank after.toList →
      (Value.text (before ++ (Value.number d).toText ++ after)).toDecimal? = some d ∧
      (∀ fragment, Operand.read fragment (before ++ (Value.number d).toText ++ after).toList =
        .ok (.const (.number d))) ∧
      Condition.read (before ++ (Value.number d).toText ++ after) = .ok (.const (.number d))) ∧
    (∀ other : Decimal, (Value.number other).toText = (Value.number d).toText → other = d) ∧
    ∀ (number : List Char) (discount : Decimal), Decimal.ofChars? number = some discount →
      (∃ rule, read (comparisonText "valor".toList .eq d.quotation number) = .ok rule ∧
        ∀ p, rule.evaluate p = .ok (if p.total.toRat = d.toRat then some discount else none)) ∧
      ∃ rule, read (comparisonText d.quotation .eq "valor".toList number) = .ok rule ∧
        ∀ p, rule.evaluate p =
          .ok (if p.total.toRat = d.toRat ∧ p.total.scale = d.scale
            then some discount else none) := by
  refine ⟨fun before after hbefore hafter => ?_, fun other h => Decimal.toText_injective h,
    fun number discount hnumber =>
      ⟨evaluate_total_eq_text hnumber, evaluate_text_eq_total hnumber⟩⟩
  have hsplit : (before ++ (Value.number d).toText ++ after).toList =
      before.toList ++ (Value.number d).toText.toList ++ after.toList := by
    rw [String.toList_append, String.toList_append]
  have hread := d.ofChars?_toText
  have hwritten : (Operand.const (.number d)).Written
      (before ++ (Value.number d).toText ++ after).toList :=
    hsplit ▸ .between hbefore (.number hread) hafter
  refine ⟨?_, hwritten.read, hwritten.condition_read⟩
  rw [← String.ofList_toList (s := before ++ _ ++ after), hsplit]
  exact Value.toDecimal?_between hbefore hread hafter

def padded : Decimal where
  coeff := 79228162514264337593543950330
  scale := 1
  coeff_lt := by decide
  scale_le := by decide

def bare : Decimal where
  coeff := 7922816251426433759354395033
  scale := 0
  coeff_lt := by decide
  scale_le := Nat.zero_le _

theorem printed_roundTrip_padded :
    AllBlank "\t\u3000".toList ∧ AllBlank " ".toList ∧
      (Value.text "\t\u30007922816251426433759354395033.0 ").toDecimal? = some padded ∧
      Condition.read "\t\u30007922816251426433759354395033.0 " = .ok (.const (.number padded)) ∧
      Decimal.ofChars? "10".toList = some (.ofInt64 10) ∧
      (∃ rule, read "valor = \"7922816251426433759354395033.0\" ENTAO 10" = .ok rule ∧
        rule.evaluate { total := bare } = .ok (some (.ofInt64 10))) ∧
      ∃ rule, read "\"7922816251426433759354395033.0\" = valor ENTAO 10" = .ok rule ∧
        rule.evaluate { total := bare } = .ok none ∧
        rule.evaluate { total := padded } = .ok (some (.ofInt64 10)) := by
  have hbefore : AllBlank "\t\u3000".toList := by decide
  have hafter : AllBlank " ".toList := by decide
  have hnumber : Decimal.ofChars? "10".toList = some (.ofInt64 10) := by decide
  have hsame : bare.toRat = padded.toRat := Decimal.equiv_iff_toRat_eq.mp (by decide)
  have hscale : bare.scale ≠ padded.scale := by decide
  have htext : "\t\u3000" ++ (Value.number padded).toText ++ " " =
      "\t\u30007922816251426433759354395033.0 " := by decide +kernel
  have hright : comparisonText "valor".toList .eq padded.quotation "10".toList =
      "valor = \"7922816251426433759354395033.0\" ENTAO 10" := by decide +kernel
  have hleft : comparisonText padded.quotation .eq "valor".toList "10".toList =
      "\"7922816251426433759354395033.0\" = valor ENTAO 10" := by decide +kernel
  obtain ⟨hbetween, -, hrules⟩ := printed_roundTrip padded
  obtain ⟨hvalue, -, hcondition⟩ := hbetween _ _ hbefore hafter
  obtain ⟨⟨rule, hread, heval⟩, rule', hread', heval'⟩ := hrules _ _ hnumber
  rw [htext] at hvalue hcondition
  rw [hright] at hread
  rw [hleft] at hread'
  refine ⟨hbefore, hafter, hvalue, hcondition, hnumber, ⟨rule, hread, ?_⟩, rule', hread', ?_, ?_⟩
  · rw [heval, if_pos hsame]
  · rw [heval', if_neg fun h => hscale h.2]
  · rw [heval', if_pos ⟨rfl, rfl⟩]

end Rule

end Rebate
