import Rebate.Rule.Basic

/-!
The kinds of conditions. A kind can be told from the tree alone, without a purchase, and a condition
that has one comes to a value of that kind for every purchase. So a rule whose condition is a truth
value by its kind is never at fault.
-/

set_option autoImplicit false
set_option relaxedAutoImplicit false

namespace Rebate

open Text

namespace Value

variable {v w : Value}

private theorem exists_number (h : v.kind = .number) : ∃ a, v = .number a := by
  cases v with
  | number a => exact ⟨a, rfl⟩
  | boolean b => cases h
  | text s => cases h

private theorem exists_boolean (h : v.kind = .boolean) : ∃ b, v = .boolean b := by
  cases v with
  | number a => cases h
  | boolean b => exact ⟨b, rfl⟩
  | text s => cases h

private theorem exists_text (h : v.kind = .text) : ∃ s, v = .text s := by
  cases v with
  | number a => cases h
  | boolean b => cases h
  | text s => exact ⟨s, rfl⟩

theorem compare_number {b : Decimal} (h : w.toDecimal? = some b) (a : Decimal) (r : Relation) :
    (number a).compare r w = .ok (decide (r.Holds a b)) := by
  rw [compare]
  simp only [h]

private theorem compare_boolean {b : Bool} (h : w.toBool? = some b) (a : Bool) :
    (boolean a).compare .eq w = .ok (decide (a = b)) := by
  rw [compare, h]
  rfl

theorem compare_text (s : String) (w : Value) :
    (text s).compare .eq w = .ok (decide (s = w.toText)) := rfl

end Value

namespace Condition

/-- The kinds of conditions. A comparison is a truth value if its left side has a kind that its
right side can be taken for; of the constants, a text can be taken for a number or a truth value
that it spells. Only numbers stand in relations other than equality. -/
inductive HasKind : Condition → Kind → Prop
  | const (v : Value) : HasKind (const v) v.kind
  | quantity : HasKind (var "quantidade") .number
  | total : HasKind (var "valor") .number
  | category : HasKind (var "categoria") .text
  | firstPurchase : HasKind (var "primeiraCompra") .boolean
  | numbers {left right : Condition} (r : Relation) (hleft : HasKind left .number)
      (hright : HasKind right .number) : HasKind (compare left r right) .boolean
  | numeral {left : Condition} {s : String} {a : Decimal} (r : Relation)
      (hleft : HasKind left .number) (hs : Decimal.ofChars? (trim s.toList) = some a) :
      HasKind (compare left r (const (.text s))) .boolean
  | truths {left right : Condition} (hleft : HasKind left .boolean)
      (hright : HasKind right .boolean) : HasKind (compare left .eq right) .boolean
  | truthWord {left : Condition} {s : String} (hleft : HasKind left .boolean)
      (hs : s = "true" ∨ s = "false") : HasKind (compare left .eq (const (.text s))) .boolean
  | texts {left right : Condition} {k : Kind} (hleft : HasKind left .text)
      (hright : HasKind right k) : HasKind (compare left .eq right) .boolean
  | join {left right : Condition} (c : Connective) (hleft : HasKind left .boolean)
      (hright : HasKind right .boolean) : HasKind (join left c right) .boolean
  | negate {part : Condition} (hpart : HasKind part .boolean) : HasKind (negate part) .boolean

variable {p : Purchase} {left right part : Condition}

theorem requireBool_eq_ok_iff {site : Site} {v : Value} {b : Bool} :
    requireBool site v = .ok b ↔ v = .boolean b := by
  cases v <;> simp [requireBool]

theorem eval_compare {v w : Value} {r : Relation} {b : Bool} (hleft : left.eval p = .ok v)
    (hright : right.eval p = .ok w) (hcompare : v.compare r w = .ok b) :
    (compare left r right).eval p = .ok (.boolean b) := by
  simp only [eval, hleft, hright, hcompare, bind, Except.bind]
  rfl

theorem eval_join {a b : Bool} (c : Connective) (hleft : left.eval p = .ok (.boolean a))
    (hright : right.eval p = .ok (.boolean b)) :
    (join left c right).eval p = .ok (.boolean (if a = c.neutral then b else a)) := by
  simp only [eval, hleft, hright, requireBool, bind, Except.bind]
  split <;> rfl

theorem eval_negate {b : Bool} (hpart : part.eval p = .ok (.boolean b)) :
    (negate part).eval p = .ok (.boolean !b) := by
  simp only [eval, hpart, requireBool, bind, Except.bind]
  rfl

private theorem HasKind.exists_eval {e : Condition} {k : Kind} (h : HasKind e k) (p : Purchase) :
    ∃ v, e.eval p = .ok v ∧ v.kind = k := by
  induction h with
  | const v => exact ⟨v, rfl, rfl⟩
  | quantity => exact ⟨.number (.ofInt64 p.quantity), rfl, rfl⟩
  | total => exact ⟨.number p.total, rfl, rfl⟩
  | category => exact ⟨.text p.category, rfl, rfl⟩
  | firstPurchase => exact ⟨.boolean p.firstPurchase, rfl, rfl⟩
  | numbers r _ _ ihleft ihright =>
    obtain ⟨v, hleft, hv⟩ := ihleft
    obtain ⟨w, hright, hw⟩ := ihright
    obtain ⟨a, rfl⟩ := Value.exists_number hv
    obtain ⟨b, rfl⟩ := Value.exists_number hw
    exact ⟨_, eval_compare hleft hright (Value.compare_number rfl a r), rfl⟩
  | @numeral left s b r _ hs ihleft =>
    obtain ⟨v, hleft, hv⟩ := ihleft
    obtain ⟨a, rfl⟩ := Value.exists_number hv
    have hnumber : (Value.text s).toDecimal? = some b := hs
    exact ⟨_, eval_compare hleft rfl (Value.compare_number hnumber a r), rfl⟩
  | truths _ _ ihleft ihright =>
    obtain ⟨v, hleft, hv⟩ := ihleft
    obtain ⟨w, hright, hw⟩ := ihright
    obtain ⟨a, rfl⟩ := Value.exists_boolean hv
    obtain ⟨b, rfl⟩ := Value.exists_boolean hw
    exact ⟨_, eval_compare hleft hright (Value.compare_boolean rfl a), rfl⟩
  | truthWord _ hs ihleft =>
    obtain ⟨v, hleft, hv⟩ := ihleft
    obtain ⟨a, rfl⟩ := Value.exists_boolean hv
    rcases hs with rfl | rfl
    · exact ⟨_, eval_compare hleft rfl (Value.compare_boolean rfl a), rfl⟩
    · exact ⟨_, eval_compare hleft rfl (Value.compare_boolean rfl a), rfl⟩
  | texts _ _ ihleft ihright =>
    obtain ⟨v, hleft, hv⟩ := ihleft
    obtain ⟨w, hright, -⟩ := ihright
    obtain ⟨s, rfl⟩ := Value.exists_text hv
    exact ⟨_, eval_compare hleft hright (Value.compare_text s w), rfl⟩
  | join c _ _ ihleft ihright =>
    obtain ⟨v, hleft, hv⟩ := ihleft
    obtain ⟨w, hright, hw⟩ := ihright
    obtain ⟨a, rfl⟩ := Value.exists_boolean hv
    obtain ⟨b, rfl⟩ := Value.exists_boolean hw
    exact ⟨_, eval_join c hleft hright, rfl⟩
  | negate _ ihpart =>
    obtain ⟨v, hpart, hv⟩ := ihpart
    obtain ⟨b, rfl⟩ := Value.exists_boolean hv
    exact ⟨_, eval_negate hpart, rfl⟩

theorem ruleEvaluate_of_eval {rule : Rule} {p : Purchase} {b : Bool}
    (h : rule.condition.eval p = .ok (.boolean b)) :
    rule.evaluate p = .ok (if b then some rule.discount else none) := by
  rw [Rule.evaluate, h]
  cases b <;> rfl

private theorem HasKind.exists_evaluate {rule : Rule} (h : HasKind rule.condition .boolean)
    (p : Purchase) : ∃ granted, rule.evaluate p = .ok granted := by
  obtain ⟨v, heval, hv⟩ := h.exists_eval p
  obtain ⟨b, rfl⟩ := Value.exists_boolean hv
  exact ⟨_, ruleEvaluate_of_eval heval⟩

/-- A condition that has a kind comes to a value of that kind for every purchase, and a rule whose
condition is a truth value by its kind is never at fault. -/
theorem eval_hasKind :
    (∀ (e : Condition) (k : Kind), HasKind e k →
      ∀ p : Purchase, ∃ v, e.eval p = .ok v ∧ v.kind = k) ∧
    ∀ rule : Rule, HasKind rule.condition .boolean →
      ∀ p : Purchase, ∃ granted, rule.evaluate p = .ok granted :=
  ⟨fun _ _ h p => h.exists_eval p, fun _ h p => h.exists_evaluate p⟩

def loyaltyRule : Rule where
  condition :=
    .join (.compare (.var "categoria") .eq (.var "valor")) .or
      (.join (.negate (.compare (.var "quantidade") .lt (.const (.text " 10 ")))) .and
        (.compare (.var "primeiraCompra") .eq (.const (.text "true"))))
  discount := .ofInt64 20
  source := "loyalty"

theorem eval_hasKind_loyalty :
    HasKind loyaltyRule.condition .boolean ∧
      (∃ v, loyaltyRule.condition.eval { category := "VIP" } = .ok v ∧ v.kind = .boolean) ∧
      ∃ granted, loyaltyRule.evaluate { category := "VIP" } = .ok granted := by
  have hten : Decimal.ofChars? (trim " 10 ".toList) = some (.ofInt64 10) := by
    decide
  have hkind : HasKind loyaltyRule.condition .boolean :=
    .join .or (.texts .category .total)
      (.join .and (.negate (.numeral .lt .quantity hten)) (.truthWord .firstPurchase (Or.inl rfl)))
  exact ⟨hkind, eval_hasKind.1 _ _ hkind _, eval_hasKind.2 _ hkind _⟩

end Condition

end Rebate
