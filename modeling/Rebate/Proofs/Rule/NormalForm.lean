import Rebate.Proofs.Condition.Layers
import Rebate.Proofs.Condition.ReadWritten
import Rebate.Proofs.Rule.FlatScan

/-!
The conditions that are read are in normal form: their parts stand in layers, their nesting is in
bounds, and their names and texts are such that no rule text splits within them. A text is a piece
of the source, and the splits have left no keyword in any piece.
-/

set_option autoImplicit false
set_option relaxedAutoImplicit false

namespace Rebate

open Text

/-- A text without connectives that does not end a condition either. -/
def Undivided (text : List Char) : Prop :=
  Unjoined text ∧ ¬ Rule.thenWord.word <:+: text

/-- A name is one token, and none that is read as a value. -/
structure IsName (token : List Char) : Prop where
  ne_nil : token ≠ []
  plain : Plain token
  not_number : Decimal.ofChars? token = none
  not_truth : token ≠ "true".toList ∧ token ≠ "false".toList
  not_quotation : ∀ s, token ≠ '"' :: s ++ ['"']

def Operand.Admissible : Operand → Prop
  | const (.text s) => Undivided s.toList
  | const _ => True
  | var name => IsName name.toList

namespace Condition

/-- The normal form of the conditions that are read: only `OU` stands above `OU`, no connective is
negated, to the left of a connective stands none that binds as loosely, only operands are compared,
the nesting is within the limit, and names and texts are such that no split divides them. -/
structure NormalForm (e : Condition) : Prop where
  above_or : ∀ part ∈ e.parts, ∀ left right, join left .or right ∈ part.parts →
    ∃ a b, part = join a .or b
  below_negate : ∀ part, negate part ∈ e.parts → ∀ left c right, join left c right ∉ part.parts
  left_of_or : ∀ left right, join left .or right ∈ e.parts → ∀ a b, left ≠ join a .or b
  left_of_and : ∀ left right, join left .and right ∈ e.parts → ∀ a c b, left ≠ join a c b
  compared : ∀ left r right, compare left r right ∈ e.parts →
    (∃ a : Operand, left = a.toCondition) ∧ ∃ b : Operand, right = b.toCondition
  nesting : e.NestsWithin Outline.maxNesting
  length_le : ∀ path ∈ e.paths, path.length ≤ Outline.maxNesting + 2
  isName : ∀ name, var name ∈ e.parts → IsName name.toList
  undivided : ∀ s, const (.text s) ∈ e.parts → Undivided s.toList

def AllOperands (P : Operand → Prop) (e : Condition) : Prop :=
  ∀ a : Operand, a.toCondition ∈ e.parts → P a

variable {e part left right : Condition} {c : Connective}

private theorem three_le_layer_join : 3 ≤ (join left c right).layer := by
  cases c with
  | and => exact Nat.le_refl 3
  | or => exact Nat.le_succ 3

private theorem eq_or_of_layer (h : 4 ≤ part.layer) : ∃ a b, part = join a .or b := by
  cases part with
  | join a c b =>
    cases c with
    | and => simp [layer] at h
    | or => exact ⟨a, b, rfl⟩
  | const v => simp [layer] at h
  | var name => simp [layer] at h
  | compare a r b => simp [layer] at h
  | negate inner => simp [layer] at h

private theorem Layered.normalForm (h : e.Layered) (hnesting : e.NestsWithin Outline.maxNesting)
    (hoperand : e.AllOperands Operand.Admissible) : e.NormalForm where
  above_or := by
    intro part hpart left right hor
    exact eq_or_of_layer ((h.of_mem_parts hpart).1.of_mem_parts hor).2
  below_negate := by
    intro part hpart left c right hjoin
    obtain ⟨hlayer, hlayered⟩ := (h.of_mem_parts hpart).1
    have hle := (hlayered.of_mem_parts hjoin).2
    have hthree : 3 ≤ (join left c right).layer := three_le_layer_join
    omega
  left_of_or := by
    rintro _ right hpart a b rfl
    exact Nat.lt_irrefl 4 (h.of_mem_parts hpart).1.1
  left_of_and := by
    rintro _ right hpart a c b rfl
    exact Nat.not_lt_of_le three_le_layer_join (h.of_mem_parts hpart).1.1
  compared := by
    intro left r right hpart
    exact (h.of_mem_parts hpart).1
  nesting := hnesting
  length_le := by
    intro path hpath
    have hlength := h.length_path_le hpath
    have hcount := hnesting path hpath
    omega
  isName name := hoperand (.var name)
  undivided s := hoperand (.const (.text s))

variable {P : Operand → Prop}

private theorem allOperands_operand {a : Operand} (h : P a) : a.toCondition.AllOperands P := by
  intro b hb
  rw [parts_operand, List.mem_singleton] at hb
  cases a <;> cases b <;> cases hb <;> exact h

private theorem allOperands_compare {r : Relation} (hleft : left.AllOperands P)
    (hright : right.AllOperands P) : (compare left r right).AllOperands P := by
  intro a ha
  rw [parts, List.mem_cons, List.mem_append] at ha
  rcases ha with ha | ha | ha
  · cases a <;> cases ha
  · exact hleft a ha
  · exact hright a ha

private theorem allOperands_join (hleft : left.AllOperands P) (hright : right.AllOperands P) :
    (join left c right).AllOperands P := by
  intro a ha
  rw [parts, List.mem_cons, List.mem_append] at ha
  rcases ha with ha | ha | ha
  · cases a <;> cases ha
  · exact hleft a ha
  · exact hright a ha

private theorem allOperands_negateTimes (h : e.AllOperands P) (n : Nat) :
    (e.negateTimes n).AllOperands P := by
  induction n with
  | zero => exact h
  | succ n ih =>
    intro a ha
    rw [negateTimes, parts, List.mem_cons] at ha
    rcases ha with ha | ha
    · cases a <;> cases ha
    · exact ih a ha

private theorem allOperands_chain {items : List Condition}
    (hneutral : P (.const (.boolean c.neutral)))
    (h : ∀ item ∈ items, item.AllOperands P) : (chain c items).AllOperands P := by
  apply chain_induction h
  · exact allOperands_operand (a := .const (.boolean c.neutral)) hneutral
  · intro item hitem rest hrest
    exact allOperands_join (h item hitem) hrest

end Condition

private theorem Undivided.of_infix {text piece : List Char} (h : Undivided text)
    (hpiece : piece <:+: text) : Undivided piece :=
  ⟨fun c hmem => h.1 c (hmem.trans hpiece), fun hmem => h.2 (hmem.trans hpiece)⟩

theorem eq_quotation_of_unquote? {token s : List Char} (h : unquote? token = some s) :
    token = '"' :: s ++ ['"'] := by
  rw [unquote?.eq_def] at h
  split at h
  · next rest =>
    split at h
    · next hlast =>
      obtain ⟨init, rfl⟩ := List.getLast?_eq_some_iff.mp hlast
      rw [List.dropLast_concat] at h
      obtain rfl := Option.some.inj h
      rfl
    · cases h
  · cases h

theorem Value.exists_unquote?_of_ofToken? {token : List Char} {s : String}
    (h : ofToken? token = some (.text s)) :
    ∃ inner, unquote? token = some inner ∧ String.ofList inner = s := by
  cases hnumber : Decimal.ofChars? token with
  | some a => simp [ofToken?, hnumber] at h
  | none =>
    cases htruth : truth? (String.ofList token) with
    | some b => simp [ofToken?, hnumber, htruth] at h
    | none => simpa [ofToken?, hnumber, htruth] using h

theorem Value.infix_of_ofToken? {token : List Char} {s : String}
    (h : ofToken? token = some (.text s)) : s.toList <:+: token := by
  obtain ⟨inner, hinner, rfl⟩ := exists_unquote?_of_ofToken? h
  rw [eq_quotation_of_unquote? hinner, String.toList_ofList]
  exact ⟨['"'], ['"'], rfl⟩

private theorem IsName.of_ofToken? {token : List Char} (hne : token ≠ []) (hplain : Plain token)
    (h : Value.ofToken? token = none) : IsName token := by
  obtain ⟨hnumber, htruth, hquoted⟩ := Value.ofToken?_eq_none_iff.mp h
  exact ⟨hne, hplain, hnumber, htruth, hquoted⟩

private theorem Operand.admissible_of_read {fragment text : List Char} {a : Operand}
    (htext : Undivided text) (h : Operand.read fragment text = .ok a) : a.Admissible := by
  have htoken : Undivided (trim text) := htext.of_infix (infix_trim text)
  rcases Operand.read_eq_ok h with ⟨v, hv, rfl⟩ | ⟨hne, hv, hplain, rfl⟩
  · cases v with
    | number a => exact trivial
    | boolean b => exact trivial
    | text s => exact htoken.of_infix (Value.infix_of_ofToken? hv)
  · rw [Admissible, String.toList_ofList]
    exact IsName.of_ofToken? hne hplain hv

theorem Relation.eq_of_cut? {text left right : List Char} {r : Relation}
    (h : cut? text = some (r, left, right)) : text = left ++ r.symbol.word ++ right := by
  obtain ⟨before, after, -, -, hcut⟩ := cut?_eq_some_iff.mp h
  exact Keyword.eq_of_cut?_eq_some hcut

theorem Relation.infix_of_cut? {text left right : List Char} {r : Relation}
    (h : cut? text = some (r, left, right)) : left <:+: text ∧ right <:+: text := by
  rw [eq_of_cut? h]
  exact ⟨⟨[], r.symbol.word ++ right, by simp⟩, (List.suffix_append _ right).isInfix⟩

private theorem Atom.admissible_of_read {text : List Char} {atom : Atom} (htext : Undivided text)
    (h : Atom.read text = .ok atom) : atom.toCondition.AllOperands Operand.Admissible := by
  rcases Atom.read_eq_ok h with ⟨r, left, right, a, b, hcut, ha, hb, rfl⟩ | ⟨a, -, ha, rfl⟩
  · obtain ⟨hleft, hright⟩ := Relation.infix_of_cut? hcut
    apply Condition.allOperands_compare
    · exact Condition.allOperands_operand (Operand.admissible_of_read (htext.of_infix hleft) ha)
    · exact Condition.allOperands_operand (Operand.admissible_of_read (htext.of_infix hright) hb)
  · exact Condition.allOperands_operand (Operand.admissible_of_read htext ha)

private theorem Leaf.admissible_of_read {text : List Char} {leaf : Leaf} (htext : Undivided text)
    (h : Leaf.read text = .ok leaf) : leaf.toCondition.AllOperands Operand.Admissible := by
  have hrest : Undivided (Negation.strip 0 text).2 :=
    htext.of_infix (Negation.suffix_strip 0 text).isInfix
  exact Condition.allOperands_negateTimes
    (Atom.admissible_of_read hrest (Leaf.read_eq_ok h).2) leaf.negations

private theorem Group.admissible_of_read {text : List Char} {group : Group}
    (hor : ¬ Connective.or.separator.word <:+: text) (hthen : ¬ Rule.thenWord.word <:+: text)
    (h : Group.read text = .ok group) :
    group.toCondition.AllOperands Operand.Admissible := by
  have hpieces : ∀ piece ∈ Connective.and.separator.split text, Undivided piece := by
    intro piece hpiece
    have hinfix : piece <:+: text := Keyword.infix_of_mem_split hpiece
    exact ⟨Unjoined.of_mem_split hor hpiece, fun hmem => hthen (hmem.trans hinfix)⟩
  have hleaves := (List.forall₂_and_left _ _).mpr ⟨hpieces, (Group.read_eq_ok_iff.mp h).1⟩
  refine Condition.allOperands_chain trivial (List.forall_mem_map.mpr ?_)
  exact forall_mem_of_forall₂ hleaves fun _ _ ⟨hpiece, hleaf⟩ =>
    Leaf.admissible_of_read hpiece hleaf

theorem Outline.admissible_of_read {text : List Char} {outline : Outline}
    (hthen : ¬ Rule.thenWord.word <:+: text) (h : Outline.read text = .ok outline) :
    outline.toCondition.AllOperands Operand.Admissible := by
  have hpieces : ∀ piece ∈ Connective.or.separator.split text,
      ¬ Connective.or.separator.word <:+: piece ∧ ¬ Rule.thenWord.word <:+: piece := by
    intro piece hpiece
    have hinfix : piece <:+: text := Keyword.infix_of_mem_split hpiece
    exact ⟨Keyword.not_infix_of_mem_split hpiece, fun hmem => hthen (hmem.trans hinfix)⟩
  have hgroups := (List.forall₂_and_left _ _).mpr ⟨hpieces, (read_eq_ok_iff.mp h).1⟩
  refine Condition.allOperands_chain trivial (List.forall_mem_map.mpr ?_)
  exact forall_mem_of_forall₂ hgroups fun _ _ ⟨⟨hor, hpiece⟩, hgroup⟩ =>
    Group.admissible_of_read hor hpiece hgroup

namespace Rule

/-- A condition that was read is in normal form. -/
theorem normalForm_of_read {source : String} {rule : Rule} (h : read source = .ok rule) :
    rule.condition.NormalForm := by
  obtain ⟨head, tail, outline, hsplit, houtline, -, hcondition, -⟩ := read_eq_ok h
  have hhead : head ∈ thenWord.split source.toList := hsplit ▸ List.mem_cons_self
  have hthen : ¬ thenWord.word <:+: trim head := by
    intro hmem
    exact Keyword.not_infix_of_mem_split hhead (hmem.trans (infix_trim head))
  have hnesting : outline.toCondition.NestsWithin Outline.maxNesting := by
    intro path hpath
    exact Nat.le_trans (outline.nestsWithin path hpath) (Outline.read_eq_ok_iff.mp houtline).2
  rw [hcondition]
  exact outline.layered.normalForm hnesting (Outline.admissible_of_read hthen houtline)

def layeredRule : Rule where
  condition :=
    .join
      (.negate (.compare (.var "valor") .lt (.const (.number (.ofInt64 100)))))
      .or
      (.join (.compare (.var "categoria") .eq (.const (.text "VIP"))) .and (.var "primeiraCompra"))
  discount := .ofInt64 5
  source := "NÃO valor < 100 OU categoria = \"VIP\" E primeiraCompra ENTAO 5"

theorem normalForm_of_read_layered :
    read layeredRule.source = .ok layeredRule ∧ layeredRule.condition.NormalForm := by
  have hread : read layeredRule.source = .ok layeredRule := by
    cbv
  exact ⟨hread, normalForm_of_read hread⟩

end Rule

end Rebate
