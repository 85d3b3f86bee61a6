import Rebate.Proofs.Condition.ReadWritten

/-!
Reading written rules. A rule is an outline and a number with `ENTAO` between them, and reading
gives back the tree of the outline, the number and the text, whichever tokens and blanks the text
was written with.
-/

set_option autoImplicit false
set_option relaxedAutoImplicit false

namespace Rebate.Rule

open Text

/-- A rule is written as a condition, `ENTAO`, and a number between blanks. -/
inductive Written (outline : Outline) (discount : Decimal) : List Char → Prop
  | intro {head before number after : List Char} (hhead : outline.Written head)
      (hbefore : AllBlank before) (hnumber : Decimal.ofChars? number = some discount)
      (hafter : AllBlank after) :
      Written outline discount (head ++ thenWord.word ++ (before ++ number ++ after))

def ThenAbsent (text : List Char) : Prop :=
  ¬ thenWord.word <:+: text

private theorem glued_thenAbsent : Glued ThenAbsent := by
  refine ⟨by simp only [ThenAbsent]; decide, ?_⟩
  intro left right c hc hleft hright h
  have hplain : Plain thenWord.word := by decide
  have hword : c ∉ thenWord.word := hplain.not_mem hc
  rcases infix_append_cons_of_not_mem thenWord.word_ne_nil hword h with h | h
  · exact hleft h
  · exact hright h

private theorem thenAbsent_token {a : Operand} {token : List Char} (h : a.Spelled token) :
    ThenAbsent token := by
  rcases h.solid_or_quotation with hsolid | ⟨s, rfl, -, -, hthen⟩
  · exact hsolid.not_then
  · intro h
    have hquote : '"' ∉ thenWord.word := by decide
    have hsplit : '"' :: s ++ ['"'] = [] ++ '"' :: (s ++ '"' :: []) := by simp
    rw [hsplit] at h
    rcases infix_enclosed thenWord.word_ne_nil hquote h with h | h | h
    · exact absurd h (by decide)
    · exact hthen h
    · exact absurd h (by decide)

private theorem thenAbsent_of_written {outline : Outline} {text : List Char}
    (h : outline.Written text) : ThenAbsent text := by
  have hleaf : ∀ {leaf : Leaf} {text}, leaf.Written text → ThenAbsent text :=
    glued_thenAbsent.leaf thenAbsent_token (by simp only [ThenAbsent]; decide)
  have hgroup : ∀ {group : Group} {text}, group.Written text → ThenAbsent text :=
    glued_thenAbsent.joined hleaf (by simp only [ThenAbsent]; decide)
  exact glued_thenAbsent.joined hgroup (by simp only [ThenAbsent]; decide) h

private theorem ThenAbsent.not_infix_append {text : List Char} (h : ThenAbsent text) :
    ¬ thenWord.word <:+: text ++ thenWord.word.dropLast := by
  intro hmem
  -- The first character of the word is no inner one, so that no other occurrence runs into it.
  have hfirst : 'E' ∉ thenWord.word.tail.dropLast := by decide
  have hmem' : thenWord.word <:+: text ++ 'E' :: ['N', 'T', 'A'] := hmem
  rcases infix_append_cons hfirst hmem' with hmem | hmem
  · rcases List.infix_concat_iff.mp hmem with hmem | hmem
    · have hlast := hmem.getLast (by decide)
      simp [thenWord] at hlast
    · exact h hmem
  · exact absurd hmem (by decide)

private theorem Written.exists_split {outline : Outline} {discount : Decimal} {text : List Char}
    (h : Written outline discount text) :
    ∃ head tail, thenWord.split text = [head, tail] ∧ outline.Written head ∧
      Decimal.ofChars? (trim tail) = some discount := by
  obtain @⟨head, before, number, after, hhead, hbefore, hnumber, hafter⟩ := h
  have hsolid : Solid number := Solid.of_number hnumber
  have htail : ThenAbsent (before ++ number ++ after) :=
    glued_thenAbsent.append_blanks (glued_thenAbsent.blanks_append hbefore hsolid.not_then) hafter
  have htight : Tight number := (Operand.Spelled.number hnumber).tight
  refine ⟨head, before ++ number ++ after, ?_, hhead, ?_⟩
  · rw [Keyword.split_append (thenAbsent_of_written hhead).not_infix_append,
      Keyword.split_eq_singleton htail]
  · rw [htight.trim_eq hbefore hafter, hnumber]

theorem read_of_split {source : String} {head tail : List Char} {discount : Decimal}
    (hsplit : thenWord.split source.toList = [head, tail])
    (hdiscount : Decimal.ofChars? (trim tail) = some discount) :
    read source = do
      let outline ← Outline.read (trim head)
      return { condition := outline.toCondition, discount, source } := by
  rw [read, hsplit]
  simp only [hdiscount]

/-- Reading undoes writing. -/
theorem read_written {outline : Outline} {discount : Decimal} {source : String}
    (h : Written outline discount source.toList)
    (hnesting : outline.nesting ≤ Outline.maxNesting) :
    read source = .ok { condition := outline.toCondition, discount, source } := by
  obtain ⟨head, tail, hsplit, hhead, hdiscount⟩ := h.exists_split
  rw [read_of_split hsplit hdiscount, hhead.trim.read hnesting]
  rfl

theorem Written.read_comparison {a b : Operand} {r : Relation} {discount : Decimal}
    {source : String} (h : Written [[⟨0, .comparison a r b⟩]] discount source.toList) :
    read source =
      .ok { condition := .compare a.toCondition r b.toCondition, discount, source } := by
  obtain ⟨head, tail, hsplit, hhead, hdiscount⟩ := h.exists_split
  have hnesting : Outline.nesting [[⟨0, .comparison a r b⟩]] ≤ Outline.maxNesting := by
    simp [Outline.nesting, Group.nesting]
  rw [read_of_split hsplit hdiscount, hhead.trim.read hnesting]
  rfl

def vipOutline : Outline :=
  [[⟨2, .single (.var "primeiraCompra")⟩,
    ⟨0, .comparison (.var "quantidade") .ge (.const (.boolean true))⟩],
   [⟨0, .comparison (.const (.text "VIP E")) .eq (.var "categoria")⟩]]

def vipDiscount : Decimal where
  coeff := 750
  scale := 2
  coeff_lt := by decide
  scale_le := by decide

def vipSource : String :=
  "NÃO \u00a0NÃO primeiraCompra E quantidade>= true OU  \"VIP E\" =categoria\tENTAO 7.50"

theorem read_written_vip :
    Written vipOutline vipDiscount vipSource.toList ∧ vipOutline.nesting ≤ Outline.maxNesting ∧
      read vipSource = .ok
        { condition := vipOutline.toCondition, discount := vipDiscount, source := vipSource } := by
  have hname : ∀ name ∈ ["primeiraCompra", "quantidade", "categoria"],
      (Operand.var name).Spelled name.toList := by
    intro name hmem
    rw [← String.ofList_toList (s := name), String.toList_ofList]
    simp only [List.mem_cons, List.not_mem_nil, or_false] at hmem
    rcases hmem with rfl | rfl | rfl <;>
      exact .name (by decide) (by decide) (Keyword.cut?_eq_none_iff.mp (by decide)) (by decide)
        (by decide) (by simp) (by decide) (by intro c; cases c <;> decide)
  have hquotation : (Operand.const (.text "VIP E")).Spelled "\"VIP E\"".toList := by
    rw [← String.ofList_toList (s := "VIP E")]
    exact .quotation (s := "VIP E".toList) (by decide) (by intro c; cases c <;> decide) (by decide)
  have hspace : AllBlank [' '] := by decide
  have hwide : AllBlank ['\u00a0'] := by decide
  have htab : AllBlank ['\t'] := by decide
  have hfirst : Leaf.Written ⟨2, .single (.var "primeiraCompra")⟩ _ :=
    .negated .nil (.negated hwide
      (.plain (.single (.between .nil (hname "primeiraCompra" (by simp)) .nil))))
  have hsecond : Leaf.Written
      ⟨0, .comparison (.var "quantidade") .ge (.const (.boolean true))⟩ _ :=
    .plain (.comparison
      (.between .nil (hname "quantidade" (by simp)) .nil)
      (.between hspace (.truth true) .nil))
  have hthird : Leaf.Written ⟨0, .comparison (.const (.text "VIP E")) .eq (.var "categoria")⟩ _ :=
    .plain (.comparison
      (.between hspace hquotation hspace)
      (.between .nil (hname "categoria" (by simp)) htab))
  have hhead : vipOutline.Written _ := .more (.more hfirst (.one hsecond)) (.one (.one hthird))
  have hnumber : Decimal.ofChars? "7.50".toList = some vipDiscount := by decide
  have hpieces := Written.intro hhead hspace hnumber .nil
  have hsource : ∀ text, Written vipOutline vipDiscount text → text = vipSource.toList →
      Written vipOutline vipDiscount vipSource.toList := fun _ h hsame => hsame ▸ h
  have hwritten := hsource _ hpieces (by decide +kernel)
  have hnesting : vipOutline.nesting ≤ Outline.maxNesting := by decide
  exact ⟨hwritten, hnesting, read_written hwritten hnesting⟩

end Rebate.Rule
