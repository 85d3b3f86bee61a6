import Rebate.Condition.Printer
import Rebate.Proofs.Decimal.ReadPrinted
import Rebate.Proofs.Rule.NormalForm

/-!
Reading a condition back from its text. The text of a condition has spaces around every symbol, and
every number in plain digits, so that it is seldom the text that the condition was read from. If
nothing is joined, it holds no word and no symbol that the other text had not, and is cut at the
same places.
-/

set_option autoImplicit false
set_option relaxedAutoImplicit false

namespace Rebate

open Text

namespace Condition

def JoinFree (e : Condition) : Prop :=
  ∀ left c right, join left c right ∉ e.parts

/-- No name of the condition is a word that negates or joins. -/
def WordFree (e : Condition) : Prop :=
  ∀ name, var name ∈ e.parts → name.toList ≠ Negation.word ∧ ∀ c : Connective, name.toList ≠ c.word

variable {e part left right : Condition} {r : Relation}

private theorem self_mem_parts (e : Condition) : e ∈ e.parts := by
  cases e <;> exact List.mem_cons_self

private theorem exists_part_of_chain {α : Type} {c : Connective} {R : List Char → α → Prop}
    {tree : α → Condition} {text : List Char} {items : List α}
    (hitems : List.Forall₂ R (c.separator.split text) items)
    (hjoin : (chain c (items.map tree)).JoinFree) :
    ∃ item, chain c (items.map tree) = tree item ∧ ¬ c.separator.word <:+: text ∧ R text item := by
  match items with
  | [] => exact absurd (List.forall₂_nil_right_iff.mp hitems) (Keyword.split_ne_nil _ _)
  | [item] =>
    obtain ⟨piece, pieces, hpiece, hpieces, hsplit⟩ := List.forall₂_cons_right_iff.mp hitems
    obtain rfl := List.forall₂_nil_right_iff.mp hpieces
    have hmem : piece ∈ c.separator.split text := hsplit ▸ List.mem_cons_self
    obtain rfl : text = piece := Keyword.eq_of_split_eq_singleton hsplit
    exact ⟨item, rfl, Keyword.not_infix_of_mem_split hmem, hpiece⟩
  | item :: next :: rest =>
    exact absurd (self_mem_parts _) (hjoin (tree item) c (chain c ((next :: rest).map tree)))

private theorem WordFree.compare_iff :
    (compare left r right).WordFree ↔ left.WordFree ∧ right.WordFree := by
  simp only [WordFree, parts, List.mem_cons, List.mem_append, reduceCtorEq, false_or]
  constructor
  · intro h
    exact ⟨fun name hname => h name (Or.inl hname), fun name hname => h name (Or.inr hname)⟩
  · rintro ⟨hleft, hright⟩ name (hname | hname)
    · exact hleft name hname
    · exact hright name hname

private theorem WordFree.of_negateTimes {n : Nat} (h : (part.negateTimes n).WordFree) :
    part.WordFree := by
  induction n with
  | zero => exact h
  | succ n ih => exact ih fun name hname => h name (List.mem_cons_of_mem _ hname)

private theorem exists_leaf_of_read {text : String} (h : read text = .ok e) (hjoin : e.JoinFree) :
    ∃ leaf : Leaf, Unjoined text.toList ∧ Leaf.read text.toList = .ok leaf ∧
      e = leaf.toCondition := by
  cases houtline : Outline.read text.toList with
  | error err => simp [read, houtline, bind, Except.bind] at h
  | ok outline =>
    obtain rfl : outline.toCondition = e := by
      simpa [read, houtline, bind, Except.bind, pure, Except.pure] using h
    have hgroups := (Outline.read_eq_ok_iff.mp houtline).1
    obtain ⟨group, htree, hor, hgroup⟩ := exists_part_of_chain hgroups hjoin
    have hleaves := (Group.read_eq_ok_iff.mp hgroup).1
    rw [Outline.toCondition, htree] at hjoin
    obtain ⟨leaf, hleaf, hand, hread⟩ := exists_part_of_chain hleaves hjoin
    refine ⟨leaf, ?_, hread, htree.trans hleaf⟩
    intro c
    cases c with
    | and => exact hand
    | or => exact hor

end Condition

private theorem Value.token_of_truth? {token : List Char} {b : Bool}
    (h : truth? (String.ofList token) = some b) : (toString (boolean b)).toList = token := by
  rw [truth?] at h
  split at h
  · next htrue =>
    obtain rfl := Option.some.inj h
    rw [← String.toList_ofList (l := token), htrue]
    rfl
  · split at h
    · next hfalse =>
      obtain rfl := Option.some.inj h
      rw [← String.toList_ofList (l := token), hfalse]
      rfl
    · cases h

private theorem Value.token_of_ofToken? {token : List Char} {v : Value}
    (h : ofToken? token = some v) : (∃ d, v = .number d) ∨ (toString v).toList = token := by
  cases v with
  | number d => exact Or.inl ⟨d, rfl⟩
  | boolean b =>
    cases hnumber : Decimal.ofChars? token with
    | some d => simp [ofToken?, hnumber] at h
    | none =>
      cases htruth : truth? (String.ofList token) with
      | none => simp [ofToken?, hnumber, htruth] at h
      | some b' =>
        obtain rfl : b' = b := by simpa [ofToken?, hnumber, htruth] using h
        exact Or.inr (token_of_truth? htruth)
  | text s =>
    obtain ⟨inner, hinner, rfl⟩ := exists_unquote?_of_ofToken? h
    rw [eq_quotation_of_unquote? hinner]
    simp [toString]

namespace Operand

def token (a : Operand) : List Char :=
  a.toCondition.render.toList

variable {a : Operand} {fragment text : List Char}

private theorem ofChars?_token (d : Decimal) :
    Decimal.ofChars? (const (.number d)).token = some d :=
  d.ofChars?_toString

private theorem Spelled.written {token : List Char} (h : a.Spelled token) : a.Written token := by
  have hwritten := Written.between .nil h .nil
  rwa [List.nil_append, List.append_nil] at hwritten

private theorem read_of_trim_eq {shown other : List Char} (h : read fragment text = .ok a)
    (htrim : trim other = trim text) : read shown other = .ok a := by
  rw [read] at h ⊢
  simp only [htrim]
  split at h
  · cases h
  · next hne =>
    rw [if_neg hne]
    exact h

private theorem trim_ne_nil_of_read (h : read fragment text = .ok a) : trim text ≠ [] := by
  intro hnil
  rw [read, if_pos hnil] at h
  cases h

/-- What is printed for an operand that was read from a text is read as the operand, and holds no
symbol that the text has not. -/
structure Reprinted (a : Operand) (text : List Char) : Prop where
  tight : Tight a.token
  read : ∀ shown, Operand.read shown a.token = .ok a
  symbol_infix : ∀ r : Relation, r.symbol.word <:+: a.token → r.symbol.word <:+: text

private theorem reprinted_of_read (h : Operand.read fragment text = .ok a) : a.Reprinted text := by
  have hne : trim text ≠ [] := trim_ne_nil_of_read h
  have hsame : a.token = trim text → a.Reprinted text := by
    intro htoken
    refine ⟨htoken ▸ Tight.of_trim hne, fun shown => ?_, fun r hmem => ?_⟩
    · rw [htoken]
      exact read_of_trim_eq h (trim_trim text)
    · exact (htoken ▸ hmem).trans (infix_trim text)
  rcases read_eq_ok h with ⟨v, hv, rfl⟩ | ⟨-, -, -, rfl⟩
  · rcases Value.token_of_ofToken? hv with ⟨d, rfl⟩ | hprinted
    · have hspelled := Spelled.number (ofChars?_token d)
      have hsymbol := Relation.cut?_eq_none_iff.mp (Relation.cut?_eq_none hspelled.noSymbol)
      exact ⟨hspelled.tight, hspelled.written.read, fun r hmem => absurd hmem (hsymbol r)⟩
    · exact hsame hprinted
  · exact hsame (String.toList_ofList)

private theorem Reprinted.read_between {before after : List Char} (h : a.Reprinted text)
    (shown : List Char) (hbefore : AllBlank before) (hafter : AllBlank after) :
    Operand.read shown (before ++ a.token ++ after) = .ok a := by
  have htrim : trim (before ++ a.token ++ after) = trim a.token := by
    rw [h.tight.trim_eq hbefore hafter, trim, h.tight.trimStart_eq, h.tight.trimEnd_eq]
  exact read_of_trim_eq (h.read shown) htrim

/-- A token in one piece that is no word of a condition, or a quotation of a text without
connectives. -/
inductive Standing : List Char → Prop
  | piece {token : List Char} (hne : token ≠ []) (hplain : Plain token)
      (hnegation : token ≠ Negation.word) (hjoint : ∀ c : Connective, token ≠ c.word) :
      Standing token
  | quotation {s : List Char} (hjoint : Unjoined s) : Standing ('"' :: s ++ ['"'])

private theorem Standing.of_solid {token : List Char} (h : Solid token) : Standing token :=
  .piece h.ne_nil h.plain h.ne_negation h.ne_joint

private theorem standing_of_read (h : Operand.read fragment text = .ok a) (hjoint : Unjoined text)
    (hword : a.toCondition.WordFree) : Standing a.token := by
  rcases read_eq_ok h with ⟨v, hv, rfl⟩ | ⟨hne, -, hplain, rfl⟩
  · cases v with
    | number d => exact .of_solid (Solid.of_number (ofChars?_token d))
    | boolean b => exact .of_solid (Solid.of_truth b)
    | text s =>
      have hinfix : s.toList <:+: text := (Value.infix_of_ofToken? hv).trans (infix_trim text)
      have hinner : Unjoined s.toList := fun c hmem => hjoint c (hmem.trans hinfix)
      have htoken : (const (.text s)).token = '"' :: s.toList ++ ['"'] := by
        simp [token, toCondition, Condition.render, toString]
      rw [htoken]
      exact .quotation hinner
  · obtain ⟨hnegation, hjoin⟩ := hword _ (Condition.self_mem_parts _)
    have htoken : (var (String.ofList (trim text))).token = trim text := String.toList_ofList
    rw [String.toList_ofList] at hnegation hjoin
    rw [htoken]
    exact .piece hne hplain hnegation hjoin

namespace Standing

variable {token rest : List Char}

private theorem tight (h : Standing token) : Tight token := by
  cases h with
  | piece hne hplain => exact Tight.of_no_blank hne fun c hc => (hplain c hc).1
  | quotation hjoint => exact Tight.of_ends (by decide) (by decide)

private theorem absentFrom (h : Standing token) (c : Connective) : c.AbsentFrom token := by
  cases h with
  | piece hne hplain hnegation hjoint => exact Connective.absentFrom_of_plain hplain (hjoint c)
  | quotation hjoint => exact Connective.absentFrom_quotation hjoint

private theorem after?_opening (h : Standing token)
    (hhead : ∀ c ∈ rest.head?, isBlank c = true ∨ isOperatorChar c = true) :
    Negation.opening.after? (trimStart (token ++ rest)) = none := by
  have hstart : trimStart (token ++ rest) = token ++ rest := h.tight.trimStart_blanks_append .nil
  rw [hstart]
  cases h with
  | piece hne hplain hnegation => exact Negation.after?_of_plain hplain hnegation hhead
  | quotation hjoint => exact Negation.after?_of_quotation _

end Standing

end Operand

namespace Atom

variable {atom : Atom} {a b : Operand} {r : Relation} {text : List Char}

private theorem render_comparison (a b : Operand) (r : Relation) :
    (comparison a r b).toCondition.render.toList =
      a.token ++ ' ' :: (r.symbol.word ++ ' ' :: b.token) := by
  simp [toCondition, Condition.render, Operand.token, toString]

private theorem cut?_render {left right : List Char}
    (hcut : Relation.cut? text = some (r, left, right))
    (ha : a.Reprinted left) (hb : b.Reprinted right) :
    Relation.cut? (comparison a r b).toCondition.render.toList =
      some (r, a.token ++ [' '], ' ' :: b.token) := by
  obtain ⟨before, after, horder, hbefore, hplace⟩ := Relation.cut?_eq_some_iff.mp hcut
  obtain ⟨hleft, hright⟩ := Relation.infix_of_cut? hcut
  have hspace : ∀ q : Relation, ' ' ∉ q.symbol.word := by
    intro q
    cases q <;> decide
  rw [render_comparison]
  refine Relation.cut?_eq_some_iff.mpr ⟨before, after, horder, fun q hq hmem => ?_, ?_⟩
  · apply hbefore q hq
    rcases infix_enclosed q.symbol.word_ne_nil (hspace q) hmem with hmem | hmem | hmem
    · exact (ha.symbol_infix q hmem).trans hleft
    · rw [Relation.eq_of_cut? hcut]
      exact hmem.trans ⟨left, right, rfl⟩
    · exact (hb.symbol_infix q hmem).trans hright
  · have hsplit : a.token ++ ' ' :: (r.symbol.word ++ ' ' :: b.token) =
        (a.token ++ [' ']) ++ r.symbol.word ++ ' ' :: b.token := by simp
    rw [hsplit]
    apply Keyword.cut?_append
    intro hmem
    rw [List.append_assoc, List.singleton_append] at hmem
    rcases infix_append_cons_of_not_mem r.symbol.word_ne_nil (hspace r) hmem with hmem | hmem
    · exact Keyword.not_infix_of_cut? hplace (ha.symbol_infix r hmem)
    · have hlength := hmem.length_le
      have hpos := List.length_pos_iff.mpr r.symbol.word_ne_nil
      rw [List.length_dropLast] at hlength
      omega

private theorem read_printed (h : Atom.read text = .ok atom) :
    Atom.read atom.toCondition.render.toList = .ok atom := by
  rcases Atom.read_eq_ok h with ⟨r, left, right, a, b, hcut, ha, hb, rfl⟩ | ⟨a, hcut, ha, rfl⟩
  · have hspace : AllBlank [' '] := by decide
    have haprinted := Operand.reprinted_of_read ha
    have hbprinted := Operand.reprinted_of_read hb
    have hleft : ∀ shown, Operand.read shown (a.token ++ [' ']) = .ok a := by
      intro shown
      simpa using haprinted.read_between shown .nil hspace
    have hright : ∀ shown, Operand.read shown (' ' :: b.token) = .ok b := by
      intro shown
      simpa using hbprinted.read_between shown hspace .nil
    rw [Atom.read, cut?_render hcut haprinted hbprinted]
    simp only [hleft, hright]
    rfl
  · have hprinted := Operand.reprinted_of_read ha
    have hnone : Relation.cut? a.token = none := by
      rw [Relation.cut?_eq_none_iff] at hcut ⊢
      exact fun r hmem => hcut r (hprinted.symbol_infix r hmem)
    rw [Atom.read, show (single a).toCondition.render.toList = a.token from rfl, hnone]
    simp only [hprinted.read]
    rfl

def Standing : Atom → Prop
  | single a => Operand.Standing a.token
  | comparison a _ b => Operand.Standing a.token ∧ Operand.Standing b.token

private theorem standing_of_read (h : Atom.read text = .ok atom) (hjoint : Unjoined text)
    (hword : atom.toCondition.WordFree) : atom.Standing := by
  rcases Atom.read_eq_ok h with ⟨r, left, right, a, b, hcut, ha, hb, rfl⟩ | ⟨a, -, ha, rfl⟩
  · obtain ⟨hleft, hright⟩ := Relation.infix_of_cut? hcut
    obtain ⟨haword, hbword⟩ := Condition.WordFree.compare_iff.mp hword
    exact ⟨Operand.standing_of_read ha (fun c hmem => hjoint c (hmem.trans hleft)) haword,
      Operand.standing_of_read hb (fun c hmem => hjoint c (hmem.trans hright)) hbword⟩
  · exact Operand.standing_of_read ha hjoint hword

private theorem Standing.absentFrom (h : atom.Standing) (c : Connective) :
    c.AbsentFrom atom.toCondition.render.toList := by
  cases atom with
  | single a => exact Operand.Standing.absentFrom h c
  | comparison a r b =>
    have hspace : isBlank ' ' = true ∨ isOperatorChar ' ' = true := Or.inl (by decide)
    have hsymbol : c.AbsentFrom r.symbol.word := by
      cases c <;> cases r <;> simp only [Connective.AbsentFrom] <;> decide
    rw [render_comparison]
    have hright := c.glued_absentFrom.glue hspace hsymbol (h.2.absentFrom c)
    exact c.glued_absentFrom.glue hspace (h.1.absentFrom c) hright

private theorem Standing.after?_opening (h : atom.Standing) :
    Negation.opening.after? (trimStart atom.toCondition.render.toList) = none := by
  cases atom with
  | single a =>
    have hstanding : Operand.Standing a.token := h
    have hnone := @hstanding.after?_opening a.token [] (by simp)
    rwa [List.append_nil] at hnone
  | comparison a r b =>
    rw [render_comparison]
    refine h.1.after?_opening fun c hc => ?_
    obtain rfl : ' ' = c := by simpa using hc
    exact Or.inl (by decide)

end Atom

namespace Condition

variable {part : Condition}

private theorem render_negate (part : Condition) :
    (negate part).render.toList = [] ++ Negation.opening.word ++ part.render.toList := by
  simp [render]

private theorem strip_render (h : Negation.opening.after? (trimStart part.render.toList) = none)
    (n counted : Nat) :
    Negation.strip counted (part.negateTimes n).render.toList =
      (counted + n, part.render.toList) := by
  induction n generalizing counted with
  | zero => exact Negation.strip_of_none h
  | succ n ih =>
    rw [negateTimes, render_negate, Negation.strip_opening .nil, ih, Nat.add_assoc, Nat.add_comm 1]

private theorem absentFrom_render {c : Connective} (h : c.AbsentFrom part.render.toList) (n : Nat) :
    c.AbsentFrom (part.negateTimes n).render.toList := by
  induction n with
  | zero => exact h
  | succ n ih =>
    have hword : c.AbsentFrom Negation.word :=
      Connective.absentFrom_of_plain (by decide) (by cases c <;> decide)
    have hsplit : (negate (part.negateTimes n)).render.toList =
        Negation.word ++ ' ' :: (part.negateTimes n).render.toList := by
      simp [render_negate, Negation.opening]
    rw [negateTimes, hsplit]
    exact c.glued_absentFrom.glue (Or.inl (by decide)) hword ih

/-- A condition without joined parts and without names that are words is read back from its
text. -/
theorem read_render {text : String} {e : Condition} (h : read text = .ok e) (hjoin : e.JoinFree)
    (hword : e.WordFree) : read (toString e) = .ok e := by
  obtain ⟨leaf, hjoint, hleaf, rfl⟩ := exists_leaf_of_read h hjoin
  obtain ⟨hnesting, hatom⟩ := Leaf.read_eq_ok hleaf
  have hrest : Unjoined (Negation.strip 0 text.toList).2 := fun c hmem =>
    hjoint c (hmem.trans (Negation.suffix_strip 0 text.toList).isInfix)
  have hstanding : leaf.atom.Standing := Atom.standing_of_read hatom hrest hword.of_negateTimes
  have hstrip := strip_render hstanding.after?_opening leaf.negations 0
  have hread : Leaf.read leaf.toCondition.render.toList = .ok leaf := by
    rw [Nat.zero_add] at hstrip
    simp only [Leaf.read, Leaf.toCondition, hstrip, Outline.requireNesting_of_le hnesting,
      Atom.read_printed hatom]
    rfl
  have hunjoined : Unjoined leaf.toCondition.render.toList := fun c =>
    (absentFrom_render (hstanding.absentFrom c) leaf.negations).not_within
  have hprinted := Leaf.condition_read hunjoined hread
  rwa [String.ofList_toList] at hprinted

def quotedCondition : Condition :=
  .negate (.negate (.compare (.const (.text "a = b")) .ge (.const (.number
    { coeff := -750, scale := 3, coeff_lt := by decide, scale_le := by decide }))))

theorem read_render_quoted :
    read "NÃO \u00a0NÃO \"a = b\">=-.750" = .ok quotedCondition ∧
      toString quotedCondition = "NÃO NÃO \"a = b\" >= -0.750" ∧
      read (toString quotedCondition) = .ok quotedCondition := by
  have hread : read "NÃO \u00a0NÃO \"a = b\">=-.750" = .ok quotedCondition := by
    decide +kernel
  have hjoin : quotedCondition.JoinFree := by
    simp [JoinFree, quotedCondition, parts]
  have hword : quotedCondition.WordFree := by
    simp [WordFree, quotedCondition, parts]
  exact ⟨hread, by decide +kernel, read_render hread hjoin hword⟩

end Condition

end Rebate
