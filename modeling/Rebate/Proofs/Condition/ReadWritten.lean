import Rebate.Proofs.Condition.ReaderSteps
import Rebate.Proofs.Condition.Written

/-!
Reading written outlines. Every split, cut and count of the reader finds just the places at which
the words were put, so that an outline which is not too deeply nested is read back from each of its
texts.
-/

set_option autoImplicit false
set_option relaxedAutoImplicit false

namespace Rebate

open Text

namespace Connective

/-- The separator of the connective does not occur in the text, not even with a space of the
surroundings on either side. -/
def AbsentFrom (c : Connective) (text : List Char) : Prop :=
  ¬ c.separator.word <:+: ' ' :: (text ++ [' '])

variable {c : Connective} {text : List Char}

private theorem inner_separator (c : Connective) : c.separator.word.tail.dropLast = c.word := by
  cases c <;> rfl

private theorem plain_word (c : Connective) : Plain c.word := by
  cases c <;> decide

theorem glued_absentFrom (c : Connective) : Glued c.AbsentFrom := by
  refine ⟨by cases c <;> simp only [AbsentFrom] <;> decide, ?_⟩
  intro left right d hd hleft hright h
  have hword : d ∉ c.word := c.plain_word.not_mem hd
  have hsplit : ' ' :: (left ++ d :: right ++ [' ']) = (' ' :: left) ++ d :: (right ++ [' ']) := by
    simp
  rw [hsplit] at h
  by_cases hspace : d = ' '
  · subst hspace
    rcases infix_append_cons (c.inner_separator ▸ hword) h with h | h
    · exact hleft (by simpa using h)
    · exact hright h
  · have hmem : d ∉ c.separator.word := by
      simp [separator, hspace, hword]
    rcases infix_append_cons_of_not_mem c.separator.word_ne_nil hmem h with h | h
    · exact hleft (h.trans (List.prefix_append (' ' :: left) [' ']).isInfix)
    · exact hright (h.trans (List.suffix_cons ' ' _).isInfix)

theorem absentFrom_of_plain (hplain : Plain text) (hne : text ≠ c.word) :
    c.AbsentFrom text := by
  -- The separator stands at the start, where it ends the token, or its first space is a second
  -- one in a text that has only one.
  rintro ⟨before, after, h⟩
  have hword := c.plain_word
  have hspace : isBlank ' ' = true := by decide
  cases before with
  | nil =>
    have hrest : c.word ++ ' ' :: after = text ++ [' '] := by
      simpa [separator] using h
    have htake := congrArg (List.takeWhile fun d => !isBlank d) hrest
    rw [List.takeWhile_append_of_pos (fun d hd => by simp [(hword d hd).1]),
      List.takeWhile_append_of_pos (fun d hd => by simp [(hplain d hd).1])] at htake
    exact hne (by simpa [hspace] using htake.symm)
  | cons d before =>
    have hrest : before ++ ' ' :: (c.word ++ ' ' :: after) = text ++ [' '] := by
      simpa [separator] using (List.cons.inj h).2
    have hcount := congrArg (List.count ' ') hrest
    have hzero : text.count ' ' = 0 := by
      rw [List.count_eq_zero]
      exact hplain.not_mem (Or.inl hspace)
    simp only [List.count_append, List.count_cons_self, List.count_nil, hzero] at hcount
    omega

theorem absentFrom_quotation (h : Unjoined text) : c.AbsentFrom ('"' :: text ++ ['"']) := by
  intro hmem
  have hquote : '"' ∉ c.separator.word := by cases c <;> decide
  have hsplit : ' ' :: ('"' :: text ++ ['"'] ++ [' ']) =
      [' '] ++ '"' :: (text ++ '"' :: [' ']) := by
    simp
  rw [hsplit] at hmem
  rcases infix_enclosed c.separator.word_ne_nil hquote hmem with hmem | hmem | hmem
  · exact absurd hmem (by cases c <;> decide)
  · exact h c hmem
  · exact absurd hmem (by cases c <;> decide)

private theorem absentFrom_token {a : Operand} (h : a.Spelled text) : c.AbsentFrom text := by
  rcases h.solid_or_quotation with hsolid | ⟨s, rfl, -, hjoint, -⟩
  · exact absentFrom_of_plain hsolid.plain (hsolid.ne_joint c)
  · exact absentFrom_quotation hjoint

private theorem AbsentFrom.not_infix_append (h : c.AbsentFrom text) :
    ¬ c.separator.word <:+: text ++ c.separator.word.dropLast := by
  have hlast : c.separator.word.dropLast = ' ' :: c.word := by cases c <;> rfl
  have hspace : ' ' ∉ c.separator.word.tail.dropLast :=
    c.inner_separator ▸ c.plain_word.not_mem (Or.inl (by decide))
  rw [hlast]
  intro hmem
  -- The space at the seam is the only place where the two could run into each other.
  rcases infix_append_cons hspace hmem with hmem | hmem
  · exact h (hmem.trans (List.suffix_cons ' ' _).isInfix)
  · have hlength := hmem.length_le
    simp only [separator, List.cons_append, List.length_cons, List.length_append] at hlength
    omega

theorem AbsentFrom.not_within (h : c.AbsentFrom text) : ¬ c.separator.word <:+: text :=
  fun hmem => h.not_infix_append (hmem.trans (List.prefix_append text _).isInfix)

theorem Joined.forall₂_split {α : Type} {Written : α → List Char → Prop} {xs : List α}
    (h : c.Joined Written xs text) (habsent : ∀ {x text}, Written x text → c.AbsentFrom text) :
    List.Forall₂ Written xs (c.separator.split text) := by
  induction h with
  | @one x text h =>
    rw [Keyword.split_eq_singleton (habsent h).not_within]
    exact .cons h .nil
  | @more x xs text rest h hrest ih =>
    rw [Keyword.split_append (habsent h).not_infix_append]
    exact .cons h ih

private theorem Joined.mapM_split {α : Type} {Written : α → List Char → Prop} {xs : List α}
    {read : List Char → Except ReadError α} (h : c.Joined Written xs text)
    (habsent : ∀ {x text}, Written x text → c.AbsentFrom text)
    (hread : ∀ x ∈ xs, ∀ {text}, Written x text → read text = .ok x) :
    (c.separator.split text).mapM read = .ok xs := by
  have hparts := (List.forall₂_and_left _ _).mpr ⟨fun x hx => hx, h.forall₂_split habsent⟩
  exact mapM_eq_ok_iff.mpr (hparts.flip.imp fun _ x ⟨hx, hw⟩ => hread x hx hw)

end Connective

private theorem NoSymbol.of_allBlank {text : List Char} (h : AllBlank text) : NoSymbol text := by
  intro c hc
  have hblank := h c hc
  refine ⟨?_, ?_, ?_⟩ <;> rintro rfl <;> exact absurd hblank (by decide)

private theorem Operand.Written.noSymbol {a : Operand} {text : List Char} (h : a.Written text) :
    NoSymbol text := by
  obtain ⟨hbefore, htoken, hafter⟩ := h
  intro c hc
  rw [List.mem_append, List.mem_append] at hc
  rcases hc with (hc | hc) | hc
  · exact NoSymbol.of_allBlank hbefore c hc
  · exact htoken.noSymbol c hc
  · exact NoSymbol.of_allBlank hafter c hc

namespace Relation

variable {text left right : List Char}

private theorem not_mem_of_noSymbol (h : NoSymbol text) {q : Relation} {c : Char}
    (hc : c ∈ q.symbol.word) : c ∉ text := by
  intro hmem
  obtain ⟨hlt, hgt, heq⟩ := h c hmem
  cases q <;> simp [symbol, hlt, hgt, heq] at hc

theorem cut?_eq_none_iff : cut? text = none ↔ ∀ r : Relation, ¬ r.symbol.word <:+: text := by
  have hall : ∀ r : Relation, r ∈ searchOrder := by
    intro r
    cases r <;> decide
  rw [cut?, List.findSome?_eq_none_iff]
  simp [hall, Keyword.cut?_eq_none_iff]

theorem cut?_eq_none (h : NoSymbol text) : cut? text = none := by
  rw [cut?_eq_none_iff]
  intro r hmem
  obtain ⟨c, word, hword⟩ := List.exists_cons_of_ne_nil r.symbol.word_ne_nil
  have hc : c ∈ r.symbol.word := hword ▸ List.mem_cons_self
  exact not_mem_of_noSymbol h hc (hmem.subset hc)

theorem cut?_eq_some_iff {r : Relation} :
    cut? text = some (r, left, right) ↔
      ∃ before after, searchOrder = before ++ r :: after ∧
        (∀ q ∈ before, ¬ q.symbol.word <:+: text) ∧ r.symbol.cut? text = some (left, right) := by
  rw [cut?, List.findSome?_eq_some_iff]
  simp only [Option.map_eq_none_iff, Keyword.cut?_eq_none_iff]
  constructor
  · rintro ⟨before, q, after, horder, hq, hbefore⟩
    obtain ⟨parts, hcut, heq⟩ := Option.map_eq_some_iff.mp hq
    obtain ⟨rfl, rfl⟩ : q = r ∧ parts = (left, right) := by simpa using heq
    exact ⟨before, after, horder, hbefore, hcut⟩
  · rintro ⟨before, after, horder, hbefore, hcut⟩
    exact ⟨before, r, after, horder, by rw [hcut]; rfl, hbefore⟩

private theorem cut?_symbol (h : NoSymbol left) (r : Relation) :
    r.symbol.cut? (left ++ r.symbol.word ++ right) = some (left, right) := by
  apply Keyword.cut?_append
  -- The last character of the symbol has not been met yet.
  have hlast : ∃ c ∈ r.symbol.word, c ∉ r.symbol.word.dropLast := by
    cases r <;> simp [symbol]
  obtain ⟨c, hc, hlast⟩ := hlast
  intro hword
  rcases List.mem_append.mp (hword.subset hc) with hmem | hmem
  · exact not_mem_of_noSymbol h hc hmem
  · exact hlast hmem

private theorem searchOrder_eq (r : Relation) :
    ∃ before after, searchOrder = before ++ r :: after ∧
      ∀ q ∈ before, ∃ c ∈ q.symbol.word, c ∉ r.symbol.word := by
  cases r with
  | ge => exact ⟨[], [le, gt, lt, eq], rfl, by simp⟩
  | le => exact ⟨[ge], [gt, lt, eq], rfl, by simp [symbol]⟩
  | gt => exact ⟨[ge, le], [lt, eq], rfl, by simp [symbol]⟩
  | lt => exact ⟨[ge, le, gt], [eq], rfl, by simp [symbol]⟩
  | eq => exact ⟨[ge, le, gt, lt], [], rfl, by simp [symbol]⟩

private theorem cut?_comparison (hleft : NoSymbol left) (hright : NoSymbol right) (r : Relation) :
    cut? (left ++ r.symbol.word ++ right) = some (r, left, right) := by
  obtain ⟨before, after, horder, hbefore⟩ := searchOrder_eq r
  refine cut?_eq_some_iff.mpr ⟨before, after, horder, ?_, cut?_symbol hleft r⟩
  intro q hq hmem
  obtain ⟨c, hc, hr⟩ := hbefore q hq
  have htext : c ∉ left ++ r.symbol.word ++ right := by
    simp [not_mem_of_noSymbol hleft hc, not_mem_of_noSymbol hright hc, hr]
  exact htext (hmem.subset hc)

end Relation

private theorem Value.truth?_eq_none {token : List Char}
    (h : token ≠ "true".toList ∧ token ≠ "false".toList) :
    truth? (String.ofList token) = none := by
  have hne : ∀ {word : String}, token ≠ word.toList → String.ofList token ≠ word := by
    intro word hword hstring
    exact hword (by rw [← hstring, String.toList_ofList])
  rw [truth?, if_neg (hne h.1), if_neg (hne h.2)]

private theorem unquote?_quotation (s : List Char) : unquote? ('"' :: s ++ ['"']) = some s := by
  simp [unquote?]

private theorem unquote?_eq_none {token : List Char} (h : ∀ s, token ≠ '"' :: s ++ ['"']) :
    unquote? token = none := by
  rw [unquote?.eq_def]
  split
  · next rest =>
    split
    · next hlast =>
      obtain ⟨s, hs⟩ := List.getLast?_eq_some_iff.mp hlast
      exact absurd (congrArg _ hs) (h s)
    · rfl
  · rfl

theorem Value.ofToken?_eq_none_iff {token : List Char} :
    ofToken? token = none ↔ Decimal.ofChars? token = none ∧
      (token ≠ "true".toList ∧ token ≠ "false".toList) ∧ ∀ s, token ≠ '"' :: s ++ ['"'] := by
  constructor
  · intro h
    obtain ⟨hnumber, htruth, hquoted⟩ : Decimal.ofChars? token = none ∧
        truth? (String.ofList token) = none ∧ unquote? token = none := by
      simpa [ofToken?] using h
    refine ⟨hnumber, ⟨?_, ?_⟩, ?_⟩
    · rintro rfl
      exact absurd htruth (by decide)
    · rintro rfl
      exact absurd htruth (by decide)
    · rintro s rfl
      rw [unquote?_quotation] at hquoted
      cases hquoted
  · rintro ⟨hnumber, htruth, hquoted⟩
    rw [ofToken?, hnumber, truth?_eq_none htruth, unquote?_eq_none hquoted]
    rfl

namespace Operand

variable {a : Operand} {token text : List Char}

private theorem Spelled.ofToken? (h : a.Spelled token) :
    Value.ofToken? token = match a with
      | .const v => some v
      | .var _ => none := by
  cases h with
  | number h => simp [Value.ofToken?, h]
  | truth b => cases b <;> decide +kernel
  | @quotation s =>
    have hnumber : Decimal.ofChars? ('"' :: s ++ ['"']) = none :=
      Decimal.ofChars?_eq_none_of_mem List.mem_cons_self (by decide)
    have htruth : Value.truth? (String.ofList ('"' :: s ++ ['"'])) = none :=
      Value.truth?_eq_none ⟨by simp, by simp⟩
    rw [Value.ofToken?, hnumber, htruth, unquote?_quotation]
    rfl
  | name hne hchar hthen hnumber htruth hquoted =>
    exact Value.ofToken?_eq_none_iff.mpr ⟨hnumber, htruth, hquoted⟩

theorem Written.read (h : a.Written text) (fragment : List Char) :
    Operand.read fragment text = .ok a := by
  obtain @⟨before, token, after, hbefore, hspelled, hafter⟩ := h
  rw [Operand.read]
  simp only [hspelled.tight.trim_eq hbefore hafter, hspelled.tight.ne_nil, if_false,
    hspelled.ofToken?]
  cases hspelled with
  | number h => rfl
  | truth b => rfl
  | quotation => rfl
  | name hne hchar =>
    have hany : (token.any fun c => isOperatorChar c || isBlank c) = false := by
      rw [List.any_eq_false]
      intro c hc
      simp [hchar c hc]
    simp only [hany, Bool.false_eq_true, if_false]

end Operand

namespace Negation

variable {token rest : List Char}

theorem after?_of_plain (hplain : Plain token) (hne : token ≠ word)
    (hhead : ∀ c ∈ rest.head?, isBlank c = true ∨ isOperatorChar c = true) :
    opening.after? (token ++ rest) = none := by
  rw [Keyword.after?_eq_none_iff]
  rintro ⟨behind, hbehind⟩
  -- Both the token and the word of the negation end at the first blank or symbol.
  have hword : Plain word := by decide
  have hrest : rest.takeWhile (fun c => !isBlank c && !isOperatorChar c) = [] := by
    cases rest with
    | nil => rfl
    | cons c rest =>
      rcases hhead c rfl with hc | hc <;> simp [hc]
  have hsplit : word ++ ' ' :: behind = token ++ rest := by
    simpa [opening] using hbehind
  have htake := congrArg (List.takeWhile fun c => !isBlank c && !isOperatorChar c) hsplit
  rw [List.takeWhile_append_of_pos (fun c hc => by simp [hword c hc]),
    List.takeWhile_append_of_pos (fun c hc => by simp [hplain c hc]), hrest] at htake
  have hspace : isBlank ' ' = true := by decide
  exact hne (by simpa [hspace] using htake.symm)

theorem after?_of_quotation (text : List Char) : opening.after? ('"' :: text) = none := by
  rw [Keyword.after?_eq_none_iff]
  simp [opening, word]

theorem strip_opening {before text : List Char} {counted : Nat} (hbefore : AllBlank before) :
    strip counted (before ++ opening.word ++ text) = strip (counted + 1) text := by
  have hword : trimStart opening.word = opening.word := by decide
  apply strip_of_some
  rw [List.append_assoc, trimStart_append_of_allBlank hbefore, trimStart_append (by decide), hword]
  exact Keyword.after?_eq_some_iff.mpr rfl

end Negation

namespace Atom

variable {atom : Atom} {text : List Char}

theorem Written.read (h : atom.Written text) : Atom.read text = .ok atom := by
  cases h with
  | single h =>
    rw [Atom.read, Relation.cut?_eq_none h.noSymbol, h.read]
    rfl
  | comparison hleft hright =>
    rw [Atom.read, Relation.cut?_comparison hleft.noSymbol hright.noSymbol]
    simp only [hleft.read, hright.read]
    rfl

private theorem Written.trimStart_eq (h : atom.Written text) :
    ∃ (a : Operand) (token rest : List Char), trimStart text = token ++ rest ∧ a.Spelled token ∧
      ∀ c ∈ rest.head?, isBlank c = true ∨ isOperatorChar c = true := by
  have hhead : ∀ {after rest : List Char}, AllBlank after →
      (∀ c ∈ rest.head?, isOperatorChar c = true) →
      ∀ c ∈ (after ++ rest).head?, isBlank c = true ∨ isOperatorChar c = true := by
    intro after rest hafter hrest c hc
    cases after with
    | nil => exact Or.inr (hrest c hc)
    | cons d after =>
      obtain rfl : d = c := by simpa using hc
      exact Or.inl (hafter d List.mem_cons_self)
  cases h with
  | single h =>
    obtain ⟨hbefore, hspelled, hafter⟩ := h
    refine ⟨_, _, _, hspelled.tight.trimStart_blanks_append hbefore, hspelled, ?_⟩
    simpa using @hhead _ [] hafter (by simp)
  | @comparison a b r left right hleft hright =>
    obtain @⟨before, token, after, hbefore, hspelled, hafter⟩ := hleft
    have hsplit : before ++ token ++ after ++ r.symbol.word ++ right =
        before ++ token ++ (after ++ (r.symbol.word ++ right)) := by simp
    rw [hsplit]
    refine ⟨a, token, after ++ (r.symbol.word ++ right), ?_, hspelled, hhead hafter ?_⟩
    · exact hspelled.tight.trimStart_blanks_append hbefore
    · cases r <;> simp [Relation.symbol] <;> decide

private theorem Written.after?_opening (h : atom.Written text) :
    Negation.opening.after? (trimStart text) = none := by
  obtain ⟨a, token, rest, htext, hspelled, hhead⟩ := h.trimStart_eq
  rw [htext]
  rcases hspelled.solid_or_quotation with hsolid | ⟨s, rfl, -⟩
  · exact Negation.after?_of_plain hsolid.plain hsolid.ne_negation hhead
  · exact Negation.after?_of_quotation _

end Atom

theorem Leaf.Written.strip {leaf : Leaf} {text : List Char} (h : leaf.Written text)
    (counted : Nat) :
    ∃ rest, Negation.strip counted text = (counted + leaf.negations, rest) ∧
      leaf.atom.Written rest := by
  induction h generalizing counted with
  | @plain atom text h => exact ⟨text, Negation.strip_of_none h.after?_opening, h⟩
  | @negated n atom before text hbefore h ih =>
    obtain ⟨rest, hstrip, hatom⟩ := ih (counted + 1)
    refine ⟨rest, ?_, hatom⟩
    rw [Negation.strip_opening hbefore, hstrip, Nat.add_assoc, Nat.add_comm 1]

private theorem Leaf.Written.read {leaf : Leaf} {text : List Char} (h : leaf.Written text)
    (hnesting : leaf.negations ≤ Outline.maxNesting) : Leaf.read text = .ok leaf := by
  obtain ⟨rest, hstrip, hatom⟩ := h.strip 0
  rw [Nat.zero_add] at hstrip
  simp only [Leaf.read, hstrip, Outline.requireNesting_of_le hnesting, hatom.read]
  rfl

theorem Leaf.Written.absentFrom {leaf : Leaf} {text : List Char} (h : leaf.Written text)
    (c : Connective) : c.AbsentFrom text :=
  c.glued_absentFrom.leaf Connective.absentFrom_token
    (Connective.absentFrom_of_plain (by decide) (by cases c <;> decide)) h

private theorem Group.Written.read {group : Group} {text : List Char} (h : group.Written text)
    (hnesting : group.nesting ≤ Outline.maxNesting) : Group.read text = .ok group := by
  have hleaf : ∀ leaf ∈ group, leaf.negations ≤ Outline.maxNesting := by
    intro leaf hmem
    have := (Group.nesting_le_iff.mp hnesting).2 leaf hmem
    omega
  have hsplit := Connective.Joined.mapM_split h (fun hw => hw.absentFrom .and)
    fun leaf hmem _ hw => hw.read (hleaf leaf hmem)
  exact Group.read_eq_ok_iff.mpr ⟨mapM_eq_ok_iff.mp hsplit, hnesting⟩

theorem Group.Written.absentFrom {group : Group} {text : List Char} (h : group.Written text) :
    Connective.or.AbsentFrom text :=
  (Connective.glued_absentFrom .or).joined (fun hw => hw.absentFrom .or)
    (Connective.absentFrom_of_plain (by decide) (by decide)) h

theorem Outline.Written.read {outline : Outline} {text : List Char} (h : outline.Written text)
    (hnesting : outline.nesting ≤ maxNesting) : Outline.read text = .ok outline := by
  have hgroup : ∀ group ∈ outline, group.nesting ≤ maxNesting := by
    intro group hmem
    have := (Outline.nesting_le_iff.mp hnesting).2 group hmem
    omega
  have hsplit := Connective.Joined.mapM_split h Group.Written.absentFrom
    fun group hmem _ hw => hw.read (hgroup group hmem)
  exact Outline.read_eq_ok_iff.mpr ⟨mapM_eq_ok_iff.mp hsplit, hnesting⟩

end Rebate
