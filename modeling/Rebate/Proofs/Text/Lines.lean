import Mathlib.Data.List.TakeWhile
import Rebate.Proofs.Text.Occurrence
import Rebate.Proofs.Text.Trimming
import Rebate.Text.Line

/-!
The lines of a file, each known by what stands before it. A line begins where the file begins or
behind a line feed, and its number is one more than the count of the line feeds before it. Cutting
off one line after another finds all of them, each one once and in order.
-/

set_option autoImplicit false
set_option relaxedAutoImplicit false

namespace Rebate

namespace Text

/-- What stands before the start of a line: nothing, or a text that ends with a line feed. -/
def BeforeLine (before : List Char) : Prop :=
  before = [] ∨ ['\n'] <:+ before

/-- The line behind a part of a text. It goes up to the next line feed, and one carriage return
directly before that is left out; without a line feed it is all that follows, if anything does. -/
inductive LineBehind (text before : List Char) : List Char → Prop
  | ended {body after : List Char} (htext : text = before ++ (body ++ '\n' :: after))
      (hstart : BeforeLine before) (hbody : '\n' ∉ body) : LineBehind text before (dropReturn body)
  | last {body : List Char} (htext : text = before ++ body) (hstart : BeforeLine before)
      (hbody : '\n' ∉ body) (hne : body ≠ []) : LineBehind text before body

variable {text body rest before line : List Char}

theorem lineFeed_cut?_eq_none (h : lineFeed.cut? text = none) : '\n' ∉ text := by
  intro hmem
  apply Keyword.cut?_eq_none_iff.mp h
  obtain ⟨left, right, rfl⟩ := List.append_of_mem hmem
  exact ⟨left, right, by simp [lineFeed]⟩

theorem lineFeed_cut?_eq_some (h : lineFeed.cut? text = some (body, rest)) :
    text = body ++ '\n' :: rest ∧ '\n' ∉ body := by
  constructor
  · simpa [lineFeed] using Keyword.eq_of_cut?_eq_some h
  · intro hmem
    apply Keyword.not_infix_of_cut? h
    obtain ⟨left, right, rfl⟩ := List.append_of_mem hmem
    exact ⟨left, right, by simp [lineFeed]⟩

theorem lineFeed_cut?_append (h : '\n' ∉ body) :
    lineFeed.cut? (body ++ '\n' :: rest) = some (body, rest) := by
  have hword : ¬ lineFeed.word <:+: body ++ lineFeed.word.dropLast := by
    intro hmem
    rw [show lineFeed.word.dropLast = [] from rfl, List.append_nil] at hmem
    exact h (hmem.subset (List.mem_singleton.mpr rfl))
  simpa [lineFeed] using @Keyword.cut?_append _ _ rest hword

private theorem eq_of_append_lineFeed {body' rest' : List Char} (hbody : '\n' ∉ body)
    (hbody' : '\n' ∉ body') (h : body ++ '\n' :: rest = body' ++ '\n' :: rest') :
    body = body' ∧ rest = rest' := by
  have hcut : some (body, rest) = some (body', rest') := by
    rw [← lineFeed_cut?_append hbody, h, lineFeed_cut?_append hbody']
  exact Prod.mk.inj (Option.some.inj hcut)

theorem lines_of_cut?_eq_none (h : lineFeed.cut? text = none) :
    lines text = if text = [] then [] else [text] := by
  simp [lines, Keyword.split_of_cut?_eq_none h]

theorem lines_of_cut?_eq_some (h : lineFeed.cut? text = some (body, rest)) :
    lines text = dropReturn body :: lines rest := by
  have hrest : lineFeed.split rest ≠ [] := Keyword.split_ne_nil lineFeed rest
  simp only [lines, Keyword.split_of_cut?_eq_some h, List.dropLast_cons_of_ne_nil hrest,
    List.map_cons, List.getLast_cons hrest]
  split <;> rfl

theorem beforeLine_append_iff :
    BeforeLine (body ++ '\n' :: before) ↔ BeforeLine before := by
  constructor
  · rintro (h | ⟨left, h⟩)
    · simp at h
    · obtain rfl | ⟨before', c, rfl⟩ := List.eq_nil_or_concat before
      · exact Or.inl rfl
      · have hsplit : left ++ ['\n'] = (body ++ '\n' :: before') ++ [c] := by simpa using h
        obtain rfl : '\n' = c := by simpa using (List.append_inj' hsplit rfl).2
        exact Or.inr ⟨before', by simp⟩
  · rintro (rfl | h)
    · exact Or.inr ⟨body, rfl⟩
    · exact Or.inr (h.trans ⟨body ++ ['\n'], by simp⟩)

private theorem exists_of_beforeLine {after : List Char} (hbody : '\n' ∉ body) (hne : before ≠ [])
    (hbefore : BeforeLine before) (h : body ++ '\n' :: rest = before ++ after) :
    ∃ before', before = body ++ '\n' :: before' ∧ rest = before' ++ after := by
  have hmem : '\n' ∈ before := (hbefore.resolve_left hne).subset (List.mem_singleton.mpr rfl)
  obtain ⟨body', before', rfl, hbody'⟩ := List.eq_append_cons_of_mem hmem
  obtain ⟨rfl, rfl⟩ := eq_of_append_lineFeed hbody hbody' (by simpa using h)
  exact ⟨before', rfl, rfl⟩

private theorem lineBehind_of_not_mem (htext : '\n' ∉ text) :
    LineBehind text before line ↔ before = [] ∧ text ≠ [] ∧ line = text := by
  have hstart : ∀ {after}, text = before ++ after → BeforeLine before → before = [] := by
    rintro after rfl (hnil | hsuffix)
    · exact hnil
    · exact absurd (List.mem_append_left _ (hsuffix.subset (List.mem_singleton.mpr rfl))) htext
  constructor
  · rintro (⟨h, hbefore, -⟩ | ⟨h, hbefore, -, hne⟩)
    · exact absurd (by simp [h]) htext
    · obtain rfl := hstart h hbefore
      obtain rfl : text = line := by simpa using h
      exact ⟨rfl, hne, rfl⟩
  · rintro ⟨rfl, hne, rfl⟩
    exact .last rfl (Or.inl rfl) htext hne

private theorem lineBehind_append_iff (hbody : '\n' ∉ body) :
    LineBehind (body ++ '\n' :: rest) before line ↔
      before = [] ∧ line = dropReturn body ∨
        ∃ before', before = body ++ '\n' :: before' ∧ LineBehind rest before' line := by
  constructor
  · intro h
    by_cases hnil : before = []
    · subst hnil
      left
      obtain @⟨body', after, htext, -, hbody'⟩ | ⟨htext, -, hline, -⟩ := h
      · obtain ⟨rfl, -⟩ := eq_of_append_lineFeed hbody hbody' htext
        exact ⟨rfl, rfl⟩
      · obtain rfl : body ++ '\n' :: rest = line := htext
        exact absurd (List.mem_append_right body List.mem_cons_self) hline
    · right
      obtain ⟨htext, hstart, hbody'⟩ | ⟨htext, hstart, hline, hne⟩ := h
      · obtain ⟨before', rfl, rfl⟩ := exists_of_beforeLine hbody hnil hstart htext
        exact ⟨before', rfl, .ended rfl (beforeLine_append_iff.mp hstart) hbody'⟩
      · obtain ⟨before', rfl, rfl⟩ := exists_of_beforeLine hbody hnil hstart htext
        exact ⟨before', rfl, .last rfl (beforeLine_append_iff.mp hstart) hline hne⟩
  · rintro (⟨rfl, rfl⟩ | ⟨before', rfl, hstart⟩)
    · exact .ended rfl (Or.inl rfl) hbody
    · obtain @⟨body', after, htext, hbefore, hbody'⟩ | ⟨htext, hbefore, hline, hne⟩ := hstart
      · have hsplit : body ++ '\n' :: rest =
            (body ++ '\n' :: before') ++ (body' ++ '\n' :: after) := by
          simp [htext]
        exact .ended hsplit (beforeLine_append_iff.mpr hbefore) hbody'
      · exact .last (by simp [htext]) (beforeLine_append_iff.mpr hbefore) hline hne

/-- Numbering the lines counts the line feeds before them. -/
theorem mem_zipIdx_lines {number first : Nat} :
    (line, number) ∈ (lines text).zipIdx first ↔
      ∃ before, LineBehind text before line ∧ number = before.count '\n' + first := by
  induction text using Keyword.split_induction lineFeed generalizing first with
  | whole text hcut =>
    simp only [lineBehind_of_not_mem (lineFeed_cut?_eq_none hcut), lines_of_cut?_eq_none hcut]
    by_cases hnil : text = []
    · simp [hnil]
    · simp [hnil]
  | cut text body rest hcut ih =>
    obtain ⟨rfl, hbody⟩ := lineFeed_cut?_eq_some hcut
    have hcount : ∀ before : List Char,
        (body ++ '\n' :: before).count '\n' + first = before.count '\n' + (first + 1) := by
      intro before
      rw [List.count_append, List.count_cons_self, List.count_eq_zero.mpr hbody]
      omega
    rw [lines_of_cut?_eq_some hcut, List.zipIdx_cons, List.mem_cons, ih]
    simp only [lineBehind_append_iff hbody]
    constructor
    · rintro (h | ⟨before, hbefore, rfl⟩)
      · obtain ⟨rfl, rfl⟩ := Prod.mk.inj h
        exact ⟨[], Or.inl ⟨rfl, rfl⟩, by simp⟩
      · exact ⟨_, Or.inr ⟨before, rfl, hbefore⟩, (hcount before).symm⟩
    · rintro ⟨before, ⟨rfl, rfl⟩ | ⟨before, rfl, hbefore⟩, rfl⟩
      · exact Or.inl (by simp)
      · exact Or.inr ⟨before, hbefore, hcount before⟩

end Text

open Text

namespace Line

variable {file : String} {line : Line}

/-- A line of a file, with the number that it has there. -/
def StandsIn (file : String) (line : Line) : Prop :=
  ∃ before, LineBehind file.toList before line.text.toList ∧
    line.number = before.count '\n' + 1

theorem mem_ofFile_iff : line ∈ ofFile file ↔ line.StandsIn file := by
  obtain ⟨number, text⟩ := line
  rw [StandsIn, ← mem_zipIdx_lines, ofFile, ofTexts, List.zipIdx_map, List.map_map]
  simp only [List.mem_map, Function.comp_apply, Prod.exists, Prod.map_apply, id_eq, mk.injEq]
  constructor
  · rintro ⟨text', number', hmem, rfl, rfl⟩
    rwa [String.toList_ofList]
  · intro hmem
    exact ⟨text.toList, number, hmem, rfl, String.ofList_toList⟩

private theorem pairwise_ofTexts (texts : List String) :
    (ofTexts texts).Pairwise fun a b => a.number < b.number := by
  have hnumbers : (ofTexts texts).map number = List.range' 1 texts.length := by
    rw [ofTexts, List.map_map, ← List.zipIdx_map_snd]
    rfl
  rw [← List.pairwise_map (f := number) (R := (· < ·)), hnumbers]
  exact List.pairwise_lt_range'

theorem pairwise_rulesOfFile (file : String) :
    (rulesOfFile file).Pairwise fun a b => a.number < b.number :=
  (pairwise_ofTexts _).filter _

theorem holdsRule_iff : line.HoldsRule ↔
    ∃ blanks c rest, line.text.toList = blanks ++ c :: rest ∧ AllBlank blanks ∧
      isBlank c = false ∧ c ≠ '#' := by
  constructor
  · rintro ⟨c, hc, hmark⟩
    obtain ⟨rest, hrest⟩ := List.head?_eq_some_iff.mp hc
    refine ⟨line.text.toList.takeWhile isBlank, c, rest, ?_, ?_, ?_, hmark⟩
    · rw [← hrest]
      exact List.takeWhile_append_dropWhile.symm
    · intro d hd
      exact List.mem_takeWhile_imp hd
    · have := List.head?_dropWhile_not isBlank line.text.toList
      rw [trimStart] at hc
      rw [hc] at this
      simpa using this
  · rintro ⟨blanks, c, rest, htext, hblanks, hc, hmark⟩
    have hstart : trimStart (c :: rest) = c :: rest :=
      List.dropWhile_cons_of_neg (by simp [hc])
    refine ⟨c, ?_, hmark⟩
    rw [htext, trimStart_append_of_allBlank hblanks, hstart]
    rfl

end Line

end Rebate
