import Rebate.Proofs.Book.Loading
import Rebate.Proofs.Text.JoinedLines

/-!
A list of rule texts and the file that has them as its lines. Both are loaded to the same book with
the same notices, whichever of the two line endings the file uses, and whether or not it ends its
last line.
-/

set_option autoImplicit false
set_option relaxedAutoImplicit false

namespace Rebate

open Text

namespace Line

/-- The texts that stand as they are in a line of a file and are meant as a rule there. -/
structure Writable (text : String) : Prop where
  unbroken : Unbroken text.toList
  not_blank : ¬ AllBlank text.toList
  not_comment : ∀ blanks rest, AllBlank blanks → text.toList ≠ blanks ++ '#' :: rest

private theorem Writable.holdsRule {line : Line} (h : Writable line.text) : line.HoldsRule := by
  have htext : line.text.toList.takeWhile isBlank ++ trimStart line.text.toList =
      line.text.toList := List.takeWhile_append_dropWhile
  have hblanks : AllBlank (line.text.toList.takeWhile isBlank) :=
    fun c hc => List.mem_takeWhile_imp hc
  cases hstart : trimStart line.text.toList with
  | nil =>
    rw [hstart, List.append_nil] at htext
    exact absurd (htext ▸ hblanks) h.not_blank
  | cons c rest =>
    refine ⟨c, by rw [hstart]; rfl, ?_⟩
    rintro rfl
    exact h.not_comment _ rest hblanks (by rw [← hstart, htext])

private theorem Writable.of_holdsRule {line : Line} (hunbroken : Unbroken line.text.toList)
    (h : line.HoldsRule) : Writable line.text := by
  obtain ⟨c, hc, hmark⟩ := h
  refine ⟨hunbroken, fun hblank => ?_, fun blanks rest hblanks htext => ?_⟩
  · have hnil : trimStart line.text.toList = [] := List.dropWhile_eq_nil_iff.mpr hblank
    rw [hnil] at hc
    cases hc
  · have hstart : trimStart ('#' :: rest) = '#' :: rest :=
      List.dropWhile_cons_of_neg (by decide)
    rw [htext, trimStart_append_of_allBlank hblanks, hstart] at hc
    exact hmark (Option.some.inj hc).symm

variable {texts : List String} {ending final : String}

private theorem rulesOfFile_intercalate (htexts : ∀ text ∈ texts, Writable text)
    (hending : ending = "\n" ∨ ending = "\r\n") (hfinal : final = "" ∨ final = ending) :
    rulesOfFile (ending.intercalate texts ++ final) = ofTexts texts := by
  by_cases hnil : texts = []
  · -- An ending by itself is a blank line, which is left out.
    subst hnil
    rcases hfinal with rfl | rfl
    · rw [String.intercalate_nil]
      decide +kernel
    · rcases hending with rfl | rfl <;> decide +kernel
  · have hlist : ∀ text ∈ texts.map String.toList, Unbroken text ∧ text ≠ [] := by
      intro chars hchars
      obtain ⟨text, hmem, rfl⟩ := List.mem_map.mp hchars
      have hwritable := htexts text hmem
      exact ⟨hwritable.unbroken, fun hempty => hwritable.not_blank (hempty ▸ AllBlank.nil)⟩
    have hendings : LineEnding ending.toList := by
      rcases hending with rfl | rfl
      · exact Or.inl (by decide)
      · exact Or.inr (by decide)
    have hfinals : final.toList = [] ∨ final.toList = ending.toList :=
      hfinal.imp (fun h => by rw [h]; rfl) (congrArg String.toList)
    have hlines := lines_intercalate hlist hendings hfinals (by simpa using hnil)
    have hfile : ofFile (ending.intercalate texts ++ final) = ofTexts texts := by
      rw [ofFile, String.toList_append, String.toList_intercalate, hlines, List.map_map]
      simp [Function.comp_def]
    rw [rulesOfFile, hfile, List.filter_eq_self]
    intro line hline
    obtain ⟨⟨text, number⟩, hmem, rfl⟩ := List.mem_map.mp hline
    have hwritable := htexts text (List.fst_mem_of_mem_zipIdx hmem)
    exact decide_eq_true hwritable.holdsRule

end Line

namespace Book

/-- Loading a file is loading the list of its lines, and the strict load succeeds just if none of
them is rejected. -/
theorem load_intercalate {texts : List String} {ending final : String}
    (htexts : ∀ text ∈ texts, Line.Writable text) (hending : ending = "\n" ∨ ending = "\r\n")
    (hfinal : final = "" ∨ final = ending) :
    readLenient (ending.intercalate texts ++ final) = ofRules texts ∧
      ∀ book, read (ending.intercalate texts ++ final) = .ok book ↔
        (ofRules texts).value.rejected = [] ∧ book = (ofRules texts).value := by
  have hlenient : readLenient (ending.intercalate texts ++ final) = ofRules texts := by
    rw [readLenient, Line.rulesOfFile_intercalate htexts hending hfinal]
    rfl
  refine ⟨hlenient, fun book => ?_⟩
  rw [read_eq_match, hlenient]
  cases (ofRules texts).value with
  | mk rules rejected =>
    cases rejected with
    | cons rejection later => simp
    | nil =>
      simp only [true_and]
      exact ⟨fun h => (Except.ok.inj h).symm, fun h => congrArg _ h.symm⟩

def mixedTexts : List String :=
  [" valor >= 100 ENTAO 5\t", "valor ENTAO", "primeiraCompra ENTAO 10"]

theorem load_intercalate_mixed :
    (∀ text ∈ mixedTexts, Line.Writable text) ∧
      readLenient ("\r\n".intercalate mixedTexts ++ "\r\n") = ofRules mixedTexts ∧
      ∀ book, read ("\r\n".intercalate mixedTexts ++ "\r\n") = .ok book ↔
        (ofRules mixedTexts).value.rejected = [] ∧ book = (ofRules mixedTexts).value := by
  have htexts : ∀ text ∈ mixedTexts, Line.Writable text := by
    intro text hmem
    simp only [mixedTexts, List.mem_cons, List.not_mem_nil, or_false] at hmem
    have hline : (Line.mk 1 text).HoldsRule := by
      rcases hmem with rfl | rfl | rfl <;> decide
    have hunbroken : Unbroken text.toList := by
      rcases hmem with rfl | rfl | rfl <;> exact ⟨by decide, by decide⟩
    exact Line.Writable.of_holdsRule hunbroken hline
  exact ⟨htexts, load_intercalate htexts (Or.inr rfl) (Or.inr rfl)⟩

end Book

end Rebate
