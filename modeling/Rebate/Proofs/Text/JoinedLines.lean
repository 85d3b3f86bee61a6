import Rebate.Proofs.Text.Lines

/-!
The lines of texts that are put together. If a text ends where a line begins, then the lines of
another text follow its own, with their numbers raised by the line feeds before them. Lines that are
joined by either line ending are found again, whether or not the last one is ended too.
-/

set_option autoImplicit false
set_option relaxedAutoImplicit false

namespace Rebate

namespace Text

variable {before rest body ending : List Char}

private theorem lines_nil : lines [] = [] :=
  lines_of_cut?_eq_none rfl

private theorem lines_append_lineFeed (hbody : '\n' ∉ body) :
    lines (body ++ '\n' :: rest) = dropReturn body :: lines rest :=
  lines_of_cut?_eq_some (lineFeed_cut?_append hbody)

private theorem eq_nil_of_beforeLine (hbefore : BeforeLine before) (h : '\n' ∉ before) :
    before = [] := by
  refine hbefore.resolve_right fun hsuffix => h ?_
  exact hsuffix.subset (List.mem_singleton.mpr rfl)

private theorem lines_append (hbefore : BeforeLine before) :
    lines (before ++ rest) = lines before ++ lines rest := by
  induction before using Keyword.split_induction lineFeed with
  | whole before hcut =>
    obtain rfl := eq_nil_of_beforeLine hbefore (lineFeed_cut?_eq_none hcut)
    rw [lines_nil, List.nil_append, List.nil_append]
  | cut before body before' hcut ih =>
    obtain ⟨rfl, hbody⟩ := lineFeed_cut?_eq_some hcut
    have hrest := ih (beforeLine_append_iff.mp hbefore)
    rw [List.append_assoc, List.cons_append, lines_append_lineFeed hbody,
      lines_append_lineFeed hbody, hrest, List.cons_append]

private theorem length_lines (hbefore : BeforeLine before) :
    (lines before).length = before.count '\n' := by
  induction before using Keyword.split_induction lineFeed with
  | whole before hcut =>
    obtain rfl := eq_nil_of_beforeLine hbefore (lineFeed_cut?_eq_none hcut)
    rw [lines_nil, List.length_nil, List.count_nil]
  | cut before body before' hcut ih =>
    obtain ⟨rfl, hbody⟩ := lineFeed_cut?_eq_some hcut
    rw [lines_append_lineFeed hbody, List.length_cons, ih (beforeLine_append_iff.mp hbefore),
      List.count_append, List.count_cons_self, List.count_eq_zero.mpr hbody]
    omega

def LineEnding (ending : List Char) : Prop :=
  ending = ['\n'] ∨ ending = ['\r', '\n']

/-- The texts that no ending is taken off or found in. -/
structure Unbroken (text : List Char) : Prop where
  not_mem : '\n' ∉ text
  not_return : text.getLast? ≠ some '\r'

private theorem lines_append_ending (hbody : Unbroken body) (hending : LineEnding ending) :
    lines (body ++ ending ++ rest) = body :: lines rest := by
  rcases hending with rfl | rfl
  · rw [List.append_assoc, List.singleton_append, lines_append_lineFeed hbody.not_mem, dropReturn,
      if_neg hbody.not_return]
  · have hreturn : '\n' ∉ body ++ ['\r'] := by
      simp [hbody.not_mem]
    have hsplit : body ++ ['\r', '\n'] ++ rest = (body ++ ['\r']) ++ '\n' :: rest := by
      simp
    rw [hsplit, lines_append_lineFeed hreturn, dropReturn, if_pos (List.getLast?_concat ..),
      List.dropLast_concat]

private theorem lines_of_unbroken (hbody : Unbroken body) (hne : body ≠ []) :
    lines body = [body] := by
  have hcut : lineFeed.cut? body = none :=
    Keyword.cut?_eq_none_of_not_mem (List.mem_singleton.mpr rfl) hbody.not_mem
  rw [lines_of_cut?_eq_none hcut, if_neg hne]

/-- Joined lines are found again, up to an empty text that is no line. -/
theorem lines_intercalate {texts : List (List Char)} {final : List Char}
    (htexts : ∀ text ∈ texts, Unbroken text ∧ text ≠ []) (hending : LineEnding ending)
    (hfinal : final = [] ∨ final = ending) (hne : texts ≠ []) :
    lines (ending.intercalate texts ++ final) = texts := by
  induction texts with
  | nil => exact absurd rfl hne
  | cons text texts ih =>
    obtain ⟨⟨hunbroken, hnonempty⟩, hlater⟩ := List.forall_mem_cons.mp htexts
    cases texts with
    | nil =>
      rw [List.intercalate_singleton]
      rcases hfinal with rfl | rfl
      · rw [List.append_nil, lines_of_unbroken hunbroken hnonempty]
      · have hlast := @lines_append_ending [] _ _ hunbroken hending
        rwa [List.append_nil, lines_nil] at hlast
    | cons next texts =>
      have hrest := ih hlater (by simp)
      rw [List.intercalate_cons_cons, List.append_assoc, lines_append_ending hunbroken hending,
        hrest]

end Text

open Text

namespace Line

variable {first second : String}

def shift (places : Nat) (line : Line) : Line :=
  { line with number := line.number + places }

private theorem ofTexts_append (texts later : List String) :
    ofTexts (texts ++ later) = ofTexts texts ++ (ofTexts later).map (shift texts.length) := by
  rw [ofTexts, ofTexts, ofTexts, List.zipIdx_append, List.map_append, Nat.add_comm,
    ← List.map_snd_add_zipIdx_eq_zipIdx, List.map_map, List.map_map]
  rfl

private theorem ofFile_append (hfirst : BeforeLine first.toList) :
    ofFile (first ++ second) =
      ofFile first ++ (ofFile second).map (shift (first.toList.count '\n')) := by
  rw [ofFile, ofFile, ofFile, String.toList_append, lines_append hfirst, List.map_append,
    ofTexts_append, List.length_map, length_lines hfirst]

theorem rulesOfFile_append (hfirst : BeforeLine first.toList) :
    rulesOfFile (first ++ second) =
      rulesOfFile first ++ (rulesOfFile second).map (shift (first.toList.count '\n')) := by
  rw [rulesOfFile, ofFile_append hfirst, List.filter_append, List.filter_map]
  rfl

end Line

end Rebate
