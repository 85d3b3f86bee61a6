import Rebate.Proofs.Condition.ReaderSteps
import Rebate.Proofs.Condition.Scan
import Rebate.Rule.Reader

/-!
What a rule grants, in terms of its text. The pieces between the connectives are conditions by
themselves, and the rule tests them in the order in which they are written: a false piece ends its
group, and a group without a false piece grants the discount.
-/

set_option autoImplicit false
set_option relaxedAutoImplicit false

namespace Rebate

open Text

/-- The pieces of a condition: its groups are what stands between `OU`, and a group is split at
`E`. -/
def Outline.pieces (text : List Char) : List (List (List Char)) :=
  (Connective.or.separator.split text).map Connective.and.separator.split

/-- The trees of the pieces of a condition, which are all read by themselves. -/
def Outline.PiecesRead (text : List Char) (groups : List (List Condition)) : Prop :=
  List.Forall₂
    (List.Forall₂ fun piece part => Condition.read (String.ofList piece) = .ok part)
    (pieces text) groups

theorem forall_mem_of_forall₂ {α β : Type} {R : α → β → Prop} {P : β → Prop} {xs : List α}
    {ys : List β} (h : List.Forall₂ R xs ys) (hP : ∀ x y, R x y → P y) : ∀ y ∈ ys, P y := by
  induction h with
  | nil => simp
  | cons hhead _ ih => exact List.forall_mem_cons.mpr ⟨hP _ _ hhead, ih⟩

theorem Leaf.condition_read {text : List Char} {leaf : Leaf} (hjoint : Unjoined text)
    (h : Leaf.read text = .ok leaf) :
    Condition.read (String.ofList text) = .ok leaf.toCondition := by
  have hbound : leaf.negations ≤ Outline.maxNesting := (read_eq_ok h).1
  have hgroup : Group.read text = .ok [leaf] := by
    rw [Group.read_eq_ok_iff, Keyword.split_eq_singleton (hjoint .and)]
    exact ⟨.cons h .nil, by simpa [Group.nesting] using hbound⟩
  have houtline : Outline.read text = .ok [[leaf]] := by
    rw [Outline.read_eq_ok_iff, Keyword.split_eq_singleton (hjoint .or)]
    exact ⟨.cons hgroup .nil, by simpa [Outline.nesting, Group.nesting] using hbound⟩
  rw [Condition.read, String.toList_ofList, houtline]
  rfl

namespace Outline

variable {text : List Char} {groups : List (List Condition)}

private theorem piecesRead {outline : Outline} (h : read text = .ok outline) :
    PiecesRead text (outline.map (List.map Leaf.toCondition)) := by
  -- A piece is read alike by itself because the splits have left no connective in it.
  have hgroups := (List.forall₂_and_left _ _).mpr
    ⟨fun _ hpiece => Keyword.not_infix_of_mem_split hpiece, (read_eq_ok_iff.mp h).1⟩
  rw [PiecesRead, pieces, List.forall₂_map_left_iff, List.forall₂_map_right_iff]
  refine hgroups.imp ?_
  rintro text group ⟨hor, hgroup⟩
  have hleaves := (List.forall₂_and_left _ _).mpr
    ⟨fun _ hpiece => Unjoined.of_mem_split hor hpiece, (Group.read_eq_ok_iff.mp hgroup).1⟩
  rw [List.forall₂_map_right_iff]
  exact hleaves.imp fun _ _ ⟨hjoint, hleaf⟩ => Leaf.condition_read hjoint hleaf

private theorem PiecesRead.ne_nil (h : PiecesRead text groups) :
    groups ≠ [] ∧ ∀ group ∈ groups, group ≠ [] := by
  rw [PiecesRead, pieces, List.forall₂_map_left_iff] at h
  constructor
  · rintro rfl
    exact Keyword.split_ne_nil _ _ (List.forall₂_nil_right_iff.mp h)
  · refine forall_mem_of_forall₂ h ?_
    rintro text group hpieces rfl
    exact Keyword.split_ne_nil _ _ (List.forall₂_nil_right_iff.mp hpieces)

end Outline

namespace Rule

def misfit (groups pieces : Nat) (found : Kind) : Fault :=
  if 2 ≤ pieces then .typeMismatch (.joint .and) .boolean found
  else if 2 ≤ groups then .typeMismatch (.joint .or) .boolean found
  else .nonBooleanCondition found

def scanGroup (misfit : Kind → Fault) (p : Purchase) : List Condition → Except Fault Bool
  | [] => .ok true
  | piece :: pieces => do
    match ← piece.eval p with
    | .boolean true => scanGroup misfit p pieces
    | .boolean false => return false
    | v => throw (misfit v.kind)

/-- The discount if a group holds: the first one that does ends the scan. -/
def scanGroups (misfit : Nat → Kind → Fault) (p : Purchase) (discount : Decimal) :
    List (List Condition) → Except Fault (Option Decimal)
  | [] => .ok none
  | group :: groups => do
    if ← scanGroup (misfit group.length) p group then
      return some discount
    else
      scanGroups misfit p discount groups

private theorem scanGroup_eq (misfit : Kind → Fault) (p : Purchase) (pieces : List Condition) :
    scanGroup misfit p pieces = Connective.and.scan (Condition.truth misfit p) pieces := by
  induction pieces with
  | nil => rfl
  | cons piece pieces ih =>
    rw [scanGroup, Connective.scan, Condition.truth, ih]
    cases piece.eval p with
    | error fault => rfl
    | ok v =>
      cases v with
      | number a => rfl
      | text s => rfl
      | boolean b => cases b <;> rfl

private theorem scanGroups_eq (misfit : Nat → Kind → Fault) (p : Purchase) (discount : Decimal)
    (groups : List (List Condition)) :
    scanGroups misfit p discount groups = do
      let holds ← Connective.or.scan (fun group => scanGroup (misfit group.length) p group) groups
      return if holds then some discount else none := by
  induction groups with
  | nil => rfl
  | cons group groups ih =>
    rw [scanGroups, Connective.scan, ih]
    cases scanGroup (misfit group.length) p group with
    | error fault => rfl
    | ok b => cases b <;> rfl

private theorem evaluate_eq_truth (rule : Rule) (p : Purchase) :
    rule.evaluate p = do
      let holds ← rule.condition.truth .nonBooleanCondition p
      return if holds then some rule.discount else none := by
  rw [evaluate, Condition.truth]
  cases rule.condition.eval p with
  | error fault => rfl
  | ok v =>
    cases v with
    | number a => rfl
    | text s => rfl
    | boolean b => cases b <;> rfl

private theorem truth_groups {groups : List (List Condition)} (hne : groups ≠ [])
    (hpieces : ∀ group ∈ groups, group ≠ []) (p : Purchase) :
    (Condition.chain .or (groups.map (Condition.chain .and))).truth .nonBooleanCondition p =
      Connective.or.scan
        (fun group => scanGroup (misfit groups.length group.length) p group) groups := by
  rw [Condition.truth_chain (by simpa using hne), Connective.scan_map, List.length_map]
  refine Connective.scan_congr ?_
  intro group hgroup
  rw [Condition.truth_chain (hpieces group hgroup), scanGroup_eq]
  rfl

theorem read_eq_ok {source : String} {rule : Rule} (h : read source = .ok rule) :
    ∃ head tail outline, thenWord.split source.toList = [head, tail] ∧
      Outline.read (trim head) = .ok outline ∧
      Decimal.ofChars? (trim tail) = some rule.discount ∧
      rule.condition = outline.toCondition ∧ rule.source = source := by
  rw [read] at h
  split at h
  · next head tail hsplit =>
    simp only at h
    cases hdiscount : Decimal.ofChars? (trim tail) with
    | none => simp [hdiscount] at h
    | some discount =>
      cases houtline : Outline.read (trim head) with
      | error e => simp [hdiscount, houtline, bind, Except.bind] at h
      | ok outline =>
        simp only [hdiscount, houtline] at h
        obtain rfl : _ = rule := Except.ok.inj h
        exact ⟨head, tail, outline, hsplit, houtline, hdiscount, rfl, rfl⟩
  · cases h

theorem source_of_read {source : String} {rule : Rule} (h : read source = .ok rule) :
    rule.source = source := by
  obtain ⟨-, -, -, -, -, -, -, hsource⟩ := read_eq_ok h
  exact hsource

/-- A rule that was read grants what a scan of the pieces of its text grants. -/
theorem evaluate_eq_scanGroups {source : String} {rule : Rule} (h : read source = .ok rule) :
    ∃ head tail groups, thenWord.split source.toList = [head, tail] ∧
      Outline.PiecesRead (trim head) groups ∧
      ∀ p, rule.evaluate p = scanGroups (misfit groups.length) p rule.discount groups := by
  obtain ⟨head, tail, outline, hsplit, houtline, -, hcondition, -⟩ := read_eq_ok h
  have hread := Outline.piecesRead houtline
  refine ⟨head, tail, outline.map (List.map Leaf.toCondition), hsplit, hread, ?_⟩
  intro p
  obtain ⟨hne, hpieces⟩ := hread.ne_nil
  have htree : rule.condition = Condition.chain .or
      ((outline.map (List.map Leaf.toCondition)).map (Condition.chain .and)) := by
    rw [hcondition, Outline.toCondition, List.map_map]
    rfl
  rw [evaluate_eq_truth, scanGroups_eq, htree, truth_groups hne hpieces]

def misfitRule : Rule where
  condition :=
    .join (.negate (.const (.boolean true))) .or (.join (.var "valor") .and (.var "cupom"))
  discount := { coeff := 5, scale := 0, coeff_lt := by decide, scale_le := by decide }
  source := "NÃO true OU valor E cupom ENTAO 5"

theorem evaluate_eq_scanGroups_misfit :
    read misfitRule.source = .ok misfitRule ∧
      (∃ head tail groups, thenWord.split misfitRule.source.toList = [head, tail] ∧
        Outline.PiecesRead (trim head) groups ∧
        ∀ p, misfitRule.evaluate p =
          scanGroups (misfit groups.length) p misfitRule.discount groups) ∧
      ∀ p, misfitRule.evaluate p = .error (.typeMismatch (.joint .and) .boolean .number) := by
  have hread : read misfitRule.source = .ok misfitRule := by
    cbv
  exact ⟨hread, evaluate_eq_scanGroups hread, fun p => rfl⟩

end Rule

end Rebate
