import Rebate.Proofs.Condition.Depth
import Rebate.Proofs.Condition.FirstCut
import Rebate.Proofs.Condition.ReadWritten

/-!
What the limit on nesting refuses. The reader does not measure the tree. It tallies each leaf, each
group and the whole condition, in the order in which it comes to them, and refuses the first tally
past the limit. The tally of a chain adds all its connectives to its most tallied part, wherever
that part stands. So it is never below the depth, and above it where no such part is one of the last
two.
-/

set_option autoImplicit false
set_option relaxedAutoImplicit false

namespace Rebate

open Text

namespace Condition

/-- The conditions that a connective joins along the right side of a tree. -/
def joined (c : Connective) : Condition → List Condition
  | join left d right => if d = c then left :: joined c right else [join left d right]
  | const v => [const v]
  | var name => [var name]
  | compare left r right => [compare left r right]
  | negate part => [negate part]

def negations : Condition → Nat
  | negate part => part.negations + 1
  | _ => 0

def groupTally (group : Condition) : Nat :=
  ((joined .and group).map negations).foldl max 0 + ((joined .and group).length - 1)

/-- The tally of a condition: that of its most tallied group, and one for each connective. -/
def tally (e : Condition) : Nat :=
  ((joined .or e).map groupTally).foldl max 0 + ((joined .or e).length - 1)

/-- All tallies in the order in which the reader comes to them: of each group its leaves, then the
group, and the whole condition at the end. -/
def tallies (e : Condition) : List Nat :=
  (joined .or e).flatMap (fun group => (joined .and group).map negations ++ [group.groupTally]) ++
    [e.tally]

variable {e : Condition} {c : Connective} {items : List Condition} {bound : Nat}

private theorem joined_of_layer_lt (hbound : ∀ left right, (join left c right).layer = bound)
    (h : e.layer < bound) : joined c e = [e] := by
  cases e with
  | join left d right =>
    have hne : d ≠ c := by
      rintro rfl
      exact Nat.ne_of_lt h (hbound left right)
    rw [joined, if_neg hne]
  | _ => rfl

private theorem joined_chain (hbound : ∀ left right, (join left c right).layer = bound)
    (hne : items ≠ [])
    (h : ∀ item ∈ items, item.layer < bound) : joined c (chain c items) = items := by
  induction items with
  | nil => exact absurd rfl hne
  | cons item items ih =>
    obtain ⟨hitem, hitems⟩ := List.forall_mem_cons.mp h
    cases items with
    | nil => exact joined_of_layer_lt hbound hitem
    | cons next items => rw [chain, joined, if_pos rfl, ih (by simp) hitems]

private theorem negations_negateTimes (n : Nat) :
    (e.negateTimes n).negations = e.negations + n := by
  induction n with
  | zero => rfl
  | succ n ih => rw [negateTimes, negations, ih, Nat.add_assoc]

end Condition

def Outline.Inhabited (outline : Outline) : Prop :=
  outline ≠ [] ∧ ∀ group ∈ outline, group ≠ []

private theorem Leaf.negations_toCondition (leaf : Leaf) :
    leaf.toCondition.negations = leaf.negations := by
  have hatom : leaf.atom.toCondition.negations = 0 := by
    rcases leaf.atom with (_ | _) | _ <;> rfl
  rw [toCondition, Condition.negations_negateTimes, hatom, Nat.zero_add]

private theorem Leaf.depth_toCondition (leaf : Leaf) : leaf.toCondition.depth = leaf.negations := by
  have hatom : leaf.atom.toCondition.depth = 0 :=
    Nat.le_zero.mp (Condition.depth_le_of_nestsWithin (Leaf.nestsWithin ⟨0, leaf.atom⟩))
  rw [toCondition, Condition.depth_negateTimes, hatom, Nat.zero_add]

private theorem Group.joined_toCondition {group : Group} (hne : group ≠ []) :
    Condition.joined .and group.toCondition = group.map Leaf.toCondition := by
  apply Condition.joined_chain (fun _ _ => rfl) (by simpa using hne)
  rw [List.forall_mem_map]
  intro leaf _
  exact Nat.lt_succ_of_le leaf.layered.2

private theorem Outline.joined_toCondition {outline : Outline} (hne : outline ≠ []) :
    Condition.joined .or outline.toCondition = outline.map Group.toCondition := by
  apply Condition.joined_chain (fun _ _ => rfl) (by simpa using hne)
  rw [List.forall_mem_map]
  intro group _
  exact Nat.lt_succ_of_le group.layered.2

private theorem Group.map_negations {group : Group} (hne : group ≠ []) :
    (Condition.joined .and group.toCondition).map Condition.negations =
      group.map Leaf.negations := by
  rw [joined_toCondition hne, List.map_map]
  exact List.map_congr_left fun leaf _ => leaf.negations_toCondition

private theorem Group.groupTally_toCondition {group : Group} (hne : group ≠ []) :
    group.toCondition.groupTally = group.nesting := by
  rw [Condition.groupTally, map_negations hne, joined_toCondition hne, List.length_map]
  rfl

namespace Outline

variable {outline : Outline}

private theorem tally_toCondition (h : outline.Inhabited) :
    outline.toCondition.tally = outline.nesting := by
  have hmap : (outline.map Group.toCondition).map Condition.groupTally =
      outline.map Group.nesting := by
    rw [List.map_map]
    exact List.map_congr_left fun group hgroup => Group.groupTally_toCondition (h.2 group hgroup)
  rw [Condition.tally, joined_toCondition h.1, hmap, List.length_map]
  rfl

private theorem tallies_toCondition (h : outline.Inhabited) :
    outline.toCondition.tallies =
      outline.flatMap (fun group => group.map Leaf.negations ++ [group.nesting]) ++
        [outline.nesting] := by
  rw [Condition.tallies, joined_toCondition h.1, tally_toCondition h, List.flatMap_map]
  congr 1
  apply List.flatMap_congr
  intro group hgroup
  have hne := h.2 group hgroup
  rw [Group.map_negations hne, Group.groupTally_toCondition hne]

end Outline

namespace Outline

variable {α : Type} {tallies more : List Nat} {a : α}

/-- What was read, unless one of the tallies is past the limit. -/
def checked (tallies : List Nat) (a : α) : Except ReadError α :=
  match tallies.find? (maxNesting < ·) with
  | some depth => .error (.tooDeeplyNested depth maxNesting)
  | none => .ok a

private theorem checked_append (tallies more : List Nat) (a : α) :
    checked (tallies ++ more) a = checked tallies () >>= fun _ => checked more a := by
  rw [checked, checked, List.find?_append]
  cases tallies.find? (maxNesting < ·) <;> rfl

private theorem map_checked {β : Type} (f : α → β) :
    f <$> checked tallies a = checked tallies (f a) := by
  rw [checked, checked]
  cases tallies.find? (maxNesting < ·) <;> rfl

private theorem checked_bind {β : Type} (f : α → Except ReadError β) :
    checked tallies a >>= f = checked tallies () >>= fun _ => f a := by
  rw [checked, checked]
  cases tallies.find? (maxNesting < ·) <;> rfl

private theorem checked_singleton (tally : Nat) (a : α) :
    checked [tally] a = requireNesting tally >>= fun _ => .ok a := by
  rw [checked, requireNesting, List.find?_singleton]
  by_cases h : tally ≤ maxNesting
  · simp [h, Nat.not_lt.mpr h, bind, Except.bind]
  · simp [h, Nat.not_le.mp h, bind, Except.bind]

private theorem mapM_checked {read : List Char → Except ReadError α} {tallies : α → List Nat}
    {pieces : List (List Char)} {parts : List α}
    (h : List.Forall₂ (fun piece part => read piece = checked (tallies part) part) pieces parts) :
    pieces.mapM read = checked (parts.flatMap tallies) parts := by
  induction h with
  | nil => rfl
  | @cons piece part pieces parts hhead _ ih =>
    rw [List.mapM_cons, hhead, ih, List.flatMap_cons, checked_append, checked_bind]
    congr 1
    funext _
    exact map_checked (part :: ·)

private theorem checked_mapM_requireNesting {read : List Char → Except ReadError α}
    {tallies : α → List Nat} {pieces : List (List Char)} {parts : List α} (tally : List α → Nat)
    (h : List.Forall₂ (fun piece part => read piece = checked (tallies part) part) pieces parts) :
    (do
      let parts ← pieces.mapM read
      requireNesting (tally parts)
      return parts) = checked (parts.flatMap tallies ++ [tally parts]) parts := by
  rw [mapM_checked h, checked_bind, checked_append, checked_singleton]
  rfl

end Outline

namespace Condition

variable {α : Type} {tree : α → Condition} {Reads : List Char → α → Prop}
  {pieces : List (List Char)}

private theorem exists_map_eq {trees : List Condition}
    (htrees : List.Forall₂ (fun piece t => readFirstCut piece = .ok t) pieces trees)
    (h : ∀ piece ∈ pieces, ∀ t, readFirstCut piece = .ok t →
      ∃ part, tree part = t ∧ Reads piece part) :
    ∃ parts, parts.map tree = trees ∧ List.Forall₂ Reads pieces parts := by
  induction htrees with
  | nil => exact ⟨[], rfl, .nil⟩
  | @cons piece t pieces trees ht _ ih =>
    obtain ⟨part, rfl, hpart⟩ := h piece List.mem_cons_self t ht
    obtain ⟨parts, rfl, hparts⟩ := ih fun later hmem => h later (List.mem_cons_of_mem piece hmem)
    exact ⟨part :: parts, rfl, .cons hpart hparts⟩

private theorem exists_parts {c : Connective} {t : Condition}
    (hchain : chain c <$> pieces.mapM readFirstCut = .ok t)
    (h : ∀ piece ∈ pieces, ∀ t, readFirstCut piece = .ok t →
      ∃ part, tree part = t ∧ Reads piece part) :
    ∃ parts, chain c (parts.map tree) = t ∧ List.Forall₂ Reads pieces parts := by
  cases htrees : pieces.mapM readFirstCut with
  | error e =>
    rw [htrees] at hchain
    cases hchain
  | ok trees =>
    rw [htrees] at hchain
    obtain rfl : chain c trees = t := Except.ok.inj hchain
    obtain ⟨parts, rfl, hparts⟩ := exists_map_eq (mapM_eq_ok_iff.mp htrees) h
    exact ⟨parts, rfl, hparts⟩

end Condition

variable {text : List Char} {t : Condition}

private theorem Leaf.exists_read (hjoint : Unjoined text)
    (h : Condition.readFirstCut text = .ok t) :
    ∃ leaf : Leaf, leaf.toCondition = t ∧
      Leaf.read text = Outline.checked [leaf.negations] leaf := by
  have hstrip := Condition.readFirstCut_eq_strip hjoint 0
  rw [h, ← Condition.atom_read_eq] at hstrip
  cases hatom : Atom.read (Negation.strip 0 text).2 with
  | error e =>
    rw [hatom] at hstrip
    cases hstrip
  | ok atom =>
    rw [hatom] at hstrip
    refine ⟨⟨(Negation.strip 0 text).1, atom⟩, (Except.ok.inj hstrip).symm, ?_⟩
    rw [Outline.checked_singleton, Leaf.read]
    simp only [hatom]
    rfl

private theorem Group.exists_read (hor : ¬ Connective.or.separator.word <:+: text)
    (h : Condition.readFirstCut text = .ok t) :
    ∃ group : Group, group.toCondition = t ∧ group ≠ [] ∧
      Group.read text =
        Outline.checked (group.map Leaf.negations ++ [group.nesting]) group := by
  rw [Condition.readFirstCut_eq_and hor] at h
  obtain ⟨group, rfl, hgroup⟩ := Condition.exists_parts h fun piece hpiece _ ht =>
    Leaf.exists_read (Unjoined.of_mem_split hor hpiece) ht
  refine ⟨group, rfl, ?_, ?_⟩
  · rintro rfl
    exact Keyword.split_ne_nil _ _ (List.forall₂_nil_right_iff.mp hgroup)
  · rw [Group.read, Outline.checked_mapM_requireNesting nesting hgroup, ← List.map_eq_flatMap]

private theorem Outline.exists_read (h : Condition.readFirstCut text = .ok t) :
    ∃ outline : Outline, outline.toCondition = t ∧ outline.Inhabited ∧
      Outline.read text = checked t.tallies outline := by
  rw [Condition.readFirstCut_eq_or] at h
  obtain ⟨outline, rfl, hboth⟩ := Condition.exists_parts h fun piece hpiece _ ht =>
    Group.exists_read (Keyword.not_infix_of_mem_split hpiece) ht
  obtain ⟨hgroups, houtline⟩ := (List.forall₂_and_left _ _).mp hboth.flip
  have hne : outline ≠ [] := by
    rintro rfl
    exact Keyword.split_ne_nil _ _ (List.forall₂_nil_left_iff.mp houtline)
  refine ⟨outline, rfl, ⟨hne, hgroups⟩, ?_⟩
  rw [Outline.read, checked_mapM_requireNesting nesting houtline.flip,
    ← tallies_toCondition ⟨hne, hgroups⟩]
  rfl

private theorem Group.depth_toCondition_le {group : Group} (hne : group ≠ []) :
    group.toCondition.depth ≤ group.toCondition.groupTally := by
  rw [groupTally_toCondition hne]
  exact Condition.depth_le_of_nestsWithin group.nestsWithin

private theorem Group.depth_eq_tally_iff {group : Group} (hne : group ≠ []) :
    group.toCondition.depth = group.toCondition.groupTally ↔
      ∃ leaf ∈ lastTwo (Condition.joined .and group.toCondition),
        ∀ other ∈ Condition.joined .and group.toCondition, other.negations ≤ leaf.negations := by
  have hleaf : ∀ item ∈ group.map Leaf.toCondition, item.depth = item.negations := by
    rw [List.forall_mem_map]
    intro leaf _
    rw [leaf.depth_toCondition, leaf.negations_toCondition]
  rw [Condition.groupTally, joined_toCondition hne, toCondition,
    Condition.depth_chain_eq_count_iff (by simpa using hne) fun item hitem =>
      Nat.le_of_eq (hleaf item hitem)]
  constructor
  · rintro ⟨item, hlast, -, hmost⟩
    exact ⟨item, hlast, hmost⟩
  · rintro ⟨item, hlast, hmost⟩
    exact ⟨item, hlast, hleaf item (mem_of_mem_lastTwo hlast), hmost⟩

private theorem Outline.depth_toCondition_le {outline : Outline} (h : outline.Inhabited) :
    outline.toCondition.depth ≤ outline.toCondition.tally := by
  rw [tally_toCondition h]
  exact Condition.depth_le_of_nestsWithin outline.nestsWithin

private theorem Outline.depth_eq_tally_iff {outline : Outline} (h : outline.Inhabited) :
    outline.toCondition.depth = outline.toCondition.tally ↔
      ∃ group ∈ lastTwo (Condition.joined .or outline.toCondition),
        (∃ leaf ∈ lastTwo (Condition.joined .and group),
          ∀ other ∈ Condition.joined .and group, other.negations ≤ leaf.negations) ∧
        ∀ other ∈ Condition.joined .or outline.toCondition,
          other.groupTally ≤ group.groupTally := by
  have hgroup : ∀ item ∈ outline.map Group.toCondition,
      item.depth ≤ item.groupTally ∧ (item.depth = item.groupTally ↔
        ∃ leaf ∈ lastTwo (Condition.joined .and item),
          ∀ other ∈ Condition.joined .and item, other.negations ≤ leaf.negations) := by
    rw [List.forall_mem_map]
    intro group hmem
    have hne := h.2 group hmem
    exact ⟨Group.depth_toCondition_le hne, Group.depth_eq_tally_iff hne⟩
  rw [Condition.tally, joined_toCondition h.1, toCondition,
    Condition.depth_chain_eq_count_iff (by simpa using h.1) fun item hitem => (hgroup item hitem).1]
  constructor
  · rintro ⟨item, hlast, hdepth, hmost⟩
    exact ⟨item, hlast, (hgroup item (mem_of_mem_lastTwo hlast)).2.mp hdepth, hmost⟩
  · rintro ⟨item, hlast, hleaf, hmost⟩
    exact ⟨item, hlast, (hgroup item (mem_of_mem_lastTwo hlast)).2.mpr hleaf, hmost⟩

namespace Condition

private theorem le_tally {e : Condition} {depth : Nat} (h : depth ∈ e.tallies) :
    depth ≤ e.tally := by
  have hgroup : ∀ group ∈ joined .or e, group.groupTally ≤ e.tally := fun group hmem =>
    Nat.le_trans (le_deepest hmem) (Nat.le_add_right _ _)
  rw [tallies, List.mem_append, List.mem_flatMap, List.mem_singleton] at h
  rcases h with ⟨group, hmem, hdepth⟩ | rfl
  · rw [List.mem_append, List.mem_map, List.mem_singleton] at hdepth
    rcases hdepth with ⟨leaf, hleaf, rfl⟩ | rfl
    · calc
        leaf.negations ≤ group.groupTally :=
          Nat.le_trans (le_deepest hleaf) (Nat.le_add_right _ _)
        _ ≤ e.tally := hgroup group hmem
    · exact hgroup group hmem
  · exact Nat.le_refl e.tally

private theorem find?_tallies_eq_none_iff {e : Condition} :
    e.tallies.find? (Outline.maxNesting < ·) = none ↔ e.tally ≤ Outline.maxNesting := by
  simp only [List.find?_eq_none, decide_eq_true_eq, Nat.not_lt]
  constructor
  · intro h
    exact h e.tally (by simp [tallies])
  · intro h depth hdepth
    exact Nat.le_trans (le_tally hdepth) h

private theorem read_eq_checked (text : String) (h : readFirstCut text.toList = .ok t) :
    read text = Outline.checked t.tallies t := by
  obtain ⟨outline, rfl, -, hread⟩ := Outline.exists_read h
  show Outline.read text.toList >>= (fun outline => .ok outline.toCondition) = _
  rw [hread]
  exact Outline.map_checked Outline.toCondition

end Condition

private theorem Leaf.Written.readFirstCut {leaf : Leaf} (h : leaf.Written text) :
    Condition.readFirstCut text = .ok leaf.toCondition := by
  have hjoint : Unjoined text := fun c => (h.absentFrom c).not_within
  obtain ⟨rest, hstrip, hatom⟩ := h.strip 0
  have hread := Condition.readFirstCut_eq_strip hjoint 0
  rw [hstrip, Nat.zero_add, ← Condition.atom_read_eq, hatom.read] at hread
  cases hcut : Condition.readFirstCut text with
  | error e =>
    rw [hcut] at hread
    cases hread
  | ok tree =>
    rw [hcut] at hread
    exact hread

private theorem Leaf.written_negations {atom : Atom} (h : atom.Written text) (n : Nat) :
    Leaf.Written ⟨n, atom⟩ ((List.replicate n Negation.opening.word).flatten ++ text) := by
  induction n with
  | zero => exact .plain h
  | succ n ih => exact .negated .nil ih

private theorem Connective.Joined.readFirstCut {α : Type} {c : Connective} {tree : α → Condition}
    {Written : α → List Char → Prop} {parts : List α} (h : c.Joined Written parts text)
    (habsent : ∀ {part text}, Written part text → c.AbsentFrom text)
    (hread : ∀ {part text}, Written part text → Condition.readFirstCut text = .ok (tree part)) :
    (c.separator.split text).mapM Condition.readFirstCut = .ok (parts.map tree) := by
  rw [mapM_eq_ok_iff, List.forall₂_map_right_iff]
  exact (h.forall₂_split habsent).flip.imp fun _ _ => hread

private theorem Group.Written.readFirstCut {group : Group} (h : group.Written text) :
    Condition.readFirstCut text = .ok group.toCondition := by
  rw [Condition.readFirstCut_eq_and h.absentFrom.not_within,
    Connective.Joined.readFirstCut h (fun hleaf => hleaf.absentFrom .and) Leaf.Written.readFirstCut]
  rfl

private theorem Outline.Written.readFirstCut {outline : Outline} (h : outline.Written text) :
    Condition.readFirstCut text = .ok outline.toCondition := by
  rw [Condition.readFirstCut_eq_or,
    Connective.Joined.readFirstCut h Group.Written.absentFrom Group.Written.readFirstCut]
  rfl

def Group.truths (negations more : Nat) : Group :=
  ⟨negations, .single (.const (.boolean true))⟩ ::
    List.replicate more ⟨0, .single (.const (.boolean true))⟩

private theorem Group.written_truths (negations more : Nat) :
    (truths negations more).Written
      ((List.replicate negations "NÃO ".toList).flatten ++
        ("true".toList ++ (List.replicate more " E true".toList).flatten)) := by
  have htruth : (Atom.single (.const (.boolean true))).Written "true".toList :=
    .single (.between .nil (.truth true) .nil)
  induction more generalizing negations with
  | zero => exact .one (Leaf.written_negations htruth negations)
  | succ more ih =>
    have hmore : Group.Written (truths negations (more + 1)) _ :=
      .more (Leaf.written_negations htruth negations) (ih 0)
    rw [List.append_assoc, List.append_assoc] at hmore
    exact hmore

namespace Condition

/-- A tree of first cuts is what is read if its tally is within the limit, and else the first tally
past the limit is reported. The tree may be less deep than its tally, but not deeper; and they agree
just if one of the last two groups has the greatest tally, and one of its last two leaves the most
negations. -/
theorem read_of_tally (text : String) (h : readFirstCut text.toList = .ok t) :
    ((∃ depth max, read text = .error (.tooDeeplyNested depth max)) ↔
      Outline.maxNesting < t.tally) ∧
    (∀ depth max, read text = .error (.tooDeeplyNested depth max) ↔
      t.tallies.find? (Outline.maxNesting < ·) = some depth ∧ max = Outline.maxNesting) ∧
    (t.tally ≤ Outline.maxNesting → read text = .ok t) ∧
    t.depth ≤ t.tally ∧
    (t.depth = t.tally ↔
      ∃ group ∈ lastTwo (joined .or t),
        (∃ leaf ∈ lastTwo (joined .and group),
          ∀ other ∈ joined .and group, other.negations ≤ leaf.negations) ∧
        ∀ other ∈ joined .or t, other.groupTally ≤ group.groupTally) := by
  have hreported : ∀ depth max, read text = .error (.tooDeeplyNested depth max) ↔
      t.tallies.find? (Outline.maxNesting < ·) = some depth ∧ max = Outline.maxNesting := by
    intro depth max
    rw [read_eq_checked text h, Outline.checked]
    cases t.tallies.find? (Outline.maxNesting < ·) <;> simp [eq_comm]
  refine ⟨?_, hreported, ?_, ?_⟩
  · simp only [hreported, exists_eq_right, ← Option.isSome_iff_exists]
    rw [← Nat.not_le, ← find?_tallies_eq_none_iff, Option.isSome_iff_ne_none]
  · intro hle
    rw [read_eq_checked text h, Outline.checked, find?_tallies_eq_none_iff.mpr hle]
  · obtain ⟨outline, rfl, hinhabited, -⟩ := Outline.exists_read h
    exact ⟨outline.depth_toCondition_le hinhabited, outline.depth_eq_tally_iff hinhabited⟩

theorem read_of_tally_truths :
    readFirstCut "NÃO true E true E true".toList = .ok (Group.truths 1 2).toCondition ∧
      read "NÃO true E true E true" = .ok (Group.truths 1 2).toCondition ∧
      (Group.truths 1 2).toCondition.depth = 2 ∧ (Group.truths 1 2).toCondition.tally = 3 ∧
      (¬ ∃ depth max, read "NÃO true E true E true" = .error (.tooDeeplyNested depth max)) ∧
      ¬ ∃ group ∈ lastTwo (joined .or (Group.truths 1 2).toCondition),
        (∃ leaf ∈ lastTwo (joined .and group),
          ∀ other ∈ joined .and group, other.negations ≤ leaf.negations) ∧
        ∀ other ∈ joined .or (Group.truths 1 2).toCondition,
          other.groupTally ≤ group.groupTally := by
  have htree : readFirstCut "NÃO true E true E true".toList = .ok (Group.truths 1 2).toCondition :=
    Outline.Written.readFirstCut (.one (Group.written_truths 1 2))
  have hdepth : (Group.truths 1 2).toCondition.depth = 2 := by decide
  have htally : (Group.truths 1 2).toCondition.tally = 3 := by decide
  have hlimit : (Group.truths 1 2).toCondition.tally ≤ Outline.maxNesting := by decide
  obtain ⟨hrefused, -, hread, -, hequal⟩ := read_of_tally "NÃO true E true E true" htree
  refine ⟨htree, hread hlimit, hdepth, htally, ?_, ?_⟩
  · exact fun h => Nat.not_lt.mpr hlimit (hrefused.mp h)
  · rw [← hequal, hdepth, htally]
    decide

/-- A text that is refused though its tree nests no deeper than the limit, and one whose tree nests
deeper than is reported. -/
theorem read_deeper_than_tree :
    (∃ t, readFirstCut
        ((List.replicate 255 "NÃO ".toList).flatten ++ "true E true E true".toList) = .ok t ∧
      t.depth = 256 ∧
      read (String.ofList
        ((List.replicate 255 "NÃO ".toList).flatten ++ "true E true E true".toList)) =
          .error (.tooDeeplyNested 257 256)) ∧
    ∃ t, readFirstCut
        ((List.replicate 257 "NÃO ".toList).flatten ++ "true E true".toList) = .ok t ∧
      t.depth = 258 ∧
      read (String.ofList
        ((List.replicate 257 "NÃO ".toList).flatten ++ "true E true".toList)) =
          .error (.tooDeeplyNested 257 256) := by
  have hfirst := Outline.Written.readFirstCut (.one (Group.written_truths 255 2))
  have hsecond := Outline.Written.readFirstCut (.one (Group.written_truths 257 1))
  refine ⟨⟨_, hfirst, by decide +kernel, ?_⟩, _, hsecond, by decide +kernel, ?_⟩
  · rw [read_eq_checked (String.ofList _) (by rw [String.toList_ofList]; exact hfirst)]
    decide +kernel
  · rw [read_eq_checked (String.ofList _) (by rw [String.toList_ofList]; exact hsecond)]
    decide +kernel

end Condition

end Rebate
