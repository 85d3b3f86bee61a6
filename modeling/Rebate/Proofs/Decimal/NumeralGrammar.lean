import Rebate.Decimal.Numeral
import Rebate.Proofs.Text.Occurrence

/-!
The grammar of numerals. A numeral is a sign or none, and then digits with or without a point and
more digits behind it, or a point with digits behind it. The reader splits off the sign, cuts the
rest at its first point and takes both sides for digits, and that reads just these texts.
-/

set_option autoImplicit false
set_option relaxedAutoImplicit false

namespace Rebate

open Text

namespace Digit

variable {d : Digit} {c : Char}

private theorem ofChar?_eq_some_iff : ofChar? c = some d ↔ c = d.toChar := by
  constructor
  · intro h
    rw [ofChar?] at h
    split at h
    · next hrange =>
      have hval : c.toNat - '0'.toNat = d.val := congrArg Fin.val (Option.some.inj h)
      rw [toChar, show '0'.toNat + d.val = c.toNat by omega, Char.ofNat_toNat]
    · cases h
  · rintro rfl
    exact ofChar?_toChar d

private theorem toChar_ne (d : Digit) : d.toChar ≠ '.' ∧ d.toChar ≠ '+' ∧ d.toChar ≠ '-' := by
  revert d
  decide

end Digit

namespace Digits

variable {digits : Digits} {chars : List Char}

private theorem ofChars?_eq_some_iff : ofChars? chars = some digits ↔ chars = toChars digits := by
  constructor
  · intro h
    induction chars generalizing digits with
    | nil =>
      obtain rfl := Option.some.inj h
      rfl
    | cons c chars ih =>
      simp only [ofChars?, List.mapM_cons, Option.bind_eq_bind] at h
      obtain ⟨d, hd, h⟩ := Option.bind_eq_some_iff.mp h
      obtain ⟨later, hlater, h⟩ := Option.bind_eq_some_iff.mp h
      obtain rfl := Option.some.inj h
      rw [Digit.ofChar?_eq_some_iff.mp hd, ih hlater]
      rfl
  · rintro rfl
    exact ofChars?_toChars digits

private theorem point_not_mem (digits : Digits) : '.' ∉ toChars digits := by
  intro h
  obtain ⟨d, -, hd⟩ := List.mem_map.mp h
  exact d.toChar_ne.1 hd

end Digits

namespace Numeral

inductive Signed : Bool → List Char → Prop
  | none : Signed false []
  | plus : Signed false ['+']
  | minus : Signed true ['-']

/-- Digits, and a point with or without digits behind it if one likes; or a point and digits. -/
inductive Unsigned : Digits → Digits → List Char → Prop
  | whole {whole : Digits} (hne : whole ≠ []) : Unsigned whole [] whole.toChars
  | point {whole fraction : Digits} (hne : whole ≠ []) :
      Unsigned whole fraction (whole.toChars ++ '.' :: fraction.toChars)
  | fraction {fraction : Digits} (hne : fraction ≠ []) :
      Unsigned [] fraction ('.' :: fraction.toChars)

def Spelled (n : Numeral) (text : List Char) : Prop :=
  ∃ sign body, text = sign ++ body ∧ Signed n.negative sign ∧ Unsigned n.whole n.fraction body

variable {negative : Bool} {whole fraction : Digits} {text sign body : List Char}

private theorem exists_signed_of_splitSign (h : splitSign text = (negative, body)) :
    ∃ sign, text = sign ++ body ∧ Signed negative sign := by
  rw [splitSign.eq_def] at h
  split at h
  · obtain ⟨rfl, rfl⟩ := Prod.mk.inj h
    exact ⟨['-'], rfl, .minus⟩
  · obtain ⟨rfl, rfl⟩ := Prod.mk.inj h
    exact ⟨['+'], rfl, .plus⟩
  · obtain ⟨rfl, rfl⟩ := Prod.mk.inj h
    exact ⟨[], rfl, .none⟩

private theorem Unsigned.exists_cons (h : Unsigned whole fraction body) :
    ∃ c rest, body = c :: rest ∧ c ≠ '+' ∧ c ≠ '-' := by
  have hdigits : ∀ {digits : Digits} (rest : List Char), digits ≠ [] →
      ∃ c rest', digits.toChars ++ rest = c :: rest' ∧ c ≠ '+' ∧ c ≠ '-' := by
    intro digits rest hne
    obtain ⟨d, digits, rfl⟩ := List.exists_cons_of_ne_nil hne
    exact ⟨d.toChar, _, rfl, d.toChar_ne.2⟩
  cases h with
  | whole hne => simpa using hdigits [] hne
  | point hne => exact hdigits _ hne
  | fraction hne => exact ⟨'.', _, rfl, by decide, by decide⟩

private theorem splitSign_append (hsign : Signed negative sign)
    (hbody : Unsigned whole fraction body) : splitSign (sign ++ body) = (negative, body) := by
  obtain ⟨c, rest, rfl, hplus, hminus⟩ := hbody.exists_cons
  cases hsign with
  | none =>
    rw [List.nil_append, splitSign]
    · rintro rest' hcons
      exact hminus (List.cons.inj hcons).1
    · rintro rest' hcons
      exact hplus (List.cons.inj hcons).1
  | plus => rfl
  | minus => rfl

private theorem cut?_toChars (whole : Digits) (rest : List Char) :
    point.cut? (whole.toChars ++ '.' :: rest) = some (whole.toChars, rest) := by
  have hcut : point.cut? (whole.toChars ++ point.word ++ rest) = some (whole.toChars, rest) := by
    apply Keyword.cut?_append
    intro hinfix
    have hmem : '.' ∈ whole.toChars ++ point.word.dropLast := hinfix.subset List.mem_cons_self
    rw [show point.word.dropLast = [] from rfl, List.append_nil] at hmem
    exact whole.point_not_mem hmem
  rwa [List.append_assoc] at hcut

private theorem unsigned_iff :
    Digits.ofChars? ((point.cut? body).getD (body, [])).1 = some whole ∧
        Digits.ofChars? ((point.cut? body).getD (body, [])).2 = some fraction ∧
        ¬ (whole = [] ∧ fraction = []) ↔
      Unsigned whole fraction body := by
  rw [Digits.ofChars?_eq_some_iff, Digits.ofChars?_eq_some_iff]
  constructor
  · rintro ⟨hwhole, hfraction, hne⟩
    cases hcut : point.cut? body with
    | none =>
      rw [hcut] at hwhole hfraction
      obtain rfl : fraction = [] := List.map_eq_nil_iff.mp hfraction.symm
      obtain rfl : body = whole.toChars := hwhole
      exact .whole fun hnil => hne ⟨hnil, rfl⟩
    | some parts =>
      obtain ⟨before, behind⟩ := parts
      rw [hcut] at hwhole hfraction
      obtain rfl : before = whole.toChars := hwhole
      obtain rfl : behind = fraction.toChars := hfraction
      rw [Keyword.eq_of_cut?_eq_some hcut, List.append_assoc]
      by_cases hnil : whole = []
      · subst hnil
        exact .fraction fun hfraction => hne ⟨rfl, hfraction⟩
      · exact .point hnil
  · intro h
    cases h with
    | whole hne =>
      rw [Keyword.cut?_eq_none_of_not_mem (k := point) List.mem_cons_self whole.point_not_mem]
      exact ⟨rfl, rfl, fun h => hne h.1⟩
    | point hne =>
      rw [cut?_toChars]
      exact ⟨rfl, rfl, fun h => hne h.1⟩
    | fraction hne =>
      have hcut : point.cut? ('.' :: fraction.toChars) = some ([], fraction.toChars) :=
        cut?_toChars [] fraction.toChars
      rw [hcut]
      exact ⟨rfl, rfl, fun h => hne h.2⟩

/-- A numeral is read from the texts that it is spelled by, and from no others. -/
theorem ofChars?_eq_some_iff {n : Numeral} : ofChars? text = some n ↔ n.Spelled text := by
  constructor
  · intro h
    cases hsign : splitSign text with
    | mk negative body =>
      simp only [ofChars?, hsign, Option.bind_eq_bind] at h
      obtain ⟨whole, hwhole, h⟩ := Option.bind_eq_some_iff.mp h
      obtain ⟨fraction, hfraction, h⟩ := Option.bind_eq_some_iff.mp h
      split at h
      · cases h
      · next hne =>
        obtain rfl := Option.some.inj h
        obtain ⟨sign, rfl, hsigned⟩ := exists_signed_of_splitSign hsign
        exact ⟨sign, body, rfl, hsigned, unsigned_iff.mp ⟨hwhole, hfraction, hne⟩⟩
  · rintro ⟨sign, body, rfl, hsigned, hunsigned⟩
    obtain ⟨hwhole, hfraction, hne⟩ := unsigned_iff.mpr hunsigned
    simp only [ofChars?, splitSign_append hsigned hunsigned, hwhole, hfraction, Option.bind_eq_bind,
      Option.bind_some, if_neg hne]

end Numeral

end Rebate
