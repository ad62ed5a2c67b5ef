/-
Module: Vitae.Proofs.Document.Options
Layer: Proofs
Purpose: Odd style options are put right, and are reported. Options have a usable form that gives the same
  document, and each report says of one option that it had to be replaced.
Imports: Vitae.Document, Vitae.Proofs.Style.Spacing
Main exports: StyleOptions.usable, StyleOptions.warnings, ofOptions_usable, generate_usable
-/
import Vitae.Document
import Vitae.Proofs.Style.Spacing

namespace Vitae

open Text Number

/-! ### Usable options -/

/-- The spacing that can be used: a finite number, brought to the nearer bound where it lies beyond the
bounds of zero and twenty millimetres. -/
def usableSpacing : Option Binary64 → Option Binary64
  | some (.finite x) => some (.finite (x.clamp (.zero false) .twenty))
  | _ => none

/-- The colour that can be used. Black stands in for a text that is no colour, and blank text is none. -/
def usableColor (requested : Option String) : Option String :=
  (requested.filter hasText).map fun text => if (Rgb.ofHex? text).isSome then text else "#000000"

/-- The order that can be used, if it names any section. -/
def usableOrder (requested : Option (List String)) : Option (List String) :=
  requested.filter fun names => !(resolveOrder names).isEmpty

/-- Options that can be used as they are. -/
def StyleOptions.usable (o : StyleOptions) : StyleOptions :=
  { o with
    primaryColor := usableColor o.primaryColor
    secondaryColor := usableColor o.secondaryColor
    sectionSpacing := usableSpacing o.sectionSpacing
    sectionOrder := usableOrder o.sectionOrder }

/-- The report of a spacing that is not finite. -/
def spacingWarning : Option Binary64 → List Event
  | some (.finite _) => []
  | some x => [.nonFiniteSpacing x]
  | none => []

/-- The report of a text that says something but is no colour. -/
def colorWarning (requested : Option String) : List Event :=
  ((requested.filter fun text => hasText text && (Rgb.ofHex? text).isNone).map .invalidColor).toList

/-- One report for each option that cannot be used, in a fixed order. -/
def StyleOptions.warnings (o : StyleOptions) : List Event :=
  spacingWarning o.sectionSpacing ++ colorWarning o.primaryColor ++ colorWarning o.secondaryColor

/-! ### What options stand for -/

theorem resolveSpacing_usable (requested : Option Binary64) :
    (resolveSpacing requested).events = spacingWarning requested ∧
      resolveSpacing (usableSpacing requested) = pure (resolveSpacing requested).value := by
  cases requested with
  | none => exact ⟨rfl, rfl⟩
  | some x =>
      cases x with
      | finite x =>
          have same : resolveSpacing (usableSpacing (some (.finite x))) =
              pure (Spacing.ofFinite (x.clamp (.zero false) .twenty)) := rfl
          rw [same, Spacing.ofFinite_clamp]
          exact ⟨rfl, rfl⟩
      | infinite => exact ⟨rfl, rfl⟩
      | nan => exact ⟨rfl, rfl⟩

/-- A colour that is asked for and can be read is the one that is used. -/
theorem resolveColor_some {text standard : String} (visible : hasText text = true) :
    resolveColor (some text) standard =
      match Rgb.ofHex? text with
      | some color => pure color
      | none => ⟨[.invalidColor text], .black⟩ := by
  unfold resolveColor
  dsimp only
  rw [if_pos visible]
  rfl

theorem resolveColor_blank {requested : Option String} (blank : requested.filter hasText = none)
    (standard : String) : resolveColor requested standard = resolveColor none standard := by
  cases requested with
  | none => rfl
  | some text =>
      have invisible : hasText text = false := by simpa [Option.filter_some] using blank
      unfold resolveColor
      dsimp only
      rw [invisible, if_neg Bool.false_ne_true]

/-- Black can be read, and is the colour that stands in for texts that are none. -/
theorem ofHex?_black : hasText "#000000" = true ∧ Rgb.ofHex? "#000000" = some .black := by
  rw [Rgb.ofHex?]
  decide

theorem resolveColor_usable {standard : String} {color : Rgb} (given : Rgb.ofHex? standard = some color)
    (requested : Option String) :
    (resolveColor requested standard).events = colorWarning requested ∧
      resolveColor (usableColor requested) standard = pure (resolveColor requested standard).value := by
  have absent : resolveColor none standard = pure color := by
    unfold resolveColor
    dsimp only
    rw [given]
  cases asked : requested.filter hasText with
  | none =>
      have silent : colorWarning requested = [] := by
        cases requested with
        | none => rfl
        | some text =>
            have invisible : hasText text = false := by simpa [Option.filter_some] using asked
            simp [colorWarning, Option.filter_some, invisible]
      have left : usableColor requested = none := by rw [usableColor, asked, Option.map_none]
      rw [silent, left, resolveColor_blank asked, absent]
      exact ⟨rfl, rfl⟩
  | some text =>
      obtain ⟨rfl, visible⟩ := Option.filter_eq_some_iff.1 asked
      rw [usableColor, asked, Option.map_some, resolveColor_some visible]
      cases read : Rgb.ofHex? text with
      | some color =>
          rw [Option.isSome_some, if_pos rfl, resolveColor_some visible, read]
          simp [colorWarning, Option.filter_some, visible, read]
      | none =>
          rw [Option.isSome_none, if_neg Bool.false_ne_true, resolveColor_some ofHex?_black.1, ofHex?_black.2]
          simp [colorWarning, Option.filter_some, visible, read]

theorem resolveSectionOrder_usable (requested : Option (List String)) :
    resolveSectionOrder (usableOrder requested) = resolveSectionOrder requested := by
  cases requested with
  | none => rfl
  | some names =>
      unfold usableOrder resolveSectionOrder
      cases resolved : resolveOrder names with
      | nil => simp [Option.filter_some, resolved]
      | cons key keys => simp [Option.filter_some, resolved]

/-- The look of usable options is that of the options, and only the options have anything to report. -/
theorem ofOptions_usable (o : StyleOptions) :
    Look.ofOptions o = ⟨o.warnings, (Look.ofOptions o).value⟩ ∧
      Look.ofOptions o.usable = pure (Look.ofOptions o).value := by
  obtain ⟨spacing, spacing'⟩ := resolveSpacing_usable o.sectionSpacing
  have black : Rgb.ofHex? standardPrimary = some ⟨0, 0, 0⟩ := ofHex?_black.2
  have grey : Rgb.ofHex? standardSecondary = some ⟨102, 102, 102⟩ := by
    rw [Rgb.ofHex?]
    decide
  obtain ⟨primary, primary'⟩ := resolveColor_usable black o.primaryColor
  obtain ⟨secondary, secondary'⟩ := resolveColor_usable grey o.secondaryColor
  have order := resolveSectionOrder_usable o.sectionOrder
  constructor
  · have events : (Look.ofOptions o).events = o.warnings := by
      unfold Look.ofOptions StyleOptions.warnings
      simp only [Logged.events_bind, Logged.events_pure, spacing, primary, secondary, List.append_nil,
        List.append_assoc]
    rw [← events]
  · unfold Look.ofOptions StyleOptions.usable
    dsimp only
    rw [spacing', primary', secondary', order]
    rfl

/-! ### Documents -/

/-- Odd options are put right: the document is the one for the usable options, and each option that had to
be replaced is reported once, before the single report that a document is made. Without a name there is no
document, and nothing is reported. -/
theorem generate_usable (r : Resume) (key : TemplateKey) (o : StyleOptions) :
    ∃ document page font spacing,
      (generate r key o =
        if hasText r.name then ⟨o.warnings ++ [.generating key page font spacing], .ok document⟩
        else ⟨[], .error .missingName⟩) ∧
      (generate r key o.usable =
        if hasText r.name then ⟨[.generating key page font spacing], .ok document⟩
        else ⟨[], .error .missingName⟩) := by
  obtain ⟨given, usable⟩ := ofOptions_usable o
  let look := (Look.ofOptions o).value
  let m : Manuscript := ⟨Content.ofResume r look.spacing, look⟩
  have ready : Manuscript.ofResume r o = ⟨o.warnings, m⟩ := by
    rw [Manuscript.ofResume, given]
    exact congrArg (Logged.mk · m) (List.append_nil _)
  have ready' : Manuscript.ofResume r o.usable = ⟨[], m⟩ := by
    rw [Manuscript.ofResume, usable]
    rfl
  refine ⟨(Template.Design.ofKey key).render m, look.pageSize, look.fontFamily, look.spacing, ?_, ?_⟩
  · rw [generate, ready]
    rfl
  · rw [generate, ready']
    rfl

end Vitae
