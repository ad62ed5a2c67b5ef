/-
Module: Vitae.Proofs.Service.Decoding
Layer: Proofs
Purpose: What a caller sends is read as it was meant. Reading undoes writing, for every resume and for style
  options whose spacing has a text, and reading does not depend on how a text presents what it says.
Imports: Vitae.Proofs.Resume.Encoding, Vitae.Proofs.Style.Encoding
Main exports: Codec.rewrite, reading_undoes_writing, reading_ignores_presentation
-/
import Vitae.Proofs.Resume.Encoding
import Vitae.Proofs.Style.Encoding

namespace Vitae

open Json (Codec Encodes Fault Field Numeral Omission Record Shows entry given ofString)
open Json.Token (Spells)
open Number (Finite)

/-- Read a text and write again what it says. -/
def Json.Codec.rewrite {α : Type} (c : Codec α) (s : String) : Except Fault String :=
  match c.ofText s with
  | .ok x => .ok (c.toText x)
  | .error e => .error e

theorem Json.Encodes.rewrite_toText {α : Type} {c : Codec α} {x : α} (h : Encodes c x) :
    c.rewrite (c.toText x) = .ok (c.toText x) := by
  rw [Codec.rewrite, h.ofText_toText]

/-- What was rewritten is the text of a value that was read. -/
theorem Json.Codec.rewrite_eq_ok {α : Type} {c : Codec α} {s t : String}
    (h : c.rewrite s = .ok t) : ∃ x, c.ofText s = .ok x ∧ t = c.toText x := by
  unfold rewrite at h
  split at h
  · next x read => exact ⟨x, read, (Except.ok.inj h).symm⟩
  · cases h

/-- A text that was read whole starts with the tree of the value. -/
theorem Json.Codec.read_of_ofText {α : Type} {c : Codec α} {s : String} {x : α}
    (h : c.ofText s = .ok x) : c.read (Json.ofText s).1 = .ok x := by
  unfold ofText at h
  split at h
  next v rest tree =>
    rw [tree]
    split at h
    · next y read =>
        split at h
        · obtain rfl := Except.ok.inj h
          exact read
        · cases h
    · cases h

/-- Reading undoes writing. The text of a resume is read as the resume, and the text of style options as
the options where the spacing is absent or a number whose own text stands for it. So rewriting what a
text says changes nothing the second time. -/
theorem reading_undoes_writing :
    (∀ r : Resume, Resume.codec.ofText (Resume.codec.toText r) = .ok r) ∧
    (∀ o : StyleOptions, o.Exact → StyleOptions.codec.ofText (StyleOptions.codec.toText o) = .ok o) ∧
    (∀ s t, Resume.codec.rewrite s = .ok t → Resume.codec.rewrite t = .ok t) ∧
    ∀ s o, StyleOptions.codec.ofText s = .ok o →
      (∀ y, o.sectionSpacing = some (.finite y) →
        (Numeral.ofFinite y).value? = some (.finite y)) →
      StyleOptions.codec.rewrite (StyleOptions.codec.toText o) = .ok (StyleOptions.codec.toText o) := by
  refine ⟨fun r => r.encodes.ofText_toText, fun o exact => (StyleOptions.encodes exact).ofText_toText,
    fun s t h => ?_, fun s o read back => ?_⟩
  · obtain ⟨r, -, rfl⟩ := Codec.rewrite_eq_ok h
    exact r.encodes.rewrite_toText
  · have exact : o.Exact := fun x held => by
      obtain ⟨y, rfl⟩ := StyleOptions.spacing_finite (Codec.read_of_ofText read) held
      exact ⟨y, rfl, back y held⟩
    exact (StyleOptions.encodes exact).rewrite_toText

/-- Two and a half, as a floating-point number. -/
def twoAndHalf : Finite :=
  ⟨false, 5 * Number.twoTo 50, -51, by decide⟩

/-- A spacing of two and a half is read back, and so are the options that hold it. -/
theorem reading_undoes_writing_half :
    StyleOptions.Exact { sectionSpacing := some (.finite twoAndHalf) } ∧
    StyleOptions.codec.ofText (StyleOptions.codec.toText { sectionSpacing := some (.finite twoAndHalf) }) =
      .ok { sectionSpacing := some (.finite twoAndHalf) } ∧
    StyleOptions.codec.rewrite (StyleOptions.codec.toText { sectionSpacing := some (.finite twoAndHalf) }) =
      .ok (StyleOptions.codec.toText { sectionSpacing := some (.finite twoAndHalf) }) ∧
    Resume.codec.rewrite (Resume.codec.toText { name := "Ada" }) =
      .ok (Resume.codec.toText { name := "Ada" }) := by
  have back : (Numeral.ofFinite twoAndHalf).value? = some (.finite twoAndHalf) := by
    decide +kernel
  have exact : StyleOptions.Exact { sectionSpacing := some (.finite twoAndHalf) } := by
    rintro x ⟨⟩
    exact ⟨twoAndHalf, rfl, back⟩
  have read := reading_undoes_writing.2.1 _ exact
  have again := reading_undoes_writing.2.2.2 _ _ read (by rintro y ⟨⟩; exact back)
  have written := (Resume.encodes { name := "Ada" }).rewrite_toText
  exact ⟨exact, read, again, reading_undoes_writing.2.2.1 _ _ written⟩

/-- Reading does not depend on presentation. Every text that spells a tree that shows a resume is read as
that resume, and the same holds for style options. What is written for them is such a tree. Whatever
fields a tree leaves out, its text is read. -/
theorem reading_ignores_presentation :
    (∀ (r : Resume) v s, Shows .blank Resume.codec r v → Spells v.lexemes s.toList →
      Resume.codec.ofText s = .ok r) ∧
    (∀ (o : StyleOptions) v s, Shows .blank StyleOptions.codec o v → Spells v.lexemes s.toList →
      StyleOptions.codec.ofText s = .ok o) ∧
    (∀ r : Resume, Shows .blank Resume.codec r (Resume.codec.write r)) ∧
    (∀ o : StyleOptions, o.Exact → Shows .blank StyleOptions.codec o (StyleOptions.codec.write o)) ∧
    (∀ (r : Resume) v s, Shows .any Resume.codec r v → Spells v.lexemes s.toList →
      ∃ r', Resume.codec.ofText s = .ok r') ∧
    ∀ (o : StyleOptions) v s, Shows .any StyleOptions.codec o v → Spells v.lexemes s.toList →
      ∃ o', StyleOptions.codec.ofText s = .ok o' :=
  ⟨fun _ _ _ shows spells => shows.ofText_eq_ok spells,
    fun _ _ _ shows spells => shows.ofText_eq_ok spells,
    fun r => r.encodes.shows,
    fun _ exact => (StyleOptions.encodes exact).shows,
    fun _ _ _ shows spells => shows.exists_ofText spells,
    fun _ _ _ shows spells => shows.exists_ofText spells⟩

/-- A name after an entry that no field is named for, options as a short array, and what is read where
the title is left out. -/
theorem reading_ignores_unknown_entry :
    Resume.codec.ofText (Json.object [entry "?" .null, entry "name" (ofString "Ada")]).text =
      .ok { name := "Ada" } ∧
    StyleOptions.codec.ofText (Json.array [.null]).text = .ok {} ∧
    (∃ r, Resume.codec.ofText (Json.object [entry "?" .null, entry "name" (ofString "Ada")]).text =
      .ok r) ∧
    StyleOptions.Exact {} ∧
    Shows .blank StyleOptions.codec {} (StyleOptions.codec.write {}) ∧
    ∃ o, StyleOptions.codec.ofText (Json.array [.null]).text = .ok o := by
  have gives : Resume.record.Gives (.object [entry "?" .null, entry "name" (ofString "Ada")])
      [("?", .null), ("name", ofString "Ada")] :=
    .object [("?", .null), ("name", ofString "Ada")]
  have named : Shows .blank Resume.codec { name := "Ada" }
      (.object [entry "?" .null, entry "name" (ofString "Ada")]) := by
    apply Shows.record gives
    · simp [Resume.record, Field.of, given]
    · simp [Resume.record, Field.of, given, Omission.Allows]
    · simp [Resume.record, Field.of, given, Shows.text]
  have untitled : Shows .any Resume.codec { name := "Ada", title := "Engineer" }
      (.object [entry "?" .null, entry "name" (ofString "Ada")]) := by
    apply Shows.record gives
    · simp [Resume.record, Field.of, given]
    · simp [Resume.record, Field.of, given, Omission.Allows]
    · simp [Resume.record, Field.of, given, Shows.text]
  have object : Json.Printable (.object [entry "?" .null, entry "name" (ofString "Ada")]) := by
    have values : ∀ e ∈ [("?", Json.null), ("name", ofString "Ada")], e.2.Printable := by
      simp [Json.Printable.null, Json.Printable.string]
    exact Json.Printable.object values
  have short (o : Omission) : Shows o StyleOptions.codec {} (.array [.null]) := by
    apply Shows.record (Record.Gives.array [.null] (by decide))
    · simp [StyleOptions.record, Field.of, given]
    · simp [StyleOptions.record, Field.of, given, Omission.Allows]
    · simp [StyleOptions.record, Field.of, given, Shows.absent]
  have array : Json.Printable (.array [.null]) := by
    apply Json.Printable.array
    simp [Json.Printable.null]
  obtain ⟨resume, options, -, written, someResume, someOptions⟩ := reading_ignores_presentation
  have exact : StyleOptions.Exact {} := by
    rintro x ⟨⟩
  exact ⟨resume _ _ _ named object.spells, options _ _ _ (short .blank) array.spells,
    someResume _ _ _ untitled object.spells, exact, written _ exact,
    someOptions _ _ _ (short .any) array.spells⟩

end Vitae
