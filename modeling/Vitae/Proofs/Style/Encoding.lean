/-
Module: Vitae.Proofs.Style.Encoding
Layer: Proofs
Purpose: Style options in JSON. What is written for them shows them, as long as the text of the spacing is
  read as the same number.
Imports: Vitae.Proofs.Json.Presentation, Vitae.Proofs.Json.Range, Vitae.Style.Codec
Main exports: StyleOptions.Exact, StyleOptions.encodes, StyleOptions.spacing_finite
-/
import Vitae.Proofs.Json.Presentation
import Vitae.Proofs.Json.Range
import Vitae.Style.Codec

namespace Vitae

open Json (Codec Encodes Field Numeral Record given)
open Number (Binary64 Finite)

theorem PageSize.encodes (p : PageSize) : Encodes PageSize.codec p :=
  .oneOf (by cases p <;> decide)

theorem FontFamily.encodes (f : FontFamily) : Encodes FontFamily.codec f :=
  .oneOf (by cases f <;> decide)

namespace StyleOptions

/-- The spacing is absent, or a finite number whose text is read as that number. -/
def Exact (o : StyleOptions) : Prop :=
  ∀ x, o.sectionSpacing = some x →
    ∃ y, x = .finite y ∧ (Numeral.ofFinite y).value? = some (.finite y)

theorem encodes {o : StyleOptions} (exact : o.Exact) : Encodes StyleOptions.codec o := by
  have pageSize : Encodes (.optional PageSize.codec) o.pageSize :=
    .optional fun p _ => ⟨by simp [PageSize.codec, Codec.oneOf, Json.ofString], p.encodes⟩
  have fontFamily : Encodes (.optional FontFamily.codec) o.fontFamily :=
    .optional fun f _ => ⟨by simp [FontFamily.codec, Codec.oneOf, Json.ofString], f.encodes⟩
  have color (x : Option String) : Encodes (.optional .text) x :=
    .optional fun y _ => ⟨by simp [Codec.text, Json.ofString], .text y⟩
  have spacing : Encodes (.optional .number) o.sectionSpacing :=
    .optional fun x some => by
      obtain ⟨y, rfl, back⟩ := exact x some
      exact ⟨by simp [Codec.number, Codec.writeNumber], .number back⟩
  have order : Encodes (.optional (.list .text)) o.sectionOrder :=
    .optional fun xs _ => ⟨by simp [Codec.list], .list fun x _ => .text x⟩
  apply Encodes.record
  simp [StyleOptions.record, Field.of, pageSize, fontFamily, color, spacing, order]

theorem readNumber_finite {v : Json} {x : Binary64} (read : Codec.number.read v = .ok x) :
    ∃ y, x = .finite y := by
  cases v with
  | number n =>
      cases value : n.value? with
      | none => simp [Codec.number, Codec.readNumber, value] at read
      | some y =>
          obtain rfl : y = x := by simpa [Codec.number, Codec.readNumber, value] using read
          exact Numeral.value?_finite value
  | _ => cases read

/-- A spacing that was read is finite. -/
theorem spacing_finite {v : Json} {o : StyleOptions} (read : StyleOptions.codec.read v = .ok o)
    {x : Binary64} (held : o.sectionSpacing = some x) : ∃ y, x = .finite y := by
  obtain ⟨entries, -, takes⟩ := (StyleOptions.record.read_iff v o).1 read
  have field := takes (.of "sectionSpacingMm" (.optional .number) (·.sectionSpacing)
    fun x o => { o with sectionSpacing := x }) (by simp [StyleOptions.record])
  generalize values : given _ entries = vs at field
  cases field with
  | absent _ kept => simp [Field.of, held, StyleOptions.record] at kept
  | @present w read =>
      have read : Codec.readOptional .number w = .ok (some x) := by
        rw [← held]
        exact read
      exact readNumber_finite (Codec.readOptional_some read)

end StyleOptions

end Vitae
