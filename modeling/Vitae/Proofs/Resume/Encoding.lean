/-
Module: Vitae.Proofs.Resume.Encoding
Layer: Proofs
Purpose: Resumes in JSON. What is written for a resume shows it and has a text, for each kind of entry from
  the texts upwards.
Imports: Vitae.Proofs.Json.Presentation, Vitae.Resume.Codec
Main exports: Resume.encodes, encodes_optionalText
-/
import Vitae.Proofs.Json.Presentation
import Vitae.Resume.Codec

namespace Vitae

open Json (Codec Encodes Field Record)

theorem encodes_textList (xs : List String) : Encodes textList xs :=
  .list fun x _ => .text x

theorem encodes_optionalText (x : Option String) : Encodes optionalText x :=
  .optional fun y _ => ⟨by simp [Codec.text, Json.ofString], .text y⟩

theorem Experience.encodes (e : Experience) : Encodes Experience.codec e := by
  apply Encodes.record
  simp [Experience.record, Field.of, Encodes.text, encodes_textList, encodes_optionalText]

theorem Education.encodes (e : Education) : Encodes Education.codec e := by
  apply Encodes.record
  simp [Education.record, Field.of, Encodes.text, encodes_optionalText]

theorem Link.encodes (l : Link) : Encodes Link.codec l := by
  apply Encodes.record
  simp [Link.record, Field.of, Encodes.text]

theorem Project.encodes (p : Project) : Encodes Project.codec p := by
  apply Encodes.record
  simp [Project.record, Field.of, Encodes.text, encodes_optionalText]

theorem CustomSection.encodes (s : CustomSection) : Encodes CustomSection.codec s := by
  apply Encodes.record
  simp [CustomSection.record, Field.of, Encodes.text]

theorem Position.encodes (p : Position) : Encodes Position.codec p := by
  apply Encodes.record
  simp [Position.record, Field.of, Encodes.text]

theorem Activity.encodes (a : Activity) : Encodes Activity.codec a := by
  apply Encodes.record
  simp [Activity.record, Field.of, Encodes.text]

theorem Extras.encodes (e : Extras) : Encodes Extras.codec e := by
  have positions : Encodes (.list Position.codec) e.positions := .list fun p _ => p.encodes
  have activities : Encodes (.list Activity.codec) e.activities := .list fun a _ => a.encodes
  apply Encodes.record
  simp [Extras.record, Field.of, encodes_textList, positions, activities]

theorem Resume.encodes (r : Resume) : Encodes Resume.codec r := by
  have experiences : Encodes (.list Experience.codec) r.experiences := .list fun e _ => e.encodes
  have education : Encodes (.list Education.codec) r.education := .list fun e _ => e.encodes
  have links : Encodes (.list Link.codec) r.links := .list fun l _ => l.encodes
  have projects : Encodes (.list Project.codec) r.projects := .list fun p _ => p.encodes
  have customSections : Encodes (.list CustomSection.codec) r.customSections :=
    .list fun s _ => s.encodes
  have extras : Encodes (.optional Extras.codec) r.extras :=
    .optional fun e _ => ⟨by simp [Extras.codec, Record.codec, Record.write], e.encodes⟩
  apply Encodes.record
  simp [Resume.record, Field.of, Encodes.text, encodes_textList, experiences, education, links,
    projects, customSections, extras]

end Vitae
