/-
Module: Vitae.Proofs.Document.Noninterference
Layer: Proofs
Purpose: What is typed into a resume cannot change the structure of its document. The documents of two
  resumes of one shape have one skeleton, in every design and for all options.
Imports: Vitae.Proofs.Document.Layout, Vitae.Proofs.Document.Shape
Main exports: alike_parts, skeleton_render
-/
import Vitae.Proofs.Document.Layout
import Vitae.Proofs.Document.Shape

namespace Vitae.Template

open Tex

/-! ### One skeleton for one shape -/

/-- No command of a block breaks off a link or a control word of the escaper. -/
theorem steady_block : ∀ b : Block, ∀ t ∈ b.allControls, t.isSteady = true :=
  Block.forall_of_kinds (fun _ => id) (by decide)

/-- No part of a design does. -/
theorem steady_part {p : Part} (sound : p.isSound = true) (look : Look) :
    ∀ t ∈ p.controls look, t.isSteady = true := by
  cases p with
  | code s => simp [Part.controls]
  | call name arguments =>
      rcases call_known sound with rfl | rfl
      · exact (by decide : ∀ t ∈ [word "header", word "textbullet"], t.isSteady = true)
      · exact (by decide : ∀ t ∈ [word "contact", word "textbullet"], t.isSteady = true)
  | space gap => exact (by decide : ∀ t ∈ [word "vspace"], t.isSteady = true)
  | region region =>
      intro t member
      rcases List.mem_cons.1 member with rfl | member
      · decide
      · obtain ⟨b, -, listed⟩ := List.mem_flatMap.1 member
        exact steady_block b t listed

/-- A part is put together in the same way whatever its texts say. -/
theorem mask_part (m : Manuscript) (p : Part) :
    Source.mask (p.source m) = p.source m.mask := by
  cases p with
  | code s => rfl
  | call name arguments =>
      have field : ∀ f : Field, Source.mask (f.source m.content) = f.source m.mask.content := by
        intro f
        cases f with
        | name => rfl
        | title => rfl
        | contactLine => exact Source.mask_joinNonEmpty _ _
        | fullContactLine =>
            have both := Source.mask_joinNonEmpty contactSeparator (m.content.contactItems ++ m.content.links)
            rwa [List.map_append] at both
      rw [Part.source, Part.source, Source.mask_command, List.map_map]
      exact congrArg (command name) (List.map_congr_left fun f _ => field f)
  | space gap => simp [Part.source, Manuscript.mask]
  | region region =>
      have blocks : ∀ bs : List Block, (bs.map (Block.compose m region.style)).map Source.mask =
          bs.map (Block.compose m.mask region.style) := by
        intro bs
        rw [List.map_map]
        exact List.map_congr_left fun b _ => mask_compose m region.style b
      rw [Part.source, Part.source, Region.source_eq, Region.source_eq, mask_joinSections, blocks]
      rfl

/-- A part reads as it does with other text. -/
theorem alike_part {p : Part} (sound : p.isSound = true) (r : Resume) (look : Look) :
    Alike (tokens (p.chars r look)) (tokens (Source.render (p.source (r.manuscript look).mask))) := by
  by_cases written : ∃ s, p = .code s
  · obtain ⟨s, rfl⟩ := written
    have checked : Code layoutControls .loose (marks (braced s)) (braced s) := .of_check sound
    have listed : ∀ t ∈ layoutControls, t.isSteady = true := by decide
    have chars : Source.render (Part.source (r.manuscript look).mask (.code s)) = braced s := by
      simp [Part.source]
    rw [chars_code, chars]
    refine .steady ?_
    intro t member
    cases control : t.isControl with
    | true => exact listed t (checked.listed t member control)
    | false => exact steady_of_not_control control
  · have flow := Part.flow r look sound fun s same => written ⟨s, same⟩
    rw [← mask_part]
    exact flow.alike (steady_part sound look)

/-- Parts of resumes of one shape read alike. -/
theorem alike_parts {parts : List Part} (sound : parts.all Part.isSound = true) {r r' : Resume}
    (h : r.shape = r'.shape) (look : Look) :
    Alike (parts.flatMap fun p => tokens (p.chars r look))
      (parts.flatMap fun p => tokens (p.chars r' look)) := by
  have same : (r.manuscript look).mask = (r'.manuscript look).mask := by
    rw [Manuscript.mask, Manuscript.mask]
    exact congrArg (Manuscript.mk · look) (mask_ofResume h look.spacing)
  induction parts with
  | nil => exact ⟨[], .nil, .nil⟩
  | cons p rest ih =>
      rw [List.all_cons, Bool.and_eq_true] at sound
      have left := alike_part sound.1 r look
      have right := alike_part sound.1 r' look
      rw [← same] at right
      rw [List.flatMap_cons, List.flatMap_cons]
      exact (left.through right).append (ih sound.2)

/-- The skeleton of a document depends on that of its body only. -/
theorem skeleton_frame {front body body' : List Char} (sober : Sober ('[' :: front))
    (hb : Ends .loose body) (hb' : Ends .loose body') (h : Alike (tokens body) (tokens body')) :
    skeleton (documentText front body) = skeleton (documentText front body') := by
  have read : ∀ body, Ends .loose body → tokens (documentText front body) =
      tokens classCommand ++ (tokens ('[' :: front) ++ (tokens (beginDocument ++ ['\n']) ++
        (tokens body ++ tokens ('\n' :: (endDocument ++ ['\n']))))) := by
    intro body ends
    have command : Ends .loose classCommand := by decide
    have opening : Ends .tight (beginDocument ++ ['\n']) := by decide
    rw [documentText, tokens_append_detached command (by simp [Detached]), tokens_append sober.ends,
      tokens_append opening, tokens_append_detached ends (by decide)]
  have first : Alike (tokens classCommand) (tokens classCommand) := .steady (by decide)
  have second : Alike (tokens (beginDocument ++ ['\n'])) (tokens (beginDocument ++ ['\n'])) :=
    .steady (by decide)
  have third : Alike (tokens ('\n' :: (endDocument ++ ['\n'])))
      (tokens ('\n' :: (endDocument ++ ['\n']))) :=
    .steady (by decide)
  have whole := first.append ((Alike.steady sober.steady).append (second.append (h.append third)))
  obtain ⟨out, left, right⟩ := whole
  rw [skeleton, skeleton, read body hb, read body' hb', left.bare_eq, right.bare_eq]

/-- The documents of two resumes of one shape have one skeleton, in every design and for all options. -/
theorem skeleton_render {r r' : Resume} (h : r.shape = r'.shape) (key : TemplateKey)
    (o : StyleOptions) :
    skeleton ((Design.ofKey key).render (Manuscript.ofResume r o).value).toList =
      skeleton ((Design.ofKey key).render (Manuscript.ofResume r' o).value).toList := by
  rw [value_ofResume, value_ofResume]
  generalize (Look.ofOptions o).value = look
  obtain ⟨front, sober, shape⟩ := chars_document key look
  have sound := Design.sound key
  simp only [Design.isSound, Bool.and_eq_true] at sound
  obtain ⟨⟨parts, joints⟩, -⟩ := sound
  obtain ⟨calm, -, -, read⟩ := tokens_parts r look parts joints
  obtain ⟨calm', -, -, read'⟩ := tokens_parts r' look parts joints
  rw [Design.render, Design.render, String.toList_ofList, String.toList_ofList, shape r, shape r']
  refine skeleton_frame sober calm.ends calm'.ends ?_
  rw [Design.bodyText, Design.bodyText, read, read']
  exact alike_parts parts h look

/-- A resume full of commands has the skeleton of a plain one. -/
theorem skeleton_render_hostile :
    skeleton ((Design.ofKey .modern).render (Manuscript.ofResume
        { name := "Ann", skills := ["C"], links := [{ label := "Page", url := "a.org" }] } {}).value).toList =
      skeleton ((Design.ofKey .modern).render (Manuscript.ofResume
        { name := "\\end\x7bdocument\x7d", skills := ["%", " "],
          links := [{ label := "\x7d", url := "\\href\x7b" }] } {}).value).toList :=
  skeleton_render (by decide) .modern {}

end Vitae.Template
