/-
Module: Vitae.Proofs.Document.Layout
Layer: Proofs
Purpose: Documents as sequences of parts. No token goes over from one part to the next, so what a document
  is made of can be read part by part: its tokens, its environments and its landmarks.
Imports: Vitae.Proofs.Template.PreambleText
Main exports: Part.isSound, Part.flow, jointed, tokens_parts, Design.isSound, document_defines, chars_document
-/
import Vitae.Proofs.Template.PreambleText

namespace Vitae.Template

open Tex

/-- The control sequences of the code of the designs. -/
def layoutControls : List Token :=
  .comment [] :: ["begin", "end", "textwidth", "noindent", "raggedright", "RaggedRight", "hfill", "par",
    "color", "hrulefill"].map word

/-- Decide whether the titles of a slot mean nothing but themselves. -/
def Slot.isSound : Slot → Bool
  | .block (.summary title) => decide (Ink title)
  | _ => true

/-- Decide whether a part can stand in a document. -/
def Part.isSound : Part → Bool
  | .code s => isCode layoutControls .loose (marks (braced s)) (braced s)
  | .call name arguments =>
      isCommand (word name) name && ["header", "contact"].contains name && !arguments.isEmpty
  | .space _ => true
  | .region r => r.slots.all Slot.isSound

/-- The commands with header fields are those of the header and of the contact line. -/
theorem call_known {name : String} {arguments : List Field}
    (sound : (Part.call name arguments).isSound = true) : name = "header" ∨ name = "contact" := by
  simp only [Part.isSound, Bool.and_eq_true] at sound
  simpa using sound.1.2

/-- How a part ends at the loosest. -/
def Part.ending : Part → Ending
  | .code s => if Ends .tight (braced s) then .tight else .loose
  | .call _ _ => .tight
  | .space _ => .tight
  | .region _ => .loose

/-- Decide whether a part does not go on with a control word before it. -/
def Part.isDetached : Part → Bool
  | .code s => decide (Detached (braced s)) && !(braced s).isEmpty
  | .call _ _ => true
  | .space _ => true
  | .region _ => false

/-- Decide whether no token goes over from a part to the next. -/
def jointed : List Part → Bool
  | p :: q :: rest => (p.ending == .tight || q.isDetached) && jointed (q :: rest)
  | _ => true

/-- The beginnings and ends of environments in the code of a part. What is put between them closes the
environments that it opens. -/
def Part.marks : Part → List Mark
  | .code s => Tex.marks (braced s)
  | _ => []

/-- The control sequences of a part that is not code. -/
def Part.controls (look : Look) : Part → List Token
  | .code _ => []
  | .call name _ => [word name, word "textbullet"]
  | .space _ => [word "vspace"]
  | .region r => word "vspace" :: (r.blocks look).flatMap Block.allControls

section

variable (r : Resume) (look : Look)

theorem flow_field (f : Field) {controls : List Token} (listed : word "textbullet" ∈ controls) :
    Flow controls .tight (f.source (r.manuscript look).content) := by
  cases f with
  | name => exact .ofText r.name
  | title => exact .ofText r.title
  | contactLine => exact flow_contactLine listed (flow_contactItems r)
  | fullContactLine =>
      refine flow_contactLine listed ?_
      intro p member
      rcases List.mem_append.1 member with member | member
      · exact flow_contactItems r p member
      · exact flow_linkItems r.links p member

/-- The titles of the blocks of a region mean nothing but themselves. -/
theorem ink_title {region : Region} {look : Look} (sound : region.slots.all Slot.isSound = true) {b : Block}
    (shown : b ∈ region.blocks look) (title : String) (h : b = .summary title) : Ink title := by
  obtain ⟨slot, member, among⟩ := List.mem_flatMap.1 shown
  have slotSound := List.all_eq_true.1 sound slot member
  -- only a slot of one block holds a summary
  have key : ∀ key, Block.ofKey key ≠ .summary title ∧ Block.ofKeyShort key ≠ .summary title := by
    intro key
    cases key <;> simp [Block.ofKey, Block.ofKeyShort]
  cases slot with
  | block c =>
      have same : b = c := by simpa [Slot.blocks] using among
      rw [← same, h] at slotSound
      exact of_decide_eq_true slotSound
  | hosted sections form =>
      cases form with
      | full =>
          obtain ⟨k, -, rfl⟩ := List.mem_map.1 among
          exact absurd h (key k).1
      | short =>
          obtain ⟨k, -, rfl⟩ := List.mem_map.1 among
          exact absurd h (key k).2

theorem flow_region {region : Region} (sound : region.slots.all Slot.isSound = true) :
    Flow (word "vspace" :: (region.blocks look).flatMap Block.allControls) .loose
      (region.source (r.manuscript look)) := by
  rw [Region.source_eq]
  refine flow_joinSections List.mem_cons_self ?_
  intro p member
  obtain ⟨b, shown, rfl⟩ := List.mem_map.1 member
  refine (b.flow r look region.style (ink_title sound shown)).mono ?_
  intro t listed
  exact List.mem_cons_of_mem _ (List.mem_flatMap.2 ⟨b, shown, listed⟩)

/-- A part that is not code is source as the library writes it. -/
theorem Part.flow {p : Part} (sound : p.isSound = true) (other : ∀ s, p ≠ .code s) :
    Flow (p.controls look) p.ending (p.source (r.manuscript look)) := by
  cases p with
  | code s => exact absurd rfl (other s)
  | call name arguments =>
      simp only [Part.isSound, Bool.and_eq_true, Bool.not_eq_true'] at sound
      refine .command sound.1.1 (by simp [Part.controls]) ?_ ?_
      · simpa using sound.2
      · intro a member
        obtain ⟨f, -, rfl⟩ := List.mem_map.1 member
        exact (flow_field r look f (by simp [Part.controls])).toLoose
  | space gap =>
      refine flow_space ?_ (by simp [Part.controls])
      cases gap with
      | small => exact Ink.smallLength _
      | medium => exact Ink.mediumLength _
  | region region => exact flow_region r look sound

/-- The text of a part. -/
def Part.chars (r : Resume) (look : Look) (p : Part) : List Char :=
  Source.render (p.source (r.manuscript look))

theorem chars_code (s : String) : Part.chars r look (.code s) = braced s := by
  simp [Part.chars, Part.source]

/-- The text of a region, block by block. -/
theorem chars_region (region : Region) : Part.chars r look (.region region) =
    (joinSections look.spacing
      ((region.blocks look).map (Block.compose (r.manuscript look) region.style))).render :=
  congrArg Source.render (region.source_eq (r.manuscript look))

/-- What a part contributes to a document. -/
structure Part.IsPlaced (r : Resume) (look : Look) (p : Part) : Prop
    extends Calm p.ending (p.chars r look) where
  unmarked : Unmarked (p.chars r look)
  marked : ∀ names rest, close names (Tex.marks (p.chars r look) ++ rest) = close names (p.marks ++ rest)

theorem Part.placed {p : Part} (sound : p.isSound = true) : p.IsPlaced r look := by
  by_cases written : ∃ s, p = .code s
  · obtain ⟨s, rfl⟩ := written
    have checked : Code layoutControls .loose (Tex.marks (braced s)) (braced s) := .of_check sound
    refine ⟨?_, ?_, ?_⟩
    · rw [chars_code]
      refine { checked.toCalm with ends := ?_ }
      change Ends (if Ends .tight (braced s) then .tight else .loose) (braced s)
      split
      · assumption
      · exact checked.ends
    · rw [chars_code]
      exact checked.unmarked
    · rw [chars_code]
      exact fun _ _ => rfl
  · have flow := Part.flow r look sound fun s same => written ⟨s, same⟩
    have none : p.marks = [] := by
      cases p with
      | code s => exact absurd ⟨s, rfl⟩ written
      | _ => rfl
    refine ⟨flow.inert.toCalm, flow.inert.unmarked, ?_⟩
    intro names rest
    rw [none]
    exact flow.inert.nested.close names rest

theorem detached_command (name : String) (arguments : List Source) :
    Detached (Source.render (command name arguments)) ∧
      Source.render (command name arguments) ≠ [] := by
  have shape : Source.render (command name arguments) =
      '\\' :: (name.toList ++ Source.render (arguments.flatMap group)) := by
    simp [command]
  rw [shape]
  refine ⟨?_, by simp⟩
  rintro c ⟨⟩
  rfl

theorem Part.detached {p : Part} (h : p.isDetached = true) :
    Detached (p.chars r look) ∧ p.chars r look ≠ [] := by
  cases p with
  | code s =>
      rw [chars_code]
      simpa [Part.isDetached] using h
  | call name arguments => exact detached_command name _
  | space gap => exact detached_command "vspace" _
  | region region => simp [Part.isDetached] at h

/-- The text of some parts. -/
def partsText (r : Resume) (look : Look) (parts : List Part) : List Char :=
  parts.flatMap (Part.chars r look)

theorem render_parts (parts : List Part) :
    Source.render (parts.flatMap (Part.source (r.manuscript look))) = partsText r look parts := by
  induction parts with
  | nil => rfl
  | cons p rest ih =>
      rw [List.flatMap_cons, Source.render_append, ih]
      rfl

/-- Parts that are jointed can be read one by one. -/
theorem tokens_parts {parts : List Part} (sound : parts.all Part.isSound = true)
    (joints : jointed parts = true) :
    Calm .loose (partsText r look parts) ∧ Unmarked (partsText r look parts) ∧
      (∀ names rest, close names (Tex.marks (partsText r look parts) ++ rest) =
        close names (parts.flatMap Part.marks ++ rest)) ∧
      tokens (partsText r look parts) = parts.flatMap fun p => tokens (p.chars r look) := by
  induction parts with
  | nil => exact ⟨.loosen .nil, fun _ _ => rfl, fun _ _ => rfl, rfl⟩
  | cons p rest ih =>
      rw [List.all_cons, Bool.and_eq_true] at sound
      have placed := Part.placed r look sound.1
      have joints' : jointed rest = true := by
        cases rest with
        | nil => rfl
        | cons q rest =>
            rw [jointed, Bool.and_eq_true] at joints
            exact joints.2
      obtain ⟨calm, unmarked, marked, read⟩ := ih sound.2 joints'
      have shape : partsText r look (p :: rest) = p.chars r look ++ partsText r look rest :=
        List.flatMap_cons
      have joint : Calm .loose (p.chars r look ++ partsText r look rest) ∧
          tokens (p.chars r look ++ partsText r look rest) =
            tokens (p.chars r look) ++ tokens (partsText r look rest) := by
        have loose := placed.toCalm.loosen
        cases rest with
        | nil => simpa [partsText] using loose
        | cons q rest =>
            rw [jointed, Bool.and_eq_true, Bool.or_eq_true, beq_iff_eq] at joints
            rcases joints.1 with tight | detached
            · have closed : Calm .tight (p.chars r look) := tight ▸ placed.toCalm
              exact ⟨closed.append calm, tokens_append closed.ends _⟩
            · obtain ⟨begins, nonempty⟩ := Part.detached r look detached
              have apart : Detached (partsText r look (q :: rest)) := begins.append nonempty
              have some : partsText r look (q :: rest) ≠ [] := List.append_ne_nil_of_left_ne_nil nonempty _
              exact ⟨loose.append_detached calm apart some, tokens_append_detached loose.ends apart⟩
      rw [shape]
      refine ⟨joint.1, placed.unmarked.append placed.settled unmarked, ?_, ?_⟩
      · intro names more
        rw [marks_append placed.sought, List.append_assoc, placed.marked, List.flatMap_cons,
          List.append_assoc, close_append, close_append names p.marks]
        simp only [marked]
      · rw [joint.2, read, List.flatMap_cons]

end

/-! ### The designs -/

/-- The parts of a design between the beginning and the end of the document. -/
def Design.parts (d : Design) : List Part :=
  d.body ++ d.footer

/-- Decide whether the parts of a design can be read one by one and close their environments. -/
def Design.isSound (d : Design) : Bool :=
  d.parts.all Part.isSound && jointed d.parts && decide (Nested (d.parts.flatMap Part.marks))

theorem Design.sound (key : TemplateKey) : (Design.ofKey key).isSound = true := by
  cases key <;> decide +kernel

theorem part_sound {key : TemplateKey} {p : Part} (member : p ∈ (Design.ofKey key).parts) :
    p.isSound = true := by
  have sound := Design.sound key
  simp only [Design.isSound, Bool.and_eq_true] at sound
  exact List.all_eq_true.1 sound.1.1 p member

/-- The beginning of the body of a document. -/
def beginDocument : List Char :=
  "\\begin\x7bdocument\x7d".toList

/-- The end of a document. -/
def endDocument : List Char :=
  "\\end\x7bdocument\x7d".toList

/-- What stands between the beginning and the end of the body of a document. -/
def Design.bodyText (d : Design) (r : Resume) (look : Look) : List Char :=
  partsText r look d.parts

/-- A document: its class, the rest of its preamble behind a bracket, and its body. -/
def documentText (front body : List Char) : List Char :=
  classCommand ++ (('[' :: front) ++
    (beginDocument ++ ['\n'] ++ (body ++ ('\n' :: (endDocument ++ ['\n'])))))

/-- Every document is its class, a sober preamble that defines the commands of the design, and its body
between its two landmarks. -/
theorem document_defines (key : TemplateKey) (look : Look) :
    ∃ front, Defines (ownCommands key) ('[' :: front) ∧ ∀ r : Resume,
      (Design.ofKey key).chars (r.manuscript look) =
        documentText front ((Design.ofKey key).bodyText r look) := by
  obtain ⟨rest, preamble, defines⟩ := preamble_defines key look
  refine ⟨rest, defines, fun r => ?_⟩
  have opening : "\\begin\x7bdocument\x7d\n".toList = beginDocument ++ ['\n'] := by decide
  have closing : "\n\\end\x7bdocument\x7d\n".toList = '\n' :: (endDocument ++ ['\n']) := by decide
  have look_eq : (r.manuscript look).look = look := rfl
  rw [Design.chars, look_eq, preamble, Design.bodySource, Design.footerSource, Source.render_append,
    Source.render_append, render_code, render_code, render_parts, render_parts, opening, closing,
    documentText, Design.bodyText, Design.parts, partsText, partsText, partsText,
    List.flatMap_append]
  simp only [List.append_assoc, List.cons_append]

theorem chars_document (key : TemplateKey) (look : Look) :
    ∃ front, Sober ('[' :: front) ∧ ∀ r : Resume,
      (Design.ofKey key).chars (r.manuscript look) =
        documentText front ((Design.ofKey key).bodyText r look) := by
  obtain ⟨front, defines, shape⟩ := document_defines key look
  exact ⟨front, defines.toSober, shape⟩

end Vitae.Template
