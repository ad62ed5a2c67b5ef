/-
Module: Vitae.Proofs.Document.Scan
Layer: Proofs
Purpose: What a reader finds in the body of a document, section by section. Headings, spaces and the code of
  the designs show it nothing where it looks for none of their commands.
Imports: Vitae.Proofs.Document.Layout, Vitae.Proofs.Tex.Scanner
Main exports: Modular.joinGap, Modular.wrap, finds_joinVisible, finds_wrap, Design.blocks, Part.collect,
  Survey, readFront, readBody, Survey.body
-/
import Vitae.Proofs.Document.Layout
import Vitae.Proofs.Tex.Scanner

namespace Vitae

open Tex

variable {α β : Type} {f : Scanner α}

/-! ### Sections -/

/-- Vertical space on a line of its own. -/
theorem flow_gap {length : String} (ink : Ink length) :
    Flow [word "vspace"] .tight (gap length) := by
  have newline : Flow [word "vspace"] .tight (code "\n") := .ink (by decide)
  exact (newline.append (flow_space ink (by simp))).append newline

theorem detached_gap (length : String) (s : List Char) :
    Detached (Source.render (gap length) ++ s) := by
  have begins : Source.render (gap length) =
      '\n' :: Source.render (command "vspace" [code length] ++ code "\n") := by
    simp [gap]
  rw [begins]
  exact (by decide : Detached ['\n']).append (by simp)

theorem ends_joinGap {length : String} {parts : List Source} (ink : Ink length)
    (ends : ∀ p ∈ parts, Ends .loose p.render) :
    Ends .loose (Source.render (join (gap length) parts)) := by
  induction parts with
  | nil => exact Ends.loosen (by decide : Ends .tight [])
  | cons p rest ih =>
      have first := ends p List.mem_cons_self
      have later := ih fun q member => ends q (List.mem_cons_of_mem p member)
      cases rest with
      | nil => simpa using first
      | cons q rest =>
          have nonempty : Source.render (gap length) ≠ [] := by simp [gap]
          rw [join_cons_cons, Source.render_append, Source.render_append]
          exact first.append_detached ((flow_gap ink).inert.ends.append later)
            (detached_gap length _) (List.append_ne_nil_of_left_ne_nil nonempty _)

/-- A part before others is read for itself, with the vertical space behind it. -/
theorem tokens_joinGap_cons {length : String} {p q : Source} {parts : List Source} (ink : Ink length)
    (ends : Ends .loose p.render) :
    tokens (join (gap length) (p :: q :: parts)).render =
      tokens p.render ++ (tokens (gap length).render ++ tokens (join (gap length) (q :: parts)).render) := by
  rw [join_cons_cons, Source.render_append, Source.render_append, tokens_append_detached ends (detached_gap length _),
    tokens_append (flow_gap ink).inert.ends]

/-- Parts with vertical space between them are read one after the other. -/
theorem tokens_joinGap {length : String} {parts : List Source} (ink : Ink length)
    (ends : ∀ p ∈ parts, Ends .loose p.render) :
    tokens (join (gap length) parts).render =
      (tokens (gap length).render).intercalate (parts.map fun p => tokens p.render) := by
  induction parts with
  | nil => rfl
  | cons p rest ih =>
      have first := ends p List.mem_cons_self
      have later := ih fun q member => ends q (List.mem_cons_of_mem p member)
      cases rest with
      | nil => rw [join_singleton, List.map_singleton, List.intercalate_singleton]
      | cons q rest =>
          rw [tokens_joinGap_cons ink first, later]
          simp only [List.map_cons, List.intercalate_cons_cons, List.append_assoc]

/-- A section under its heading is read as its heading, what stands under it, and its rule. -/
theorem tokens_headed {style : SectionStyle} {title body : Source} (heading : Flow [] .loose title)
    (ends : Ends .loose (Source.render (code "\n" ++ body))) :
    tokens (style.headed title body).render =
      tokens (Source.render (command style.heading.command [title])) ++
        (tokens (Source.render (code "\n" ++ body)) ++ tokens style.closing.render) := by
  have line : Flow (["section", "sidebarHeading"].map word) .tight (command style.heading.command [title]) :=
    flow_heading style (List.Subset.refl _) (heading.mono (by simp))
  have detached : Detached style.closing.render := by
    unfold SectionStyle.closing
    split
    · rw [render_code]
      decide
    · exact (by decide : Detached [])
  rw [← tokens_append_detached ends detached, ← tokens_append line.inert.ends]
  simp only [SectionStyle.headed, SectionStyle.headingLine, Source.render_append, List.append_assoc]

/-- To leave out the empty parts is to leave out what they are made of. -/
theorem joinNonEmpty_map (separator : Source) (xs : List β) (g : β → Source) :
    joinNonEmpty separator (xs.map g) = join separator ((xs.filter fun x => !(g x).isBlank).map g) := by
  rw [joinNonEmpty, List.filter_map]
  rfl

namespace Tex.Modular

variable {P : List Token → List α → Prop}

/-- What is found in joined parts is what is found in each of them, where nothing is found in the separator. -/
theorem intercalate (modular : Modular P) (out : β → List α) {separator : List Token} {xs : List β}
    {g : β → List Token} (between : P separator []) (h : ∀ x ∈ xs, P (g x) (out x)) :
    P (separator.intercalate (xs.map g)) (xs.flatMap out) := by
  induction xs with
  | nil => exact modular.nil
  | cons x rest ih =>
      have first := h x List.mem_cons_self
      have later := ih fun y member => h y (List.mem_cons_of_mem x member)
      cases rest with
      | nil => simpa using first
      | cons y rest =>
          have below := modular.append between later
          rw [List.nil_append] at below
          rw [List.map_cons, List.map_cons, List.intercalate_cons_cons, ← List.map_cons, List.append_assoc,
            List.flatMap_cons]
          exact modular.append first below

/-- What is found in parts with vertical space between them is what is found in each of them. -/
theorem joinGap (modular : Modular P) (out : β → List α) {length : String} {xs : List β}
    {g : β → Source} (ink : Ink length) (space : P (tokens (gap length).render) [])
    (ends : ∀ x ∈ xs, Ends .loose (g x).render) (h : ∀ x ∈ xs, P (tokens (g x).render) (out x)) :
    P (tokens (join (gap length) (xs.map g)).render) (xs.flatMap out) := by
  have read := modular.intercalate out space h
  have parts : ∀ p ∈ xs.map g, Ends .loose p.render := by
    intro p member
    obtain ⟨x, among, rfl⟩ := List.mem_map.1 member
    exact ends x among
  rw [tokens_joinGap ink parts, List.map_map]
  exact read

/-- The same for parts of which the empty ones are left out. -/
theorem joinVisible (modular : Modular P) (out : β → List α) {length : String} {xs : List β}
    {g : β → Source} (ink : Ink length) (space : P (tokens (gap length).render) [])
    (ends : ∀ x ∈ xs, Ends .loose (g x).render) (h : ∀ x ∈ xs, P (tokens (g x).render) (out x)) :
    P (tokens (joinNonEmpty (gap length) (xs.map g)).render) (xs.flatMap out) := by
  have kept : ∀ x ∈ xs.filter (fun x => !(g x).isBlank), x ∈ xs :=
    fun x member => (List.mem_filter.1 member).1
  rw [← flatMap_visible fun x member => modular.eq_nil_of_blank (h x member), joinNonEmpty_map]
  exact modular.joinGap out ink space (fun x member => ends x (kept x member))
    fun x member => h x (kept x member)

/-- What is found in a section under its heading is what is found in its heading and in its body. -/
theorem headed (modular : Modular P) (before out : List α) {style : SectionStyle} {title body : Source}
    (rule : style.rule = true → P (tokens "\n\\sectionrule".toList) []) (heading : Flow [] .loose title)
    (found : P (tokens (Source.render (command style.heading.command [title]))) before)
    (ends : Ends .loose (Source.render (code "\n" ++ body)))
    (h : P (tokens (Source.render (code "\n" ++ body))) out) :
    P (tokens (style.headed title body).render) (before ++ out) := by
  have closed : P (tokens style.closing.render) [] := by
    unfold SectionStyle.closing
    split
    case isTrue ruled => rw [render_code]; exact rule ruled
    case isFalse => exact modular.nil
  have under := modular.append h closed
  rw [tokens_headed heading ends]
  rw [List.append_nil] at under
  exact modular.append found under

/-- The same for a section whose title is the library's own, where its body may be empty. -/
theorem wrap (modular : Modular P) (out : List α) {style : SectionStyle} {title : String} {body : Source}
    (rule : style.rule = true → P (tokens "\n\\sectionrule".toList) [])
    (heading : P (tokens (Source.render (command style.heading.command [code title]))) [])
    (ink : Ink title) (blank : body.isBlank = true → out = [])
    (ends : Ends .loose (Source.render (code "\n" ++ body)))
    (h : P (tokens (Source.render (code "\n" ++ body))) out) :
    P (tokens (style.wrap title body).render) out := by
  unfold SectionStyle.wrap
  split
  case isTrue empty =>
    rw [blank empty]
    exact modular.nil
  case isFalse => exact modular.headed [] out rule (Flow.ink ink).toLoose heading ends h

end Tex.Modular

/-! ### Readers of sections -/

theorem finds_joinGap {length : String} {xs : List β} {g : β → Source} {out : β → List α}
    (ink : Ink length) (ignores : f.ignores [word "vspace"] = true)
    (ends : ∀ x ∈ xs, Ends .loose (g x).render)
    (h : ∀ x ∈ xs, f.Finds (tokens (g x).render) (out x)) :
    f.Finds (tokens (join (gap length) (xs.map g)).render) (xs.flatMap out) :=
  Scanner.modular.joinGap out ink (Scanner.finds_flow (flow_gap ink) ignores) ends h

theorem finds_joinVisible {length : String} {xs : List β} {g : β → Source} {out : β → List α}
    (ink : Ink length) (ignores : f.ignores [word "vspace"] = true)
    (ends : ∀ x ∈ xs, Ends .loose (g x).render)
    (h : ∀ x ∈ xs, f.Finds (tokens (g x).render) (out x)) :
    f.Finds (tokens (joinNonEmpty (gap length) (xs.map g)).render) (xs.flatMap out) :=
  Scanner.modular.joinVisible out ink (Scanner.finds_flow (flow_gap ink) ignores) ends h

/-- A reader of control sequences finds nothing in a closing rule, where it does not look for it. -/
theorem finds_rule (ignores : f.ignores [word "sectionrule"] = true) :
    f.Finds (tokens "\n\\sectionrule".toList) [] := by
  have rule : Flow [word "sectionrule"] .loose (code "\n\\sectionrule") := .literal (by decide)
  rw [← render_code]
  exact Scanner.finds_flow rule ignores

theorem finds_headed {style : SectionStyle} {title body : Source} {before out : List α}
    (ignores : f.ignores [word "sectionrule"] = true) (heading : Flow [] .loose title)
    (found : f.Finds (tokens (Source.render (command style.heading.command [title]))) before)
    (ends : Ends .loose (Source.render (code "\n" ++ body)))
    (h : f.Finds (tokens (Source.render (code "\n" ++ body))) out) :
    f.Finds (tokens (style.headed title body).render) (before ++ out) :=
  Scanner.modular.headed before out (fun _ => finds_rule ignores) heading found ends h

theorem finds_wrap {style : SectionStyle} {title : String} {body : Source} {out : List α}
    (ignores : f.ignores frameControls = true) (ink : Ink title) (ends : Ends .loose body.render)
    (h : f.Finds (tokens body.render) out) :
    f.Finds (tokens (style.wrap title body).render) out := by
  have rule : f.ignores [word "sectionrule"] = true := Scanner.ignores_mono ignores (by decide)
  have plain : f.ignores [] = true := Scanner.ignores_mono ignores (by simp)
  have heading : Flow frameControls .tight (command style.heading.command [code title]) :=
    flow_heading style (by decide) (Flow.ink ink).toLoose
  have line : Flow [] .tight (code "\n") := .ink (by decide)
  have lined := (Scanner.finds_flow line plain).append h
  rw [← line.tokens_append] at lined
  refine Scanner.modular.wrap out (fun _ => finds_rule rule) (Scanner.finds_flow heading ignores) ink
    (Scanner.modular.eq_nil_of_blank h) ?_ lined
  rw [Source.render_append]
  exact line.inert.ends.append ends

end Vitae

namespace Vitae.Template

open Tex

variable {α : Type} {f : Scanner α}

/-! ### Designs -/

/-- The sections of a part of a design, in the order in which they are shown. -/
def Part.blocks (look : Look) : Part → List Block
  | .region r => r.blocks look
  | _ => []

/-- The sections of a design, in the order in which they are shown. -/
def Design.blocks (d : Design) (look : Look) : List Block :=
  d.parts.flatMap (Part.blocks look)

/-- The blocks that a slot may show. -/
def Slot.candidates : Slot → List Block
  | .block b => [b]
  | .hosted sections .full => sections.map Block.ofKey
  | .hosted sections .short => sections.map Block.ofKeyShort

theorem mem_candidates {look : Look} {slot : Slot} {b : Block} (shown : b ∈ slot.blocks look) :
    b ∈ slot.candidates := by
  have arranged : ∀ {sections : List SectionKey} {k : SectionKey},
      k ∈ look.arrange sections → k ∈ sections := by
    intro sections k member
    unfold Look.arrange at member
    split at member
    · simpa using (List.mem_filter.1 member).2
    · exact member
  cases slot with
  | block c => exact shown
  | hosted sections form =>
      cases form with
      | full =>
          obtain ⟨k, member, rfl⟩ := List.mem_map.1 shown
          exact List.mem_map_of_mem (arranged member)
      | short =>
          obtain ⟨k, member, rfl⟩ := List.mem_map.1 shown
          exact List.mem_map_of_mem (arranged member)

/-- What is found in a part: in a command with header fields, or in the sections of a region. -/
def Part.collect (called : String → List Field → List α) (shown : SectionStyle → Block → List α)
    (look : Look) : Part → List α
  | .code _ => []
  | .call name arguments => called name arguments
  | .space _ => []
  | .region r => (r.blocks look).flatMap (shown r.style)

/-- The control sequences between the sections of a document. -/
def bodyControls : List Token :=
  word "vspace" :: layoutControls

/-- What a reader finds in the parts of a document, in terms of what it finds in each kind of them. -/
structure Survey (f : Scanner α) (key : TemplateKey) (r : Resume) (look : Look)
    (called : String → List Field → List α) (shown : SectionStyle → Block → List α) : Prop where
  ignores : f.ignores bodyControls = true
  calls : ∀ name arguments, Part.call name arguments ∈ (Design.ofKey key).parts →
    f.Finds (tokens (Part.chars r look (.call name arguments))) (called name arguments)
  blocks : ∀ (style : SectionStyle) (b : Block), (∀ title, b = .summary title → Ink title) →
    f.Finds (tokens (b.compose (r.manuscript look) style).render) (shown style b)

variable {key : TemplateKey} {r : Resume} {look : Look} {called : String → List Field → List α}
  {shown : SectionStyle → Block → List α}

theorem Survey.part (h : Survey f key r look called shown) {p : Part}
    (member : p ∈ (Design.ofKey key).parts) (sound : p.isSound = true) :
    f.Finds (tokens (p.chars r look)) (p.collect called shown look) := by
  have space : f.ignores [word "vspace"] = true := Scanner.ignores_mono h.ignores (by decide)
  have layout : f.ignores layoutControls = true :=
    Scanner.ignores_mono h.ignores (List.subset_cons_self _ _)
  cases p with
  | code s =>
      have checked : Code layoutControls .loose (marks (braced s)) (braced s) := .of_check sound
      rw [chars_code]
      exact Scanner.finds_listed layout checked.listed
  | call name arguments => exact h.calls name arguments member
  | space gap =>
      have flow := Part.flow r look (p := .space gap) sound (by simp)
      exact Scanner.finds_flow flow space
  | region region =>
      rw [chars_region]
      refine finds_joinVisible (Ink.mediumLength look.spacing) space ?_ ?_
      · intro b member
        exact (b.flow r look region.style (ink_title sound member)).inert.ends
      · intro b member
        exact h.blocks region.style b (ink_title sound member)

/-- The tokens of the preamble of a document: what stands before the beginning of the body. -/
def readFront (s : List Char) : Option (List Token) :=
  (before? beginDocument s).map tokens

/-- The tokens of the body of a document: what follows the beginning of the body. -/
def readBody (s : List Char) : Option (List Token) :=
  (Text.after? beginDocument s).map tokens

/-- The beginning of a body is found where it stands. -/
theorem search_beginDocument (rest : List Char) :
    before? beginDocument (beginDocument ++ rest) = some [] ∧
      Text.after? beginDocument (beginDocument ++ rest) = some rest := by
  have begins : beginDocument = '\\' :: beginDocument.tail := by decide
  have isPrefix : beginDocument.isPrefixOf (beginDocument ++ rest) = true := by
    rw [List.isPrefixOf_iff_prefix]
    exact List.prefix_append _ _
  have shape : beginDocument ++ rest = '\\' :: (beginDocument.tail ++ rest) := by
    rw [← List.cons_append, ← begins]
  constructor
  · rw [shape, before?, ← shape, isPrefix, if_pos rfl]
  · rw [shape, Text.after?, ← shape, isPrefix, if_pos rfl, List.drop_left]

section

variable {front : List Char}

/-- A preamble holds no beginning of a body. -/
theorem front_apart (sober : Sober ('[' :: front)) :
    Apart beginDocument (classCommand ++ '[' :: front) ∧
      occurrences beginDocument (classCommand ++ '[' :: front) = 0 := by
  have landmark : beginDocument ∈ landmarks := by decide
  have class_apart : Apart beginDocument classCommand := .of_check (by decide)
  have class_none : occurrences beginDocument classCommand = 0 := by decide
  refine ⟨class_apart.append (sober.settled _ landmark), ?_⟩
  rw [class_apart, class_none, sober.unmarked _ landmark]

theorem documentText_eq (front body : List Char) :
    documentText front body = (classCommand ++ '[' :: front) ++
      (beginDocument ++ '\n' :: (body ++ '\n' :: (endDocument ++ ['\n']))) := by
  simp only [documentText, List.append_assoc, List.cons_append, List.nil_append]

/-- The preamble of a document is found before the beginning of its body. -/
theorem before_documentText (sober : Sober ('[' :: front)) (body : List Char) :
    before? beginDocument (documentText front body) = some (classCommand ++ '[' :: front) := by
  obtain ⟨apart, none⟩ := front_apart sober
  rw [documentText_eq, before?_of_apart apart none, (search_beginDocument _).1, Option.map_some,
    List.append_nil]

/-- The body of a document is found behind its preamble, and not before. -/
theorem after_documentText (sober : Sober ('[' :: front)) (body : List Char) :
    Text.after? beginDocument (documentText front body) =
      some ('\n' :: (body ++ ('\n' :: (endDocument ++ ['\n'])))) := by
  obtain ⟨apart, none⟩ := front_apart sober
  rw [documentText_eq, after?_of_apart apart none, (search_beginDocument _).2]

end

/-- The body of a document is read part by part. -/
theorem readBody_chars (key : TemplateKey) (r : Resume) (look : Look) :
    readBody ((Design.ofKey key).chars (r.manuscript look)) =
      some (.char '\n' :: ((Design.ofKey key).parts.flatMap (fun p => tokens (p.chars r look)) ++
        tokens ('\n' :: (endDocument ++ ['\n'])))) := by
  obtain ⟨front, sober, shape⟩ := chars_document key look
  have sound := Design.sound key
  simp only [Design.isSound, Bool.and_eq_true] at sound
  obtain ⟨⟨parts, joints⟩, -⟩ := sound
  obtain ⟨calm, -, -, read⟩ := tokens_parts r look parts joints
  have begins : ∀ s : List Char, tokens ('\n' :: s) = .char '\n' :: tokens s := fun _ => rfl
  rw [shape r, readBody, after_documentText sober, Option.map_some, begins, Design.bodyText,
    tokens_append_detached calm.ends (by decide), read]

/-- What a reader finds in the body of a document is what it finds in the parts of the design. -/
theorem Survey.body (h : Survey f key r look called shown) :
    (readBody ((Design.ofKey key).chars (r.manuscript look))).map f.scan =
      some ((Design.ofKey key).parts.flatMap (Part.collect called shown look)) := by
  have layout : f.ignores layoutControls = true :=
    Scanner.ignores_mono h.ignores (List.subset_cons_self _ _)
  have first : f.Finds [.char '\n'] [] := Scanner.finds_listed layout (by decide)
  have last : f.Finds (tokens ('\n' :: (endDocument ++ ['\n']))) [] :=
    Scanner.finds_listed layout (by decide)
  have inside : f.Finds ((Design.ofKey key).parts.flatMap fun p => tokens (p.chars r look))
      ((Design.ofKey key).parts.flatMap (Part.collect called shown look)) :=
    .flatMap fun p member => h.part member (part_sound member)
  have whole := first.append (inside.append last)
  rw [readBody_chars, Option.map_some]
  exact congrArg some (whole.scan_eq.trans (by rw [List.nil_append, List.append_nil]))

end Vitae.Template
