/-
Module: Vitae.Proofs.Document.Placement
Layer: Proofs
Purpose: The order of sections is honoured. A document is put together from the same parts whatever the order
  is, and the order decides only which sections stand in their places, and in which sequence.
Imports: Vitae.Document, Vitae.Proofs.Document.Heading, Vitae.Proofs.Document.Order,
  Vitae.Proofs.Style.Order
Main exports: placed, Design.arranged, HonoursOrder, generate_order
-/
import Vitae.Document
import Vitae.Proofs.Document.Heading
import Vitae.Proofs.Document.Order
import Vitae.Proofs.Style.Order

namespace Vitae

/-! ### Places -/

/-- The sections of a place that hosts some sections: those that are asked for, in the order asked for, or
all that it hosts where none is asked for. -/
def placed (requested hosted : List SectionKey) : List SectionKey :=
  if requested = [] then hosted else requested.filter hosted.contains

theorem requested_eq (o : StyleOptions) : o.requested = resolveOrder (o.sectionOrder.getD []) :=
  (resolveOrder_eq _).symm

/-- A look arranges sections as they are placed by what the options ask for. -/
theorem arrange_eq (o : StyleOptions) (hosted : List SectionKey) :
    (Look.ofOptions o).value.arrange hosted = placed o.requested hosted := by
  have order : (Look.ofOptions o).value.sectionOrder =
      if o.requested = [] then none else some o.requested := by
    change resolveSectionOrder o.sectionOrder = _
    rw [requested_eq]
    unfold resolveSectionOrder
    cases o.sectionOrder with
    | none => rfl
    | some names =>
        rw [Option.map_some, Option.getD_some]
        cases resolveOrder names <;> rfl
  unfold Look.arrange placed
  rw [order]
  by_cases none : o.requested = []
  · rw [if_pos none, if_pos none]
  · rw [if_neg none, if_neg none]

/-- Asking for the same sections in another order moves the sections of a place, and changes none. -/
theorem placed_perm {requested requested' : List SectionKey} (h : requested'.Perm requested)
    (hosted : List SectionKey) : (placed requested' hosted).Perm (placed requested hosted) := by
  unfold placed
  by_cases none : requested = []
  · rw [none] at h
    rw [if_pos none, if_pos (List.perm_nil.1 h)]
  · have some : requested' ≠ [] := by
      rintro rfl
      exact none (List.nil_perm.1 h)
    rw [if_neg none, if_neg some]
    exact h.filter _

end Vitae

namespace Vitae.Template

open Tex

/-- The places of a design host every section, and none twice. -/
theorem hosted_perm (key : TemplateKey) :
    ((Design.ofKey key).slots.flatMap Slot.hostedKeys).Perm SectionKey.all := by
  cases key <;> decide

/-- Every section that is asked for is placed once, and no other. -/
theorem placed_once (key : TemplateKey) (requested : List SectionKey) :
    ((Design.ofKey key).slots.flatMap fun slot => placed requested slot.hostedKeys).Perm
      (if requested = [] then SectionKey.all else requested) := by
  by_cases none : requested = []
  · subst none
    exact hosted_perm key
  · have hosts : ∀ k, (Design.ofKey key).slots.countP (fun slot => slot.hostedKeys.contains k) = 1 := by
      intro k
      cases key <;> cases k <;> decide
    have counted : ∀ (slots : List Slot) (k : SectionKey),
        (slots.flatMap fun slot => requested.filter slot.hostedKeys.contains).count k =
          slots.countP (fun slot => slot.hostedKeys.contains k) * requested.count k := by
      intro slots k
      induction slots with
      | nil => simp
      | cons slot rest ih =>
          have here : (requested.filter slot.hostedKeys.contains).count k =
              if slot.hostedKeys.contains k then requested.count k else 0 := by
            split
            case isTrue hosted => exact List.count_filter hosted
            case isFalse other =>
              refine List.count_eq_zero.2 fun member => other ?_
              exact (List.mem_filter.1 member).2
          rw [List.flatMap_cons, List.count_append, ih, here, List.countP_cons, Nat.add_mul, Nat.add_comm]
          split <;> simp
    unfold placed
    simp only [if_neg none]
    rw [List.perm_iff_count]
    intro k
    rw [counted, hosts, Nat.one_mul]

/-- The block of a section in the form that a place shows. -/
def EducationForm.block : EducationForm → SectionKey → Block
  | .full => Block.ofKey
  | .short => Block.ofKeyShort

/-- The blocks of a slot, where some sections are asked for. -/
def Slot.arranged (requested : List SectionKey) : Slot → List Block
  | .block b => [b]
  | .hosted sections form => (placed requested sections).map form.block

/-- The source of a part, where some sections are asked for. -/
def Part.arranged (m : Manuscript) (requested : List SectionKey) : Part → Source
  | .region r =>
      joinSections m.look.spacing
        ((r.slots.flatMap (Slot.arranged requested)).map (Block.compose m r.style))
  | p => p.source m

/-- The characters of a document, where some sections are asked for. -/
def Design.arranged (d : Design) (m : Manuscript) (requested : List SectionKey) : List Char :=
  d.preambleText m.look ++
    Source.render (code "\\begin{document}\n" ++ d.body.flatMap (Part.arranged m requested)) ++
    Source.render (d.footer.flatMap (Part.arranged m requested) ++ code "\n\\end{document}\n")

theorem blocks_arranged (o : StyleOptions) (slot : Slot) :
    slot.blocks (Look.ofOptions o).value = slot.arranged o.requested := by
  cases slot with
  | block b => rfl
  | hosted sections form =>
      rw [Slot.arranged, ← arrange_eq]
      cases form <;> rfl

/-- The order plays no part inside a section. -/
theorem compose_unordered (r : Resume) (look : Look) (order : Option (List SectionKey)) (style : SectionStyle)
    (b : Block) :
    b.compose (r.manuscript { look with sectionOrder := order }) style = b.compose (r.manuscript look) style := by
  cases b <;> rfl

/-- A part is made of the same blocks whatever the order is. -/
theorem source_arranged (r : Resume) (o : StyleOptions) (p : Part) :
    p.source (Manuscript.ofResume r o).value =
      p.arranged (Manuscript.ofResume r { o with sectionOrder := none }).value o.requested := by
  cases p with
  | code s => rfl
  | call name arguments => rfl
  | space gap => rfl
  | region region =>
      have blocks : region.blocks (Look.ofOptions o).value =
          region.slots.flatMap (Slot.arranged o.requested) :=
        congrArg region.slots.flatMap (funext (blocks_arranged o))
      have compose := compose_unordered r (Look.ofOptions { o with sectionOrder := none }).value
        (Look.ofOptions o).value.sectionOrder region.style
      rw [Part.source, Region.source_eq, Part.arranged, ← blocks]
      exact congrArg (joinSections _) (List.map_congr_left fun b _ => compose b)

/-- A document is arranged from what there is without an order. -/
theorem chars_arranged (key : TemplateKey) (r : Resume) (o : StyleOptions) :
    (Design.ofKey key).chars (Manuscript.ofResume r o).value =
      (Design.ofKey key).arranged (Manuscript.ofResume r { o with sectionOrder := none }).value o.requested := by
  have parts := funext (source_arranged r o)
  rw [Design.chars, Design.bodySource, Design.footerSource, Design.arranged, parts]
  rfl

/-! ### Documents -/

/-- What it means that a document honours the order of its options. -/
structure HonoursOrder (r : Resume) (key : TemplateKey) (o : StyleOptions) : Prop where
  /-- A name asks for the section of which it is a spelling, and any other name for none. -/
  named : ∀ name k, SectionKey.ofName? name = some k ↔ k.IsNamedBy name
  /-- The places of the design host every section, and none twice. -/
  hosted : ((Design.ofKey key).slots.flatMap Slot.hostedKeys).Perm SectionKey.all
  /-- The places hold each section that is asked for once, and no other. -/
  once : ((Design.ofKey key).slots.flatMap fun slot => placed o.requested slot.hostedKeys).Perm
    (if o.requested = [] then SectionKey.all else o.requested)
  /-- Preamble, header, fixed sections and the text of each section are as they are without an order; the
  places hold the sections that are asked for, in the order asked for. -/
  arranged : generate r key o =
    if Text.hasText r.name then
      ⟨(generate r key { o with sectionOrder := none }).events,
        .ok (String.ofList ((Design.ofKey key).arranged
          (Manuscript.ofResume r { o with sectionOrder := none }).value o.requested))⟩
    else ⟨[], .error .missingName⟩
  /-- The headings in the text are those of the placed sections that have content, in their sequence. -/
  shown : (readBody ((Design.ofKey key).render (Manuscript.ofResume r o).value).toList).map headings =
    some (((Design.ofKey key).slots.flatMap (Slot.arranged o.requested)).flatMap fun b =>
      (b.headings r).map some)
  /-- Orders that ask for the same sections in the same sequence make the same document. -/
  same : ∀ order, { o with sectionOrder := order }.requested = o.requested →
    generate r key { o with sectionOrder := order } = generate r key o
  /-- Orders that ask for the same sections make documents of the same blocks, place by place. -/
  moved : ∀ order, { o with sectionOrder := order }.requested.Perm o.requested →
    ∀ slot ∈ (Design.ofKey key).slots,
      (slot.arranged { o with sectionOrder := order }.requested).Perm (slot.arranged o.requested)

/-- A document is made of every resume with a name, and its report comes behind those about the options. -/
theorem generate_named {r : Resume} (named : Text.hasText r.name = true) (key : TemplateKey) (o : StyleOptions) :
    generate r key o =
      ⟨(Look.ofOptions o).events ++ [.generating key (Look.ofOptions o).value.pageSize
          (Look.ofOptions o).value.fontFamily (Look.ofOptions o).value.spacing],
        .ok ((Design.ofKey key).render (Manuscript.ofResume r o).value)⟩ := by
  have events : (Manuscript.ofResume r o).events = (Look.ofOptions o).events := by
    rw [Manuscript.ofResume, Logged.events_bind, Logged.events_pure, List.append_nil]
  rw [generate, if_pos named, ← events]
  rfl

/-- The order is not reported, and is the only thing in a look that depends on it. -/
theorem look_unordered (o : StyleOptions) :
    (Look.ofOptions { o with sectionOrder := none }).events = (Look.ofOptions o).events ∧
      (Look.ofOptions { o with sectionOrder := none }).value =
        { (Look.ofOptions o).value with sectionOrder := none } :=
  ⟨rfl, rfl⟩

theorem generate_arranged (r : Resume) (key : TemplateKey) (o : StyleOptions) :
    generate r key o =
      if Text.hasText r.name then
        ⟨(generate r key { o with sectionOrder := none }).events,
          .ok (String.ofList ((Design.ofKey key).arranged
            (Manuscript.ofResume r { o with sectionOrder := none }).value o.requested))⟩
      else ⟨[], .error .missingName⟩ := by
  cases named : Text.hasText r.name with
  | false =>
      rw [generate, named]
      rfl
  | true =>
      obtain ⟨events, look⟩ := look_unordered o
      rw [generate_named named, generate_named named, events, look, Design.render, chars_arranged]
      rfl

/-- Every document honours the order of its options. -/
theorem generate_order (r : Resume) (key : TemplateKey) (o : StyleOptions) : HonoursOrder r key o where
  named _ _ := SectionKey.ofName?_eq_some_iff
  hosted := hosted_perm key
  once := placed_once key o.requested
  arranged := generate_arranged r key o
  shown := by
    have blocks : (Design.ofKey key).blocks (Look.ofOptions o).value =
        (Design.ofKey key).slots.flatMap (Slot.arranged o.requested) := by
      rw [blocks_eq_slots]
      exact congrArg (Design.ofKey key).slots.flatMap (funext (blocks_arranged o))
    rw [value_ofResume, Design.render, String.toList_ofList, headings_body, blocks]
  same := by
    intro order alike
    rw [generate_arranged r key o, generate_arranged r key { o with sectionOrder := order }, alike]
  moved := by
    intro order permuted slot _
    cases slot with
    | block b => exact .refl _
    | hosted sections form => exact (placed_perm permuted sections).map form.block

/-- Orders that spell the same sections in different ways, or name a section again, make the same document. -/
theorem generate_order_spellings :
    ({ sectionOrder := some [" Experiences", "unknown", "SKILLS", "experience"] } : StyleOptions).requested =
        [.experience, .skills] ∧
      generate { name := "Ann" } .modern { sectionOrder := some ["experience", "skills"] } =
        generate { name := "Ann" } .modern
          { sectionOrder := some [" Experiences", "unknown", "SKILLS", "experience"] } :=
  ⟨by decide,
    (generate_order { name := "Ann" } .modern
      { sectionOrder := some [" Experiences", "unknown", "SKILLS", "experience"] }).same
        (some ["experience", "skills"]) (by decide)⟩

end Vitae.Template
