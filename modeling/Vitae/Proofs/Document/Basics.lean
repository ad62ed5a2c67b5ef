/-
Module: Vitae.Proofs.Document.Basics
Layer: Proofs
Purpose: Basic information read back from a document. Designs show contact items and links in a line or in
  blocks of lines, and what is read there is the same for all of them: every item once, in order, and none
  empty.
Imports: Vitae.Proofs.Document.Column, Vitae.Proofs.Document.Entries, Vitae.Proofs.Typeset.Contact
Main exports: Basics, Basics.read, Basics.items, Resume.basics, basics_render
-/
import Vitae.Proofs.Document.Column
import Vitae.Proofs.Document.Entries
import Vitae.Proofs.Typeset.Contact

namespace Vitae

open Tex Text

/-! ### Reading basic information -/

/-- Basic information as a document shows it: the items of every line and of every block that is found. A line
that breaks off has none. -/
structure Basics where
  lines : List (Option (List (List Char)))
  contact : List (List (List Char))
  links : List (List (List Char))
deriving Repr, DecidableEq

/-- All items that a document shows, in their order. -/
def Basics.items (b : Basics) : List (List Char) :=
  b.lines.flatMap (fun line => line.getD []) ++ b.contact.flatten ++ b.links.flatten

/-- The items of a line that is the last argument of a command. -/
def readLine (arguments : List (List Token)) : Option (List (List Char)) :=
  arguments.getLast?.map fun line => itemsOf " \\textbullet\x7b\x7d ".toList (sourceOf line)

/-- The items of a block that stands under its heading on lines of its own. -/
def readBlock (content : List Token) : List (List Char) :=
  itemsOf " \\\\\n".toList (sourceOf content.tail.dropLast)

/-- The command that a design shows a line of items with, and the number of its arguments. -/
def lineCommand? : TemplateKey → Option (String × Nat)
  | .classic => some ("contact", 1)
  | .creative => some ("header", 3)
  | .professional => some ("contact", 1)
  | .twoColumn => some ("header", 3)
  | .modern => none
  | .minimalist => none

/-- The environment of the column in which a design shows blocks of items. -/
def columnName? : TemplateKey → Option String
  | .modern => some "minipage"
  | .minimalist => some "leftcolumn"
  | .twoColumn => some "rightcolumn"
  | .classic => none
  | .creative => none
  | .professional => none

/-- Read the lines of items in the body of a document. -/
def readLines (key : TemplateKey) (ts : List Token) : List (Option (List (List Char))) :=
  match lineCommand? key with
  | some (name, arity) => readCalls name arity readLine ts
  | none => []

/-- Read the blocks of items under a heading in the body of a document. -/
def readBlocks (key : TemplateKey) (title : String) (ts : List Token) : List (List (List Char)) :=
  match columnName? key with
  | some name => (contentsUnder title.toList (Template.column name ts)).map readBlock
  | none => []

/-- Read the basic information in the body of a document. -/
def Basics.read (key : TemplateKey) (ts : List Token) : Basics where
  lines := readLines key ts
  contact := readBlocks key "Contact" ts
  links := readBlocks key "Links" ts

/-! ### What is to be read -/

/-- The blocks of some items: one, or none where there are no items. -/
def blocksOf (items : List Source) : List (List (List Char)) :=
  if items.isEmpty then [] else [items.map Source.render]

theorem flatten_blocksOf (items : List Source) : (blocksOf items).flatten = items.map Source.render := by
  cases items with
  | nil => rfl
  | cons p rest => exact List.flatten_singleton

/-- The basic information that the document of a resume is to show in a design. -/
def Resume.basics (r : Resume) (key : TemplateKey) : Basics where
  lines :=
    if key ∈ [.classic, .creative, .professional] then
      [some ((contactItems r ++ linkItems r.links).map Source.render)]
    else if key = .twoColumn then [some ((contactItems r).map Source.render)]
    else []
  contact := if key ∈ [.modern, .minimalist] then blocksOf (contactItems r) else []
  links := if key ∈ [.modern, .minimalist, .twoColumn] then blocksOf (linkItems r.links) else []

/-- Every design is to show the contact items and then the links. -/
theorem items_basics (r : Resume) (key : TemplateKey) :
    (r.basics key).items = (contactItems r ++ linkItems r.links).map Source.render := by
  cases key <;> simp [Resume.basics, Basics.items, flatten_blocksOf]

/-! ### Items read back -/

/-- Items that are kept apart by separators. -/
structure AreItems (items : List Source) : Prop where
  flows : ∀ p ∈ items, Flow [] .tight p
  visible : ∀ p ∈ items, p.isBlank = false
  absent : ∀ pattern ∈ separatorTails, ∀ p ∈ items, Absent pattern p.render

namespace AreItems

theorem contact (r : Resume) : AreItems (contactItems r) :=
  ⟨flow_contactItems r, isBlank_contactItems r, fun _ listed => absent_contactItems listed r⟩

theorem links (links : List Link) : AreItems (linkItems links) :=
  ⟨flow_linkItems links, isBlank_linkItems links, fun _ listed => absent_linkItems listed links⟩

theorem append {items others : List Source} (h : AreItems items) (h' : AreItems others) :
    AreItems (items ++ others) := by
  constructor
  · exact List.forall_mem_append.2 ⟨h.flows, h'.flows⟩
  · exact List.forall_mem_append.2 ⟨h.visible, h'.visible⟩
  · intro pattern listed
    exact List.forall_mem_append.2 ⟨h.absent pattern listed, h'.absent pattern listed⟩

variable {items : List Source}

/-- A line of items is read back. -/
theorem readLine_eq (h : AreItems items) (front : List Source) :
    readLine ((front ++ [contactLine items]).map fun a => tokens a.render) =
      some (items.map Source.render) := by
  have flow : Flow [word "textbullet"] .tight (contactLine items) :=
    flow_contactLine List.mem_cons_self fun p member => (h.flows p member).mono (List.nil_subset _)
  have source : sourceOf (tokens (contactLine items).render) = (contactLine items).render :=
    source_tokens flow.toLoose.inert.ends
  have read := itemsOf_contactLine h.visible (h.absent _ List.mem_cons_self)
  rw [readLine, List.map_append, List.map_singleton, List.getLast?_concat, Option.map_some, source, read]

/-- A block of items is read back. -/
theorem readBlock_eq (h : AreItems items) :
    readBlock (.char '\n' :: (tokens (Source.render (join lineBreak items)) ++ [.char '\n'])) =
      items.map Source.render := by
  have between : Flow [breakSymbol] .tight lineBreak := .literal (by decide)
  have flow : Flow [breakSymbol] .tight (join lineBreak items) :=
    .join between fun p member => (h.flows p member).mono (List.nil_subset _)
  have source : sourceOf (tokens (Source.render (join lineBreak items))) = Source.render (join lineBreak items) :=
    source_tokens flow.toLoose.inert.ends
  have read := itemsOf_lines h.visible (h.absent _ (List.mem_cons_of_mem _ List.mem_cons_self))
  rw [readBlock, List.tail_cons, List.dropLast_concat, source, read]

end AreItems

end Vitae

namespace Vitae.Template

open Tex Text

/-- The items of a section that is a block of lines. -/
def lineItems (r : Resume) : Block → List Source
  | .contact => contactItems r
  | .links => linkItems r.links
  | _ => []

/-- What stands under the heading of a block of lines is read back. -/
theorem readBlock_underHeading (r : Resume) (look : Look) (style : SectionStyle) {b : Block}
    (lines : b ∈ lineBlocks) : (underHeading r look style b).map readBlock = blocksOf (lineItems r b) := by
  have section_eq : ∀ items, AreItems items → b.body (r.manuscript look) style = join lineBreak items →
      r.hasContent b = !items.isEmpty → (underHeading r look style b).map readBlock = blocksOf items := by
    intro items h body shown
    rw [underHeading, blocksOf, body, shown]
    cases items.isEmpty with
    | true => rfl
    | false =>
        rw [Bool.not_false, if_pos rfl, if_neg Bool.false_ne_true, List.map_singleton, h.readBlock_eq]
  simp only [lineBlocks, List.mem_cons, List.not_mem_nil, or_false] at lines
  rcases lines with rfl | rfl
  · have shown : r.hasContent .contact = !(contactItems r).isEmpty := by
      rw [isEmpty_contactItems, Bool.not_not]
      rfl
    exact section_eq _ (.contact r) rfl shown
  · have shown : r.hasContent .links = !(linkItems r.links).isEmpty := by
      rw [isEmpty_linkItems, Bool.not_not]
      rfl
    exact section_eq _ (.links r.links) rfl shown

variable {key : TemplateKey} (r : Resume) (look : Look)

/-- The line of items that is the last argument of a command is read back from its document. -/
theorem readCalls_line {name : String} (front : List Field) (field : Field) (known : name ∈ headerCommands)
    (once : (Design.ofKey key).parts.countP (Part.isCall name) = 1)
    (begins : (Design.ofKey key).parts.all (Part.beginsWith name (front ++ [field])) = true)
    {items : List Source} (h : AreItems items)
    (line : field.source (r.manuscript look).content = contactLine items) :
    (readBody ((Design.ofKey key).chars (r.manuscript look))).map (readCalls name (front.length + 1) readLine) =
      some [some (items.map Source.render)] := by
  have found := scan_call key r look known (by simp) once begins
  have arity : (front ++ [field]).length = front.length + 1 := by simp
  rw [arity] at found
  cases body : readBody ((Design.ofKey key).chars (r.manuscript look)) with
  | none => simp [body] at found
  | some ts =>
      rw [body, Option.map_some, Option.some.injEq] at found
      have read := h.readLine_eq (front.map (Field.source (r.manuscript look).content))
      rw [Option.map_some, readCalls, found, List.map_singleton, Option.bind_some, ← read, ← line]
      simp [Function.comp_def]

/-- The lines of items are read back from a document. -/
theorem readLines_body (key : TemplateKey) :
    (readBody ((Design.ofKey key).chars (r.manuscript look))).map (readLines key) = some (r.basics key).lines := by
  have full := (AreItems.contact r).append (.links r.links)
  have none : lineCommand? key = none → (r.basics key).lines = [] →
      (readBody ((Design.ofKey key).chars (r.manuscript look))).map (readLines key) = some (r.basics key).lines := by
    intro command lines
    rw [readBody_chars, Option.map_some, readLines, command, lines]
  cases key with
  | classic => exact readCalls_line r look [] .fullContactLine (by decide) rfl rfl full rfl
  | modern => exact none rfl rfl
  | creative => exact readCalls_line r look [.name, .title] .fullContactLine (by decide) rfl rfl full rfl
  | professional => exact readCalls_line r look [] .fullContactLine (by decide) rfl rfl full rfl
  | minimalist => exact none rfl rfl
  | twoColumn => exact readCalls_line r look [.name, .title] .contactLine (by decide) rfl rfl (.contact r) rfl

/-- The blocks of items in a column are read back from a document. -/
theorem readBlocks_column (n : NarrowColumn (Design.ofKey key)) (named : columnName? key = some n.environment)
    {b : Block} (lines : b ∈ lineBlocks) :
    (readBody ((Design.ofKey key).chars (r.manuscript look))).map (readBlocks key b.title) =
      some (n.region.slots.flatMap fun slot => if slot = .block b then blocksOf (lineItems r b) else []) := by
  have column := n.column_eq r look
  cases body : readBody ((Design.ofKey key).chars (r.manuscript look)) with
  | none => simp [body] at column
  | some ts =>
      rw [body, Option.map_some, Option.some.injEq] at column
      rw [Option.map_some, readBlocks, named]
      dsimp only
      rw [column, n.contents_inside r look lines, List.map_flatMap]
      congr 2
      funext slot
      split
      · exact readBlock_underHeading r look n.region.style lines
      · rfl

/-- The blocks of items are read back from a document. -/
theorem readBlocks_body (key : TemplateKey) :
    (readBody ((Design.ofKey key).chars (r.manuscript look))).map (readBlocks key "Contact") =
        some (r.basics key).contact ∧
      (readBody ((Design.ofKey key).chars (r.manuscript look))).map (readBlocks key "Links") =
        some (r.basics key).links := by
  have none : columnName? key = none → ∀ title,
      (readBody ((Design.ofKey key).chars (r.manuscript look))).map (readBlocks key title) = some [] := by
    intro column title
    rw [readBody_chars, Option.map_some, readBlocks, column]
  have contact : Block.contact ∈ lineBlocks := List.mem_cons_self
  have links : Block.links ∈ lineBlocks := List.mem_cons_of_mem _ List.mem_cons_self
  cases key with
  | classic => exact ⟨none rfl "Contact", none rfl "Links"⟩
  | creative => exact ⟨none rfl "Contact", none rfl "Links"⟩
  | professional => exact ⟨none rfl "Contact", none rfl "Links"⟩
  | modern =>
      have both := fun b => @readBlocks_column _ r look modernColumn rfl b
      refine ⟨(both .contact contact).trans ?_, (both .links links).trans ?_⟩
      · simp [modernColumn, Resume.basics, lineItems]
      · simp [modernColumn, Resume.basics, lineItems]
  | minimalist =>
      have both := fun b => @readBlocks_column _ r look minimalistColumn rfl b
      refine ⟨(both .contact contact).trans ?_, (both .links links).trans ?_⟩
      · simp [minimalistColumn, Resume.basics, lineItems]
      · simp [minimalistColumn, Resume.basics, lineItems]
  | twoColumn =>
      have both := fun b => @readBlocks_column _ r look twoColumnColumn rfl b
      refine ⟨(both .contact contact).trans ?_, (both .links links).trans ?_⟩
      · simp [twoColumnColumn, Resume.basics]
      · simp [twoColumnColumn, Resume.basics, lineItems]

/-- Whatever is typed into a resume, and whatever look and order are chosen, what its document shows of basic
information in a line or in blocks is split into the contact items and the links again: each once, in order,
and none empty. A block without items is left out with its heading. -/
theorem basics_render (key : TemplateKey) (r : Resume) (o : StyleOptions) :
    (readBody ((Design.ofKey key).render (Manuscript.ofResume r o).value).toList).map (Basics.read key) =
        some (r.basics key) ∧
      (r.basics key).items = (contactItems r ++ linkItems r.links).map Source.render ∧
      ∀ item ∈ (r.basics key).items, item ≠ [] := by
  refine ⟨?_, items_basics r key, ?_⟩
  · rw [value_ofResume, Design.render, String.toList_ofList]
    have lines := readLines_body r (Look.ofOptions o).value key
    obtain ⟨contact, links⟩ := readBlocks_body r (Look.ofOptions o).value key
    cases body : readBody ((Design.ofKey key).chars (r.manuscript (Look.ofOptions o).value)) with
    | none => simp [body] at lines
    | some ts =>
        rw [body, Option.map_some, Option.some.injEq] at lines contact links
        rw [Option.map_some, Basics.read, lines, contact, links]
  · have visible := ((AreItems.contact r).append (.links r.links)).visible
    rw [items_basics]
    intro item member none
    obtain ⟨p, among, rfl⟩ := List.mem_map.1 member
    have blank : p.isBlank = true := Source.isBlank_iff.2 none
    rw [visible p among] at blank
    cases blank

end Vitae.Template
