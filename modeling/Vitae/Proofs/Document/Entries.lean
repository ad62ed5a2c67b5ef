/-
Module: Vitae.Proofs.Document.Entries
Layer: Proofs
Purpose: The entries of a resume read back from its document. Jobs, projects, courses of study and the owner
  are found in the body as they were typed: none is lost, shown twice, moved, or escaped twice.
Imports: Vitae.Proofs.Document.Order, Vitae.Proofs.Section.Listing, Vitae.Proofs.Text.Visible
Main exports: Printed, Printed.read, Resume.printed, EntryCommand, scan_entries, scan_call, read_render
-/
import Vitae.Proofs.Document.Order
import Vitae.Proofs.Section.Listing
import Vitae.Proofs.Text.Visible

namespace Vitae

open Tex Text

/-! ### Reading entries -/

/-- A job as a document shows it. -/
structure PrintedJob where
  role : List Char
  company : List Char
  dates : List Char
  bullets : Listing
deriving Repr, DecidableEq

/-- A project as a document shows it. Its name may be a link. -/
structure PrintedProject where
  target : Option (List Char)
  name : List Char
  technologies : List Char
  description : List Char
deriving Repr, DecidableEq

/-- A course of study as a document shows it. -/
structure PrintedCourse where
  school : List Char
  degree : List Char
  dates : List Char
deriving Repr, DecidableEq

/-- The owner of a resume as a document shows them. -/
structure PrintedOwner where
  name : List Char
  title : List Char
deriving Repr, DecidableEq

/-- Read a job from the arguments of its command. -/
def readJob : List (List Token) → Option PrintedJob
  | [role, company, dates, bullets] =>
      some ⟨unescape role, unescape company, sourceOf dates, readList bullets⟩
  | _ => none

/-- Read a text that may be a link: the target of the link, and the text that is shown. -/
def readShown : List Token → Option (List Char) × List Char
  | [] => (none, [])
  | t :: rest =>
      match if t = hrefWord then readGroups 2 rest else none with
      | some ([target, shown], []) => (some (sourceOf target), unescape shown)
      | _ => (none, unescape (t :: rest))

/-- Read a project from the arguments of its command. -/
def readProject : List (List Token) → Option PrintedProject
  | [name, technologies, description] =>
      some ⟨(readShown name).1, (readShown name).2, unescape technologies, unescape description⟩
  | _ => none

/-- Read a course of study from the arguments of its command. -/
def readCourse : List (List Token) → Option PrintedCourse
  | [school, degree, dates] => some ⟨unescape school, unescape degree, sourceOf dates⟩
  | _ => none

/-- Read the owner from the first arguments of a header. -/
def readOwner : List (List Token) → Option PrintedOwner
  | [name, title] => some ⟨unescape name, unescape title⟩
  | _ => none

/-- What a document shows. An entry is missing where its command breaks off. -/
structure Printed where
  owners : List (Option PrintedOwner)
  jobs : List (Option PrintedJob)
  projects : List (Option PrintedProject)
  courses : List (Option PrintedCourse)
deriving Repr, DecidableEq

/-- Read the calls of a command. -/
def readCalls {γ : Type} (name : String) (arity : Nat) (read : List (List Token) → Option γ)
    (ts : List Token) : List (Option γ) :=
  (calls (word name) arity ts).map fun arguments => arguments.bind read

/-- Read what the body of a document shows. -/
def Printed.read (ts : List Token) : Printed where
  owners := readCalls "header" 2 readOwner ts
  jobs := readCalls "resumeEntry" 4 readJob ts
  projects := readCalls "projectEntry" 3 readProject ts
  courses := readCalls "educationEntry" 3 readCourse ts

/-! ### What is to be read -/

/-- A job as it is to be shown: its texts without the space around them, and its bullets that have text. -/
def Experience.printed (e : Experience) : PrintedJob where
  role := trimChars e.role.toList
  company := trimChars e.company.toList
  dates := (period e.startDate e.endDate).render
  bullets :=
    if e.bullets.filter hasText = [] then .nothing
    else .items ((e.bullets.filter hasText).map fun bullet => trimChars bullet.toList)

/-- A project as it is to be shown. It is a link where it has an address, which stands in for its name where
it has none. -/
def Project.printed (p : Project) : PrintedProject where
  target :=
    if hasText? p.link then some (escapeUrl (hrefTarget (p.link.getD "")).toList) else none
  name :=
    if hasText? p.link && !hasText p.name then trimChars (p.link.getD "").toList
    else trimChars p.name.toList
  technologies := trimChars (p.technologies.getD "").toList
  description := trimChars (p.description.getD "").toList

/-- A course of study as it is to be shown. -/
def Education.printed (e : Education) : PrintedCourse where
  school := trimChars e.school.toList
  degree := trimChars e.degree.toList
  dates := (period e.startDate e.endDate).render

/-- What the document of a resume is to show, in a design and for a look: the entries that say anything, in
their order, of every section that is shown in full. -/
def Resume.printed (r : Resume) (key : TemplateKey) (look : Look) : Printed where
  owners := [some ⟨trimChars r.name.toList, trimChars r.title.toList⟩]
  jobs :=
    if look.shows .experience then
      (r.experiences.filter Experience.isMeaningful).map fun e => some e.printed
    else []
  projects :=
    if look.shows .projects then
      (r.projects.filter Project.isMeaningful).map fun p => some p.printed
    else []
  courses :=
    if look.shows .education && Template.hostsInFull key .education then
      (r.education.filter Education.isMeaningful).map fun e => some e.printed
    else []

/-! ### Arguments read back -/

/-- A job is read back as it is to be shown. -/
theorem readJob_arguments (e : Experience) (s : Spacing) :
    readJob ((e.arguments s).map fun a => tokens a.render) = some e.printed := by
  have dates : sourceOf (tokens (period e.startDate e.endDate).render) =
      (period e.startDate e.endDate).render :=
    source_tokens (@flow_period [] e.startDate e.endDate).toLoose.inert.ends
  have bullets : readList (tokens (bulletList (textItems e.bullets) s).render) = e.printed.bullets :=
    readList_itemize (ink_bulletOptions s) e.bullets
  simp only [Experience.arguments, List.map_cons, List.map_nil, readJob, dates, bullets,
    unescape_text]
  rfl

theorem readCourse_arguments (e : Education) :
    readCourse (e.arguments.map fun a => tokens a.render) = some e.printed := by
  have dates : sourceOf (tokens (period e.startDate e.endDate).render) =
      (period e.startDate e.endDate).render :=
    source_tokens (@flow_period [] e.startDate e.endDate).toLoose.inert.ends
  simp only [Education.arguments, List.map_cons, List.map_nil, readCourse, dates, unescape_text]
  rfl

/-- Text that is no link is read back as such. -/
theorem readShown_text (raw : String) :
    readShown (tokens (text raw).render) = (none, trimChars raw.toList) := by
  rw [← unescape_text raw]
  have absent : hrefWord ∉ tokens (text raw).render := by
    rw [render_text, tokens_escape]
    intro member
    obtain ⟨c, -, read⟩ := List.mem_flatMap.1 member
    exact absurd (isEscape_of_escapeChar read rfl) (by decide)
  cases read : tokens (text raw).render with
  | nil => rfl
  | cons t rest =>
      have other : t ≠ hrefWord := by
        rintro rfl
        simp [read] at absent
      rw [readShown, if_neg other]

/-- A link is read back with its target and what it shows. -/
theorem readShown_linkTo (address shown : String) :
    readShown (tokens (linkTo address (text shown)).render) =
      (some (escapeUrl (hrefTarget address).toList), trimChars shown.toList) := by
  have isTarget : ∀ p ∈ [Piece.url (hrefTarget address)], p.IsTarget := by simp [Piece.IsTarget]
  have flow : Flow [] .tight (text shown) := .ofText shown
  have inert := (tokens_targets isTarget).1
  have groups : ∀ ts ∈ [tokens (Source.render [.url (hrefTarget address)]), tokens (text shown).render],
      Balanced ts := by
    intro ts member
    simp only [List.mem_cons, List.not_mem_nil, or_false] at member
    rcases member with here | here <;> rw [here]
    · exact inert.balanced
    · exact flow.inert.balanced
  have target : sourceOf (tokens (Source.render [.url (hrefTarget address)])) =
      escapeUrl (hrefTarget address).toList := by
    rw [sourceOf, source_tokens inert.ends.loosen]
    simp [Piece.render]
  have read := readGroups_groupTokens groups 2 (by simp) []
  rw [List.append_nil] at read
  rw [linkTo, Flow.tokens_link isTarget flow.loosen, readShown, if_pos rfl, read]
  simp only [List.take_succ_cons, List.take_zero, List.drop_succ_cons, List.drop_zero, groupTokens,
    List.flatMap_nil, List.append_nil, target, unescape_text]

/-- The name of a project is read back with its address. -/
theorem readShown_heading (p : Project) :
    readShown (tokens p.heading.render) = (p.printed.target, p.printed.name) := by
  have plain : p.link.bind visible? = none → hasText? p.link = false → readShown (tokens p.heading.render) =
      (p.printed.target, p.printed.name) := by
    intro none blank
    rw [Project.heading, none]
    simp [Project.printed, blank, readShown_text]
  cases address : p.link with
  | none => exact plain (by rw [address]; rfl) (by rw [address]; rfl)
  | some link =>
      have visible : hasText? p.link = hasText link := by rw [address]; rfl
      cases some : hasText link with
      | false =>
          refine plain ?_ (visible.trans some)
          rw [address, Option.bind_some, visible?, some]
          rfl
      | true =>
          have target : hrefTarget (trim link) = hrefTarget link := by
            simp [hrefTarget, trim, trimChars_trimChars]
          have shown : p.link.bind visible? = .some (trim link) := by
            rw [address, Option.bind_some, visible?, some]
            rfl
          have name : trimChars (if hasText p.name then p.name else trim link).toList =
              p.printed.name := by
            rw [Project.printed, visible, some, address]
            cases hasText p.name <;> simp [trim, trimChars_trimChars]
          have leads : p.printed.target = .some (escapeUrl (hrefTarget link).toList) := by
            rw [Project.printed, visible, some, address]
            rfl
          rw [Project.heading, shown]
          simp only [readShown_linkTo, target, name, leads]

theorem readProject_arguments (p : Project) :
    readProject (p.arguments.map fun a => tokens a.render) = some p.printed := by
  simp only [Project.arguments, List.map_cons, List.map_nil, readProject, unescape_text,
    readShown_heading]
  rfl

/-! ### Calls -/

/-- A command is found with what its arguments are put together from. -/
theorem finds_command {controls : List Token} {name : String} {arity : Nat} {arguments : List Source}
    (checked : isCommand (word name) name = true)
    (written : tokens ("\\" ++ name).toList = [word name])
    (foreign : isForeign controls (word name) = true) (enough : arity ≤ arguments.length)
    (called : arguments ≠ []) (flows : ∀ a ∈ arguments, Flow controls .tight a) :
    (callScanner (word name) arity).Finds (tokens (command name arguments).render)
      [some ((arguments.take arity).map fun a => tokens a.render)] := by
  have balanced : ∀ ts ∈ arguments.map fun a => tokens a.render, Balanced ts := by
    intro ts member
    obtain ⟨a, among, rfl⟩ := List.mem_map.1 member
    exact (flows a among).inert.balanced
  have silent : ∀ ts ∈ arguments.map fun a => tokens a.render, word name ∉ ts := by
    intro ts member
    obtain ⟨a, among, rfl⟩ := List.mem_map.1 member
    exact (flows a among).not_mem foreign
  have found : (callScanner (word name) arity).Finds
      (word name :: groupTokens (arguments.map fun a => tokens a.render))
      [some ((arguments.map fun a => tokens a.render).take arity)] :=
    finds_call rfl balanced silent (by simpa using enough)
  rw [tokens_command checked written called fun a member => (flows a member).toLoose, List.map_take]
  exact found

/-- A command for the entries of a section: source that holds only the given control sequences, the parts of a
document between its sections and the other sections do not call it. -/
structure EntryCommand (k : SectionKey) (name : String) (controls : List Token) : Prop where
  checked : isCommand (word name) name = true
  written : tokens ("\\" ++ name).toList = [word name]
  foreign : isForeign controls (word name) = true
  framed : isForeign (word "vspace" :: frameControls) (word name) = true
  body : isForeign (["header", "contact", "textbullet"].map word ++ Template.bodyControls) (word name) = true
  others : ∀ b ∈ Block.kinds, b ≠ Block.ofKey k → isForeign b.allControls (word name) = true

/-- No other section calls the command, whatever the title of the summary is. -/
theorem EntryCommand.elsewhere {k : SectionKey} {name : String} {controls : List Token}
    (entry : EntryCommand k name controls) :
    ∀ b, b ≠ Block.ofKey k → isForeign b.allControls (word name) = true := by
  refine Block.forall_of_kinds ?_ entry.others
  intro title untitled _
  exact untitled (by cases k <;> nofun)

/-- The calls of the entries of a section, with vertical space between them, are found in their order. -/
theorem finds_entries {β : Type} {k : SectionKey} {name title : String} {controls : List Token} {arity : Nat}
    {style : SectionStyle} {s : Spacing} {xs : List β} {arguments : β → List Source}
    (entry : EntryCommand k name controls) (ink : Ink title)
    (length : ∀ x, (arguments x).length = arity) (positive : 0 < arity)
    (flows : ∀ x, ∀ a ∈ arguments x, Flow controls .tight a) :
    (callScanner (word name) arity).Finds
      (tokens (style.wrap title
        (join (entryGap s) (xs.map fun x => command name (arguments x)))).render)
      (xs.map fun x => some ((arguments x).map fun a => tokens a.render)) := by
  have reader := ignores_callScanner arity entry.framed
  have called : ∀ x, arguments x ≠ [] :=
    fun x => List.length_pos_iff.1 (Nat.lt_of_lt_of_eq positive (length x).symm)
  have one : ∀ x ∈ xs, (callScanner (word name) arity).Finds
      (tokens (command name (arguments x)).render)
      [some ((arguments x).map fun a => tokens a.render)] := by
    intro x _
    have found := finds_command entry.checked entry.written entry.foreign (Nat.le_of_eq (length x).symm) (called x)
      (flows x)
    rwa [← length x, List.take_length, length x] at found
  have ends : ∀ x ∈ xs, Ends .loose (command name (arguments x)).render :=
    fun x _ => ends_command entry.checked (called x) (flows x)
  have inside := finds_joinGap (Ink.smallLength s)
    (Scanner.ignores_mono reader (by simp)) ends one
  rw [← List.map_eq_flatMap] at inside
  refine finds_wrap (Scanner.ignores_mono reader (List.subset_cons_self _ _)) ink ?_ inside
  refine ends_joinGap (Ink.smallLength s) ?_
  intro p member
  obtain ⟨x, among, rfl⟩ := List.mem_map.1 member
  exact ends x among

end Vitae

namespace Vitae.Template

open Tex

/-! ### Documents -/

variable {α : Type} {f : Scanner α} {key : TemplateKey} {r : Resume} {look : Look}

/-- What is found at some places of a list is found once for each of them. -/
theorem flatMap_replicate {β : Type} (p : β → Bool) (found : List α) (xs : List β) :
    (xs.flatMap fun x => if p x then found else []) = (List.replicate (xs.countP p) found).flatten := by
  induction xs with
  | nil => rfl
  | cons x rest ih =>
      rw [List.flatMap_cons, ih, List.countP_cons]
      cases p x with
      | true => simp [List.replicate_succ]
      | false => simp

/-- A reader that looks for the commands of one section finds what this section shows it, once, if the
section is shown. -/
theorem scan_section {k : SectionKey} {found : List α} (ordered : look.IsOrdered)
    (ignores : f.ignores (["header", "contact", "textbullet"].map word ++ bodyControls) = true)
    (others : ∀ b, b ≠ Block.ofKey k → f.ignores b.allControls = true)
    (own : ∀ style,
      f.Finds (tokens ((Block.ofKey k).compose (r.manuscript look) style).render) found) :
    (readBody ((Design.ofKey key).chars (r.manuscript look))).map f.scan =
      some (if look.shows k && hostsInFull key k then found else []) := by
  have survey : Survey f key r look (fun _ _ => []) fun _ b => if b = Block.ofKey k then found else [] := by
    refine ⟨Scanner.ignores_mono ignores (List.subset_append_right _ _), ?_, ?_⟩
    · intro name arguments member
      have sound := part_sound member
      have flow := Part.flow r look (p := .call name arguments) sound (by simp)
      refine Scanner.finds_flow flow (Scanner.ignores_mono ignores ?_)
      rcases call_known sound with rfl | rfl <;> simp [Part.controls]
    · intro style b title
      split
      case isTrue same =>
        rw [same]
        exact own style
      case isFalse other => exact Scanner.finds_flow (b.flow r look style title) (others b other)
  have parts : ∀ p : Part, p.collect (fun _ _ => [])
      (fun _ b => if b = Block.ofKey k then found else []) look =
        (p.blocks look).flatMap fun b => if b = Block.ofKey k then found else [] := by
    intro p
    cases p <;> rfl
  have counted := flatMap_replicate (· == Block.ofKey k) found ((Design.ofKey key).blocks look)
  simp only [beq_iff_eq] at counted
  have whole : (Design.ofKey key).parts.flatMap (Part.blocks look) =
      (Design.ofKey key).blocks look := rfl
  rw [survey.body, funext parts, ← List.flatMap_assoc, whole, counted, ← List.count, count_blocks ordered]
  split <;> simp

/-- A section that shows its entries as calls of their command is found in the document with the arguments of each
call, once and in order, if the section is shown in full. -/
theorem scan_entries {β : Type} {k : SectionKey} {name title : String} {controls : List Token} {arity : Nat}
    {xs : List β} {arguments : β → List Source} (ordered : look.IsOrdered)
    (entry : EntryCommand k name controls) (ink : Ink title)
    (length : ∀ x, (arguments x).length = arity) (positive : 0 < arity)
    (flows : ∀ x, ∀ a ∈ arguments x, Flow controls .tight a)
    (composed : ∀ style : SectionStyle, (Block.ofKey k).compose (r.manuscript look) style =
      style.wrap title (join (entryGap look.spacing) (xs.map fun x => command name (arguments x)))) :
    (readBody ((Design.ofKey key).chars (r.manuscript look))).map (calls (word name) arity) =
      some (if look.shows k && hostsInFull key k then
        xs.map fun x => some ((arguments x).map fun a => tokens a.render)
      else []) := by
  refine scan_section (f := callScanner (word name) arity) ordered (ignores_callScanner arity entry.body)
    (fun b other => ignores_callScanner arity (entry.elsewhere b other)) ?_
  intro style
  rw [composed style]
  exact finds_entries entry ink length positive flows

/-- The jobs of a document. -/
theorem scan_experiences (key : TemplateKey) (r : Resume) (ordered : look.IsOrdered) :
    (readBody ((Design.ofKey key).chars (r.manuscript look))).map (calls (word "resumeEntry") 4) =
      some (if look.shows .experience && hostsInFull key .experience then
        (r.experiences.filter Experience.isMeaningful).map fun e =>
          some ((e.arguments look.spacing).map fun a => tokens a.render)
      else []) := by
  have entry : EntryCommand .experience "resumeEntry" listControls := by
    constructor <;> decide
  refine scan_entries ordered entry (by decide : Ink "Experience") (fun _ => rfl) (by decide)
    (fun e => e.flow_arguments look.spacing (List.Subset.refl _)) ?_
  intro style
  rw [Block.ofKey, Block.compose, calls_experiences]
  rfl

/-- The projects of a document. -/
theorem scan_projects (key : TemplateKey) (r : Resume) (ordered : look.IsOrdered) :
    (readBody ((Design.ofKey key).chars (r.manuscript look))).map (calls (word "projectEntry") 3) =
      some (if look.shows .projects && hostsInFull key .projects then
        (r.projects.filter Project.isMeaningful).map fun p =>
          some (p.arguments.map fun a => tokens a.render)
      else []) := by
  have entry : EntryCommand .projects "projectEntry" [] := by
    constructor <;> decide
  refine scan_entries ordered entry (by decide : Ink "Projects") (fun _ => rfl) (by decide)
    (fun p => p.flow_arguments) ?_
  intro style
  rw [Block.ofKey, Block.compose, calls_projects]
  rfl

/-- The courses of study of a document, which are shown in full in some designs only. -/
theorem scan_education (key : TemplateKey) (r : Resume) (ordered : look.IsOrdered) :
    (readBody ((Design.ofKey key).chars (r.manuscript look))).map (calls (word "educationEntry") 3) =
      some (if look.shows .education && hostsInFull key .education then
        (r.education.filter Education.isMeaningful).map fun e =>
          some (e.arguments.map fun a => tokens a.render)
      else []) := by
  have entry : EntryCommand .education "educationEntry" [] := by
    constructor <;> decide
  refine scan_entries ordered entry (by decide : Ink "Education") (fun _ => rfl) (by decide)
    (fun e => e.flow_arguments) ?_
  intro style
  rw [Block.ofKey, Block.compose, calls_education]
  rfl

/-- Decide whether a part is a call of a command with header fields. -/
def Part.isCall (name : String) : Part → Bool
  | .call called _ => called == name
  | _ => false

/-- Decide whether a part, where it is a call of a command, begins with some header fields. -/
def Part.beginsWith (name : String) (fields : List Field) : Part → Bool
  | .call called arguments => called != name || fields.isPrefixOf arguments
  | _ => true

/-- The commands with header fields. -/
def headerCommands : List String :=
  ["header", "contact"]

/-- No section calls a command with header fields. -/
theorem block_foreign {name : String} (known : name ∈ headerCommands) (b : Block) :
    isForeign b.allControls (word name) = true := by
  have checked : ∀ b : Block, ∀ name ∈ headerCommands, isForeign b.allControls (word name) = true :=
    Block.forall_of_kinds (fun _ => id) (by decide)
  exact checked b name known

/-- A command with header fields that a design calls once is found in its document with these fields. -/
theorem scan_call (key : TemplateKey) (r : Resume) (look : Look) {name : String} {fields : List Field}
    (known : name ∈ headerCommands) (some : fields ≠ [])
    (once : (Design.ofKey key).parts.countP (Part.isCall name) = 1)
    (begins : (Design.ofKey key).parts.all (Part.beginsWith name fields) = true) :
    (readBody ((Design.ofKey key).chars (r.manuscript look))).map (calls (word name) fields.length) =
      .some [.some (fields.map fun f => tokens (f.source (r.manuscript look).content).render)] := by
  let found := [Option.some (fields.map fun f => tokens (f.source (r.manuscript look).content).render)]
  have checked : ∀ name ∈ headerCommands, isCommand (word name) name = true ∧
      tokens ("\\" ++ name).toList = [word name] ∧ isForeign [word "textbullet"] (word name) = true ∧
      isForeign bodyControls (word name) = true ∧ ∀ other ∈ headerCommands, other ≠ name →
        isForeign [word other, word "textbullet"] (word name) = true := by
    decide
  obtain ⟨legal, written, foreign, body, others⟩ := checked name known
  have survey : Survey (callScanner (word name) fields.length) key r look
      (fun called _ => if called = name then found else []) fun _ _ => [] := by
    refine ⟨ignores_callScanner _ body, ?_, ?_⟩
    · intro called arguments member
      have sound := part_sound member
      by_cases same : called = name
      · subst same
        have fits := List.all_eq_true.1 begins _ member
        obtain ⟨more, rfl⟩ : fields <+: arguments := by simpa [Part.beginsWith] using fits
        have flows : ∀ a ∈ (fields ++ more).map (Field.source (r.manuscript look).content),
            Flow [word "textbullet"] .tight a := by
          intro a among
          obtain ⟨field, -, rfl⟩ := List.mem_map.1 among
          exact flow_field r look field List.mem_cons_self
        have read := finds_command legal written foreign
          (by simp : fields.length ≤ ((fields ++ more).map (Field.source (r.manuscript look).content)).length)
          (by simp [some]) flows
        rw [if_pos rfl]
        simpa [found, Part.chars, Part.source, Function.comp_def] using read
      · have flow := Part.flow r look (p := .call called arguments) sound (by simp)
        have listed : called ∈ headerCommands := by
          rcases call_known sound with rfl | rfl <;> decide
        rw [if_neg same]
        exact Scanner.finds_flow flow (ignores_callScanner _ (others called listed same))
    · intro style b title
      exact Scanner.finds_flow (b.flow r look style title) (ignores_callScanner _ (block_foreign known b))
  have parts : ∀ p : Part, p.collect (fun called _ => if called = name then found else []) (fun _ _ => []) look =
      if p.isCall name then found else [] := by
    intro p
    cases p <;> simp [Part.collect, Part.isCall]
  have counted := flatMap_replicate (Part.isCall name) found (Design.ofKey key).parts
  rw [once, ← funext parts] at counted
  exact survey.body.trans (congrArg Option.some counted)

/-- A document has one header, which begins with the name and the title of the owner. -/
theorem scan_header (key : TemplateKey) (r : Resume) (look : Look) :
    (readBody ((Design.ofKey key).chars (r.manuscript look))).map (calls (word "header") 2) =
      some [some ([text r.name, text r.title].map fun a => tokens a.render)] := by
  have once : (Design.ofKey key).parts.countP (Part.isCall "header") = 1 := by
    cases key <;> rfl
  have begins : (Design.ofKey key).parts.all (Part.beginsWith "header" [.name, .title]) = true := by
    cases key <;> rfl
  exact scan_call key r look List.mem_cons_self (by simp) once begins

/-- Whatever is typed into a resume, its document shows the owner, the jobs, the projects and the courses of
study as they were typed, each once and in the order of the resume, wherever the section is shown. -/
theorem read_render (key : TemplateKey) (r : Resume) (o : StyleOptions) :
    (readBody ((Design.ofKey key).render (Manuscript.ofResume r o).value).toList).map Printed.read =
      some (r.printed key (Look.ofOptions o).value) := by
  have ordered := isOrdered_ofOptions o
  rw [value_ofResume, Design.render, String.toList_ofList]
  generalize (Look.ofOptions o).value = look at *
  have owners := scan_header key r look
  have jobs := scan_experiences key r ordered
  have projects := scan_projects key r ordered
  have courses := scan_education key r ordered
  cases body : readBody ((Design.ofKey key).chars (r.manuscript look)) with
  | none => simp [body] at owners
  | some ts =>
      rw [body, Option.map_some, Option.some.injEq] at owners jobs projects courses
      have ownersRead : readCalls "header" 2 readOwner ts = (r.printed key look).owners := by
        rw [readCalls, owners]
        simp [readOwner, unescape_text, Resume.printed]
      have jobsRead : readCalls "resumeEntry" 4 readJob ts = (r.printed key look).jobs := by
        rw [readCalls, jobs, Resume.printed]
        cases look.shows .experience <;> simp [hostsInFull, Function.comp_def, readJob_arguments]
      have projectsRead : readCalls "projectEntry" 3 readProject ts = (r.printed key look).projects := by
        rw [readCalls, projects, Resume.printed]
        cases look.shows .projects <;> simp [hostsInFull, Function.comp_def, readProject_arguments]
      have coursesRead : readCalls "educationEntry" 3 readCourse ts = (r.printed key look).courses := by
        rw [readCalls, courses, Resume.printed]
        split <;> simp [Function.comp_def, readCourse_arguments]
      rw [Option.map_some, Printed.read, ownersRead, jobsRead, projectsRead, coursesRead]

end Vitae.Template
