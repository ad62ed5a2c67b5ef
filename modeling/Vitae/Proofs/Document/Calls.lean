/-
Module: Vitae.Proofs.Document.Calls
Layer: Proofs
Purpose: The body of every document calls the commands of its design as the preamble defines them. Each
  stands before as many groups as its definition has parameters, whatever is typed into the resume, and all
  other control words of the body are those of a fixed list.
Imports: Vitae.Proofs.Document.Scan
Main exports: IsCalled, Fits, fits_part, CallsAsDefined, calls_render
-/
import Vitae.Proofs.Document.Scan

namespace Vitae

open Tex

/-! ### Calls -/

/-- The commands that the designs define for themselves. -/
def ownNames : List String :=
  ["header", "contact", "resumeEntry", "educationEntry", "projectEntry", "sidebarHeading", "sectionrule"]

/-- What stands behind a command that is called with its arguments: as many groups as it has parameters, and
no group more. -/
def IsCalled (arity : Nat) (behind : List Token) : Prop :=
  ∃ arguments rest, behind = groupTokens arguments ++ rest ∧ arguments.length = arity ∧
    (∀ a ∈ arguments, Balanced a) ∧ rest.head? ≠ some .opening

/-- What does not begin with a group may stand behind a call. -/
theorem IsCalled.append {arity : Nat} {behind more : List Token} (h : IsCalled arity behind)
    (apart : more.head? ≠ some .opening) : IsCalled arity (behind ++ more) := by
  obtain ⟨arguments, rest, rfl, length, balanced, last⟩ := h
  refine ⟨arguments, rest ++ more, List.append_assoc _ _ _, length, balanced, ?_⟩
  cases rest with
  | nil => exact apart
  | cons t rest => simpa using last

/-- Tokens that call the commands of the designs as they are defined, and are no arguments of a call that
stands before them. -/
structure Fits (commands : List Definition) (ts : List Token) : Prop where
  head : ts.head? ≠ some .opening
  calls : ∀ before name behind, ts = before ++ word name :: behind → name ∈ ownNames →
    ∃ arity, ⟨name.toList, arity⟩ ∈ commands ∧ IsCalled arity behind

/-- Decide whether a list of control sequences has none of the commands of the designs. -/
def isCommon (controls : List Token) : Bool :=
  ownNames.all fun name => isForeign controls (word name)

theorem isCommon_nil : isCommon [] = true := by
  decide

namespace Fits

variable {commands : List Definition}

theorem nil : Fits commands [] :=
  ⟨by simp, by simp⟩

/-- Tokens without the commands of the designs call none of them. -/
theorem common {ts : List Token} (head : ts.head? ≠ some .opening)
    (absent : ∀ name ∈ ownNames, word name ∉ ts) : Fits commands ts where
  head := head
  calls := by
    intro before name behind whole own
    refine absurd ?_ (absent name own)
    rw [whole]
    exact List.mem_append_right _ List.mem_cons_self

theorem append {a b : List Token} (ha : Fits commands a) (hb : Fits commands b) :
    Fits commands (a ++ b) where
  head := by
    cases a with
    | nil => exact hb.head
    | cons t a => simpa using ha.head
  calls := by
    intro before name behind whole own
    rcases List.append_eq_append_iff.1 whole with ⟨between, -, later⟩ | ⟨between, first, later⟩
    · exact hb.calls between name behind later own
    · cases between with
      | nil => exact hb.calls [] name behind later.symm own
      | cons t between =>
          rw [List.cons_append, List.cons.injEq] at later
          obtain ⟨rfl, rfl⟩ := later
          obtain ⟨arity, defined, called⟩ := ha.calls before name between first own
          exact ⟨arity, defined, called.append hb.head⟩

/-- Calls that fit in the parts fit in the whole. Nothing is to be found besides. -/
theorem modular : Modular fun ts (_ : List Empty) => Fits commands ts :=
  .of_holds nil append

/-- Source with none of the commands of the designs, whatever its texts say. -/
theorem flow {controls : List Token} {e : Ending} {s : Source} (h : Flow controls e s)
    (plain : isCommon controls = true) : Fits commands (tokens s.render) :=
  .common h.inert.toCalm.head_tokens fun name own =>
    h.not_mem (List.all_eq_true.1 plain name own)

/-- A call with as many arguments as the command has parameters, none of which holds a call. -/
theorem call {name : String} {arguments : List (List Token)}
    (defined : ⟨name.toList, arguments.length⟩ ∈ commands) (balanced : ∀ a ∈ arguments, Balanced a)
    (plain : ∀ other ∈ ownNames, ∀ a ∈ arguments, word other ∉ a) :
    Fits commands (word name :: groupTokens arguments) where
  head := by simp [word]
  calls := by
    intro before other behind whole own
    cases before with
    | nil =>
        rw [List.nil_append, List.cons.injEq] at whole
        obtain ⟨same, rfl⟩ := whole
        obtain rfl : name = other := String.toList_injective (Token.word.inj same)
        exact ⟨_, defined, arguments, [], (List.append_nil _).symm, rfl, balanced, by simp⟩
    | cons t before =>
        rw [List.cons_append, List.cons.injEq] at whole
        have inside : word other ∈ groupTokens arguments := by
          rw [whole.2]
          exact List.mem_append_right _ List.mem_cons_self
        obtain ⟨a, argument, here⟩ := mem_groupTokens inside rfl
        exact absurd here (plain other own a argument)

/-- The same for source, whatever the texts of the arguments say. -/
theorem command {controls : List Token} {name : String} {arguments : List Source}
    (defined : ⟨name.toList, arguments.length⟩ ∈ commands) (checked : isCommand (word name) name = true)
    (written : tokens ("\\" ++ name).toList = [word name]) (called : arguments ≠ [])
    (flows : ∀ a ∈ arguments, Flow controls .loose a) (plain : isCommon controls = true) :
    Fits commands (tokens (Tex.command name arguments).render) := by
  rw [tokens_command checked written called flows]
  refine call (by simpa using defined) ?_ ?_
  · intro ts member
    obtain ⟨a, argument, rfl⟩ := List.mem_map.1 member
    exact (flows a argument).inert.balanced
  · intro other own ts member
    obtain ⟨a, argument, rfl⟩ := List.mem_map.1 member
    exact (flows a argument).not_mem (List.all_eq_true.1 plain other own)

end Fits

/-! ### Sections -/

variable {commands : List Definition}

theorem fits_gap {length : String} (ink : Ink length) :
    Fits commands (tokens (gap length).render) :=
  .flow (flow_gap ink) (by decide)

theorem fits_newline : Fits commands (tokens (Source.render (code "\n"))) := by
  have line : Flow [] .tight (code "\n") := .ink (by decide)
  exact .flow line isCommon_nil

/-- Decide whether the headings and rules of a style are defined. -/
def SectionStyle.isDefined (commands : List Definition) (style : SectionStyle) : Bool :=
  (style.heading == .full || commands.contains ⟨"sidebarHeading".toList, 1⟩) &&
    (!style.rule || commands.contains ⟨"sectionrule".toList, 0⟩)

section

variable {style : SectionStyle} (defined : style.isDefined commands = true)

include defined

/-- The rule that closes a section has no arguments. -/
theorem fits_rule (ruled : style.rule = true) : Fits commands (tokens "\n\\sectionrule".toList) := by
  have rule : ⟨"sectionrule".toList, 0⟩ ∈ commands := by
    simpa [SectionStyle.isDefined, ruled] using (Bool.and_eq_true_iff.1 defined).2
  have read : tokens "\n\\sectionrule".toList = tokens "\n".toList ++ word "sectionrule" :: groupTokens [] := by
    decide
  rw [read, ← render_code]
  exact fits_newline.append (.call rule (by simp) (by simp))

/-- A heading is a command of the design or the common one. -/
theorem fits_heading {title : Source} (flow : Flow [] .loose title) :
    Fits commands (tokens (Source.render (command style.heading.command [title]))) := by
  have flows : ∀ a ∈ [title], Flow [] .loose a := by simpa using flow
  have known := (Bool.and_eq_true_iff.1 defined).1
  cases heading : style.heading with
  | full =>
      have line : Flow [word "section"] .tight (command "section*" [title]) :=
        .command (by decide) List.mem_cons_self (by simp)
          fun a member => (flows a member).mono (by simp)
      exact .flow line (by decide)
  | sidebar =>
      have declared : ⟨"sidebarHeading".toList, 1⟩ ∈ commands := by simpa [heading] using known
      exact .command declared (by decide) (by decide) (by simp) flows isCommon_nil

end

/-- The entries of a section on lines of their own, each a call of the same command. -/
theorem fits_entries (controls : List Token) {s : Spacing} {name : String} {α : Type} {xs : List α}
    {arguments : α → List Source} {arity : Nat} (defined : ⟨name.toList, arity⟩ ∈ commands)
    (checked : isCommand (word name) name = true)
    (written : tokens ("\\" ++ name).toList = [word name]) (length : ∀ x, (arguments x).length = arity)
    (positive : 0 < arity) (flows : ∀ x, ∀ a ∈ arguments x, Flow controls .tight a)
    (plain : isCommon controls = true) :
    Fits commands (tokens (Source.render
      (code "\n" ++ join (entryGap s) (xs.map fun x => command name (arguments x))))) := by
  have called : ∀ x, arguments x ≠ [] :=
    fun x => List.length_pos_iff.1 (Nat.lt_of_lt_of_eq positive (length x).symm)
  have loose : ∀ x, ∀ a ∈ arguments x, Flow controls .loose a :=
    fun x a member => (flows x a member).toLoose
  have ends : ∀ x ∈ xs, Ends .loose (command name (arguments x)).render :=
    fun x _ => ends_command checked (called x) (flows x)
  have fits : ∀ x ∈ xs, Fits commands (tokens (command name (arguments x)).render) :=
    fun x _ => .command (by rwa [length x]) checked written (called x) (loose x) plain
  have newline : Flow [] .tight (code "\n") := .ink (by decide)
  rw [newline.tokens_append]
  exact fits_newline.append
    (Fits.modular.joinGap (fun _ => []) (Ink.smallLength s) (fits_gap (.smallLength s)) ends fits)

/-- The body of a section on a line of its own. -/
theorem fits_body (entries : Template.entryDefinitions ⊆ commands) (r : Resume) (look : Look)
    (style : SectionStyle) {b : Block} (h : b ≠ .custom) :
    Fits commands (tokens (Source.render (code "\n" ++ b.body (r.manuscript look) style))) := by
  have flow := Block.flow_body r look style h
  have job : ⟨"resumeEntry".toList, 4⟩ ∈ commands := entries (by decide)
  have course : ⟨"educationEntry".toList, 3⟩ ∈ commands := entries (by decide)
  have project : ⟨"projectEntry".toList, 3⟩ ∈ commands := entries (by decide)
  cases b with
  | custom => exact absurd rfl h
  | experience =>
      rw [Block.body, calls_experiences]
      exact fits_entries listControls job (by decide) (by decide) (fun _ => rfl) (by decide)
        (fun e => e.flow_arguments look.spacing (List.Subset.refl _)) (by decide)
  | education =>
      rw [Block.body, calls_education]
      exact fits_entries [] course (by decide) (by decide) (fun _ => rfl) (by decide)
        (fun e => e.flow_arguments) isCommon_nil
  | projects =>
      rw [Block.body, calls_projects]
      exact fits_entries [] project (by decide) (by decide) (fun _ => rfl) (by decide)
        (fun p => p.flow_arguments) isCommon_nil
  | summary title => exact .flow flow isCommon_nil
  | _ => exact .flow flow (by decide)

/-- A section of the user's own, which has a heading where it has a title. -/
theorem fits_customBlock {style : SectionStyle} (defined : style.isDefined commands = true)
    (s : CustomSection) : Fits commands (tokens (s.entry.block style).render) := by
  have newline : Flow [word "par"] .tight (code "\n") := .ink (by decide)
  have content : Flow [word "par"] .tight s.entry.content := flow_paragraphs s.content (by decide)
  have title : Flow [] .loose s.entry.title := (Flow.ofText s.title).toLoose
  have lined := newline.append content
  unfold CustomEntry.block
  split
  · exact .flow content (by decide)
  · exact Fits.modular.headed [] [] (fits_rule defined) title (fits_heading defined title)
      lined.inert.ends.loosen (.flow lined (by decide))

/-- Every section calls the commands of the design as they are defined. -/
theorem fits_block {style : SectionStyle} (defined : style.isDefined commands = true)
    (entries : Template.entryDefinitions ⊆ commands) (r : Resume) (look : Look) (b : Block)
    (title : ∀ t, b = .summary t → Ink t) :
    Fits commands (tokens (b.compose (r.manuscript look) style).render) := by
  by_cases common : b = .custom
  · subst common
    rw [Block.compose, blocks_custom]
    exact Fits.modular.joinVisible (fun _ => []) (Ink.mediumLength look.spacing)
      (fits_gap (.mediumLength look.spacing)) (fun s _ => ends_customBlock s style)
      fun s _ => fits_customBlock defined s
  · rw [Block.compose_eq common]
    have ink := Block.ink_title title
    exact Fits.modular.wrap [] (fits_rule defined) (fits_heading defined (Flow.ink ink).toLoose) ink
      (fun _ => rfl) (Block.flow_body r look style common).inert.ends (fits_body entries r look style common)

end Vitae

namespace Vitae.Template

open Tex

/-! ### Documents -/

/-- Decide whether the commands that a part calls are defined with as many parameters as it has arguments. -/
def Part.isDefined (commands : List Definition) : Part → Bool
  | .call name arguments => commands.contains ⟨name.toList, arguments.length⟩
  | .region r => r.style.isDefined commands
  | _ => true

/-- No design calls a command that it does not define. -/
theorem parts_defined (key : TemplateKey) :
    (Design.ofKey key).parts.all (Part.isDefined (ownCommands key)) = true := by
  cases key <;> decide

theorem entries_defined (key : TemplateKey) : entryDefinitions ⊆ ownCommands key := by
  cases key <;> decide

/-- Every part of a document calls the commands of the design as they are defined. -/
theorem fits_part {commands : List Definition} (r : Resume) (look : Look) {p : Part}
    (sound : p.isSound = true) (defined : p.isDefined commands = true)
    (entries : entryDefinitions ⊆ commands) : Fits commands (tokens (p.chars r look)) := by
  cases p with
  | code s =>
      have checked : Code layoutControls .loose (marks (braced s)) (braced s) := .of_check sound
      rw [chars_code]
      refine .common checked.toCalm.head_tokens fun name own member => ?_
      have foreign : isCommon layoutControls = true := by decide
      exact (isForeign_iff.1 (List.all_eq_true.1 foreign name own)).2.1 (checked.listed _ member rfl)
  | call name arguments =>
      have flows : ∀ a ∈ arguments.map (Field.source (r.manuscript look).content),
          Flow [word "textbullet"] .loose a := by
        intro a member
        obtain ⟨f, -, rfl⟩ := List.mem_map.1 member
        exact (flow_field r look f List.mem_cons_self).toLoose
      have declared :
          ⟨name.toList, (arguments.map (Field.source (r.manuscript look).content)).length⟩ ∈ commands := by
        simpa [Part.isDefined] using defined
      have written : tokens ("\\" ++ name).toList = [word name] := by
        rcases call_known sound with rfl | rfl <;> decide
      simp only [Part.isSound, Bool.and_eq_true, Bool.not_eq_true', List.isEmpty_eq_false_iff] at sound
      exact .command declared sound.1.1 written (by simpa using sound.2) flows (by decide)
  | space gap =>
      have flow := Part.flow r look (p := .space gap) sound (by simp)
      exact .flow flow (by decide : isCommon [word "vspace"] = true)
  | region region =>
      rw [chars_region]
      refine Fits.modular.joinVisible (fun _ => []) (Ink.mediumLength look.spacing)
        (fits_gap (.mediumLength look.spacing)) ?_ ?_
      · intro b member
        exact (b.flow r look region.style (ink_title sound member)).inert.ends
      · intro b member
        exact fits_block defined entries r look b (ink_title sound member)

/-- The control words of the bodies besides the commands that the designs define: those of sections and
lists, of the code of the designs, of links and of escaped text. -/
def commonNames : List String :=
  ["begin", "color", "end", "hfill", "href", "hrulefill", "item", "noindent", "par", "raggedright",
    "RaggedRight", "section", "small", "textasciicircum", "textasciitilde", "textbackslash", "textbf",
    "textbullet", "textgreater", "textit", "textless", "textwidth", "vspace"]

/-- Decide whether a token, where it is a control word, is one that a body may hold. -/
def isKnown : Token → Bool
  | .word name => (ownNames ++ commonNames).any fun known => known.toList == name
  | _ => true

/-- The control words of source are those that are listed for it, of links and of escaped text. -/
theorem known_listed {controls : List Token} {e : Ending} {s : Source} (flow : Flow controls e s)
    (known : ∀ t ∈ controls, isKnown t = true) : ∀ t ∈ tokens s.render, isKnown t = true := by
  intro t member
  cases control : t.isControl with
  | false =>
      cases t with
      | word name => simp [Token.isControl] at control
      | _ => rfl
  | true =>
      rcases flow.listed t member control with listed | escaped | link
      · exact known t listed
      · cases t with
        | word name =>
            have spellings : ∀ pair ∈ spelled, isKnown (word pair.2) = true := by decide
            obtain ⟨pair, among, same⟩ := List.any_eq_true.1 escaped
            rw [← eq_of_beq same]
            exact spellings pair among
        | _ => rfl
      · rw [link]
        decide

theorem known_block : ∀ b : Block, ∀ t ∈ b.allControls, isKnown t = true :=
  Block.forall_of_kinds (fun _ => id) (by decide)

theorem known_part {r : Resume} {look : Look} {p : Part} (sound : p.isSound = true) :
    ∀ t ∈ tokens (p.chars r look), isKnown t = true := by
  by_cases written : ∃ s, p = .code s
  · obtain ⟨s, rfl⟩ := written
    have checked : Code layoutControls .loose (marks (braced s)) (braced s) := .of_check sound
    have layout : ∀ t ∈ layoutControls, isKnown t = true := by decide
    rw [chars_code]
    intro t member
    cases t with
    | word name => exact layout _ (checked.listed _ member rfl)
    | _ => rfl
  · refine known_listed (Part.flow r look sound fun s same => written ⟨s, same⟩) ?_
    cases p with
    | code s => exact absurd ⟨s, rfl⟩ written
    | call name arguments =>
        rcases call_known sound with rfl | rfl
        · exact (by decide : ∀ t ∈ [word "header", word "textbullet"], isKnown t = true)
        · exact (by decide : ∀ t ∈ [word "contact", word "textbullet"], isKnown t = true)
    | space gap => exact (by decide : ∀ t ∈ [word "vspace"], isKnown t = true)
    | region region =>
        intro t member
        rcases List.mem_cons.1 member with rfl | member
        · decide
        · obtain ⟨b, -, listed⟩ := List.mem_flatMap.1 member
          exact known_block b t listed

/-- The definitions of a command in a preamble. One that cannot be read may be of any command. -/
def definitionsOf (name : String) (front : List Token) : List (Option Definition) :=
  (definitions front).filter fun reading => reading.all fun d => d.name = name.toList

/-- The body of a document calls the commands of its design as its preamble defines them. Each of them that
the body calls is defined once, and is called with as many arguments as this definition has parameters. All
other control words of the body are those that are common to all documents. -/
structure CallsAsDefined (front body : List Token) : Prop where
  own : ∀ before name behind, body = before ++ word name :: behind → name ∈ ownNames →
    ∃ arity, definitionsOf name front = [some ⟨name.toList, arity⟩] ∧ IsCalled arity behind
  others : ∀ name, word name ∈ body → name ∉ ownNames → name ∈ commonNames

/-- The preamble of a document defines the commands of its design, and nothing else. -/
theorem definitions_front (key : TemplateKey) (r : Resume) (look : Look) :
    ∃ front, readFront ((Design.ofKey key).chars (r.manuscript look)) = some front ∧
      definitions front = (ownCommands key).map some := by
  obtain ⟨front, defines, shape⟩ := document_defines key look
  have opens : definitionScanner.Finds (tokens classCommand) ([].map some) := finds_definitions (by decide)
  have whole := opens.append defines.found
  have read : tokens (classCommand ++ '[' :: front) = tokens classCommand ++ tokens ('[' :: front) :=
    tokens_append_detached (by decide) (by simp [Detached])
  refine ⟨tokens (classCommand ++ '[' :: front), ?_, ?_⟩
  · rw [shape r, readFront, before_documentText defines.toSober, Option.map_some]
  · rw [read]
    exact whole.scan_eq

/-- The body of a document calls the commands of its design as they are defined. -/
theorem fits_document (key : TemplateKey) (r : Resume) (look : Look) :
    ∃ body, readBody ((Design.ofKey key).chars (r.manuscript look)) = some body ∧
      Fits (ownCommands key) body ∧ ∀ t ∈ body, isKnown t = true := by
  have last : ∀ name ∈ ownNames, word name ∉ tokens ('\n' :: (endDocument ++ ['\n'])) := by decide
  have known : ∀ t ∈ tokens ('\n' :: (endDocument ++ ['\n'])), isKnown t = true := by decide
  have inside : Fits (ownCommands key)
      ((Design.ofKey key).parts.flatMap fun p => tokens (p.chars r look)) := by
    refine Fits.modular.flatMap (fun _ => []) fun p member => ?_
    exact fits_part r look (part_sound member) (List.all_eq_true.1 (parts_defined key) p member)
      (entries_defined key)
  refine ⟨_, readBody_chars key r look, ?_, ?_⟩
  · have first : Fits (ownCommands key) [.char '\n'] := .common (by simp) (by simp [word])
    exact first.append (inside.append (.common (by decide) last))
  · intro t member
    rcases List.mem_cons.1 member with rfl | member
    · rfl
    · rcases List.mem_append.1 member with member | member
      · obtain ⟨p, among, here⟩ := List.mem_flatMap.1 member
        exact known_part (part_sound among) t here
      · exact known t member

/-- In every document, the body calls the commands of the design as the preamble defines them. -/
theorem calls_render (key : TemplateKey) (r : Resume) (o : StyleOptions) :
    ∃ front body,
      readFront ((Design.ofKey key).render (Manuscript.ofResume r o).value).toList = some front ∧
      readBody ((Design.ofKey key).render (Manuscript.ofResume r o).value).toList = some body ∧
      CallsAsDefined front body := by
  rw [value_ofResume, Design.render, String.toList_ofList]
  generalize (Look.ofOptions o).value = look
  obtain ⟨front, before, defined⟩ := definitions_front key r look
  obtain ⟨body, behind, fits, known⟩ := fits_document key r look
  -- no design defines a command twice
  have once : ∀ d ∈ ownCommands key,
      ((ownCommands key).map some).filter (fun reading => reading.all fun e => e.name = d.name) = [some d] := by
    cases key <;> decide
  refine ⟨front, body, before, behind, ?_, ?_⟩
  · intro start name rest whole own
    obtain ⟨arity, member, called⟩ := fits.calls start name rest whole own
    refine ⟨arity, ?_, called⟩
    rw [definitionsOf, defined]
    exact once ⟨name.toList, arity⟩ member
  · intro name member other
    obtain ⟨listed, among, same⟩ := List.any_eq_true.1 (known (word name) member)
    obtain rfl : listed = name := String.toList_injective (eq_of_beq same)
    exact (List.mem_append.1 among).resolve_left other

end Vitae.Template
