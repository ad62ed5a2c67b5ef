/-
Module: Vitae.Proofs.Section.Composition
Layer: Proofs
Purpose: Every section of every resume is put together as the grammar of source asks for, with no control
  sequences but those that are listed for its block.
Imports: Vitae.Proofs.Tex.Flow, Vitae.Proofs.Typeset.SkillsGrid, Vitae.Section.Block
Main exports: word, frameControls, Block.commands, Block.flow, flow_joinSections
-/
import Vitae.Proofs.Tex.Flow
import Vitae.Proofs.Typeset.SkillsGrid
import Vitae.Section.Block

namespace Vitae

open Tex Text Number

/-- A control word by its name. -/
def word (name : String) : Token :=
  .word name.toList

/-- A line break. -/
def breakSymbol : Token :=
  .symbol '\\'

/-! ### Numbers and lengths -/

/-- A text that means nothing but itself. -/
def Ink (s : String) : Prop :=
  Inked s.toList

instance (s : String) : Decidable (Ink s) :=
  inferInstanceAs (Decidable (Inked s.toList))

namespace Ink

theorem append {s t : String} (hs : Ink s) (ht : Ink t) : Ink (s ++ t) := by
  intro c member
  rw [String.toList_append, List.mem_append] at member
  exact member.elim (hs c) (ht c)

theorem isInk_of_isDigit {c : Char} (h : c.isDigit = true) : isInk c = true := by
  rw [isInk_iff]
  refine ⟨?_, ?_, ?_, ?_⟩ <;> rintro rfl <;> simp [Char.isDigit] at h

/-- A number is written with digits. -/
theorem isDigit_of_mem {n : Nat} {c : Char} (h : c ∈ (toString n).toList) : c.isDigit = true := by
  have digits : c ∈ Nat.toDigits 10 n := by
    rwa [← Nat.toList_repr]
  exact Nat.isDigit_of_mem_toDigits (by decide) (by decide) digits

theorem ofNat (n : Nat) : Ink (toString n) :=
  fun _ member => isInk_of_isDigit (isDigit_of_mem member)

theorem smallLength (s : Spacing) : Ink s.smallLength := by
  unfold Spacing.smallLength Spacing.small
  split
  · exact (ofNat _).append (by decide)
  · exact (((ofNat _).append (by decide)).append (ofNat _)).append (by decide)

theorem mediumLength (s : Spacing) : Ink s.mediumLength :=
  (ofNat _).append (by decide)

theorem hundredthsText (n : Nat) : Ink (hundredthsText n) :=
  (((ofNat _).append (by decide)).append (ofNat _)).append (ofNat _)

end Ink

/-! ### Fields -/

variable {controls : List Token}

/-- The parts of a list of texts. -/
theorem flow_textItems (raw : List String) : ∀ p ∈ textItems raw, Flow controls .tight p := by
  intro p member
  obtain ⟨s, -, rfl⟩ := List.mem_map.1 member
  exact .ofText s

/-- A link of the library. -/
theorem flow_linkTo (address : String) {shown : Source} (flow : Flow controls .tight shown) :
    Flow controls .tight (linkTo address shown) := by
  refine .link ?_ flow.loosen
  intro p member
  rw [List.mem_singleton.1 member]
  exact trivial

theorem flow_dateSource (date : Option String) : Flow controls .tight (dateSource date) := by
  unfold dateSource
  exact .ofText _

theorem flow_period (start finish : Option String) : Flow controls .tight (period start finish) := by
  have between : Flow controls .tight dateSeparator := .ink (by decide)
  unfold period
  refine .joinNonEmpty between ?_
  intro p member
  simp only [List.mem_cons, List.not_mem_nil, or_false] at member
  rcases member with here | here
  · rw [here]
    exact flow_dateSource start
  · rw [here]
    exact flow_dateSource finish

theorem flow_itemOf {field : String} {item p : Source} (flow : Flow controls .tight item)
    (member : p ∈ itemOf field item) : Flow controls .tight p := by
  unfold itemOf at member
  split at member
  · rwa [List.mem_singleton.1 member]
  · simp at member

theorem flow_contactItems (r : Resume) : ∀ p ∈ contactItems r, Flow controls .tight p := by
  intro p member
  simp only [contactItems, List.mem_append] at member
  rcases member with ((member | member) | member) | member
  · refine flow_itemOf (.link ?_ (Flow.ofText r.email).loosen) member
    intro q among
    simp only [code, List.cons_append, List.nil_append, List.mem_cons, List.not_mem_nil,
      or_false] at among
    rcases among with rfl | rfl
    · exact (by decide : Ink "mailto:")
    · exact trivial
  · exact flow_itemOf (.ofText _) member
  · exact flow_itemOf (.ofText _) member
  · exact flow_itemOf (flow_linkTo _ (.ofText _)) member

theorem flow_linkItems (links : List Link) : ∀ p ∈ linkItems links, Flow controls .tight p := by
  intro p member
  obtain ⟨l, -, source⟩ := List.mem_filterMap.1 member
  unfold Link.source? at source
  split at source <;> simp only [Option.some.injEq, reduceCtorEq] at source <;> subst source
  · exact flow_linkTo _ (.ofText _)
  · exact flow_linkTo _ (.ofText _)
  · exact .ofText _

/-- Items in one line, with bullets between them. -/
theorem flow_contactLine {items : List Source} (listed : word "textbullet" ∈ controls)
    (flows : ∀ p ∈ items, Flow controls .tight p) : Flow controls .tight (contactLine items) := by
  have separator : Flow [word "textbullet"] .tight contactSeparator := .literal (by decide)
  exact .joinNonEmpty (separator.mono (by simpa using listed)) flows

theorem flow_projectHeading (p : Project) : Flow controls .tight p.heading := by
  unfold Project.heading
  split
  · exact flow_linkTo _ (.ofText _)
  · exact .ofText _

/-! ### Lists and grids -/

/-- The control words of a list. -/
def listControls : List Token :=
  ["begin", "end", "item"].map word

/-- A list of items, whatever its options are. -/
theorem flow_itemize {options : String} {items : List Source} (listed : listControls ⊆ controls)
    (ink : Ink options) (flows : ∀ p ∈ items, Flow controls .tight p) :
    Flow controls .tight (itemize options items) := by
  unfold itemize
  split
  · exact .nil
  · have item : Flow listControls .tight (code "\\item ") := .literal (by decide)
    have begins : Code listControls .tight [.begins "itemize".toList]
        ("\\begin\x7b" ++ "itemize" ++ "\x7d").toList := .of_check (by decide)
    have ends : Code listControls .tight [.ends "itemize".toList]
        ("\n\\end\x7b" ++ "itemize" ++ "\x7d").toList := .of_check (by decide)
    have newline : Code listControls .tight [] "\n".toList := .of_check (by decide)
    have opening : Code listControls .tight [.begins "itemize".toList]
        ("\\begin\x7b" ++ "itemize" ++ "\x7d" ++ options ++ "\n").toList := by
      rw [String.toList_append, String.toList_append]
      exact (begins.append (.ink ink)).append newline
    have body : Flow controls .tight (join (code "\n") (items.map fun item => code "\\item " ++ item)) := by
      refine .join (.ink (by decide)) ?_
      intro p member
      obtain ⟨q, among, rfl⟩ := List.mem_map.1 member
      exact (item.mono listed).append (flows q among)
    have last : ("\\begin\x7b" ++ "itemize" ++ "\x7d" ++ options ++ "\n").toList.getLast? ≠ some '\x7b' := by
      have line : "\n".toList = ['\n'] := rfl
      rw [String.toList_append, line, List.getLast?_concat]
      decide
    have whole : Flow controls .tight
        (code ("\\begin\x7b" ++ "itemize" ++ "\x7d" ++ options ++ "\n") ++ (([] : List Source).flatMap group ++
          (join (code "\n") (items.map fun item => code "\\item " ++ item) ++
            code ("\n\\end\x7b" ++ "itemize" ++ "\x7d")))) :=
      .frame (opening.mono listed) (by simp) last (ends.mono listed) (by simp) body
    simpa [environment] using whole

/-- The control sequences of a grid. -/
def gridControls : List Token :=
  breakSymbol :: ["begin", "end", "small", "textwidth"].map word

theorem flow_columnSpec (columns : Nat) (listed : word "textwidth" ∈ controls) :
    Flow controls .tight (columnSpec columns) := by
  have width : Code [word "textwidth"] .loose [] "\\textwidth".toList := .of_check (by decide)
  have share : Code [word "textwidth"] .loose []
      (hundredthsText (cellHundredths columns) ++ "\\textwidth").toList := by
    rw [String.toList_append]
    exact (Code.ink (Ink.hundredthsText _)).append width
  have called : Flow controls .tight
      (code "p" ++ [code (hundredthsText (cellHundredths columns) ++ "\\textwidth")].flatMap group) := by
    have column : Code controls .tight [] "p".toList := .ink (by decide : Ink "p")
    refine .call column.loosen (by simp) (by decide) (by simp) ?_
    intro a member
    rw [List.mem_singleton.1 member]
    exact .code (share.mono (by simpa using listed))
  simpa [columnSpec] using called

/-- The columns of a grid. -/
theorem flow_columnSpecs (columns : Nat) (listed : word "textwidth" ∈ controls) :
    Flow controls .tight (join (code " ") (List.replicate columns (columnSpec columns))) := by
  refine .join (.ink (by decide)) ?_
  intro p member
  rw [List.eq_of_mem_replicate member]
  exact flow_columnSpec columns listed

/-- The rows of a grid up to the break that ends the last of them. The break alone could become part of
another command, so it is read together with what follows it. -/
theorem flow_gridRows {rows : List (List Source)} (listed : gridControls ⊆ controls)
    (nonempty : rows ≠ []) (flows : ∀ row ∈ rows, ∀ p ∈ row, Flow controls .tight p) :
    ∃ body, Flow controls .tight body ∧
      join (code "\n") (rows.map gridRow) = body ++ code " \\\\" := by
  have cells : ∀ row ∈ rows, Flow controls .tight (join (code " & ") row) :=
    fun row member => .join (.ink (by decide)) (flows row member)
  have newRow : Flow gridControls .tight (code (" \\\\" ++ "\n")) :=
    .code (.of_check (by decide))
  induction rows with
  | nil => exact absurd rfl nonempty
  | cons row rest ih =>
      have first := cells row List.mem_cons_self
      cases rest with
      | nil => exact ⟨_, first, by simp [gridRow]⟩
      | cons next rest =>
          obtain ⟨body, flow, shape⟩ := ih (by simp)
            (fun r member => flows r (List.mem_cons_of_mem row member))
            fun r member => cells r (List.mem_cons_of_mem row member)
          refine ⟨_, .cut (first.append ((newRow.mono listed).append flow)), ?_⟩
          rw [List.map_cons, List.map_cons, join_cons_cons, ← List.map_cons, shape]
          simp [gridRow]

/-- A grid on a line of its own, whatever the number of its columns is. -/
theorem flow_skillsGrid {items : List Source} (columns : Nat) (listed : gridControls ⊆ controls)
    (flows : ∀ p ∈ items, Flow controls .tight p) :
    Flow controls .tight (code "\n" ++ skillsGrid items columns) := by
  unfold skillsGrid
  split
  case isTrue => exact .append (.ink (by decide)) .nil
  case isFalse some =>
    have opens : Code gridControls .tight [.begins "tabular".toList]
        "\\small\n\\begin\x7btabular\x7d".toList := .of_check (by decide)
    have closes : Code gridControls .tight [.ends "tabular".toList]
        (" \\\\" ++ "\n\\end\x7btabular\x7d").toList := .of_check (by decide)
    have newline : Code [] .tight [] "\n".toList := .of_check (by decide)
    have spec : Flow controls .tight
        (join (code " ") (List.replicate (max columns 1) (columnSpec (max columns 1)))) :=
      flow_columnSpecs _ (listed (by decide))
    have cut : gridRows (max columns 1) items ≠ [] := by
      have whole := flatten_chunks (max columns 1) [] [] items
      intro none
      rw [gridRows, List.map_eq_nil_iff] at none
      rw [none] at whole
      simp_all
    obtain ⟨body, flow, shape⟩ := flow_gridRows listed cut (by
      intro row member cell among
      rcases mem_gridRows member among with item | rfl
      · exact flows cell item
      · exact .nil)
    have lined : Flow controls .tight (code "\n" ++ body) :=
      .append (.ink (by decide)) flow
    have table : Flow controls .tight
        (code "\\small\n\\begin\x7btabular\x7d" ++
          ([join (code " ") (List.replicate (max columns 1) (columnSpec (max columns 1)))].flatMap group ++
            ((code "\n" ++ body) ++ code (" \\\\" ++ "\n\\end\x7btabular\x7d")))) :=
      .frame (opens.mono listed) (by simp) (by decide) (closes.mono listed)
        (by simpa using spec.toLoose) lined
    have divided : Flow controls .tight
        ((code "\\small\n\\begin\x7btabular\x7d" ++
          (group (join (code " ") (List.replicate (max columns 1) (columnSpec (max columns 1)))) ++
            (code "\n" ++ body))) ++
          (code " \\\\" ++ (code "\n\\end\x7btabular\x7d" ++ []))) :=
      .cut (by simpa using table)
    have called : Flow controls .tight (code "\n" ++ [_].flatMap group) :=
      .call ((newline.mono (by simp)).loosen) (by simp) (by decide) (by simp)
        (by simpa using divided.toLoose)
    simpa [shape] using called

/-! ### Sections -/

/-- The control words of headings and closing rules. -/
def frameControls : List Token :=
  ["section", "sidebarHeading", "sectionrule"].map word

/-- The control words of a position of responsibility. -/
def positionControls : List Token :=
  ["textbf", "textit", "hfill", "small"].map word

/-- The control sequences of a section besides those of headings and closing rules. -/
def Block.commands : Block → List Token
  | summary _ => []
  | contact => [breakSymbol]
  | links => [breakSymbol]
  | skills => word "item" :: gridControls
  | experience => word "resumeEntry" :: word "vspace" :: listControls
  | education => [word "educationEntry", word "vspace"]
  | shortEducation => [word "textbf", word "small", word "vspace", breakSymbol]
  | projects => [word "projectEntry", word "vspace"]
  | custom => [word "par", word "vspace"]
  | certifications => listControls
  | positions => positionControls ++ listControls
  | activities => word "textbf" :: listControls
  | coursework => []

/-- Vertical space is source of its own. -/
theorem flow_space {length : String} (ink : Ink length) (listed : word "vspace" ∈ controls) :
    Flow controls .tight (command "vspace" [code length]) := by
  refine .command (by decide : isCommand (word "vspace") "vspace" = true) listed (by simp) ?_
  intro a member
  rw [List.mem_singleton.1 member]
  exact (Flow.ink ink).toLoose

/-- Parts on lines of their own with vertical space between them. The first part may follow what stands
before it on its line. -/
theorem flow_joinGap {lead : Source} {length : String} {parts : List Source} (ink : Ink length)
    (listed : word "vspace" ∈ controls) (nonempty : parts ≠ [])
    (first : ∀ p ∈ parts, Flow controls .loose (lead ++ p))
    (lined : ∀ p ∈ parts, Flow controls .loose (code "\n" ++ p)) :
    Flow controls .loose (lead ++ join (gap length) parts) := by
  induction parts generalizing lead with
  | nil => exact absurd rfl nonempty
  | cons p rest ih =>
      cases rest with
      | nil => simpa using first p List.mem_cons_self
      | cons q rest =>
          have others := ih (by simp) (fun r member => lined r (List.mem_cons_of_mem p member))
            fun r member => lined r (List.mem_cons_of_mem p member)
          have newline : Flow controls .tight (code "\n") := .ink (by decide)
          have whole := Flow.follow (first p List.mem_cons_self)
            (newline.append ((flow_space ink listed).append others)) (by decide) (by simp)
          rw [join_cons_cons]
          simpa [gap] using whole

/-- A heading with any title. -/
theorem flow_heading {title : Source} (style : SectionStyle)
    (listed : ["section", "sidebarHeading"].map word ⊆ controls) (flow : Flow controls .loose title) :
    Flow controls .tight (command style.heading.command [title]) := by
  cases style.heading with
  | full =>
      exact .command (by decide : isCommand (word "section") "section*" = true)
        (listed (by decide)) (by simp) (by simpa using flow)
  | sidebar =>
      exact .command (by decide : isCommand (word "sidebarHeading") "sidebarHeading" = true)
        (listed (by decide)) (by simp) (by simpa using flow)

/-- A section with its heading, where its body may stand on a line of its own. -/
theorem flow_headed {style : SectionStyle} {title body : Source} (listed : frameControls ⊆ controls)
    (heading : Flow controls .loose title) (lined : Flow controls .loose (code "\n" ++ body)) :
    Flow controls .loose (style.headed title body) := by
  have opened := (flow_heading style (List.Subset.trans (by decide) listed) heading).append lined
  unfold SectionStyle.headed SectionStyle.headingLine SectionStyle.closing
  split
  · have rule : Flow frameControls .loose (code "\n\\sectionrule" ++ []) := by
      rw [List.append_nil]
      exact .literal (by decide)
    have closed := opened.follow (rule.mono listed) (by decide) (by simp)
    simpa using closed
  · simpa using opened

theorem flow_wrap {style : SectionStyle} {title : String} {body : Source} (ink : Ink title)
    (listed : frameControls ⊆ controls) (lined : Flow controls .loose (code "\n" ++ body)) :
    Flow controls .loose (style.wrap title body) := by
  unfold SectionStyle.wrap
  split
  · exact Flow.nil.loosen
  · exact flow_headed listed (Flow.ink ink).toLoose lined

/-- Sections with vertical space between them. -/
theorem flow_joinSections {s : Spacing} {parts : List Source} (listed : word "vspace" ∈ controls)
    (flows : ∀ p ∈ parts, Flow controls .loose p) :
    Flow controls .loose (joinSections s parts) := by
  have newline : Flow controls .tight (code "\n") := .ink (by decide)
  have kept : ∀ p ∈ parts.filter fun part => !part.isBlank, Flow controls .loose p :=
    fun p member => flows p (List.mem_filter.1 member).1
  unfold joinSections joinNonEmpty
  cases shown : parts.filter fun part => !part.isBlank with
  | nil => exact Flow.nil.loosen
  | cons p rest =>
      rw [shown] at kept
      exact @flow_joinGap _ [] _ _ (Ink.mediumLength s) listed (by simp) kept
        fun q member => newline.append (kept q member)

/-! ### Entries -/

theorem flow_call {name : String} {arguments : List Source}
    (checked : isCommand (word name) name = true) (listed : word name ∈ controls)
    (called : arguments ≠ []) (flows : ∀ a ∈ arguments, Flow controls .tight a) :
    Flow controls .tight (command name arguments) :=
  .command checked listed called fun a member => (flows a member).toLoose

/-- A command with arguments does not break off inside a token. -/
theorem ends_command {name : String} {arguments : List Source}
    (checked : isCommand (word name) name = true) (called : arguments ≠ [])
    (flows : ∀ a ∈ arguments, Flow controls .tight a) : Ends .loose (command name arguments).render := by
  have flow : Flow (word name :: controls) .tight (command name arguments) :=
    flow_call checked List.mem_cons_self called
      fun a member => (flows a member).mono (List.subset_cons_self _ _)
  exact flow.toLoose.inert.ends

/-- A command is read as its control word with its arguments behind it. -/
theorem tokens_command {name : String} {arguments : List Source}
    (checked : isCommand (word name) name = true)
    (written : tokens ("\\" ++ name).toList = [word name]) (called : arguments ≠ [])
    (flows : ∀ a ∈ arguments, Flow controls .loose a) :
    tokens (command name arguments).render =
      word name :: groupTokens (arguments.map fun a => tokens a.render) := by
  rw [isCommand, Bool.and_eq_true] at checked
  have isCode : Code [word name] .loose [] ("\\" ++ name).toList := .of_check checked.1
  have read := Flow.tokens_call isCode.ends called flows []
  rw [List.append_nil, tokens_nil, List.append_nil, written] at read
  exact read

theorem flow_bold {body : Source} (listed : word "textbf" ∈ controls)
    (flow : Flow controls .tight body) : Flow controls .tight (bold body) :=
  flow_call (by decide) listed (by simp) (by simpa using flow)

/-- The arguments of the command of a job. -/
def Experience.arguments (e : Experience) (s : Spacing) : List Source :=
  [text e.role, text e.company, period e.startDate e.endDate, bulletList (textItems e.bullets) s]

/-- The arguments of the command of a course of study. -/
def Education.arguments (e : Education) : List Source :=
  [text e.school, text e.degree, period e.startDate e.endDate]

/-- The arguments of the command of a project. -/
def Project.arguments (p : Project) : List Source :=
  [p.heading, text (p.technologies.getD ""), text (p.description.getD "")]

theorem Experience.call_eq (e : Experience) (s : Spacing) :
    (e.entry s).call = command "resumeEntry" (e.arguments s) := by
  simp only [ExperienceEntry.call, Experience.entry, Experience.arguments]

theorem Education.call_eq (e : Education) :
    e.entry.call = command "educationEntry" e.arguments := by
  simp only [EducationEntry.call, Education.entry, Education.arguments]

theorem Project.call_eq (p : Project) :
    p.entry.call = command "projectEntry" p.arguments := by
  simp only [ProjectEntry.call, Project.entry, Project.arguments]

/-- The options of the bullets of a job mean nothing but themselves. -/
theorem ink_bulletOptions (s : Spacing) :
    Ink ("[leftmargin=*,topsep=0pt,partopsep=0pt,itemsep=" ++ s.smallLength ++ ",parsep=0pt]") :=
  ((by decide : Ink "[leftmargin=*,topsep=0pt,partopsep=0pt,itemsep=").append
    (.smallLength s)).append (by decide)

/-- So do those of a list of skills. -/
theorem ink_skillOptions (s : Spacing) :
    Ink ("[leftmargin=*,itemsep=" ++ s.smallLength ++ ",parsep=0pt]") :=
  ((by decide : Ink "[leftmargin=*,itemsep=").append (.smallLength s)).append (by decide)

theorem Experience.flow_arguments (e : Experience) (s : Spacing) (lists : listControls ⊆ controls) :
    ∀ a ∈ e.arguments s, Flow controls .tight a := by
  have bullets : Flow controls .tight (bulletList (textItems e.bullets) s) :=
    flow_itemize lists (ink_bulletOptions s) (flow_textItems e.bullets)
  intro a member
  simp only [Experience.arguments, List.mem_cons, List.not_mem_nil, or_false] at member
  rcases member with here | here | here | here <;> rw [here]
  · exact .ofText e.role
  · exact .ofText e.company
  · exact flow_period e.startDate e.endDate
  · exact bullets

theorem Education.flow_arguments (e : Education) : ∀ a ∈ e.arguments, Flow controls .tight a := by
  intro a member
  simp only [Education.arguments, List.mem_cons, List.not_mem_nil, or_false] at member
  rcases member with here | here | here <;> rw [here]
  · exact .ofText e.school
  · exact .ofText e.degree
  · exact flow_period e.startDate e.endDate

theorem Project.flow_arguments (p : Project) : ∀ a ∈ p.arguments, Flow controls .tight a := by
  intro a member
  simp only [Project.arguments, List.mem_cons, List.not_mem_nil, or_false] at member
  rcases member with here | here | here <;> rw [here]
  · exact flow_projectHeading p
  · exact .ofText (p.technologies.getD "")
  · exact .ofText (p.description.getD "")

/-- A job, whatever its fields are. -/
theorem flow_experience (e : Experience) (s : Spacing) (listed : word "resumeEntry" ∈ controls)
    (lists : listControls ⊆ controls) : Flow controls .tight (e.entry s).call := by
  rw [Experience.call_eq]
  exact flow_call (by decide) listed (by simp [Experience.arguments]) (e.flow_arguments s lists)

theorem flow_education (e : Education) (listed : word "educationEntry" ∈ controls) :
    Flow controls .tight e.entry.call := by
  rw [Education.call_eq]
  exact flow_call (by decide) listed (by simp [Education.arguments]) e.flow_arguments

theorem flow_project (p : Project) (listed : word "projectEntry" ∈ controls) :
    Flow controls .tight p.entry.call := by
  rw [Project.call_eq]
  exact flow_call (by decide) listed (by simp [Project.arguments]) p.flow_arguments

/-- Small text on a line of its own. -/
theorem flow_small {lead : String} {body : Source} (listed : word "small" ∈ controls)
    (opens : Code controls .loose [] lead.toList) (nonempty : lead.toList ≠ [])
    (last : lead.toList.getLast? ≠ some '\x7b') (flow : Flow controls .tight body) :
    Flow controls .tight (code lead ++ small body) := by
  have size : Flow [word "small"] .tight (code "\\small ") := .literal (by decide)
  have inside := (size.mono (by simpa using listed)).append flow
  have called : Flow controls .tight (code lead ++ [_].flatMap group) :=
    .call opens nonempty last (by simp) (by simpa using inside.toLoose)
  simpa [small] using called

/-- A course of study in little room stands on a line of its own. -/
theorem Education.flow_short (e : Education)
    (listed : [word "textbf", word "small", breakSymbol] ⊆ controls) :
    Flow controls .tight (code "\n" ++ e.entry.short) := by
  have newline : Flow controls .tight (code "\n") := .ink (by decide)
  have lineStart : Code controls .loose [] "\n".toList := (Code.ink (by decide)).loosen
  have lineBreak : Code [word "textbf", word "small", breakSymbol] .loose [] "\\\\\n".toList :=
    .of_check (by decide)
  have school : Flow controls .tight e.entry.school := .ofText e.school
  have degree : Flow controls .tight e.entry.degree := .ofText e.degree
  have dates : Flow controls .tight e.entry.dates := by
    simp only [Education.entry]
    exact flow_period e.startDate e.endDate
  have name : Flow controls .tight (bold e.entry.school) := flow_bold (listed (by decide)) school
  have smallWord : word "small" ∈ controls := listed (by decide)
  unfold EducationEntry.short
  split
  · have below := flow_small smallWord (lineBreak.mono listed) (by simp) (by decide) degree
    simpa using newline.append (name.append below)
  · exact newline.append name
  · exact flow_small smallWord lineStart (by simp) (by decide) degree
  · exact newline.append dates

/-- Each line of a text is a paragraph. -/
theorem flow_paragraphs (content : String) (listed : word "par" ∈ controls) :
    Flow controls .tight (paragraphs content) := by
  have between : Flow [word "par"] .tight (code "\\par\n") := .literal (by decide)
  exact .join (between.mono (by simpa using listed)) (flow_textItems _)

theorem flow_customBlock {s : CustomEntry} (style : SectionStyle) (frame : frameControls ⊆ controls)
    (title : Flow controls .tight s.title) (content : Flow controls .tight s.content) :
    Flow controls .loose (s.block style) := by
  have newline : Flow controls .tight (code "\n") := .ink (by decide)
  unfold CustomEntry.block
  split
  · exact content.toLoose
  · exact flow_headed frame title.toLoose (newline.append content).toLoose

theorem flow_holder {p : PositionEntry} (listed : word "textbf" ∈ controls)
    (title : Flow controls .tight p.title) (organization : Flow controls .tight p.organization) :
    Flow controls .tight p.holder := by
  have shown : ∀ f ∈ [p.title, p.organization].filter fun s => !s.isBlank,
      Flow controls .tight f := by
    intro f member
    have among := (List.mem_filter.1 member).1
    simp only [List.mem_cons, List.not_mem_nil, or_false] at among
    rcases among with rfl | rfl
    · exact title
    · exact organization
  have comma : Flow controls .tight (code ", ") := .ink (by decide)
  unfold PositionEntry.holder
  split
  case h_1 first second fields =>
    rw [fields] at shown
    exact ((flow_bold listed (shown first (by simp))).append comma).append (shown second (by simp))
  case h_2 one fields =>
    rw [fields] at shown
    exact flow_bold listed (shown one (by simp))
  case h_3 => exact .nil

theorem flow_position {p : PositionEntry} (listed : positionControls ⊆ controls)
    (title : Flow controls .tight p.title) (organization : Flow controls .tight p.organization)
    (date : Flow controls .tight p.date) : Flow controls .tight p.line := by
  have fill : Flow positionControls .tight (code " \\hfill ") := .literal (by decide)
  have size : Flow positionControls .tight (code "\\small ") := .literal (by decide)
  have italic : Flow controls .tight (command "textit" [code "\\small " ++ p.date]) :=
    flow_call (by decide) (listed (by decide)) (by simp)
      (by simpa using (size.mono listed).append date)
  unfold PositionEntry.line
  refine (flow_holder (listed (by decide)) title organization).append ?_
  split
  · exact .nil
  · exact (fill.mono listed).append italic

/-- A position in one line, whatever its fields are. -/
theorem Position.flow_line (p : Position) (listed : positionControls ⊆ controls) :
    Flow controls .tight p.entry.line := by
  have date : Flow controls .tight p.entry.date := by
    simp only [Position.entry]
    exact .ofText (showDate p.date)
  exact flow_position listed (.ofText p.title) (.ofText p.organization) date

theorem flow_activity {a : ActivityEntry} (listed : word "textbf" ∈ controls)
    (name : Flow controls .tight a.name) (description : Flow controls .tight a.description) :
    Flow controls .tight a.line := by
  have colon : Flow controls .tight (code ": ") := .ink (by decide)
  have bolded : Flow controls .tight (bold a.name) := flow_bold listed name
  unfold ActivityEntry.line
  split
  · exact (bolded.append colon).append description
  · exact bolded
  · exact description

/-! ### Blocks -/

/-- A resume made ready in a look. -/
def Resume.manuscript (r : Resume) (look : Look) : Manuscript :=
  ⟨Content.ofResume r look.spacing, look⟩

theorem value_ofResume (r : Resume) (o : StyleOptions) :
    (Manuscript.ofResume r o).value = r.manuscript (Look.ofOptions o).value := rfl

/-- The jobs that say anything, each as a call of its command. -/
theorem calls_experiences (r : Resume) (look : Look) :
    (r.manuscript look).content.experiences.map ExperienceEntry.call =
      (r.experiences.filter Experience.isMeaningful).map fun e =>
        command "resumeEntry" (e.arguments look.spacing) := by
  rw [← funext fun e => Experience.call_eq e look.spacing]
  exact List.map_map

theorem calls_education (r : Resume) (look : Look) :
    (r.manuscript look).content.education.map EducationEntry.call =
      (r.education.filter Education.isMeaningful).map fun e => command "educationEntry" e.arguments := by
  rw [← funext Education.call_eq]
  exact List.map_map

theorem calls_projects (r : Resume) (look : Look) :
    (r.manuscript look).content.projects.map ProjectEntry.call =
      (r.projects.filter Project.isMeaningful).map fun p => command "projectEntry" p.arguments := by
  rw [← funext Project.call_eq]
  exact List.map_map

/-- The control sequences of a section. -/
def Block.allControls (b : Block) : List Token :=
  frameControls ++ b.commands

/-- The sections, a summary with one title only. -/
def Block.kinds : List Block :=
  [.summary "", .contact, .links, .skills, .experience, .education, .shortEducation, .projects, .custom,
    .certifications, .positions, .activities, .coursework]

/-- What holds of each kind of section, and of a summary whatever its title is, holds of every section. -/
theorem Block.forall_of_kinds {p : Block → Prop} (title : ∀ t, p (.summary "") → p (.summary t))
    (kinds : ∀ b ∈ Block.kinds, p b) (b : Block) : p b := by
  cases b with
  | summary t => exact title t (kinds _ (by decide))
  | _ => exact kinds _ (by decide)

/-- The sections of the user's own that say anything. -/
theorem blocks_custom (r : Resume) (look : Look) (style : SectionStyle) :
    (r.manuscript look).content.customSections.map (CustomEntry.block style) =
      (r.customSections.filter CustomSection.isMeaningful).map fun s => s.entry.block style :=
  List.map_map

theorem ends_customBlock (s : CustomSection) (style : SectionStyle) :
    Ends .loose (s.entry.block style).render := by
  have flow : Flow (Block.allControls .custom) .loose (s.entry.block style) :=
    flow_customBlock style (List.subset_append_left _ _) (.ofText s.title)
      (flow_paragraphs s.content (by decide))
  exact flow.inert.ends

theorem flow_skillsBody (r : Resume) (look : Look) (layout : SkillsLayout)
    (listed : Block.commands .skills ⊆ controls) :
    Flow controls .tight (code "\n" ++ skillsBody (r.manuscript look) layout) := by
  have newline : Flow controls .tight (code "\n") := .ink (by decide)
  have items : ∀ p ∈ textItems r.skills, Flow controls .tight p := flow_textItems r.skills
  have lists : listControls ⊆ Block.commands .skills := by decide
  have grid : gridControls ⊆ Block.commands .skills := by decide
  cases layout with
  | inline => exact newline.append (.join (.ink (by decide)) items)
  | bulleted =>
      exact newline.append (flow_itemize (List.Subset.trans lists listed) (ink_skillOptions look.spacing) items)
  | grid columns => exact flow_skillsGrid columns (List.Subset.trans grid listed) items

/-- Entries with vertical space between them, on lines of their own. -/
theorem flow_entries {s : Spacing} {entries : List Source} (listed : word "vspace" ∈ controls)
    (lined : ∀ p ∈ entries, Flow controls .loose (code "\n" ++ p)) :
    Flow controls .loose (code "\n" ++ join (entryGap s) entries) := by
  cases entries with
  | nil => exact (Flow.ink (by decide)).toLoose
  | cons p rest => exact flow_joinGap (Ink.smallLength s) listed (by simp) lined lined

/-- The title of a section that has one of its own. -/
def Block.title : Block → String
  | summary title => title
  | contact => "Contact"
  | links => "Links"
  | skills => "Skills"
  | experience => "Experience"
  | education => "Education"
  | shortEducation => "Education"
  | projects => "Projects"
  | custom => ""
  | certifications => "Certifications"
  | positions => "Positions of Responsibility"
  | activities => "Extracurricular Activities"
  | coursework => "Relevant Coursework"

/-- What stands under the heading of a section. The sections of the user's own have no common heading. -/
def Block.body (m : Manuscript) (style : SectionStyle) : Block → Source
  | summary _ => m.content.summary
  | contact => join lineBreak m.content.contactItems
  | links => join lineBreak m.content.links
  | skills => skillsBody m style.skills
  | experience => join (entryGap m.look.spacing) (m.content.experiences.map ExperienceEntry.call)
  | education => join (entryGap m.look.spacing) (m.content.education.map EducationEntry.call)
  | shortEducation => joinNonEmpty (entryGap m.look.spacing) (m.content.education.map EducationEntry.short)
  | projects => join (entryGap m.look.spacing) (m.content.projects.map ProjectEntry.call)
  | custom => joinSections m.look.spacing (m.content.customSections.map (CustomEntry.block style))
  | certifications => plainList m.content.certifications
  | positions => plainList (m.content.positions.map PositionEntry.line)
  | activities => plainList (m.content.activities.map ActivityEntry.line)
  | coursework => join (code ", ") m.content.coursework

/-- A section is its body under its heading, unless it is one of the user's own. -/
theorem Block.compose_eq {b : Block} (h : b ≠ custom) (m : Manuscript) (style : SectionStyle) :
    b.compose m style = style.wrap b.title (b.body m style) := by
  cases b with
  | custom => exact absurd rfl h
  | _ => rfl

/-- The title of a section means nothing but itself. -/
theorem Block.ink_title {b : Block} (title : ∀ t, b = .summary t → Ink t) : Ink b.title := by
  cases b with
  | summary t => exact title t rfl
  | _ => decide

/-- The body of a section on a line of its own. Headings and rules stand in no body. -/
theorem Block.flow_body (r : Resume) (look : Look) (style : SectionStyle) {b : Block} (h : b ≠ custom) :
    Flow b.commands .loose (code "\n" ++ b.body (r.manuscript look) style) := by
  have newline : ∀ controls, Flow controls .tight (code "\n") := fun _ => .ink (by decide)
  have plain : Ink "[leftmargin=*,noitemsep]" := by decide
  cases b with
  | custom => exact absurd rfl h
  | summary t => exact ((newline _).append (Flow.ofText r.summary)).toLoose
  | contact =>
      have between : Flow [breakSymbol] .tight lineBreak := .literal (by decide)
      exact ((newline _).append (Flow.join between (flow_contactItems r))).toLoose
  | links =>
      have between : Flow [breakSymbol] .tight lineBreak := .literal (by decide)
      exact ((newline _).append (Flow.join between (flow_linkItems r.links))).toLoose
  | skills => exact (flow_skillsBody r look style.skills (List.Subset.refl _)).toLoose
  | experience =>
      refine flow_entries (by decide) ?_
      intro p member
      obtain ⟨entry, among, rfl⟩ := List.mem_map.1 member
      obtain ⟨e, -, rfl⟩ := List.mem_map.1 among
      exact ((newline _).append (flow_experience e look.spacing (by decide) (by decide))).toLoose
  | education =>
      refine flow_entries (by decide) ?_
      intro p member
      obtain ⟨entry, among, rfl⟩ := List.mem_map.1 member
      obtain ⟨e, -, rfl⟩ := List.mem_map.1 among
      exact ((newline _).append (flow_education e (by decide))).toLoose
  | shortEducation =>
      refine flow_entries (by decide) ?_
      intro p member
      obtain ⟨entry, among, rfl⟩ := List.mem_map.1 (List.mem_filter.1 member).1
      obtain ⟨e, -, rfl⟩ := List.mem_map.1 among
      exact (e.flow_short (by decide)).toLoose
  | projects =>
      refine flow_entries (by decide) ?_
      intro p member
      obtain ⟨entry, among, rfl⟩ := List.mem_map.1 member
      obtain ⟨e, -, rfl⟩ := List.mem_map.1 among
      exact ((newline _).append (flow_project e (by decide))).toLoose
  | certifications =>
      have list := flow_itemize (List.Subset.refl listControls) plain
        (flow_textItems (r.extras.getD {}).certifications)
      exact ((newline _).append list).toLoose
  | positions =>
      have list : Flow (commands .positions) .tight
          (plainList ((r.manuscript look).content.positions.map PositionEntry.line)) := by
        refine flow_itemize (by decide) plain ?_
        intro p member
        obtain ⟨entry, among, rfl⟩ := List.mem_map.1 member
        obtain ⟨e, -, rfl⟩ := List.mem_map.1 among
        exact e.flow_line (by decide)
      exact ((newline _).append list).toLoose
  | activities =>
      have list : Flow (commands .activities) .tight
          (plainList ((r.manuscript look).content.activities.map ActivityEntry.line)) := by
        refine flow_itemize (by decide) plain ?_
        intro p member
        obtain ⟨entry, among, rfl⟩ := List.mem_map.1 member
        obtain ⟨a, -, rfl⟩ := List.mem_map.1 among
        exact flow_activity (by decide) (.ofText a.name) (.ofText a.description)
      exact ((newline _).append list).toLoose
  | coursework =>
      have comma : Flow [] .tight (code ", ") := .ink (by decide)
      have line := Flow.join comma (flow_textItems (r.extras.getD {}).coursework)
      exact ((newline _).append line).toLoose

/-- The source of every block of every resume. -/
theorem Block.flow (r : Resume) (look : Look) (style : SectionStyle) (b : Block)
    (title : ∀ t, b = .summary t → Ink t) :
    Flow b.allControls .loose (b.compose (r.manuscript look) style) := by
  have frame : frameControls ⊆ b.allControls := List.subset_append_left _ _
  have own : b.commands ⊆ b.allControls := List.subset_append_right _ _
  by_cases common : b = custom
  · -- each section of the user's own has a heading of its own, or none
    subst common
    refine flow_joinSections (own (by decide)) ?_
    intro p member
    obtain ⟨entry, among, rfl⟩ := List.mem_map.1 member
    obtain ⟨s, -, rfl⟩ := List.mem_map.1 among
    exact flow_customBlock style frame (.ofText s.title) (flow_paragraphs s.content (own (by decide)))
  · rw [compose_eq common]
    exact flow_wrap (ink_title title) frame ((flow_body r look style common).mono own)

end Vitae
