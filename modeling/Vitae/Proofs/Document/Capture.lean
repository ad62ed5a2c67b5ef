/-
Module: Vitae.Proofs.Document.Capture
Layer: Proofs
Purpose: Which texts of a resume are taken for options. In the body of a document, commands look past space
  behind items and line breaks, and what they take is exactly what the texts that stand there begin with.
Imports: Vitae.Proofs.Document.Scan, Vitae.Proofs.Section.Capture
Main exports: Block.exposed, finds_exposed, exposedTexts, captures_body, captures_nothing_iff
-/
import Vitae.Proofs.Document.Scan
import Vitae.Proofs.Section.Capture

namespace Vitae

open Tex Text

/-! ### Texts behind commands -/

/-- What the line of a field opens with, if the field is not blank. -/
def openingOf (field : String) (opening : Option String) : List (Option String) :=
  if hasText field then [opening] else []

/-- What the contact lines open with: phone and location are plain text, the others are links. -/
def contactOpenings (r : Resume) : List (Option String) :=
  openingOf r.email none ++ openingOf r.phone (some r.phone) ++
    openingOf r.location (some r.location) ++ openingOf r.website none

/-- What the line of a link opens with: the label alone where there is no address. -/
def Link.opening (l : Link) : Option String :=
  if hasText l.url then none else some l.label

/-- What an activity opens with: its description where it has no name. -/
def Activity.opening (a : Activity) : Option String :=
  if hasText a.name then none else some a.description

/-- The texts that stand behind a command, in their order. -/
def behind (command : Token) (openings : List (Option String)) : List Exposure :=
  (openings.filterMap id).map (Exposure.mk command)

/-- The texts of a section that stand right behind the command of an item or behind a line break. -/
def Block.exposed (r : Resume) (style : SectionStyle) : Block → List Exposure
  | contact => behind breakSymbol (contactOpenings r).tail
  | links => behind breakSymbol ((r.links.filter Link.isMeaningful).map Link.opening).tail
  | skills =>
      match style.skills with
      | .inline => []
      | .bulleted => behind (word "item") ((r.skills.filter hasText).map some)
      | .grid columns =>
          behind breakSymbol ((rowTexts (max columns 1) (r.skills.filter hasText)).map some)
  | experience =>
      (r.experiences.filter Experience.isMeaningful).flatMap fun e =>
        behind (word "item") ((e.bullets.filter hasText).map some)
  | certifications =>
      behind (word "item") (((r.extras.getD {}).certifications.filter hasText).map some)
  | activities =>
      behind (word "item")
        (((r.extras.getD {}).activities.filter Activity.isMeaningful).map Activity.opening)
  | _ => []

theorem taken_behind (command : Token) (openings : List (Option String)) :
    (behind command openings).flatMap Exposure.taken =
      (openings.filterMap id).flatMap fun t => Exposure.taken ⟨command, t⟩ := by
  rw [behind, List.flatMap_map]

/-! ### What lines and items open with -/

theorem openings_itemOf {field : String} {item : Source} {opening : Option String}
    (h : hasText field = true → Opens item opening) :
    List.Forall₂ Opens (itemOf field item) (openingOf field opening) := by
  unfold itemOf openingOf
  split
  case isTrue shown => exact .cons (h shown) .nil
  case isFalse => exact .nil

theorem openings_contactItems (r : Resume) :
    List.Forall₂ Opens (contactItems r) (contactOpenings r) := by
  have email : Opens (href (code "mailto:" ++ [.url (trim r.email)]) (text r.email)) none := by
    refine opens_href ?_ (.ofText r.email)
    intro p member
    simp only [code, List.cons_append, List.nil_append, List.mem_cons, List.not_mem_nil,
      or_false] at member
    rcases member with rfl | rfl
    · exact (by decide : Ink "mailto:")
    · exact trivial
  have website : Opens (linkTo r.website (text r.website)) none := opens_linkTo _ (.ofText _)
  exact List.rel_append (List.rel_append (List.rel_append (openings_itemOf fun _ => email)
    (openings_itemOf opens_text)) (openings_itemOf opens_text)) (openings_itemOf fun _ => website)

theorem openings_linkItems (links : List Link) :
    List.Forall₂ Opens (linkItems links) ((links.filter Link.isMeaningful).map Link.opening) := by
  have each : ∀ l ∈ links.filter Link.isMeaningful, ∃ s, l.source? = some s ∧ Opens s l.opening := by
    intro l member
    have meaningful := (List.mem_filter.1 member).2
    cases label : hasText l.label <;> cases url : hasText l.url
    · simp [Link.isMeaningful, label, url] at meaningful
    · refine ⟨linkTo l.url (text l.url), by simp [Link.source?, label, url], ?_⟩
      simpa [Link.opening, url] using opens_linkTo l.url (.ofText l.url)
    · refine ⟨text l.label, by simp [Link.source?, label, url], ?_⟩
      simpa [Link.opening, url] using opens_text label
    · refine ⟨linkTo l.url (text l.label), by simp [Link.source?, label, url], ?_⟩
      simpa [Link.opening, url] using opens_linkTo l.url (.ofText l.label)
  unfold linkItems
  generalize links.filter Link.isMeaningful = shown at *
  induction shown with
  | nil => exact .nil
  | cons l rest ih =>
      obtain ⟨s, source, opens⟩ := each l List.mem_cons_self
      rw [List.filterMap_cons, source, List.map_cons]
      exact .cons opens (ih fun m member => each m (List.mem_cons_of_mem l member))

theorem lead_bold {body : Source} (flow : Flow [] .tight body) (rest : Source) :
    afterSpace (tokens (Source.render (bold body ++ rest))) = some (word "textbf") := by
  have bolded : Flow [word "textbf"] .tight (bold body) := flow_bold (by simp) (flow.mono (by simp))
  have ends : Ends .loose ("\\" ++ "textbf" : String).toList := by decide
  have written : tokens ("\\" ++ "textbf" : String).toList = [word "textbf"] := by decide
  have flows : ∀ a ∈ [body], Flow [] .loose a := by simpa using flow.toLoose
  have read := Flow.tokens_call ends (by simp) flows []
  rw [List.append_nil, written] at read
  rw [bolded.tokens_append, bold, command, read]
  rfl

theorem opens_activity {a : Activity} (h : a.isMeaningful = true) : Opens a.entry.line a.opening := by
  have flow : Flow [word "textbf"] .tight a.entry.line :=
    flow_activity (by simp) (.ofText a.name) (.ofText a.description)
  cases name : hasText a.name with
  | true =>
      have lead : afterSpace (tokens a.entry.line.render) = some (word "textbf") := by
        rw [ActivityEntry.line, Activity.entry]
        simp only [isBlank_text, name]
        cases hasText a.description
        · simpa using lead_bold (.ofText a.name) []
        · simpa using lead_bold (.ofText a.name) (code ": " ++ text a.description)
      have none : a.opening = .none := by simp [Activity.opening, name]
      rw [none]
      exact opens_command flow (by decide) lead (by simp [word])
  | false =>
      have description : hasText a.description = true := by simpa [Activity.isMeaningful, name] using h
      have line : a.entry.line = text a.description := by
        simp [ActivityEntry.line, Activity.entry, isBlank_text, name]
      have opening : a.opening = some a.description := by simp [Activity.opening, name]
      rw [line, opening]
      exact opens_text description

/-- Who held a position begins in bold, or nobody is named. -/
theorem holder_cases (p : Position) :
    (∃ raw rest, p.entry.holder = bold (text raw) ++ rest) ∨
      (p.entry.holder = [] ∧ hasText p.title = false ∧ hasText p.organization = false) := by
  rw [PositionEntry.holder, Position.entry]
  cases title : hasText p.title with
  | true =>
      cases organization : hasText p.organization with
      | true =>
          refine .inl ⟨p.title, code ", " ++ text p.organization, ?_⟩
          simp [isBlank_text, title, organization]
      | false =>
          refine .inl ⟨p.title, [], ?_⟩
          simp [isBlank_text, title, organization]
  | false =>
      cases organization : hasText p.organization with
      | true =>
          refine .inl ⟨p.organization, [], ?_⟩
          simp [isBlank_text, title, organization]
      | false =>
          refine .inr ⟨?_, rfl, rfl⟩
          simp [isBlank_text, title, organization]

theorem opens_position {p : Position} (h : p.isMeaningful = true) : Opens p.entry.line none := by
  have flow : Flow positionControls .tight p.entry.line := p.flow_line (List.Subset.refl _)
  rcases holder_cases p with ⟨raw, rest, holder⟩ | ⟨nobody, title, organization⟩
  · have lead : afterSpace (tokens p.entry.line.render) = some (word "textbf") := by
      rw [PositionEntry.line, holder, List.append_assoc]
      exact lead_bold (.ofText raw) _
    exact opens_command flow (by decide) lead (by simp [word])
  · have dated : hasText p.date = true := by
      simpa [Position.isMeaningful, title, organization] using h
    have visible : p.entry.date.isBlank = false := by
      simp [Position.entry, isBlank_text, dated]
    have lead : afterSpace (tokens p.entry.line.render) = some (word "hfill") := by
      rw [PositionEntry.line, nobody, visible, List.nil_append, if_neg (by simp),
        Source.render_append, render_code, tokens_append (by decide)]
      exact afterSpace_append (by decide) _
    exact opens_command flow (by decide) lead (by simp [word])

/-! ### Sections -/

/-- The break in a short course of study takes nothing: a group stands behind it. -/
theorem finds_short (e : Education) :
    Ends .loose e.entry.short.render ∧ captureScanner.Finds (tokens e.entry.short.render) [] := by
  have school : Flow [word "textbf"] .tight (bold (text e.school)) := flow_bold (by simp) (.ofText _)
  have size : Flow [word "small"] .tight (code "\\small ") := .literal (by decide)
  have inside : Flow [word "small"] .tight (code "\\small " ++ text e.degree) := size.append (.ofText _)
  have degree : tokens (small (text e.degree)).render =
      .opening :: (tokens (Source.render (code "\\small " ++ text e.degree)) ++ [.closing]) := by
    rw [small, render_group, tokens_group inside.toLoose.inert.ends []]
    rfl
  have ends : Ends .tight (small (text e.degree)).render := by
    rw [small, render_group]
    exact Calm.ends_group inside.toLoose.inert.ends
  have quiet : captureScanner.Finds (tokens (small (text e.degree)).render) [] := by
    rw [degree]
    exact .group (by decide) (Scanner.finds_flow inside (by decide))
  rw [EducationEntry.short, Education.entry]
  dsimp only
  split
  · have lead : afterSpace (.char '\n' :: tokens (small (text e.degree)).render) = some .opening := by
      rw [degree]
      rfl
    have newline : captureScanner.Finds [.char '\n'] [] := Scanner.finds_chars (by decide) ['\n']
    have found := finds_looker breakSymbol (by decide) lead (newline.append quiet)
    rw [takenOf_eq_nil lead (by simp)] at found
    have lineBreak : ∀ s : List Char, tokens ("\\\\\n".toList ++ s) =
        breakSymbol :: .char '\n' :: tokens s := by
      intro s
      rw [tokens_append (by decide)]
      rfl
    have shape : Source.render (bold (text e.school) ++ code "\\\\\n" ++ small (text e.degree)) =
        Source.render (bold (text e.school)) ++ ("\\\\\n".toList ++ (small (text e.degree)).render) := by
      simp
    rw [shape, tokens_append school.inert.ends, lineBreak]
    refine ⟨?_, (Scanner.finds_flow school (by decide)).append found⟩
    exact school.inert.ends.append ((by decide : Ends .tight "\\\\\n".toList).append ends.loosen)
  · exact ⟨school.toLoose.inert.ends, Scanner.finds_flow school (by decide)⟩
  · exact ⟨ends.loosen, quiet⟩
  · have dates : Flow [] .tight (period e.startDate e.endDate) := flow_period _ _
    exact ⟨dates.toLoose.inert.ends, Scanner.finds_flow dates (by decide)⟩

/-- The bullets of a job stand behind the commands of their list. -/
theorem finds_experience (e : Experience) (s : Spacing) :
    captureScanner.Finds (tokens (e.entry s).call.render)
      ((behind (word "item") ((e.bullets.filter hasText).map some)).flatMap Exposure.taken) := by
  have flows := e.flow_arguments s (List.Subset.refl listControls)
  have isCode : Ends .loose ("\\" ++ "resumeEntry" : String).toList := by decide
  have written : tokens ("\\" ++ "resumeEntry" : String).toList = [word "resumeEntry"] := by decide
  have read := Flow.tokens_call isCode (by simp [Experience.arguments])
    (fun a member => (flows a member).toLoose) []
  have command : captureScanner.Finds [word "resumeEntry"] [] := .skip (by decide)
  have role : Flow [] .tight (text e.role) := .ofText _
  have company : Flow [] .tight (text e.company) := .ofText _
  have dates : Flow [] .tight (period e.startDate e.endDate) := flow_period _ _
  have bullets := finds_openings (ink_bulletOptions s) (openings_textItems e.bullets)
  have quiet : ∀ {a : Source}, Flow [] .tight a →
      captureScanner.Finds (.opening :: (tokens a.render ++ [.closing])) [] :=
    fun flow => .group (by decide) (Scanner.finds_flow flow (by decide))
  have found := command.append ((quiet role).append ((quiet company).append ((quiet dates).append
    (Scanner.Finds.group (by decide) bullets))))
  rw [List.append_nil, tokens_nil, List.append_nil, written] at read
  rw [Experience.call_eq, Tex.command, read, taken_behind]
  simpa [Experience.arguments, groupTokens, bulletList] using found

/-- Lines with breaks between them, under a heading. -/
theorem finds_lineSection {style : SectionStyle} {title : String} {lines : List Source}
    {openings : List (Option String)} (ink : Ink title) (h : List.Forall₂ Opens lines openings)
    (flows : ∀ p ∈ lines, Flow [breakSymbol] .tight p) :
    captureScanner.Finds (tokens (style.wrap title (join lineBreak lines)).render)
      ((behind breakSymbol openings.tail).flatMap Exposure.taken) := by
  have between : Flow [breakSymbol] .tight lineBreak := .literal (by decide)
  rw [taken_behind]
  exact finds_wrap (by decide) ink (Flow.join between flows).toLoose.inert.ends (finds_lineOpenings h)

/-- A list under a heading. -/
theorem finds_listSection {controls : List Token} {style : SectionStyle} {title options : String}
    {items : List Source} {openings : List (Option String)} (ink : Ink title) (options_ink : Ink options)
    (h : List.Forall₂ Opens items openings) (listed : listControls ⊆ controls)
    (flows : ∀ p ∈ items, Flow controls .tight p) :
    captureScanner.Finds (tokens (style.wrap title (itemize options items)).render)
      ((behind (word "item") openings).flatMap Exposure.taken) := by
  have list : Flow controls .tight (itemize options items) := flow_itemize listed options_ink flows
  rw [taken_behind]
  exact finds_wrap (by decide) ink list.toLoose.inert.ends (finds_openings options_ink h)

theorem finds_skills (r : Resume) (look : Look) (style : SectionStyle) :
    captureScanner.Finds (tokens (Block.skills.compose (r.manuscript look) style).render)
      ((Block.skills.exposed r style).flatMap Exposure.taken) := by
  have lined := (flow_skillsBody r look style.skills (List.Subset.refl _)).toLoose.inert.ends
  have ends : Ends .loose (Source.render (skillsBody (r.manuscript look) style.skills)) := by
    rw [Source.render_append, render_code] at lined
    exact lined
  have found : captureScanner.Finds
      (tokens (Source.render (skillsBody (r.manuscript look) style.skills)))
      ((Block.skills.exposed r style).flatMap Exposure.taken) := by
    rw [Block.exposed]
    cases style.skills with
    | inline =>
        have line : Flow [] .tight (skillLine (textItems r.skills)) :=
          .join (.ink (by decide)) (flow_textItems r.skills)
        exact Scanner.finds_flow line (by decide)
    | bulleted =>
        rw [taken_behind]
        exact finds_openings (ink_skillOptions look.spacing) (openings_textItems r.skills)
    | grid columns =>
        have texts : ∀ ts : List String, (ts.map some).filterMap id = ts := by simp
        rw [taken_behind, texts]
        exact finds_skillsGrid columns r.skills
  exact finds_wrap (by decide) (by decide) ends found

theorem finds_experiences (r : Resume) (look : Look) (style : SectionStyle) :
    captureScanner.Finds (tokens (Block.experience.compose (r.manuscript look) style).render)
      ((Block.experience.exposed r style).flatMap Exposure.taken) := by
  have entries : (r.manuscript look).content.experiences.map ExperienceEntry.call =
      (r.experiences.filter Experience.isMeaningful).map fun e => (e.entry look.spacing).call :=
    List.map_map
  have ends : ∀ e : Experience, Ends .loose (e.entry look.spacing).call.render := by
    intro e
    have flow : Flow (Block.commands .experience) .tight (e.entry look.spacing).call :=
      flow_experience e look.spacing (by decide) (by decide)
    exact flow.toLoose.inert.ends
  have inside : captureScanner.Finds
      (tokens (Source.render (join (gap look.spacing.smallLength)
        ((r.experiences.filter Experience.isMeaningful).map fun e => (e.entry look.spacing).call))))
      ((r.experiences.filter Experience.isMeaningful).flatMap fun e =>
        (behind (word "item") ((e.bullets.filter hasText).map some)).flatMap Exposure.taken) :=
    finds_joinGap (Ink.smallLength look.spacing) (by decide) (fun e _ => ends e)
      fun e _ => finds_experience e look.spacing
  rw [Block.compose, entries, Block.exposed, List.flatMap_assoc]
  refine finds_wrap (by decide) (by decide) (ends_joinGap (Ink.smallLength look.spacing) ?_) inside
  intro p member
  obtain ⟨e, -, rfl⟩ := List.mem_map.1 member
  exact ends e

theorem finds_shortEducation (r : Resume) (look : Look) (style : SectionStyle) :
    captureScanner.Finds (tokens (Block.shortEducation.compose (r.manuscript look) style).render)
      ((Block.shortEducation.exposed r style).flatMap Exposure.taken) := by
  have entries : (r.manuscript look).content.education.map EducationEntry.short =
      (r.education.filter Education.isMeaningful).map fun e => e.entry.short :=
    List.map_map
  have inside : captureScanner.Finds
      (tokens (joinNonEmpty (gap look.spacing.smallLength)
        ((r.education.filter Education.isMeaningful).map fun e => e.entry.short)).render)
      ((r.education.filter Education.isMeaningful).flatMap fun _ => []) :=
    finds_joinVisible (Ink.smallLength look.spacing) (by decide) (fun e _ => (finds_short e).1)
      fun e _ => (finds_short e).2
  have nothing : ((r.education.filter Education.isMeaningful).flatMap fun _ => ([] : List Char)) = [] := by
    simp
  rw [nothing] at inside
  rw [Block.compose, entries]
  refine finds_wrap (by decide) (by decide) (ends_joinGap (Ink.smallLength look.spacing) ?_) inside
  intro p member
  obtain ⟨e, -, rfl⟩ := List.mem_map.1 (List.mem_filter.1 member).1
  exact (finds_short e).1

theorem finds_positions (r : Resume) (look : Look) (style : SectionStyle) :
    captureScanner.Finds (tokens (Block.positions.compose (r.manuscript look) style).render)
      ((Block.positions.exposed r style).flatMap Exposure.taken) := by
  have lines : (r.manuscript look).content.positions.map PositionEntry.line =
      ((r.extras.getD {}).positions.filter Position.isMeaningful).map fun p => p.entry.line :=
    List.map_map
  have openings : List.Forall₂ Opens
      (((r.extras.getD {}).positions.filter Position.isMeaningful).map fun p => p.entry.line)
      (((r.extras.getD {}).positions.filter Position.isMeaningful).map fun _ => none) := by
    rw [List.forall₂_map_left_iff, List.forall₂_map_right_iff, List.forall₂_same]
    intro p member
    exact opens_position (List.mem_filter.1 member).2
  have found : captureScanner.Finds (tokens (Block.positions.compose (r.manuscript look) style).render)
      ((behind (word "item") (((r.extras.getD {}).positions.filter Position.isMeaningful).map
        fun _ => none)).flatMap Exposure.taken) := by
    rw [Block.compose, lines]
    refine finds_listSection (by decide) (by decide) openings
      (List.subset_append_right positionControls listControls) ?_
    intro line member
    obtain ⟨p, -, rfl⟩ := List.mem_map.1 member
    exact p.flow_line (List.subset_append_left _ _)
  have nothing : ∀ ps : List Position, (ps.map fun _ => (none : Option String)).filterMap id = [] := by
    simp
  rw [taken_behind, nothing] at found
  exact found

theorem finds_activities (r : Resume) (look : Look) (style : SectionStyle) :
    captureScanner.Finds (tokens (Block.activities.compose (r.manuscript look) style).render)
      ((Block.activities.exposed r style).flatMap Exposure.taken) := by
  have lines : (r.manuscript look).content.activities.map ActivityEntry.line =
      ((r.extras.getD {}).activities.filter Activity.isMeaningful).map fun a => a.entry.line :=
    List.map_map
  have openings : List.Forall₂ Opens
      (((r.extras.getD {}).activities.filter Activity.isMeaningful).map fun a => a.entry.line)
      (((r.extras.getD {}).activities.filter Activity.isMeaningful).map Activity.opening) := by
    rw [List.forall₂_map_left_iff, List.forall₂_map_right_iff, List.forall₂_same]
    intro a member
    exact opens_activity (List.mem_filter.1 member).2
  rw [Block.compose, lines]
  refine finds_listSection (by decide) (by decide) openings
    (List.subset_cons_self (word "textbf") listControls) ?_
  intro line member
  obtain ⟨a, -, rfl⟩ := List.mem_map.1 member
  exact flow_activity (by simp) (.ofText a.name) (.ofText a.description)

/-- What the commands of a section take is what the texts behind them begin with. -/
theorem finds_exposed (r : Resume) (look : Look) (style : SectionStyle) (b : Block)
    (title : ∀ t, b = .summary t → Ink t) :
    captureScanner.Finds (tokens (b.compose (r.manuscript look) style).render)
      ((b.exposed r style).flatMap Exposure.taken) := by
  have plain : Ink "[leftmargin=*,noitemsep]" := by decide
  cases b with
  | summary t =>
      exact Scanner.finds_flow (Block.flow r look style (.summary t) title)
        (by decide : captureScanner.ignores (frameControls ++ []) = true)
  | education => exact Scanner.finds_flow (Block.flow r look style .education title) (by decide)
  | projects => exact Scanner.finds_flow (Block.flow r look style .projects title) (by decide)
  | custom => exact Scanner.finds_flow (Block.flow r look style .custom title) (by decide)
  | coursework => exact Scanner.finds_flow (Block.flow r look style .coursework title) (by decide)
  | contact =>
      exact finds_lineSection (by decide) (openings_contactItems r) (flow_contactItems r)
  | links =>
      exact finds_lineSection (by decide) (openings_linkItems r.links) (flow_linkItems r.links)
  | skills => exact finds_skills r look style
  | experience => exact finds_experiences r look style
  | shortEducation => exact finds_shortEducation r look style
  | certifications =>
      exact finds_listSection (by decide) plain (openings_textItems _) (List.Subset.refl _)
        (flow_textItems _)
  | positions => exact finds_positions r look style
  | activities => exact finds_activities r look style

end Vitae

namespace Vitae.Template

open Tex

/-! ### Documents -/

/-- The texts of a resume that stand right behind the command of an item or behind a line break in its
document, in a design and for a look. -/
def exposedTexts (key : TemplateKey) (r : Resume) (look : Look) : List Exposure :=
  (Design.ofKey key).parts.flatMap (Part.collect (fun _ _ => []) (Block.exposed r) look)

/-- What the commands in the body of a document take is what the texts behind them begin with: nothing else
of a resume and nothing of the designs is taken for an option or a star. -/
theorem captures_body (key : TemplateKey) (r : Resume) (look : Look) :
    (readBody ((Design.ofKey key).chars (r.manuscript look))).map captures =
      some ((exposedTexts key r look).flatMap Exposure.taken) := by
  have survey : Survey captureScanner key r look (fun _ _ => [])
      fun style b => (b.exposed r style).flatMap Exposure.taken := by
    refine ⟨by decide, ?_, fun style b title => finds_exposed r look style b title⟩
    intro name arguments member
    have sound := part_sound member
    have flow := Part.flow r look (p := .call name arguments) sound (by simp)
    refine Scanner.finds_flow flow ?_
    rcases call_known sound with rfl | rfl
    · exact (by decide : captureScanner.ignores [word "header", word "textbullet"] = true)
    · exact (by decide : captureScanner.ignores [word "contact", word "textbullet"] = true)
  have parts : ∀ p : Part, p.collect (fun _ _ => [])
      (fun style b => (b.exposed r style).flatMap Exposure.taken) look =
        (p.collect (fun _ _ => []) (Block.exposed r) look).flatMap Exposure.taken := by
    intro p
    cases p with
    | region region => rw [Part.collect, Part.collect, List.flatMap_assoc]
    | _ => rfl
  have whole := survey.body
  rw [funext parts, ← List.flatMap_assoc] at whole
  exact whole

/-- No text of a resume is taken for an option or a star exactly where no text behind the command of an item
begins with a bracket, and none behind a line break with a bracket or a star. -/
theorem captures_nothing_iff (key : TemplateKey) (r : Resume) (o : StyleOptions) :
    (readBody ((Design.ofKey key).render (Manuscript.ofResume r o).value).toList).map captures = some [] ↔
      ∀ x ∈ exposedTexts key r (Look.ofOptions o).value, x.taken = [] := by
  rw [value_ofResume, Design.render, String.toList_ofList, captures_body, Option.some.injEq,
    List.flatMap_eq_nil_iff]

/-- A bullet that begins with a bracket is taken for the option of its item. -/
theorem captures_bullet :
    (readBody ((Design.ofKey .classic).render (Manuscript.ofResume
        { name := "Ann", experiences := [{ role := "Clerk", bullets := ["[draft] plan"] }] }
        {}).value).toList).map captures = some ['['] := by
  rw [value_ofResume, Design.render, String.toList_ofList, captures_body]
  decide

end Vitae.Template
