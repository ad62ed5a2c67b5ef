/-
Module: Vitae.Proofs.Document.Column
Layer: Proofs
Purpose: The narrow column of a document read back. It stands between the command that sets it ragged and the
  end of its environment, and what stands under a heading in it ends at the next vertical space.
Imports: Vitae.Proofs.Document.Heading, Vitae.Proofs.Section.Listing, Vitae.Proofs.Text.Split
Main exports: contentsUnder, column, NarrowColumn, NarrowColumn.column_eq, NarrowColumn.contents_inside
-/
import Vitae.Proofs.Document.Heading
import Vitae.Proofs.Section.Listing
import Vitae.Proofs.Text.Split

namespace Vitae

open Tex Text

/-! ### The end of a column -/

/-- The end of an environment behind its command. -/
def closingTail (name : String) : List Token :=
  .opening :: (name.toList.map .char ++ [.closing])

/-- The end of an environment. -/
def closing (name : String) : List Token :=
  word "end" :: closingTail name

/-- The ends of an environment, in their order. -/
def closings (name : String) : List Token → List Unit
  | [] => []
  | t :: rest =>
      if (closing name).isPrefixOf (t :: rest) then () :: closings name rest else closings name rest

/-- The reader that looks for the ends of an environment. -/
def closingScanner (name : String) : Scanner Unit where
  heads := [word "end"]
  scan := closings name
  scan_nil := rfl
  scan_skip := by
    intro t rest other
    have here : ¬ (closing name).isPrefixOf (t :: rest) = true := by
      rw [List.isPrefixOf_iff_prefix]
      intro begins
      exact other (List.mem_singleton.2 (List.cons_prefix_cons.1 begins).1.symm)
    rw [closings, if_neg here]

theorem ignores_closing {controls : List Token} (name : String) (foreign : isForeign controls (word "end") = true) :
    (closingScanner name).ignores controls = true := by
  simp [Scanner.ignores, closingScanner, foreign]

/-- Where no end of an environment is found, none begins. -/
theorem absent_of_finds {name : String} {ts : List Token} (h : (closingScanner name).Finds ts []) :
    Absent (closing name) ts := by
  have least : ∀ a rest : List Token, (closings name rest).length ≤ (closings name (a ++ rest)).length := by
    intro a rest
    induction a with
    | nil => exact Nat.le_refl _
    | cons t a ih =>
        rw [List.cons_append, closings]
        split
        · exact Nat.le_succ_of_le ih
        · exact ih
  induction ts with
  | nil => trivial
  | cons t ts ih =>
      -- an end that begins here would be one more than what follows holds
      have none : ∀ rest, ¬ (closing name).isPrefixOf (t :: (ts ++ rest)) = true := by
        intro rest begins
        have found := congrArg List.length (h rest)
        change (closings name (t :: (ts ++ rest))).length = (closings name rest).length at found
        rw [closings, if_pos begins, List.length_cons] at found
        have := least ts rest
        omega
      refine ⟨fun rest begins => none rest (List.isPrefixOf_iff_prefix.2 begins), ih fun rest => ?_⟩
      have found := h rest
      change closings name (t :: (ts ++ rest)) = closings name rest at found
      rw [closings, if_neg (none rest)] at found
      exact found

/-- The end of a list is the end of no other environment. -/
theorem finds_listClosing {name : String} (other : name.toList.head? ≠ some 'i') (some : name.toList ≠ []) :
    (closingScanner name).Finds listClosing [] := by
  intro rest
  obtain ⟨c, letters, shape⟩ := List.exists_cons_of_ne_nil some
  have first : c ≠ 'i' := by
    rintro rfl
    simp [shape] at other
  have here : (closing name).isPrefixOf (listClosing ++ rest) = false := by
    have written : listClosing = word "end" :: .opening :: .char 'i' :: listClosing.drop 3 := by decide
    rw [written, closing, closingTail, shape]
    simp [List.isPrefixOf, first]
  have after : (closingScanner name).Finds (listClosing.drop 1) [] :=
    .skip (by decide : ∀ t ∈ listClosing.drop 1, t ∉ [word "end"])
  have step : closings name (listClosing ++ rest) = closings name (listClosing.drop 1 ++ rest) := by
    have split : listClosing ++ rest = word "end" :: (listClosing.drop 1 ++ rest) := by
      rw [← List.cons_append]
      exact congrArg (· ++ rest) (by decide)
    rw [split] at here ⊢
    rw [closings, here, if_neg Bool.false_ne_true]
  exact step.trans (after rest)

/-- A list ends no other environment. -/
theorem finds_itemizeEnd {name options : String} {items : List Source} (other : name.toList.head? ≠ some 'i')
    (some : name.toList ≠ []) (ink : Ink options) (flows : ∀ p ∈ items, Flow [] .tight p) :
    (closingScanner name).Finds (tokens (itemize options items).render) [] := by
  by_cases none : items = []
  · rw [none]
    exact .nil
  have ends : ∀ p ∈ items, Ends .tight p.render := fun p member => (flows p member).inert.ends
  have opening : (closingScanner name).Finds listOpening [] :=
    .skip (by decide : ∀ t ∈ listOpening, t ∉ [word "end"])
  have silent : ∀ item ∈ items.map fun p => tokens p.render, word "end" ∉ item := by
    intro item member
    obtain ⟨p, among, rfl⟩ := List.mem_map.1 member
    exact (flows p among).not_mem (by decide)
  have body : (closingScanner name).Finds (listBody options (items.map fun p => tokens p.render)) [] := by
    refine .skip fun t member found => ?_
    rw [List.mem_singleton.1 found] at member
    exact not_mem_listBody (by decide) (by decide) silent member
  rw [tokens_itemize ink none ends]
  exact opening.append (body.append (finds_listClosing other some))

/-! ### Narrow sections -/

/-- The sections that a narrow column may hold. -/
def narrowBlocks : List Block :=
  [.contact, .links, .skills, .shortEducation, .coursework]

/-- A style for narrow columns: skills stand one to an item, and no rule closes a section. -/
def SectionStyle.IsNarrow (style : SectionStyle) : Prop :=
  style.skills = .bulleted ∧ style.rule = false

theorem ink_narrow {b : Block} (narrow : b ∈ narrowBlocks) : ∀ t, b = .summary t → Ink t := by
  rintro t rfl
  simp [narrowBlocks] at narrow

/-- No section of a narrow column ends the column. -/
theorem finds_closings {name : String} (other : name.toList.head? ≠ some 'i') (some : name.toList ≠ [])
    {style : SectionStyle} (narrow : style.IsNarrow) (r : Resume) (look : Look) {b : Block}
    (member : b ∈ narrowBlocks) :
    (closingScanner name).Finds (tokens (b.compose (r.manuscript look) style).render) [] := by
  have flow := b.flow r look style (ink_narrow member)
  by_cases skills : b = .skills
  · subst skills
    have items : ∀ p ∈ textItems r.skills, Flow [] .tight p := flow_textItems r.skills
    have list := finds_itemizeEnd other some (ink_skillOptions look.spacing) items
    have body : skillsBody (r.manuscript look) style.skills = skillList (textItems r.skills) look.spacing := by
      rw [narrow.1]
      rfl
    have ends : Ends .loose (skillList (textItems r.skills) look.spacing).render :=
      (flow_itemize (List.Subset.refl listControls) (ink_skillOptions look.spacing)
        (flow_textItems r.skills)).toLoose.inert.ends
    rw [Block.compose, body]
    exact finds_wrap (ignores_closing name (by decide)) (by decide) ends list
  · refine Scanner.finds_flow flow (ignores_closing name ?_)
    simp only [narrowBlocks, List.mem_cons, List.not_mem_nil, or_false] at member
    rcases member with rfl | rfl | rfl | rfl | rfl
    · decide
    · decide
    · exact absurd rfl skills
    · decide
    · decide

/-! ### What stands under a heading -/

/-- What stands under each heading with a title, up to the next vertical space. -/
def contentsUnder (title : List Char) : List Token → List (List Token)
  | [] => []
  | t :: rest =>
      if t ∈ headingWords then
        match readTitle rest with
        | some (found, under) =>
            if found = title then under.takeWhile (· != word "vspace") :: contentsUnder title rest
            else contentsUnder title rest
        | none => contentsUnder title rest
      else contentsUnder title rest

/-- The reader that looks for what stands under a heading. -/
def contentScanner (title : List Char) : Scanner (List Token) where
  heads := headingWords
  scan := contentsUnder title
  scan_nil := rfl
  scan_skip := by
    intro t rest other
    rw [contentsUnder, if_neg other]

variable {title : List Char}

/-- A heading with another title shows the reader nothing. -/
theorem finds_otherTitle {shown : Source} (h : Heading) (flow : Flow [] .loose shown)
    (other : unescape (tokens shown.render) ≠ title) :
    (contentScanner title).Finds (tokens (Source.render (command h.command [shown]))) [] := by
  refine finds_heading h flow rfl fun rest => ?_
  change contentsUnder title (h.tokens.1 :: _) = _
  rw [contentsUnder, if_pos h.tokens_mem, readTitle_heading h flow]
  dsimp only
  rw [if_neg other]
  rfl

theorem common_narrow {b : Block} (narrow : b ∈ narrowBlocks) : b ≠ .custom := by
  rintro rfl
  simp [narrowBlocks] at narrow

/-- Vertical space or nothing: what ends what stands under a heading. -/
def EndsContent (rest : List Token) : Prop :=
  rest = [] ∨ ∃ more, rest = word "vspace" :: more

/-- What a reader finds in a section that stands on lines of its own and has vertical space or nothing behind
it. -/
def FindsLined {α : Type} (f : Scanner α) (ts : List Token) (out : List α) : Prop :=
  ∀ rest, EndsContent rest → f.scan (ts ++ .char '\n' :: rest) = out ++ f.scan rest

/-- A section with another title shows the reader nothing. -/
theorem lined_other (r : Resume) (look : Look) (style : SectionStyle) {b : Block} (narrow : b ∈ narrowBlocks)
    (other : b.title.toList ≠ title) :
    FindsLined (contentScanner title) (tokens (b.compose (r.manuscript look) style).render) [] := by
  have common := common_narrow narrow
  have ink := Block.ink_title (ink_narrow narrow)
  have body := Block.flow_body r look style common
  have found : (contentScanner title).Finds (tokens (b.compose (r.manuscript look) style).render) [] := by
    rw [Block.compose_eq common, SectionStyle.wrap]
    split
    · exact .nil
    · have own : (contentScanner title).Finds
          (tokens (Source.render (command style.heading.command [code b.title]))) [] := by
        refine finds_otherTitle style.heading (Flow.ink ink).toLoose ?_
        rwa [unescape_code ink]
      have rule : (contentScanner title).ignores [word "sectionrule"] = true :=
        (by decide : headingScanner.ignores [word "sectionrule"] = true)
      exact finds_headed rule (Flow.ink ink).toLoose own body.inert.ends
        (Scanner.finds_flow body (ignores_commands b common))
  intro rest _
  have skipped : (contentScanner title).scan (.char '\n' :: rest) = (contentScanner title).scan rest :=
    (contentScanner title).scan_skip (by decide : Token.char '\n' ∉ headingWords)
  rw [found, skipped]

/-- What is read up to the next vertical space: a body on lines of its own, where there is no vertical space
in it. -/
theorem takeWhile_lined {body rest : List Token} (silent : word "vspace" ∉ body) (edge : EndsContent rest) :
    (Token.char '\n' :: (body ++ .char '\n' :: rest)).takeWhile (· != word "vspace") =
      .char '\n' :: (body ++ [.char '\n']) := by
  have split : Token.char '\n' :: (body ++ .char '\n' :: rest) =
      (.char '\n' :: (body ++ [.char '\n'])) ++ rest := by simp
  have whole : ∀ t ∈ Token.char '\n' :: (body ++ [.char '\n']), (t != word "vspace") = true := by
    intro t among
    rw [bne_iff_ne]
    rintro rfl
    simp [word] at among
    exact silent among
  rw [split, List.takeWhile_append_of_pos whole]
  rcases edge with rfl | ⟨more, rfl⟩
  · rw [List.takeWhile_nil, List.append_nil]
  · rw [List.takeWhile_cons_of_neg (by simp), List.append_nil]

/-- A heading with the title that is looked for, and a body under it without headings. -/
theorem contents_headed {shown : Source} (h : Heading) (flow : Flow [] .loose shown) {body rest : List Token}
    (same : unescape (tokens shown.render) = title) (plain : ∀ t ∈ body, t ∉ headingWords)
    (silent : word "vspace" ∉ body) (edge : EndsContent rest) :
    contentsUnder title (h.tokens.1 ::
        (h.tokens.2 ++ (groupTokens [tokens shown.render] ++ .char '\n' :: (body ++ .char '\n' :: rest)))) =
      (.char '\n' :: (body ++ [.char '\n'])) :: contentsUnder title rest := by
  have newline : (contentScanner title).Finds [.char '\n'] [] := .skip (by simp [contentScanner, headingWords, word])
  have inside : (contentScanner title).Finds (h.tokens.2 ++ groupTokens [tokens shown.render]) [] :=
    .skip (not_heading_title h flow)
  have under : (contentScanner title).Finds (.char '\n' :: (body ++ [.char '\n'])) [] :=
    newline.append ((Scanner.Finds.skip plain).append newline)
  have others : (contentScanner title).scan (h.tokens.2 ++ (groupTokens [tokens shown.render] ++
      .char '\n' :: (body ++ .char '\n' :: rest))) = (contentScanner title).scan rest := by
    simpa using (inside.append under) rest
  rw [contentsUnder, if_pos h.tokens_mem, readTitle_heading h flow]
  dsimp only
  rw [if_pos same, takeWhile_lined silent edge]
  exact congrArg _ others

/-- What stands under the heading of a section that is there: its body on lines of its own. -/
theorem lined_own (r : Resume) (look : Look) {style : SectionStyle} (narrow : style.rule = false) {b : Block}
    (member : b ∈ narrowBlocks) (silent : word "vspace" ∉ b.commands) :
    FindsLined (contentScanner b.title.toList) (tokens (b.compose (r.manuscript look) style).render)
      (if r.hasContent b then
        [.char '\n' :: (tokens (b.body (r.manuscript look) style).render ++ [.char '\n'])]
      else []) := by
  have common := common_narrow member
  have ink := Block.ink_title (ink_narrow member)
  have heading : Flow [] .loose (code b.title) := (Flow.ink ink).toLoose
  have flow := Block.flow_body r look style common
  have line : ∀ s : List Char, tokens ('\n' :: s) = .char '\n' :: tokens s := fun _ => rfl
  have inBody : ∀ t, isForeign b.commands t = true → t ∉ tokens (b.body (r.manuscript look) style).render := by
    intro t foreign within
    refine flow.not_mem foreign ?_
    rw [Source.render_append, render_code]
    exact List.mem_cons_of_mem _ within
  intro rest edge
  rw [Block.compose_eq common, SectionStyle.wrap, isBlank_body r look style common]
  cases r.hasContent b with
  | false => exact (contentScanner b.title.toList).scan_skip (by decide : Token.char '\n' ∉ headingWords)
  | true =>
      have source : (style.headed (code b.title) (b.body (r.manuscript look) style)).render =
          Source.render (command style.heading.command [code b.title]) ++
            '\n' :: (b.body (r.manuscript look) style).render := by
        simp [SectionStyle.headed, SectionStyle.headingLine, SectionStyle.closing, narrow]
      have plain : ∀ t ∈ tokens (b.body (r.manuscript look) style).render, t ∉ headingWords := by
        intro t within found
        exact inBody t (List.all_eq_true.1 (ignores_commands b common) t found) within
      have spaceless := inBody (word "vspace") (isForeign_iff.2 ⟨rfl, silent, by decide, by decide⟩)
      have found := contents_headed style.heading heading (unescape_code ink) plain spaceless edge
      rw [Bool.not_true, if_neg Bool.false_ne_true, if_pos rfl, source, tokens_heading style.heading heading, line,
        List.cons_append, List.append_assoc, List.append_assoc, List.cons_append]
      exact found

/-! ### Regions -/

/-- The line of vertical space between two sections. -/
def spaceLine (length : String) : Source :=
  command "vspace" [code length] ++ code "\n"

theorem flow_spaceLine {length : String} (ink : Ink length) : Flow [word "vspace"] .tight (spaceLine length) :=
  (flow_space ink List.mem_cons_self).append (.ink (by decide))

theorem tokens_spaceLine {length : String} (ink : Ink length) :
    tokens (spaceLine length).render =
      word "vspace" :: .opening :: (length.toList.map Token.char ++ [.closing, .char '\n']) := by
  have flows : ∀ a ∈ [code length], Flow [] .loose a := by simpa using (Flow.ink ink).toLoose
  have read := @Flow.tokens_call [] ("\\" ++ "vspace") [code length] (by decide) (by simp) flows ['\n']
  have written : tokens ("\\" ++ "vspace" : String).toList = [word "vspace"] := by decide
  have newline : tokens ['\n'] = [.char '\n'] := by decide
  have inside : tokens (code length).render = length.toList.map Token.char := by
    rw [render_code, tokens_ink ink]
  rw [written, newline, List.map_singleton, inside] at read
  rw [spaceLine, Source.render_append, render_code]
  refine read.trans ?_
  simp [groupTokens]

/-- Vertical space is a line of its own behind the end of a line. -/
theorem tokens_gap (length : String) :
    tokens (gap length).render = .char '\n' :: tokens (spaceLine length).render := by
  have shape : Source.render (gap length) = '\n' :: (spaceLine length).render := by simp [gap, spaceLine]
  rw [shape]
  rfl

/-- Sections with vertical space between them, up to the end of the column. -/
theorem lined_joinGap {α β : Type} {f : Scanner α} {length : String} {xs : List β} {g : β → Source}
    {out : β → List α} (ink : Ink length) (ignores : f.ignores [word "vspace"] = true)
    (skips : Token.char '\n' ∉ f.heads) (ends : ∀ x ∈ xs, Ends .loose (g x).render)
    (h : ∀ x ∈ xs, FindsLined f (tokens (g x).render) (out x)) :
    f.scan (tokens (join (gap length) (xs.map g)).render ++ [.char '\n']) = xs.flatMap out := by
  induction xs with
  | nil =>
      rw [List.map_nil, join_nil]
      exact (f.scan_skip skips).trans f.scan_nil
  | cons x rest ih =>
      have first := h x List.mem_cons_self
      have later := ih (fun y member => ends y (List.mem_cons_of_mem x member))
        fun y member => h y (List.mem_cons_of_mem x member)
      cases rest with
      | nil =>
          have alone := first [] (.inl rfl)
          rw [f.scan_nil] at alone
          simpa using alone
      | cons y rest =>
          -- the vertical space ends what stands under the heading
          have passed := Scanner.finds_flow (flow_spaceLine ink) ignores
          have edge : ∀ ts, EndsContent (tokens (spaceLine length).render ++ ts) := by
            intro ts
            rw [tokens_spaceLine ink]
            exact .inr ⟨_, rfl⟩
          rw [List.map_cons, List.map_cons, tokens_joinGap_cons ink (ends x List.mem_cons_self), tokens_gap,
            ← List.map_cons, List.append_assoc, List.append_assoc, List.cons_append, first _ (edge _), passed, later]
          rfl

/-- So do sections of which the empty ones are left out. -/
theorem lined_joinVisible {α β : Type} {f : Scanner α} {length : String} {xs : List β} {g : β → Source}
    {out : β → List α} (ink : Ink length) (ignores : f.ignores [word "vspace"] = true)
    (skips : Token.char '\n' ∉ f.heads) (ends : ∀ x ∈ xs, Ends .loose (g x).render)
    (h : ∀ x ∈ xs, FindsLined f (tokens (g x).render) (out x)) :
    f.scan (tokens (joinNonEmpty (gap length) (xs.map g)).render ++ [.char '\n']) = xs.flatMap out := by
  have kept : ∀ x ∈ xs.filter (fun x => !(g x).isBlank), x ∈ xs :=
    fun x member => (List.mem_filter.1 member).1
  have none : ∀ x ∈ xs, (g x).isBlank = true → out x = [] := by
    intro x member blank
    have alone := h x member [] (.inl rfl)
    rw [Source.isBlank_iff.1 blank, tokens_nil, List.nil_append, f.scan_skip skips, f.scan_nil,
      List.append_nil] at alone
    exact alone.symm
  rw [← flatMap_visible none, joinNonEmpty_map]
  exact lined_joinGap ink ignores skips (fun x member => ends x (kept x member))
    fun x member => h x (kept x member)

end Vitae

namespace Vitae.Template

open Tex Text

/-- Decide whether a narrow column may hold a slot. -/
def Slot.isNarrow (slot : Slot) : Bool :=
  slot.candidates.all narrowBlocks.contains

/-- The sections that are blocks of lines. -/
def lineBlocks : List Block :=
  [.contact, .links]

/-- What stands under the heading of a section in a narrow column: its body on lines of its own, where the
resume says anything in it. -/
def underHeading (r : Resume) (look : Look) (style : SectionStyle) (b : Block) : List (List Token) :=
  if r.hasContent b then
    [.char '\n' :: (tokens (b.body (r.manuscript look) style).render ++ [.char '\n'])]
  else []

variable {r : Resume} {look : Look} {region : Region}

theorem narrow_blocks (slots : region.slots.all Slot.isNarrow = true) {b : Block} (shown : b ∈ region.blocks look) :
    b ∈ narrowBlocks := by
  obtain ⟨slot, member, among⟩ := List.mem_flatMap.1 shown
  have narrow := List.all_eq_true.1 slots slot member
  simpa using List.all_eq_true.1 narrow b (mem_candidates among)

/-- No slot hosts a block of lines. -/
theorem hosted_lines {sections : List SectionKey} {form : EducationForm} {b : Block}
    (shown : b ∈ (Slot.hosted sections form).blocks look) : b ∉ lineBlocks := by
  have other : ∀ k, Block.ofKey k ∉ lineBlocks ∧ Block.ofKeyShort k ∉ lineBlocks := by
    intro k
    cases k <;> decide
  cases form with
  | full =>
      obtain ⟨k, -, rfl⟩ := List.mem_map.1 shown
      exact (other k).1
  | short =>
      obtain ⟨k, -, rfl⟩ := List.mem_map.1 shown
      exact (other k).2

/-- A block of lines stands in a region where the design puts it, and nothing else stands under its heading. -/
theorem contents_region (style : region.style.IsNarrow) (slots : region.slots.all Slot.isNarrow = true)
    (r : Resume) (look : Look) {b : Block} (lines : b ∈ lineBlocks) :
    contentsUnder b.title.toList (tokens (Part.chars r look (.region region)) ++ [.char '\n']) =
      region.slots.flatMap fun slot => if slot = .block b then underHeading r look region.style b else [] := by
  have listed : b ∈ narrowBlocks ∧ word "vspace" ∉ b.commands := by
    revert b
    decide
  have titles : ∀ b' ∈ narrowBlocks, b' ≠ b → b'.title.toList ≠ b.title.toList := by
    intro b' narrow other same
    have alone : ∀ b ∈ lineBlocks, ∀ b' ∈ narrowBlocks, b' ≠ b → b'.title ≠ b.title := by decide
    exact alone b lines b' narrow other (String.toList_inj.1 same)
  have ends : ∀ b' ∈ region.blocks look,
      Ends .loose (b'.compose (r.manuscript look) region.style).render := fun b' shown =>
    (b'.flow r look region.style (ink_narrow (narrow_blocks slots shown))).inert.ends
  have block : ∀ b' ∈ region.blocks look, FindsLined (contentScanner b.title.toList)
      (tokens (b'.compose (r.manuscript look) region.style).render)
      (if b' = b then underHeading r look region.style b else []) := by
    intro b' shown
    have narrow := narrow_blocks slots shown
    by_cases same : b' = b
    · subst same
      rw [if_pos rfl]
      exact lined_own r look style.2 listed.1 listed.2
    · rw [if_neg same]
      exact lined_other r look region.style narrow (titles b' narrow same)
  have slot : ∀ slot : Slot, ((slot.blocks look).flatMap fun b' =>
      if b' = b then underHeading r look region.style b else []) =
        if slot = .block b then underHeading r look region.style b else [] := by
    intro slot
    cases slot with
    | block b' => simp [Slot.blocks]
    | hosted sections form =>
        rw [if_neg (by simp), List.flatMap_eq_nil_iff]
        intro b' shown
        refine if_neg ?_
        rintro rfl
        exact hosted_lines shown lines
  have space : (contentScanner b.title.toList).ignores [word "vspace"] = true :=
    (by decide : headingScanner.ignores [word "vspace"] = true)
  have skips : Token.char '\n' ∉ (contentScanner b.title.toList).heads :=
    (by decide : Token.char '\n' ∉ headingWords)
  rw [chars_region]
  refine (lined_joinVisible (Ink.mediumLength look.spacing) space skips ends block).trans ?_
  rw [Region.blocks, List.flatMap_assoc, funext slot]

/-- No region of a narrow column ends the column. -/
theorem finds_region {name : String} (other : name.toList.head? ≠ some 'i') (named : name.toList ≠ [])
    (style : region.style.IsNarrow) (slots : region.slots.all Slot.isNarrow = true) (r : Resume) (look : Look) :
    (closingScanner name).Finds (tokens (Part.chars r look (.region region))) [] := by
  have ends : ∀ b ∈ region.blocks look, Ends .loose (b.compose (r.manuscript look) region.style).render :=
    fun b shown => (b.flow r look region.style (ink_narrow (narrow_blocks slots shown))).inert.ends
  have block : ∀ b ∈ region.blocks look,
      (closingScanner name).Finds (tokens (b.compose (r.manuscript look) region.style).render) [] :=
    fun b shown => finds_closings other named style r look (narrow_blocks slots shown)
  have found := finds_joinVisible (Ink.mediumLength look.spacing) (ignores_closing name (by decide)) ends block
  rw [List.flatMap_eq_nil_iff.2 fun _ _ => rfl] at found
  rw [chars_region]
  exact found

/-! ### Columns -/

/-- Decide whether a part cannot hold a control sequence. -/
def Part.lacks (t : Token) : Part → Bool
  | .code s => !(tokens (braced s)).contains t
  | .call name _ => isForeign [word name, word "textbullet"] t
  | .space _ => isForeign [word "vspace"] t
  | .region r =>
      isForeign [word "vspace"] t && r.slots.all fun slot => slot.candidates.all fun b => isForeign b.allControls t

theorem not_mem_part {t : Token} {p : Part} (sound : p.isSound = true) (lacks : p.lacks t = true) (r : Resume)
    (look : Look) : t ∉ tokens (p.chars r look) := by
  cases p with
  | code s =>
      rw [chars_code]
      simpa [Part.lacks] using lacks
  | call name arguments =>
      exact (Part.flow r look (p := .call name arguments) sound (by simp)).not_mem lacks
  | space gap => exact (Part.flow r look (p := .space gap) sound (by simp)).not_mem lacks
  | region region =>
      rw [Part.lacks, Bool.and_eq_true] at lacks
      obtain ⟨space, blocks⟩ := lacks
      obtain ⟨control, apart, plain, other⟩ := isForeign_iff.1 space
      refine (flow_region r look sound).not_mem (isForeign_iff.2 ⟨control, ?_, plain, other⟩)
      rw [List.mem_cons, not_or]
      refine ⟨by simpa using apart, fun listed => ?_⟩
      obtain ⟨b, shown, own⟩ := List.mem_flatMap.1 listed
      obtain ⟨slot, member, among⟩ := List.mem_flatMap.1 shown
      have foreign := List.all_eq_true.1 (List.all_eq_true.1 blocks slot member) b (mem_candidates among)
      exact (isForeign_iff.1 foreign).2.1 own

/-- What stands in the narrow column of a document: behind the command that sets it ragged, up to the end of
its environment. -/
def column (name : String) (ts : List Token) : List Token :=
  upTo (closing name) (afterFirst (word "raggedright") ts)

/-- A narrow column of a design: the code that opens it, what stands at its top, its region, and the code that
ends it. -/
structure NarrowColumn (d : Design) where
  environment : String
  before : List Part
  opening : String
  top : List Part
  region : Region
  ending : String
  after : List Part
  parts_eq : d.parts = before ++ .code opening :: (top ++ .region region :: .code ending :: after)
  /-- The environment has a name, and is no list. -/
  named : environment.toList ≠ [] := by decide +kernel
  unlisted : environment.toList.head? ≠ some 'i' := by decide +kernel
  /-- Nothing before it is set ragged, and what opens it ends with the command. -/
  first : before.all (Part.lacks (word "raggedright")) = true := by decide +kernel
  opens : word "raggedright" ∈ tokens (braced opening) := by decide +kernel
  opened : afterFirst (word "raggedright") (tokens (braced opening)) = [.char '\n'] := by decide +kernel
  /-- What stands at its top neither ends it nor holds a heading. -/
  topped : top.all (fun p => (word "end" :: headingWords).all p.lacks) = true := by decide +kernel
  style : region.style.IsNarrow := by exact ⟨rfl, rfl⟩
  slots : region.slots.all Slot.isNarrow = true := by decide +kernel
  ends : (.char '\n' :: closing environment) <+: tokens (braced ending) := by decide +kernel

namespace NarrowColumn

variable {key : TemplateKey} (n : NarrowColumn (Design.ofKey key)) (r : Resume) (look : Look)

/-- What stands in a column. -/
def inside : List Token :=
  .char '\n' :: (n.top.flatMap (fun p => tokens (p.chars r look)) ++
    (tokens (Part.chars r look (.region n.region)) ++ [.char '\n']))

/-- A control sequence that the top of a column lacks is not in it. -/
theorem top_lacks {t : Token} (listed : t ∈ word "end" :: headingWords) :
    t ∉ n.top.flatMap fun p => tokens (p.chars r look) := by
  intro found
  obtain ⟨p, member, within⟩ := List.mem_flatMap.1 found
  have part : p ∈ (Design.ofKey key).parts := by
    rw [n.parts_eq]
    simp [member]
  have lacks := List.all_eq_true.1 (List.all_eq_true.1 n.topped p member) t listed
  exact not_mem_part (part_sound part) lacks r look within

/-- Nothing is set ragged before the column. -/
theorem before_lacks :
    word "raggedright" ∉ Token.char '\n' :: n.before.flatMap fun p => tokens (p.chars r look) := by
  intro found
  rcases List.mem_cons.1 found with newline | found
  · exact absurd newline (by simp [word])
  · obtain ⟨p, member, within⟩ := List.mem_flatMap.1 found
    have part : p ∈ (Design.ofKey key).parts := by
      rw [n.parts_eq]
      exact List.mem_append_left _ member
    exact not_mem_part (part_sound part) (List.all_eq_true.1 n.first p member) r look within

/-- Nothing in a column ends it. -/
theorem absent_inside : Absent (closing n.environment) (n.inside r look) := by
  have newline : (closingScanner n.environment).Finds [.char '\n'] [] :=
    .skip (by simp [closingScanner, word])
  have top : (closingScanner n.environment).Finds (n.top.flatMap fun p => tokens (p.chars r look)) [] := by
    refine .skip ?_
    rintro t within head
    rw [List.mem_singleton.1 head] at within
    exact n.top_lacks r look List.mem_cons_self within
  have region := finds_region n.unlisted n.named n.style n.slots r look
  exact absent_of_finds (newline.append (top.append (region.append newline)))

/-- A column is read back from its document. -/
theorem column_eq :
    (readBody ((Design.ofKey key).chars (r.manuscript look))).map (column n.environment) =
      some (n.inside r look) := by
  obtain ⟨rest, ends⟩ := n.ends
  have shape : ∀ more, Token.char '\n' ::
      ((Design.ofKey key).parts.flatMap (fun p => tokens (p.chars r look)) ++ more) =
      (Token.char '\n' :: n.before.flatMap fun p => tokens (p.chars r look)) ++ (tokens (braced n.opening) ++
        (n.top.flatMap (fun p => tokens (p.chars r look)) ++ (tokens (Part.chars r look (.region n.region)) ++
          (tokens (braced n.ending) ++ (n.after.flatMap (fun p => tokens (p.chars r look)) ++ more))))) := by
    intro more
    rw [n.parts_eq]
    simp [chars_code]
  have cut := upTo_append (n.absent_inside r look)
    (rest ++ (n.after.flatMap (fun p => tokens (p.chars r look)) ++ tokens ('\n' :: (endDocument ++ ['\n']))))
  rw [readBody_chars, Option.map_some, shape, column, afterFirst_append_of_not_mem (n.before_lacks r look),
    afterFirst_append_of_mem n.opens, n.opened, ← ends, ← cut]
  simp [inside, closing]

/-- A block of lines stands in a column where the design puts it, and nothing else stands under its heading. -/
theorem contents_inside {b : Block} (lines : b ∈ lineBlocks) :
    contentsUnder b.title.toList (n.inside r look) =
      n.region.slots.flatMap fun slot => if slot = .block b then underHeading r look n.region.style b else [] := by
  have top : (contentScanner b.title.toList).Finds
      (.char '\n' :: n.top.flatMap fun p => tokens (p.chars r look)) [] := by
    refine .skip fun t within head => ?_
    rcases List.mem_cons.1 within with rfl | within
    · exact absurd head (by decide : Token.char '\n' ∉ headingWords)
    · exact n.top_lacks r look (List.mem_cons_of_mem _ head) within
  have region := contents_region n.style n.slots r look lines
  change (contentScanner b.title.toList).scan (n.inside r look) = _
  rw [inside, ← List.cons_append, top, List.nil_append]
  exact region

end NarrowColumn

/-- The sidebar of the page. -/
def modernColumn : NarrowColumn (Design.ofKey .modern) where
  environment := "minipage"
  before := []
  opening := _
  top := [_, _]
  region := _
  ending := _
  after := [_, _]
  parts_eq := rfl

/-- The narrow column on the left. -/
def minimalistColumn : NarrowColumn (Design.ofKey .minimalist) where
  environment := "leftcolumn"
  before := []
  opening := _
  top := [_, _]
  region := _
  ending := _
  after := [_, _, _, _, _]
  parts_eq := rfl

/-- The narrow column on the right, behind the wide one. -/
def twoColumnColumn : NarrowColumn (Design.ofKey .twoColumn) where
  environment := "rightcolumn"
  before := [_, _, _, _, _]
  opening := _
  top := []
  region := _
  ending := _
  after := [_, _, _]
  parts_eq := rfl

end Vitae.Template
