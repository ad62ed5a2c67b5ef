/-
Module: Vitae.Proofs.Document.Heading
Layer: Proofs
Purpose: The headings of a document read back. A section shows its heading where the resume says anything in
  it, and nothing else looks like a heading to the reader.
Imports: Vitae.Proofs.Document.Scan, Vitae.Proofs.Section.Presence
Main exports: readTitle, readTitle_heading, headings, Block.headings, finds_headings, headings_body
-/
import Vitae.Proofs.Document.Scan
import Vitae.Proofs.Section.Presence

namespace Vitae

open Tex Text

/-! ### Reading a heading -/

/-- The commands of headings. -/
def headingWords : List Token :=
  [word "section", word "sidebarHeading"]

/-- The tokens without a star at their beginning. -/
def dropStar : List Token → List Token
  | .char '*' :: rest => rest
  | ts => ts

/-- The title behind the command of a heading, and what follows it. -/
def readTitle (ts : List Token) : Option (List Char × List Token) :=
  (readGroups 1 (dropStar ts)).map fun (groups, rest) => (groups.flatMap unescape, rest)

/-- The command of a heading without its title. -/
def Heading.tokens : Heading → Token × List Token
  | .full => (word "section", [.char '*'])
  | .sidebar => (word "sidebarHeading", [])

/-- A heading as it is read. -/
theorem tokens_heading {title : Source} (h : Heading) (flow : Flow [] .loose title) (rest : List Char) :
    Tex.tokens (Source.render (command h.command [title]) ++ rest) =
      h.tokens.1 :: (h.tokens.2 ++ (groupTokens [Tex.tokens title.render] ++ Tex.tokens rest)) := by
  have flows : ∀ a ∈ [title], Flow [] .loose a := by simpa using flow
  cases h with
  | full =>
      have written : Tex.tokens ("\\" ++ "section*" : String).toList = [word "section", .char '*'] := by decide
      have read := @Flow.tokens_call [] ("\\" ++ "section*") [title] (by decide) (by simp) flows rest
      rw [written] at read
      exact read
  | sidebar =>
      have written : Tex.tokens ("\\" ++ "sidebarHeading" : String).toList = [word "sidebarHeading"] := by decide
      have read := @Flow.tokens_call [] ("\\" ++ "sidebarHeading") [title] (by decide) (by simp) flows rest
      rw [written] at read
      exact read

/-- The title of a heading is read back, whatever follows the heading. -/
theorem readTitle_heading {title : Source} (h : Heading) (flow : Flow [] .loose title) (rest : List Token) :
    readTitle (h.tokens.2 ++ (groupTokens [Tex.tokens title.render] ++ rest)) =
      some (unescape (Tex.tokens title.render), rest) := by
  have balanced : ∀ ts ∈ [Tex.tokens title.render], Balanced ts := by simpa using flow.inert.balanced
  have read := readGroups_groupTokens balanced 1 (Nat.le_refl _) rest
  have unstarred : dropStar (h.tokens.2 ++ (groupTokens [Tex.tokens title.render] ++ rest)) =
      groupTokens [Tex.tokens title.render] ++ rest := by
    cases h <;> rfl
  rw [readTitle, unstarred, read]
  simp [groupTokens]

theorem Heading.tokens_mem (h : Heading) : h.tokens.1 ∈ headingWords := by
  cases h <;> decide

/-- There is no heading inside a heading. -/
theorem not_heading_title {title : Source} (h : Heading) (flow : Flow [] .loose title) :
    ∀ t ∈ h.tokens.2 ++ groupTokens [Tex.tokens title.render], t ∉ headingWords := by
  intro t member found
  have listed : t = word "section" ∨ t = word "sidebarHeading" := by simpa [headingWords] using found
  have control : t.isControl = true := by rcases listed with rfl | rfl <;> rfl
  rcases List.mem_append.1 member with star | inner
  · cases h
    · obtain rfl : t = .char '*' := by simpa [Heading.tokens] using star
      simp [Token.isControl] at control
    · simp [Heading.tokens] at star
  · obtain ⟨ts, among, here⟩ := mem_groupTokens inner control
    obtain rfl : ts = Tex.tokens title.render := by simpa using among
    refine flow.not_mem ?_ here
    rcases listed with rfl | rfl <;> decide

/-- A title of the library's own is read back as it is written. -/
theorem unescape_code {title : String} (ink : Ink title) :
    unescape (Tex.tokens (Source.render (code title))) = title.toList := by
  have plain : ∀ s : List Char, unescape (s.map .char) = s := by
    intro s
    induction s with
    | nil => rfl
    | cons c s ih =>
        have here : unescape (.char c :: s.map .char) = c :: unescape (s.map .char) := rfl
        rw [List.map_cons, here, ih]
  rw [render_code, tokens_ink ink, plain]

/-! ### Reading headings -/

/-- The titles of the headings, in their order, or nothing for a heading that breaks off. -/
def headings : List Token → List (Option (List Char))
  | [] => []
  | t :: rest =>
      if t ∈ headingWords then (readTitle rest).map Prod.fst :: headings rest else headings rest

/-- The reader that looks for headings. -/
def headingScanner : Scanner (Option (List Char)) where
  heads := headingWords
  scan := headings
  scan_nil := rfl
  scan_skip := by
    intro t rest other
    rw [headings, if_neg other]

/-- What a reader of headings finds in a heading is what it makes of the title. -/
theorem finds_heading {α : Type} {f : Scanner α} {found : List α} {title : Source} (h : Heading)
    (flow : Flow [] .loose title) (heads : f.heads = headingWords)
    (read : ∀ rest, f.scan (h.tokens.1 :: (h.tokens.2 ++ (groupTokens [Tex.tokens title.render] ++ rest))) =
      found ++ f.scan (h.tokens.2 ++ (groupTokens [Tex.tokens title.render] ++ rest))) :
    f.Finds (Tex.tokens (Source.render (command h.command [title]))) found := by
  have command := tokens_heading h flow []
  rw [List.append_nil, tokens_nil, List.append_nil] at command
  have inside : f.Finds (h.tokens.2 ++ groupTokens [Tex.tokens title.render]) [] := by
    refine .skip ?_
    rw [heads]
    exact not_heading_title h flow
  intro rest
  rw [command, List.cons_append, List.append_assoc, read, ← List.append_assoc, inside]
  rfl

/-- A heading is found with its title. -/
theorem finds_title {title : Source} (h : Heading) (flow : Flow [] .loose title) :
    headingScanner.Finds (Tex.tokens (Source.render (command h.command [title])))
      [some (unescape (Tex.tokens title.render))] := by
  refine finds_heading h flow rfl fun rest => ?_
  change headings (h.tokens.1 :: _) = _
  rw [headings, if_pos h.tokens_mem, readTitle_heading h flow]
  rfl

/-! ### Sections -/

/-- The headings that a section of a resume shows. Each section of the user's own has a heading where it has
a title; any other section has one where the resume says anything in it. -/
def Block.headings (r : Resume) : Block → List (List Char)
  | .custom => (r.customSections.filter fun s => hasText s.title).map fun s => trimChars s.title.toList
  | b => if r.hasContent b then [b.title.toList] else []

theorem Block.headings_eq {b : Block} (h : b ≠ .custom) (r : Resume) :
    b.headings r = if r.hasContent b then [b.title.toList] else [] := by
  cases b with
  | custom => exact absurd rfl h
  | _ => rfl

theorem ignores_commands : ∀ b : Block, b ≠ .custom → headingScanner.ignores b.commands = true :=
  Block.forall_of_kinds (fun _ untitled _ => untitled (by decide)) (by decide)

/-- A section under a common heading. -/
theorem finds_common {b : Block} (h : b ≠ .custom) (r : Resume) (look : Look) (style : SectionStyle)
    (title : ∀ t, b = .summary t → Ink t) :
    headingScanner.Finds (Tex.tokens (b.compose (r.manuscript look) style).render)
      ((b.headings r).map some) := by
  have ink := Block.ink_title title
  have body := Block.flow_body r look style h
  rw [Block.compose_eq h, Block.headings_eq h, SectionStyle.wrap, isBlank_body r look style h]
  cases r.hasContent b with
  | false => exact .nil
  | true =>
      have own := finds_title style.heading (Flow.ink ink).toLoose
      rw [unescape_code ink] at own
      have under := Scanner.finds_flow body (ignores_commands b h)
      exact finds_headed (by decide) (Flow.ink ink).toLoose own body.inert.ends under

/-- A section of the user's own, which has a heading where it has a title. -/
theorem finds_customBlock (s : CustomSection) (style : SectionStyle) :
    headingScanner.Finds (Tex.tokens (Source.render (s.entry.block style)))
      (if hasText s.title then [some (trimChars s.title.toList)] else []) := by
  have newline : Flow [word "par"] .tight (code "\n") := .ink (by decide)
  have content : Flow [word "par"] .tight (paragraphs s.content) := flow_paragraphs s.content (by simp)
  have ignored : headingScanner.ignores [word "par"] = true := by decide
  unfold CustomEntry.block
  rw [s.isBlank_title]
  cases hasText s.title with
  | false => exact Scanner.finds_flow content ignored
  | true =>
      have own := finds_title style.heading (Flow.ofText s.title : Flow [] .tight _).toLoose
      rw [unescape_text] at own
      have found := finds_headed (by decide) (Flow.ofText s.title).toLoose own
        (newline.append content).inert.ends.loosen (Scanner.finds_flow (newline.append content) ignored)
      rwa [List.append_nil] at found

/-- The sections of the user's own, each under its own heading. -/
theorem finds_custom (r : Resume) (look : Look) (style : SectionStyle) :
    headingScanner.Finds (Tex.tokens (Block.custom.compose (r.manuscript look) style).render)
      ((Block.custom.headings r).map some) := by
  let out : CustomSection → List (Option (List Char)) :=
    fun s => if hasText s.title then [some (trimChars s.title.toList)] else []
  have found := finds_joinVisible (f := headingScanner) (Ink.mediumLength look.spacing) (by decide)
    (fun s _ => ends_customBlock s style)
    fun s (_ : s ∈ r.customSections.filter CustomSection.isMeaningful) => finds_customBlock s style
  -- a section with a title is among those that say anything
  have titled : (r.customSections.filter CustomSection.isMeaningful).flatMap out =
      (Block.custom.headings r).map some := by
    rw [Block.headings, List.map_map]
    generalize r.customSections = sections
    induction sections with
    | nil => rfl
    | cons s rest ih =>
        have shown : hasText s.title = true → s.isMeaningful = true := by
          intro visible
          rw [CustomSection.isMeaningful, visible, Bool.true_or]
        rw [List.filter_cons, List.filter_cons]
        cases visible : hasText s.title with
        | true =>
            rw [shown visible, if_pos rfl, if_pos rfl, List.flatMap_cons, ih]
            simp [out, visible]
        | false =>
            rw [if_neg Bool.false_ne_true, ← ih]
            split
            · simp [out, visible]
            · rfl
  rw [titled] at found
  rw [Block.compose, blocks_custom]
  exact found

/-- A section shows its headings, and nothing else that looks like one. -/
theorem finds_headings (b : Block) (r : Resume) (look : Look) (style : SectionStyle)
    (title : ∀ t, b = .summary t → Ink t) :
    headingScanner.Finds (Tex.tokens (b.compose (r.manuscript look) style).render)
      ((b.headings r).map some) := by
  by_cases common : b = .custom
  · subst common
    exact finds_custom r look style
  · exact finds_common common r look style title

end Vitae

namespace Vitae.Template

open Tex

/-- The headings of a document are those of its sections, in the order in which they are shown. -/
theorem headings_body (key : TemplateKey) (r : Resume) (look : Look) :
    (readBody ((Design.ofKey key).chars (r.manuscript look))).map headings =
      some (((Design.ofKey key).blocks look).flatMap fun b => (b.headings r).map some) := by
  have survey : Survey headingScanner key r look (fun _ _ => []) fun _ b => (b.headings r).map some := by
    refine ⟨by decide, ?_, ?_⟩
    · intro name arguments member
      have sound := part_sound member
      have flow := Part.flow r look (p := .call name arguments) sound (by simp)
      have silent : headingScanner.ignores (["header", "contact", "textbullet"].map word) = true := by decide
      refine Scanner.finds_flow flow (Scanner.ignores_mono silent ?_)
      rcases call_known sound with rfl | rfl <;> simp [Part.controls]
    · exact fun style b title => finds_headings b r look style title
  have parts : ∀ p : Part, p.collect (fun _ _ => []) (fun _ b => (b.headings r).map some) look =
      (p.blocks look).flatMap fun b => (b.headings r).map some := by
    intro p
    cases p <;> rfl
  refine survey.body.trans ?_
  rw [funext parts, Design.blocks, List.flatMap_assoc]

end Vitae.Template
