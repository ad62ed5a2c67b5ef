/-
Module: Vitae.Proofs.Template.PreambleText
Layer: Proofs
Purpose: The preamble of every document, for every look: it begins with the class of the document, all its
  placeholders are filled in, and what follows the class is sober and defines the commands of the design. The
  code between the placeholders is checked piece by piece, and what is filled in is sober whatever the look is.
Imports: Vitae.Proofs.Section.Composition, Vitae.Proofs.Template.Filling, Vitae.Proofs.Tex.Definition,
  Vitae.Proofs.Tex.Skeleton, Vitae.Template.Catalogue
Main exports: Sober, Defines, Fills, isFrame, fills_values, ownCommands, preamble_defines
-/
import Vitae.Proofs.Section.Composition
import Vitae.Proofs.Template.Filling
import Vitae.Proofs.Tex.Definition
import Vitae.Proofs.Tex.Skeleton
import Vitae.Template.Catalogue

namespace Vitae.Template

open Tex

/-- A text that leaves the structure of a document as it is and breaks off neither a link nor a control
word of the escaper. -/
structure Sober (s : List Char) : Prop extends Inert .tight s where
  steady : ∀ t ∈ tokens s, t.isSteady = true

/-- Decide whether a text is so. -/
def isSober (s : List Char) : Bool :=
  isInert .tight s && (tokens s).all Token.isSteady

namespace Sober

theorem of_check {s : List Char} (h : isSober s = true) : Sober s := by
  rw [isSober, Bool.and_eq_true, List.all_eq_true] at h
  exact ⟨.of_check h.1, h.2⟩

theorem append {a b : List Char} (ha : Sober a) (hb : Sober b) : Sober (a ++ b) where
  toInert := ha.toInert.append hb.toInert
  steady := by
    intro t member
    rw [tokens_append ha.ends, List.mem_append] at member
    exact member.elim (ha.steady t) (hb.steady t)

theorem ink {s : String} (h : Ink s) : Sober s.toList where
  toInert := inert_ink h
  steady := by
    intro t member
    rw [tokens_ink h] at member
    obtain ⟨c, -, rfl⟩ := List.mem_map.1 member
    rfl

end Sober

/-- Sober text that defines the given commands, in this order. -/
structure Defines (commands : List Definition) (s : List Char) : Prop extends Sober s where
  found : definitionScanner.Finds (tokens s) (commands.map some)

/-- The commands that a text defines, where it is sober and all its definitions can be read. -/
def soberDefinitions (s : List Char) : Option (List Definition) :=
  if isSober s then (definitions (tokens s)).mapM id else none

/-- Where every reading succeeds, the readings are what is read. -/
theorem eq_map_some {α : Type} {readings : List (Option α)} {read : List α}
    (h : readings.mapM id = some read) : readings = read.map some := by
  induction readings generalizing read with
  | nil => simp_all
  | cons first rest ih =>
      simp only [List.mapM_cons, id_eq, Option.bind_eq_bind, Option.bind_eq_some_iff, Option.pure_def,
        Option.some.injEq] at h
      obtain ⟨one, rfl, others, later, rfl⟩ := h
      rw [ih later, List.map_cons]

namespace Defines

theorem of_check {commands : List Definition} {s : List Char} (h : soberDefinitions s = some commands) :
    Defines commands s := by
  unfold soberDefinitions at h
  split at h
  case isTrue sober => exact ⟨.of_check sober, finds_definitions (eq_map_some h)⟩
  case isFalse => cases h

theorem append {commands others : List Definition} {a b : List Char} (ha : Defines commands a)
    (hb : Defines others b) : Defines (commands ++ others) (a ++ b) where
  toSober := ha.toSober.append hb.toSober
  found := by
    rw [tokens_append ha.ends, List.map_append]
    exact ha.found.append hb.found

theorem ink {s : String} (h : Ink s) : Defines [] s.toList where
  toSober := .ink h
  found := by
    rw [tokens_ink h]
    exact Scanner.finds_chars (by decide) _

end Defines

/-! ### Taking a template apart -/

/-- Take a text apart at the placeholders of the given names. The first `skip` characters belong to a
placeholder already found. -/
def partsAfter (names : List String) (skip : Nat) : List Char → List Segment
  | [] => []
  | c :: rest =>
      match skip with
      | skip + 1 => partsAfter names skip rest
      | 0 =>
          match if c = '\x7b' then names.find? (fun name => (placeholder name).isPrefixOf (c :: rest))
            else none with
          | some name => .slot name :: partsAfter names ((placeholder name).length - 1) rest
          | none => .char c :: partsAfter names 0 rest

/-- Decide whether every doubled brace of a template opens one of its placeholders. -/
def isSeparate : Bool → List Segment → Bool
  | _, [] => true
  | behind, .char c :: rest => !(behind && c == '\x7b') && isSeparate (c == '\x7b') rest
  | behind, .slot name :: rest =>
      !behind && name.toList.all (fun c => c != '\x7b' && c != '\x7d') && isSeparate false rest
  | behind, .wrapped name :: rest =>
      !behind && name.toList.all (fun c => c != '\x7b' && c != '\x7d') && isSeparate false rest

/-- The commands for jobs, courses of study and projects. -/
def entryDefinitions : List Definition :=
  [⟨"resumeEntry".toList, 4⟩, ⟨"educationEntry".toList, 3⟩, ⟨"projectEntry".toList, 3⟩]

/-- The commands that are defined in what is filled in for a name. -/
def definedBy (name : String) : List Definition :=
  if name = "entries" then entryDefinitions else []

/-- The commands that a template defines, where all that stands between its placeholders is sober. The
characters since the last placeholder are given, latest first. -/
def definedBetween (since : List Char) : List Segment → Option (List Definition)
  | [] => soberDefinitions since.reverse
  | .char c :: rest => definedBetween (c :: since) rest
  | .slot name :: rest =>
      (soberDefinitions since.reverse).bind fun before =>
        (definedBetween [] rest).map fun behind => before ++ (definedBy name ++ behind)
  | .wrapped _ :: _ => none

/-- The names of the placeholders of a template. -/
def slotNames (segments : List Segment) : List String :=
  segments.filterMap fun segment =>
    match segment with
    | .char _ => none
    | .slot name => some name
    | .wrapped name => some name

theorem braceFree_of_all {name : String}
    (h : (name.toList.all fun c => c != '\x7b' && c != '\x7d') = true) : BraceFree name := by
  rw [List.all_eq_true] at h
  constructor <;> intro member <;> simpa using h _ member

theorem separate_of_check {behind : Bool} {segments : List Segment}
    (h : isSeparate behind segments = true) : Separate behind segments := by
  induction segments generalizing behind with
  | nil => trivial
  | cons segment rest ih =>
      cases segment with
      | char c =>
          simp only [isSeparate, Bool.and_eq_true, Bool.not_eq_true'] at h
          refine ⟨fun after brace => ?_, ih h.2⟩
          simp [after, brace] at h
      | slot name =>
          simp only [isSeparate, Bool.and_eq_true, Bool.not_eq_true'] at h
          exact ⟨h.1.1, braceFree_of_all h.1.2, ih h.2⟩
      | wrapped name =>
          simp only [isSeparate, Bool.and_eq_true, Bool.not_eq_true'] at h
          exact ⟨h.1.1, braceFree_of_all h.1.2, ih h.2⟩

/-- A template is sober where its code and its values are, and defines what they define. -/
theorem defines_segments {values : List (String × List Char)} {segments : List Segment}
    {since : List Char} {commands : List Definition} (h : definedBetween since segments = some commands)
    (slots : ∀ name ∈ slotNames segments,
      ∃ value, values.lookup name = some value ∧ Defines (definedBy name) value) :
    Defines commands (since.reverse ++ segments.flatMap (Segment.text values)) := by
  induction segments generalizing since commands with
  | nil => simpa using Defines.of_check h
  | cons segment rest ih =>
      cases segment with
      | char c =>
          have later := ih h fun name member => slots name (by simpa [slotNames] using member)
          simpa [Segment.text] using later
      | slot name =>
          simp only [definedBetween, Option.bind_eq_some_iff, Option.map_eq_some_iff] at h
          obtain ⟨before, checked, behind, others, rfl⟩ := h
          obtain ⟨value, found, defines⟩ := slots name (by simp [slotNames])
          have later := ih others fun other member =>
            slots other (by
              rw [slotNames, List.filterMap_cons]
              exact List.mem_cons_of_mem name member)
          have text : Segment.text values (.slot name) = value := by
            rw [Segment.text, found, Option.getD_some]
          rw [List.flatMap_cons, text]
          exact (Defines.of_check checked).append (defines.append (by simpa using later))
      | wrapped name => simp [definedBetween] at h

/-! ### What is filled in -/

/-- A value that can be filled in anywhere, leaves the structure of a document as it is, and defines the
given commands. -/
structure Fills (commands : List Definition) (value : List Char) : Prop extends Defines commands value where
  last : value.getLast? ≠ some '\x7b'

section

variable {commands others : List Definition}

theorem Fills.clean {value : List Char} (h : Fills commands value) : Clean value :=
  ⟨h.single, h.head, h.last⟩

theorem Fills.ink {s : String} (h : Ink s) : Fills [] s.toList where
  toDefines := .ink h
  last := by
    intro brace
    exact not_mem_of_ink h rfl (List.mem_of_getLast? brace)

/-- Decide whether a text is such a value. -/
def fillsCheck (commands : List Definition) (value : List Char) : Bool :=
  decide (soberDefinitions value = some commands) && value.getLast? != some '\x7b'

theorem Fills.of_check {value : List Char} (h : fillsCheck commands value = true) :
    Fills commands value := by
  rw [fillsCheck, Bool.and_eq_true, decide_eq_true_eq, bne_iff_ne] at h
  exact ⟨.of_check h.1, h.2⟩

theorem Fills.append {a b : List Char} (ha : Fills commands a) (hb : Fills others b)
    (nonempty : b ≠ []) : Fills (commands ++ others) (a ++ b) where
  toDefines := ha.toDefines.append hb.toDefines
  last := by
    rw [List.getLast?_append, List.getLast?_eq_some_getLast nonempty, Option.some_or,
      ← List.getLast?_eq_some_getLast nonempty]
    exact hb.last

end

theorem define_chars (c : Rgb) (name : String) :
    (c.define name).toList =
      "\\definecolor".toList ++ groups [name.toList, "RGB".toList, c.channels.toList] := by
  have written : c.define name =
      "\\definecolor\x7b" ++ name ++ "\x7d\x7bRGB\x7d\x7b" ++ c.channels ++ "\x7d" := rfl
  have front : "\\definecolor\x7b".toList = "\\definecolor".toList ++ ['\x7b'] := by decide
  have middle : "\x7d\x7bRGB\x7d\x7b".toList =
      ['\x7d', '\x7b'] ++ "RGB".toList ++ ['\x7d', '\x7b'] := by
    decide
  have back : "\x7d".toList = ['\x7d'] := by decide
  simp only [written, String.toList_append, front, middle, back, groups_cons, groups_nil,
    List.append_assoc, List.cons_append, List.nil_append]

/-- The command that gives a colour a name. -/
theorem fills_define (c : Rgb) {name : String} (ink : Ink name) : Fills [] (c.define name).toList := by
  have channels : Ink c.channels :=
    ((((Ink.ofNat _).append (by decide)).append (.ofNat _)).append (by decide)).append (.ofNat _)
  have command : Inert .loose "\\definecolor".toList := .of_check (by decide)
  have written : tokens "\\definecolor".toList = [word "definecolor"] := by decide
  have inked : ∀ a ∈ [name.toList, "RGB".toList, c.channels.toList], Inked a := by
    intro a member
    simp only [List.mem_cons, List.not_mem_nil, or_false] at member
    rcases member with rfl | rfl | rfl
    · exact ink
    · exact (by decide : Ink "RGB")
    · exact channels
  have inert : ∀ a ∈ [name.toList, "RGB".toList, c.channels.toList], Inert .loose a :=
    fun a member => (inert_ink (inked a member)).loosen
  have read := tokens_call command.ends (by simp) (fun a member => (inert a member).ends) []
  rw [List.append_nil, tokens_nil, List.append_nil, written] at read
  -- the command itself is the only control sequence
  have only : ∀ t ∈ tokens (c.define name).toList, t.isControl = true → t = word "definecolor" := by
    intro t member control
    rw [define_chars, read, List.mem_append] at member
    rcases member with member | member
    · exact List.mem_singleton.1 member
    · obtain ⟨ts, among, inside⟩ := mem_groupTokens member control
      obtain ⟨a, argument, rfl⟩ := List.mem_map.1 among
      rw [tokens_ink (inked a argument)] at inside
      obtain ⟨d, -, rfl⟩ := List.mem_map.1 inside
      simp [Token.isControl] at control
  refine ⟨⟨⟨?_, ?_⟩, ?_⟩, ?_⟩
  · rw [define_chars]
    exact command.groups (by decide) (by decide) (by simp) inert
  · intro t member
    cases control : t.isControl with
    | false => exact steady_of_not_control control
    | true =>
        rw [only t member control]
        rfl
  · exact Scanner.finds_listed (by decide : definitionScanner.ignores [word "definecolor"] = true)
      fun t member control => List.mem_singleton.2 (only t member control)
  · rw [define_chars]
    simp only [groups_cons, groups_nil, List.append_nil, ← List.append_assoc, List.getLast?_concat]
    decide

theorem fills_colors (look : Look) : Fills [] (colorDefinitions look).toList := by
  have primary := fills_define look.primary (by decide : Ink "primarycolor")
  have secondary := fills_define look.secondary (by decide : Ink "secondarycolor")
  have newline : Fills [] "\n".toList := .ink (by decide)
  have nonempty : (look.secondary.define "secondarycolor").toList ≠ [] := by
    rw [define_chars]
    exact List.append_ne_nil_of_left_ne_nil (by decide) _
  simp only [colorDefinitions, String.toList_append]
  exact (primary.append newline (by decide)).append secondary nonempty

theorem fills_paper (size : PageSize) : Fills [] size.paper.toList := by
  cases size <;> exact .ink (by decide)

theorem fills_font (family : FontFamily) : Fills [] family.directive.toList := by
  cases family with
  | serif => exact .ink (by decide)
  | sansSerif => exact .of_check (by decide)
  | mono => exact .of_check (by decide)

/-! ### Spelling out the lines of a preamble

The characters of the code are named, so that it is the characters that are checked. -/

/-- Lines with their characters. -/
inductive Spelled : List String → List (List Char) → Prop where
  | nil : Spelled [] []
  | line (l : List Char) {lines : List String} {chars : List (List Char)} (rest : Spelled lines chars) :
      Spelled (String.ofList l :: lines) (l :: chars)
  | joined (a b c : List Char) {lines : List String} {chars : List (List Char)}
      (rest : Spelled lines chars) :
      Spelled ((String.ofList a ++ String.ofList b ++ String.ofList c) :: lines) ((a ++ b ++ c) :: chars)

/-- The text that lines with the given characters stand for. -/
def spelledText (chars : List (List Char)) : List Char :=
  chars.flatMap fun l =>
    l.map (fun c => if c = '⟨' then '\x7b' else if c = '⟩' then '\x7d' else c) ++ ['\n']

theorem Spelled.text {lines : List String} {chars : List (List Char)} (h : Spelled lines chars) :
    bracedLines lines = spelledText chars := by
  induction h with
  | nil => rfl
  | line l rest ih =>
      rw [bracedLines, List.flatMap_cons, ← bracedLines, ih, braced, String.toList_ofList]
      rfl
  | joined a b c rest ih =>
      rw [bracedLines, List.flatMap_cons, ← bracedLines, ih, braced, String.toList_append,
        String.toList_append, String.toList_ofList, String.toList_ofList, String.toList_ofList]
      rfl

/-- Commands for entries leave the structure of a document as it is, whatever is checked of the space
around an entry. -/
theorem fills_entryCommands {before after : List Char} {chars : List (List Char)}
    (spelled : Spelled entryCommandLines chars)
    (h : fillsCheck entryDefinitions
      (fill (spelledText chars) [("before", before), ("after", after)]) = true) :
    Fills entryDefinitions (Template.entryCommands before after) := by
  rw [Template.entryCommands, spelled.text]
  exact .of_check h

/-- Commands for entries as the designs space them. -/
theorem fills_entries {before after : String}
    (h : (before, after) ∈ [("1pt", "1pt"), ("2pt", "2pt"), ("0pt", "2pt")]) :
    Fills entryDefinitions (Template.entryCommands before.toList after.toList) := by
  simp only [List.mem_cons, List.not_mem_nil, or_false, Prod.mk.injEq] at h
  rcases h with ⟨rfl, rfl⟩ | ⟨rfl, rfl⟩ | ⟨rfl, rfl⟩
  all_goals
    apply fills_entryCommands
    unfold entryCommandLines
    repeat apply Spelled.line
    exact .nil
    decide +kernel

/-! ### The preambles of the designs -/

/-- The beginning of every document. -/
def classCommand : List Char :=
  "\\documentclass".toList

/-- Decide whether a template begins with the class of a document, has sober code and the given names behind
it, and defines the given commands. -/
def isFrame (names : List String) (commands : List Definition) (text : List Char) : Bool :=
  let segments := partsAfter names 0 (text.drop classCommand.length)
  classCommand ++ source segments == text && isSeparate false segments &&
    decide (definedBetween [] segments = some commands) && (slotNames segments).all names.contains &&
    (segments.head? == some (.char '['))

theorem lookup_of_mem {values : List (String × List Char)} {name : String}
    (h : name ∈ values.map Prod.fst) :
    ∃ value, values.lookup name = some value ∧ (name, value) ∈ values := by
  induction values with
  | nil => simp at h
  | cons pair rest ih =>
      obtain ⟨other, value⟩ := pair
      by_cases same : name = other
      · exact ⟨value, by simp [same], by simp [same]⟩
      · have later : name ∈ rest.map Prod.fst := by simpa [same] using h
        obtain ⟨found, lookup, member⟩ := ih later
        have ahead : (name == other) = false := by simpa using same
        exact ⟨found, by simp [List.lookup_cons, ahead, lookup], List.mem_cons_of_mem _ member⟩

/-- The class of a document may stand before the parts of a template. -/
theorem source_classCommand {segments : List Segment} {text : List Char}
    (whole : classCommand ++ source segments = text) (separate : Separate false segments) :
    source (classCommand.map .char ++ segments) = text ∧ Separate false (classCommand.map .char ++ segments) := by
  refine ⟨?_, .chars (by decide) (by simp) (by decide) (fun _ => separate) separate⟩
  rw [source_append, source_chars, whole]

/-- A document whose template is so begins with its class, and goes on with sober text that defines the
commands. -/
theorem fill_isFrame {names : List String} {commands : List Definition} {text : List Char}
    {values : List (String × List Char)} (h : isFrame names commands text = true)
    (known : names ⊆ values.map Prod.fst)
    (fills : ∀ pair ∈ values, BraceFree pair.1 ∧ Fills (definedBy pair.1) pair.2) :
    ∃ rest, fill text values = classCommand ++ '[' :: rest ∧ Defines commands ('[' :: rest) := by
  simp only [isFrame, Bool.and_eq_true, beq_iff_eq, decide_eq_true_eq, List.all_eq_true,
    List.contains_iff_mem] at h
  generalize partsAfter names 0 (text.drop classCommand.length) = segments at h
  obtain ⟨⟨⟨⟨whole, separate⟩, between⟩, slots⟩, head⟩ := h
  obtain ⟨template, apart⟩ := source_classCommand whole (separate_of_check separate)
  have defines : Defines commands (segments.flatMap (Segment.text values)) := by
    refine defines_segments between ?_
    intro name member
    obtain ⟨value, found, among⟩ := lookup_of_mem (known (slots name member))
    exact ⟨value, found, (fills _ among).2.toDefines⟩
  rw [← template, fill_source apart fun pair member => ⟨(fills pair member).1, (fills pair member).2.clean⟩,
    List.flatMap_append, text_chars]
  cases segments with
  | nil => simp at head
  | cons segment rest =>
      have first : segment = .char '[' := by simpa using head
      rw [first] at defines ⊢
      exact ⟨rest.flatMap (Segment.text values), rfl, defines⟩

/-- The names that the template of a design may use. -/
def Design.names (d : Design) : List String :=
  ["paper", "colors", "font"] ++ d.fillings.map Prod.fst

theorem values_names (d : Design) (look : Look) : (d.values look).map Prod.fst = d.names := by
  simp [Design.values, Design.names, commonFillings, Function.comp_def]

/-- A filling of a design that can be filled in anywhere, whatever the look is. -/
def Filling.IsSound (f : Filling) : Prop :=
  match f with
  | .length l => Ink l.letter ∧ Ink l.a4
  | .entryCommands before after => (before, after) ∈ [("1pt", "1pt"), ("2pt", "2pt"), ("0pt", "2pt")]

instance : (f : Filling) → Decidable f.IsSound
  | .length l => inferInstanceAs (Decidable (Ink l.letter ∧ Ink l.a4))
  | .entryCommands before after => inferInstanceAs (Decidable ((before, after) ∈ _))

/-- The commands that a filling defines. -/
def Filling.definitions : Filling → List Definition
  | .length _ => []
  | .entryCommands _ _ => entryDefinitions

theorem fills_filling {f : Filling} (sound : f.IsSound) (look : Look) :
    Fills f.definitions (f.text look) := by
  cases f with
  | length l =>
      change Fills [] (l.on look.pageSize).toList
      cases look.pageSize with
      | letter => exact .ink sound.1
      | a4 => exact .ink sound.2
  | entryCommands before after => exact fills_entries sound

/-- Every value of a design can be filled in anywhere, whatever the look is. -/
theorem fills_values {d : Design} (names : ∀ name ∈ d.names, BraceFree name)
    (sound : ∀ pair ∈ d.fillings, pair.2.IsSound ∧ pair.2.definitions = definedBy pair.1) (look : Look) :
    ∀ pair ∈ d.values look, BraceFree pair.1 ∧ Fills (definedBy pair.1) pair.2 := by
  intro pair member
  have name : pair.1 ∈ d.names := by
    rw [← values_names d look]
    exact List.mem_map_of_mem member
  refine ⟨names _ name, ?_⟩
  rcases List.mem_append.1 member with common | own
  · simp only [commonFillings, List.mem_cons, List.not_mem_nil, or_false] at common
    rcases common with rfl | rfl | rfl
    · exact fills_paper look.pageSize
    · dsimp only
      exact fills_colors look
    · exact fills_font look.fontFamily
  · obtain ⟨filling, among, rfl⟩ := List.mem_map.1 own
    obtain ⟨legal, defined⟩ := sound filling among
    rw [← defined]
    exact fills_filling legal look

theorem isFrame_of_spelled {names : List String} {commands : List Definition} {p : Preamble}
    {chars : List (List Char)} (spelled : Spelled p.lines chars)
    (h : isFrame names commands (spelledText chars) = true) : isFrame names commands p.text = true := by
  rwa [Preamble.text, spelled.text]

/-- The commands of a design, in the order in which its preamble defines them. -/
def ownCommands : TemplateKey → List Definition
  | .classic =>
      ⟨"sectionrule".toList, 0⟩ :: ⟨"header".toList, 2⟩ :: ⟨"contact".toList, 1⟩ :: entryDefinitions
  | .modern => ⟨"sidebarHeading".toList, 1⟩ :: ⟨"header".toList, 2⟩ :: entryDefinitions
  | .creative => ⟨"header".toList, 3⟩ :: entryDefinitions
  | .professional => ⟨"header".toList, 2⟩ :: ⟨"contact".toList, 1⟩ :: entryDefinitions
  | .minimalist => ⟨"header".toList, 2⟩ :: entryDefinitions
  | .twoColumn => ⟨"header".toList, 3⟩ :: entryDefinitions

/-- The preamble of every design has the frame of a document around its placeholders, and defines the commands
of the design. -/
theorem preamble_isFrame (key : TemplateKey) :
    isFrame (Design.ofKey key).names (ownCommands key) (Design.ofKey key).preamble.text = true := by
  cases key
  all_goals
    apply isFrame_of_spelled
    simp only [Design.ofKey, classic, modern, creative, professional, minimalist, twoColumn,
      Preamble.lines, Preamble.classic, Preamble.modern, Preamble.creative, Preamble.professional,
      Preamble.minimalist, Preamble.twoColumn, List.map_cons, List.map_nil, List.cons_append,
      List.nil_append]
    -- the designs differ in how many of their lines are joined from a part of their own
    repeat first | apply Spelled.line | apply Spelled.joined
    exact .nil
    decide +kernel

/-- All that a design fills in can be filled in anywhere, whatever the look is. -/
theorem fills_ofKey (key : TemplateKey) (look : Look) :
    ∀ pair ∈ (Design.ofKey key).values look, BraceFree pair.1 ∧ Fills (definedBy pair.1) pair.2 := by
  have names : ∀ name ∈ (Design.ofKey key).names, BraceFree name := by
    cases key <;> decide
  have sound : ∀ pair ∈ (Design.ofKey key).fillings,
      pair.2.IsSound ∧ pair.2.definitions = definedBy pair.1 := by
    cases key <;> decide
  exact fills_values names sound look

/-- The preamble of every design, in every look, begins with the class of the document and goes on with
sober text that defines the commands of the design. -/
theorem preamble_defines (key : TemplateKey) (look : Look) :
    ∃ rest, (Design.ofKey key).preambleText look = classCommand ++ '[' :: rest ∧
      Defines (ownCommands key) ('[' :: rest) := by
  have known : (Design.ofKey key).names ⊆ ((Design.ofKey key).values look).map Prod.fst := by
    rw [values_names]
    exact List.Subset.refl _
  exact fill_isFrame (preamble_isFrame key) known (fills_ofKey key look)

end Vitae.Template
