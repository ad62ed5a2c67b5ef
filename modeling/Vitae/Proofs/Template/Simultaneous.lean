/-
Module: Vitae.Proofs.Template.Simultaneous
Layer: Proofs
Purpose: Filling in names one after the other is filling them in at once. A template is known by its text alone:
  each doubled brace in it opens a placeholder. Whatever the order of the names, every placeholder becomes the value
  of its own name, and no value is looked at again. The preambles and the commands for entries are such templates.
Imports: Vitae.Proofs.Template.PreambleText, Vitae.Proofs.Text.Split
Main exports: Opens, IsTemplate, exists_segments, opens_source, CleanValues, Fillable, FilledAtOnce, Fillable.atOnce,
  fill_at_once
-/
import Vitae.Proofs.Template.PreambleText
import Vitae.Proofs.Text.Split

namespace Vitae.Template

open Tex

/-! ### Templates as texts -/

/-- What stands behind a doubled brace that opens the placeholder of a name, or behind the first two of three braces
where the placeholder stands in one more pair. -/
def Opens (name : String) (behind : List Char) : Prop :=
  name.toList ++ ['\x7d', '\x7d'] <+: behind ∨ '\x7b' :: (name.toList ++ ['\x7d', '\x7d', '\x7d']) <+: behind

/-- Each doubled brace of a text opens the placeholder of one of the names. -/
def IsTemplate (names : List String) (text : List Char) : Prop :=
  ∀ before behind, text = before ++ (doubledBrace ++ behind) → ∃ name ∈ names, Opens name behind

/-- Decide whether a doubled brace opens the placeholder of a name. -/
def opens (name : String) (behind : List Char) : Bool :=
  (name.toList ++ ['\x7d', '\x7d']).isPrefixOf behind ||
    ('\x7b' :: (name.toList ++ ['\x7d', '\x7d', '\x7d'])).isPrefixOf behind

/-- Decide whether each doubled brace of a text opens a placeholder. -/
def isTemplate (names : List String) : List Char → Bool
  | [] => true
  | c :: rest =>
      (!doubledBrace.isPrefixOf (c :: rest) || names.any fun name => opens name (rest.drop 1)) &&
        isTemplate names rest

variable {names : List String}

theorem IsTemplate.of_check {text : List Char} (h : isTemplate names text = true) : IsTemplate names text := by
  induction text with
  | nil =>
      intro before behind whole
      cases before <;> cases whole
  | cons c rest ih =>
      rw [isTemplate, Bool.and_eq_true, Bool.or_eq_true, Bool.not_eq_true', List.any_eq_true] at h
      obtain ⟨here, later⟩ := h
      intro before behind whole
      cases before with
      | cons d before => exact ih later before behind (List.cons.inj whole).2
      | nil =>
          obtain ⟨rfl, rfl⟩ := List.cons.inj whole
          rcases here with none | ⟨name, member, found⟩
          · simp [doubledBrace, List.isPrefixOf] at none
          · refine ⟨name, member, ?_⟩
            simpa [opens, Opens] using found

theorem IsTemplate.mono {more : List String} {text : List Char} (h : IsTemplate names text) (subset : names ⊆ more) :
    IsTemplate more text := by
  intro before behind whole
  obtain ⟨name, member, found⟩ := h before behind whole
  exact ⟨name, subset member, found⟩

/-- What follows in a template is a template. -/
theorem IsTemplate.suffix {front text : List Char} (h : IsTemplate names (front ++ text)) : IsTemplate names text := by
  rintro before behind rfl
  exact h (front ++ before) behind (List.append_assoc _ _ _).symm

/-- Where no brace follows, a template may stand behind a brace. -/
theorem Separate.behind {segments : List Segment} (h : Separate false segments)
    (head : (source segments).head? ≠ some '\x7b') : Separate true segments := by
  cases segments with
  | nil => trivial
  | cons segment rest =>
      cases segment with
      | char c =>
          refine ⟨fun _ brace => head ?_, h.2⟩
          rw [brace]
          rfl
      | slot name => exact absurd rfl head
      | wrapped name => exact absurd rfl head

/-- What opens the placeholder of a name is the placeholder, or the placeholder in one more pair of braces. -/
theorem Opens.exists_segment {name : String} {behind : List Char} (h : Opens name behind) :
    ∃ segment others, (segment = .slot name ∨ segment = .wrapped name) ∧
      doubledBrace ++ behind = Segment.source segment ++ others := by
  rcases h with ⟨others, rfl⟩ | ⟨others, rfl⟩
  · refine ⟨.slot name, others, .inl rfl, ?_⟩
    simp [Segment.source, placeholder, doubledBrace]
  · refine ⟨.wrapped name, others, .inr rfl, ?_⟩
    simp [Segment.source, placeholder, doubledBrace]

/-- A template is made of characters and placeholders, and all doubled braces are those of the placeholders. -/
theorem exists_segments {text : List Char} (h : IsTemplate names text) (free : ∀ name ∈ names, BraceFree name) :
    ∃ segments, source segments = text ∧ Separate false segments ∧ slotNames segments ⊆ names := by
  -- a placeholder is longer than one character, so the induction is on the length of the text
  induction size : text.length using Nat.strongRecOn generalizing text with
  | ind n ih =>
      have smaller : ∀ front rest, text = front ++ rest → front ≠ [] →
          ∃ segments, source segments = rest ∧ Separate false segments ∧ slotNames segments ⊆ names := by
        rintro front rest rfl some
        refine ih rest.length ?_ h.suffix rfl
        rw [← size, List.length_append]
        exact Nat.lt_add_of_pos_left (List.length_pos_iff.2 some)
      cases text with
      | nil => exact ⟨[], rfl, trivial, List.nil_subset _⟩
      | cons c rest =>
          by_cases doubled : doubledBrace <+: c :: rest
          · obtain ⟨behind, whole⟩ := doubled
            obtain ⟨name, member, found⟩ := h [] behind whole.symm
            obtain ⟨segment, others, kind, split⟩ := found.exists_segment
            rw [whole] at split
            have some : segment.source ≠ [] := by
              rcases kind with rfl | rfl <;> simp [Segment.source, placeholder]
            obtain ⟨segments, same, separate, known⟩ := smaller _ others split some
            refine ⟨segment :: segments, by rw [source_cons, same, split], ?_⟩
            rcases kind with rfl | rfl
            · exact ⟨⟨rfl, free name member, separate⟩, List.cons_subset.2 ⟨member, known⟩⟩
            · exact ⟨⟨rfl, free name member, separate⟩, List.cons_subset.2 ⟨member, known⟩⟩
          · obtain ⟨segments, same, separate, known⟩ := smaller [c] rest rfl (by simp)
            have later : Separate (c == '\x7b') segments := by
              by_cases brace : c = '\x7b'
              · subst brace
                refine separate.behind fun second => doubled ?_
                rw [same] at second
                obtain ⟨more, rfl⟩ := List.head?_eq_some_iff.1 second
                exact ⟨more, rfl⟩
              · have other : (c == '\x7b') = false := by simpa using brace
                rw [other]
                exact separate
            refine ⟨.char c :: segments, by rw [source_cons, same]; rfl, ⟨?_, later⟩, known⟩
            exact fun behind => absurd behind Bool.false_ne_true

/-- A doubled brace is not found in a text without braces, so it stands behind the text. -/
theorem doubled_behind {s t before behind : List Char} (plain : '\x7b' ∉ s)
    (whole : s ++ t = before ++ (doubledBrace ++ behind)) : ∃ others, t = others ++ (doubledBrace ++ behind) := by
  have absent : Text.Absent doubledBrace s := Text.absent_of_not_mem plain
  obtain ⟨others, -, found⟩ := absent.behind whole
  exact ⟨others, found⟩

/-- Neither is it found inside a placeholder: it opens the placeholder, or stands behind it. -/
theorem doubled_placeholder {name : String} {t before behind : List Char} (free : BraceFree name)
    (whole : placeholder name ++ t = before ++ (doubledBrace ++ behind)) :
    behind = name.toList ++ ['\x7d', '\x7d'] ++ t ∨ ∃ others, t = others ++ (doubledBrace ++ behind) := by
  have plain : '\x7b' ∉ name.toList ++ ['\x7d', '\x7d'] := by
    simp [free.1]
  have shape : placeholder name ++ t = '\x7b' :: '\x7b' :: (name.toList ++ ['\x7d', '\x7d'] ++ t) := by
    simp [placeholder]
  rw [shape] at whole
  cases before with
  | nil => exact .inl (List.cons.inj (List.cons.inj whole).2).2.symm
  | cons d before =>
      have second := (List.cons.inj whole).2
      cases before with
      | cons e before => exact .inr (doubled_behind plain (List.cons.inj second).2)
      | nil =>
          -- the name does not begin with a brace
          have third := (List.cons.inj second).2
          cases chars : name.toList ++ ['\x7d', '\x7d'] with
          | nil => simp at chars
          | cons c others =>
              rw [chars] at plain third
              exact absurd (List.cons.inj third).1.symm (List.ne_of_not_mem_cons plain)

/-- Each doubled brace of a template opens one of its placeholders. -/
theorem opens_source {segments : List Segment} {flag : Bool} (h : Separate flag segments) :
    IsTemplate (slotNames segments) (source segments) := by
  induction segments generalizing flag with
  | nil => exact .of_check rfl
  | cons segment rest ih =>
      intro before behind whole
      cases segment with
      | char c =>
          cases before with
          | cons d before => exact ih h.2 before behind (List.cons.inj whole).2
          | nil =>
              obtain ⟨brace, second⟩ := List.cons.inj whole
              have later := h.2
              rw [brace] at later
              exact absurd (congrArg List.head? second) later.head
      | slot name =>
          have names : slotNames (.slot name :: rest) = name :: slotNames rest := rfl
          rw [names]
          rcases doubled_placeholder h.2.1 whole with here | ⟨others, later⟩
          · rw [here]
            exact ⟨name, List.mem_cons_self, .inl (List.prefix_append _ _)⟩
          · exact (ih h.2.2).mono (List.subset_cons_self _ _) others behind later
      | wrapped name =>
          have names : slotNames (.wrapped name :: rest) = name :: slotNames rest := rfl
          have shape : source (.wrapped name :: rest) = '\x7b' :: (placeholder name ++ ('\x7d' :: source rest)) := by
            simp [Segment.source]
          rw [shape] at whole
          rw [names]
          cases before with
          | nil =>
              refine ⟨name, List.mem_cons_self, .inr ⟨source rest, ?_⟩⟩
              simpa [placeholder] using (List.cons.inj whole).2
          | cons d before =>
              rcases doubled_placeholder h.2.1 (List.cons.inj whole).2 with here | ⟨others, later⟩
              · rw [here]
                exact ⟨name, List.mem_cons_self, .inl (List.prefix_append _ _)⟩
              · obtain ⟨others, later⟩ := doubled_behind (s := ['\x7d']) (by decide) later
                exact (ih h.2.2).mono (List.subset_cons_self _ _) others behind later

/-! ### Filling in at once -/

/-- Values of different names without braces, none of which makes a doubled brace. -/
structure CleanValues (values : List (String × List Char)) : Prop where
  distinct : (values.map Prod.fst).Nodup
  free : ∀ name ∈ values.map Prod.fst, BraceFree name
  clean : ∀ pair ∈ values, Clean pair.2

/-- A template and values that can be filled into it: each of its doubled braces opens the placeholder of one of the
names. -/
structure Fillable (text : List Char) (values : List (String × List Char)) : Prop extends CleanValues values where
  template : IsTemplate (values.map Prod.fst) text

/-- A text is what a template becomes when all its names are filled in at once: however the template is taken apart
into characters and placeholders, the characters stay, and each placeholder becomes the value of its own name, in one
pair of braces where it was in one more. It can be taken apart so, with names that have values, and no placeholder is
left in the text. -/
structure FilledAtOnce (template : List Char) (values : List (String × List Char)) (text : List Char) : Prop where
  parts : ∃ segments, source segments = template ∧ Separate false segments ∧
    slotNames segments ⊆ values.map Prod.fst
  filled : ∀ segments, source segments = template → Separate false segments →
    text = segments.flatMap (Segment.text values)
  single : occurrences doubledBrace text = 0

variable {values order : List (String × List Char)}

/-- Different names have their values in any order. -/
theorem lookup_perm (same : order.Perm values) (distinct : (values.map Prod.fst).Nodup) (name : String) :
    order.lookup name = values.lookup name := by
  induction same with
  | nil => rfl
  | cons pair _ ih =>
      rw [List.map_cons, List.nodup_cons] at distinct
      rw [List.lookup_cons, List.lookup_cons, ih distinct.2]
  | swap one two rest =>
      obtain ⟨one, value⟩ := one
      obtain ⟨two, other⟩ := two
      rw [List.map_cons, List.map_cons, List.nodup_cons, List.mem_cons, not_or] at distinct
      rw [List.lookup_cons, List.lookup_cons, List.lookup_cons, List.lookup_cons]
      -- at most one of the two is the pair of the name
      cases first : name == one with
      | false => rfl
      | true =>
          have second : (name == two) = false := by
            rw [beq_eq_false_iff_ne, eq_of_beq first]
            exact distinct.1.1
          rw [second]
  | trans _ second ih ih' =>
      have between := (second.map Prod.fst).nodup_iff.2 distinct
      rw [ih between, ih' distinct]

/-- Values that make no doubled brace make none in a template. -/
theorem single_text {segments : List Segment} {flag : Bool} (h : Separate flag segments)
    (slots : ∀ name ∈ slotNames segments, ∃ value, values.lookup name = some value ∧ Clean value) :
    occurrences doubledBrace (segments.flatMap (Segment.text values)) = 0 ∧
      (flag = true → (segments.flatMap (Segment.text values)).head? ≠ some '\x7b') := by
  induction segments generalizing flag with
  | nil => exact ⟨rfl, fun _ => by simp⟩
  | cons segment rest ih =>
      rw [List.flatMap_cons]
      cases segment with
      | char c =>
          obtain ⟨single, head⟩ := ih h.2 slots
          have apart : [c].getLast? ≠ some '\x7b' ∨ (rest.flatMap (Segment.text values)).head? ≠ some '\x7b' := by
            by_cases brace : c = '\x7b'
            · exact .inr (head (beq_iff_eq.2 brace))
            · exact .inl (by simpa using brace)
          refine ⟨?_, fun behind => ?_⟩
          · rw [Segment.text, doubled_append apart, single]
            simp [occurrences, doubledBrace, List.isPrefixOf]
          · simpa [Segment.text] using h.1 behind
      | slot name =>
          obtain ⟨rfl, -, later⟩ := h
          obtain ⟨value, found, clean⟩ := slots name List.mem_cons_self
          obtain ⟨single, -⟩ := ih later fun other member => slots other (List.mem_cons_of_mem _ member)
          refine ⟨?_, fun behind => absurd behind Bool.false_ne_true⟩
          rw [Segment.text, found, Option.getD_some, doubled_append (.inl clean.last), clean.single, single]
      | wrapped name =>
          obtain ⟨rfl, -, later⟩ := h
          obtain ⟨value, found, clean⟩ := slots name List.mem_cons_self
          obtain ⟨single, -⟩ := ih later fun other member => slots other (List.mem_cons_of_mem _ member)
          refine ⟨?_, fun behind => absurd behind Bool.false_ne_true⟩
          have head : (value ++ ['\x7d']).head? ≠ some '\x7b' := Calm.head_append clean.head (by decide)
          have opening := doubled_append (a := ['\x7b']) (.inr head)
          rw [List.singleton_append] at opening
          have closing : ('\x7b' :: (value ++ ['\x7d'])).getLast? ≠ some '\x7b' := by
            rw [← List.cons_append, List.getLast?_concat]
            decide
          rw [Segment.text, found, Option.getD_some, doubled_append (.inl closing), opening,
            doubled_append (.inl clean.last), clean.single, single]
          rfl

/-- Whatever the order in which values are filled in, they are filled in at once. -/
theorem Fillable.atOnce {text : List Char} (h : Fillable text values) (same : order.Perm values) :
    FilledAtOnce text values (fill text order) := by
  have known : ∀ pair ∈ order, BraceFree pair.1 ∧ Clean pair.2 := by
    intro pair member
    have among := same.subset member
    exact ⟨h.free _ (List.mem_map_of_mem among), h.clean pair among⟩
  have texts : Segment.text order = Segment.text values := by
    funext segment
    cases segment <;> simp only [Segment.text, lookup_perm same h.distinct]
  have filled : ∀ segments, source segments = text → Separate false segments →
      fill text order = segments.flatMap (Segment.text values) := by
    rintro segments rfl separate
    rw [fill_source separate known, texts]
  obtain ⟨segments, whole, separate, names⟩ := exists_segments h.template h.free
  refine ⟨⟨segments, whole, separate, names⟩, filled, ?_⟩
  have slots : ∀ name ∈ slotNames segments, ∃ value, values.lookup name = some value ∧ Clean value := by
    intro name member
    obtain ⟨value, found, among⟩ := lookup_of_mem (names member)
    exact ⟨value, found, h.clean _ among⟩
  rw [filled segments whole separate]
  exact (single_text separate slots).1

/-! ### The templates of the designs -/

@[simp] theorem slotNames_chars (s : List Char) (rest : List Segment) :
    slotNames (s.map .char ++ rest) = slotNames rest := by
  induction s with
  | nil => rfl
  | cons c s ih => exact ih

theorem IsTemplate.of_isFrame {commands : List Definition} {text : List Char}
    (h : isFrame names commands text = true) : IsTemplate names text := by
  simp only [isFrame, Bool.and_eq_true, beq_iff_eq, List.all_eq_true, List.contains_iff_mem] at h
  obtain ⟨⟨⟨⟨whole, separate⟩, -⟩, slots⟩, -⟩ := h
  obtain ⟨template, apart⟩ := source_classCommand whole (separate_of_check separate)
  rw [← template]
  refine (opens_source apart).mono ?_
  rw [slotNames_chars]
  exact slots

/-- Every preamble is a template. -/
theorem fillable_preamble (key : TemplateKey) (h : CleanValues values)
    (names : (Design.ofKey key).names ⊆ values.map Prod.fst) : Fillable (Design.ofKey key).preamble.text values where
  toCleanValues := h
  template := (IsTemplate.of_isFrame (preamble_isFrame key)).mono names

/-- The values of every design are clean, whatever the look is. -/
theorem cleanValues_ofKey (key : TemplateKey) (look : Look) : CleanValues ((Design.ofKey key).values look) where
  distinct := by
    rw [values_names]
    cases key <;> decide
  free := by
    intro name member
    obtain ⟨pair, among, rfl⟩ := List.mem_map.1 member
    exact (fills_ofKey key look pair among).1
  clean := fun pair member => (fills_ofKey key look pair member).2.clean

theorem IsTemplate.of_spelled {lines : List String} {chars : List (List Char)} (spelled : Spelled lines chars)
    (h : isTemplate names (spelledText chars) = true) : IsTemplate names (bracedLines lines) := by
  rw [spelled.text]
  exact .of_check h

/-- The code of the commands for entries is a template. -/
theorem isTemplate_entries : IsTemplate ["before", "after"] (bracedLines entryCommandLines) := by
  apply IsTemplate.of_spelled
  · unfold entryCommandLines
    repeat apply Spelled.line
    exact .nil
  · decide +kernel

theorem fillable_entries (h : CleanValues values) (names : ["before", "after"] ⊆ values.map Prod.fst) :
    Fillable (bracedLines entryCommandLines) values where
  toCleanValues := h
  template := isTemplate_entries.mono names

/-- Filling in values one after the other is filling them in at once, for every template and every order of the
values. Every preamble and the commands for entries are such templates, and what the designs fill into them are such
values. -/
theorem fill_at_once :
    (∀ (text : List Char) (values order : List (String × List Char)), Fillable text values → order.Perm values →
      FilledAtOnce text values (fill text order)) ∧
    (∀ key values, CleanValues values → (Design.ofKey key).names ⊆ values.map Prod.fst →
      Fillable (Design.ofKey key).preamble.text values) ∧
    (∀ values, CleanValues values → ["before", "after"] ⊆ values.map Prod.fst →
      Fillable (bracedLines entryCommandLines) values) ∧
    (∀ key look, FilledAtOnce (Design.ofKey key).preamble.text ((Design.ofKey key).values look)
      ((Design.ofKey key).preambleText look)) ∧
    (∀ before after, Clean before → Clean after →
      FilledAtOnce (bracedLines entryCommandLines) [("before", before), ("after", after)]
        (entryCommands before after)) := by
  refine ⟨fun _ _ _ h same => h.atOnce same, fun key _ h names => fillable_preamble key h names,
    fun _ h names => fillable_entries h names, fun key look => ?_, fun before after clean cleanAfter => ?_⟩
  · have known : (Design.ofKey key).names ⊆ ((Design.ofKey key).values look).map Prod.fst := by
      rw [values_names]
      exact List.Subset.refl _
    exact (fillable_preamble key (cleanValues_ofKey key look) known).atOnce (.refl _)
  · have distinct : ["before", "after"].Nodup := by decide
    have free : ∀ name ∈ ["before", "after"], BraceFree name := by decide
    have values : CleanValues [("before", before), ("after", after)] := by
      refine ⟨distinct, free, ?_⟩
      intro pair member
      simp only [List.mem_cons, List.not_mem_nil, or_false] at member
      rcases member with rfl | rfl
      · exact clean
      · exact cleanAfter
    exact (fillable_entries values (List.Subset.refl _)).atOnce (.refl _)

/-- A template with a placeholder in one more pair of braces. -/
def wrappedGap : List Char :=
  "\x7b\x7b\x7bgap\x7d\x7d\x7d\x7b\x7bx\x7d\x7d".toList

/-- A value that looks like the end of one placeholder and the name of another is left as it is, and the braces around
a placeholder stay. -/
theorem fill_at_once_wrapped :
    fill wrappedGap [("x", "gap".toList), ("gap", "x\x7d\x7d".toList)] = "\x7bx\x7d\x7d\x7dgap".toList ∧
      FilledAtOnce wrappedGap [("gap", "x\x7d\x7d".toList), ("x", "gap".toList)] "\x7bx\x7d\x7d\x7dgap".toList := by
  have filled : fill wrappedGap [("x", "gap".toList), ("gap", "x\x7d\x7d".toList)] =
      "\x7bx\x7d\x7d\x7dgap".toList := by decide
  have fillable : Fillable wrappedGap [("gap", "x\x7d\x7d".toList), ("x", "gap".toList)] := by
    refine ⟨⟨by decide, by decide, ?_⟩, .of_check (by decide)⟩
    intro pair member
    simp only [List.mem_cons, List.not_mem_nil, or_false] at member
    rcases member with rfl | rfl <;> exact ⟨by decide, by decide, by decide⟩
  have atOnce := fill_at_once.1 _ _ [("x", "gap".toList), ("gap", "x\x7d\x7d".toList)] fillable (.swap _ _ _)
  rw [filled] at atOnce
  exact ⟨filled, atOnce⟩

end Vitae.Template
