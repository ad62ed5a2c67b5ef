/-
Module: Vitae.Proofs.Section.Capture
Layer: Proofs
Purpose: Commands that look past space for an option. The command of an item takes a bracket that follows
  it, and a line break takes a bracket or a star, so text of the user that begins with one of them is not
  shown as it was typed.
Imports: Mathlib.Data.List.Forall2, Vitae.Proofs.Section.Listing, Vitae.Proofs.Text.Visible
Main exports: afterSpace, isTaken, captures, captureScanner, Exposure, finds_openings, finds_skillsGrid
-/
import Mathlib.Data.List.Forall2
import Vitae.Proofs.Section.Listing
import Vitae.Proofs.Text.Visible

namespace Vitae

open Tex Text

/-! ### What a command takes -/

/-- The first token that is neither space nor a comment. -/
def afterSpace : List Token → Option Token
  | [] => none
  | .char c :: rest => if isSpace c then afterSpace rest else some (.char c)
  | .comment _ :: rest => afterSpace rest
  | t :: _ => some t

/-- Decide whether a command takes a character that follows it as the beginning of an option, or as a
star. -/
def isTaken (command : Token) (c : Char) : Bool :=
  c == '[' || command == breakSymbol && c == '*'

/-- The character that a command takes of the tokens behind it. -/
def takenOf (command : Token) (ts : List Token) : List Char :=
  match afterSpace ts with
  | some (.char c) => if isTaken command c then [c] else []
  | _ => []

/-- The commands that look for an option: those of items, and line breaks. -/
def lookers : List Token :=
  [word "item", breakSymbol]

/-- The characters that commands take, in their order. -/
def captures : List Token → List Char
  | [] => []
  | t :: rest => (if t ∈ lookers then takenOf t rest else []) ++ captures rest

/-- The reader that looks for what commands take. -/
def captureScanner : Scanner Char where
  heads := lookers
  scan := captures
  scan_nil := rfl
  scan_skip := by
    intro t rest other
    rw [captures, if_neg other, List.nil_append]

/-- What follows makes no difference to a command with something visible behind it. -/
theorem afterSpace_append {ts : List Token} {t : Token} (h : afterSpace ts = some t)
    (rest : List Token) : afterSpace (ts ++ rest) = some t := by
  induction ts with
  | nil => simp [afterSpace] at h
  | cons u ts ih =>
      rw [List.cons_append]
      cases u with
      | char c =>
          rw [afterSpace] at h ⊢
          split
          case isTrue blank => exact ih (by simpa [blank] using h)
          case isFalse visible => simpa [visible] using h
      | comment body => exact ih h
      | word name => exact h
      | symbol c => exact h
      | opening => exact h
      | closing => exact h

theorem takenOf_append {ts : List Token} {t : Token} (lead : afterSpace ts = some t)
    (command : Token) (rest : List Token) : takenOf command (ts ++ rest) = takenOf command ts := by
  rw [takenOf, takenOf, afterSpace_append lead, lead]

/-- A command takes what stands right behind it, whatever follows that. -/
theorem finds_looker (command : Token) {ts : List Token} {t : Token} {out : List Char}
    (h : command ∈ lookers) (lead : afterSpace ts = some t) (found : captureScanner.Finds ts out) :
    captureScanner.Finds (command :: ts) (takenOf command ts ++ out) := by
  intro rest
  have later : captures (ts ++ rest) = out ++ captures rest := found rest
  change captures (command :: (ts ++ rest)) = takenOf command ts ++ out ++ captures rest
  rw [captures, if_pos h, later, takenOf_append lead, List.append_assoc]

/-- A command takes nothing where a token other than a character stands behind it. -/
theorem takenOf_eq_nil {command : Token} {ts : List Token} {t : Token} (lead : afterSpace ts = some t)
    (other : ∀ c, t ≠ .char c) : takenOf command ts = [] := by
  rw [takenOf, lead]
  cases t with
  | char c => exact absurd rfl (other c)
  | _ => rfl

/-! ### Text of the user behind a command -/

/-- A text of the user that stands right behind a command. -/
structure Exposure where
  command : Token
  text : String
deriving Repr, DecidableEq

/-- The character of the text that the command takes, if it takes one. -/
def Exposure.taken (x : Exposure) : List Char :=
  ((trimChars x.text.toList).head?.filter (isTaken x.command)).toList

/-- Text behind a command is seen by the command, as far as its first character goes. -/
theorem afterSpace_text {raw : String} (h : hasText raw = true) :
    ∃ t, afterSpace (tokens (text raw).render) = some t ∧
      ∀ command, takenOf command (tokens (text raw).render) = Exposure.taken ⟨command, raw⟩ := by
  obtain ⟨c, rest, shown, visible⟩ := trimChars_cons h
  have read : tokens (text raw).render = tokens (escapeChar c) ++ tokens (escape rest) := by
    rw [render_text, shown, escape, List.flatMap_cons, tokens_append (escapeChar_tight c)]
    rfl
  have taken : ∀ command, Exposure.taken ⟨command, raw⟩ = if isTaken command c then [c] else [] := by
    intro command
    rw [Exposure.taken, shown, List.head?_cons, Option.filter_some]
    split <;> rfl
  rcases escapeChar_cases c with ⟨name, member, e⟩ | ⟨member, e⟩ | ⟨plain, e⟩
  · have lead : afterSpace (tokens (text raw).render) = some (.word name.toList) := by
      rw [read, e, tokens, lex_closedWord member]
      rfl
    refine ⟨_, lead, fun command => ?_⟩
    have all : ∀ pair ∈ spelled, pair.1 ≠ '[' ∧ pair.1 ≠ '*' := by decide
    have other := all _ member
    rw [takenOf_eq_nil lead (by simp), taken, isTaken]
    simp [other]
  · have lead : afterSpace (tokens (text raw).render) = some (.symbol c) := by
      rw [read, e, tokens, lex_slashed member]
      rfl
    refine ⟨_, lead, fun command => ?_⟩
    have bracket : c ≠ '[' := fun e => absurd (e ▸ member) (by decide)
    have star : c ≠ '*' := fun e => absurd (e ▸ member) (by decide)
    rw [takenOf_eq_nil lead (by simp), taken, isTaken]
    simp [bracket, star]
  · have lead : afterSpace (tokens (text raw).render) = some (.char c) := by
      rw [read, e, tokens, lex_not_reserved plain]
      simp [afterSpace, visible]
    refine ⟨_, lead, fun command => ?_⟩
    rw [takenOf, lead, taken]

/-! ### Lists -/

/-- What may stand behind a command: source that shows the reader nothing itself, and begins with something
visible. -/
structure IsLead (s : Source) : Prop where
  ends : Ends .tight s.render
  silent : captureScanner.Finds (tokens s.render) []
  visible : ∃ t, afterSpace (tokens s.render) = some t

/-- Text that says anything may stand behind a command. -/
theorem isLead_text {raw : String} (h : hasText raw = true) : IsLead (text raw) := by
  have flow : Flow [] .tight (text raw) := .ofText raw
  obtain ⟨t, lead, -⟩ := afterSpace_text h
  exact ⟨flow.inert.ends, Scanner.finds_flow flow (by decide), t, lead⟩

/-- The command of an item takes what the text of the item begins with. -/
theorem finds_itemTokens {item : Source} (h : IsLead item) :
    captureScanner.Finds (itemTokens (tokens item.render))
      (takenOf (word "item") (tokens item.render)) := by
  obtain ⟨t, lead⟩ := h.visible
  have behind : afterSpace (.char ' ' :: (tokens item.render ++ [.char '\n'])) = some t := by
    rw [afterSpace, if_pos (by decide)]
    exact afterSpace_append lead _
  have taken : takenOf (word "item") (.char ' ' :: (tokens item.render ++ [.char '\n'])) =
      takenOf (word "item") (tokens item.render) := by
    rw [takenOf, behind, takenOf, lead]
  have blank : ∀ c, captureScanner.Finds [.char c] [] :=
    fun c => Scanner.finds_chars (by decide) [c]
  have found := finds_looker (word "item") (by decide) behind
    ((blank ' ').append (h.silent.append (blank '\n')))
  rw [taken] at found
  simpa [itemTokens] using found

/-- What the commands of a list take. -/
theorem finds_itemize {options : String} {items : List Source} (ink : Ink options)
    (leads : ∀ p ∈ items, IsLead p) :
    captureScanner.Finds (tokens (itemize options items).render)
      (items.flatMap fun p => takenOf (word "item") (tokens p.render)) := by
  by_cases none : items = []
  · rw [none]
    exact .nil
  · have plain : captureScanner.Finds ((options.toList ++ ['\n']).map .char) [] :=
      Scanner.finds_chars (by decide) _
    have opening : captureScanner.Finds listOpening [] := .skip (by decide)
    have closing : captureScanner.Finds listClosing [] := .skip (by decide)
    have items : captureScanner.Finds ((items.map fun p => tokens p.render).flatMap itemTokens)
        (items.flatMap fun p => takenOf (word "item") (tokens p.render)) := by
      rw [List.flatMap_map]
      exact .flatMap fun p member => finds_itemTokens (leads p member)
    have whole := opening.append ((plain.append items).append closing)
    rw [tokens_itemize ink none fun p member => (leads p member).ends]
    simpa [listBody] using whole

/-! ### Lines -/

/-- Lines with breaks between them. Every break takes what the line behind it begins with. -/
theorem finds_lines {lines : List Source} (leads : ∀ p ∈ lines, IsLead p) :
    captureScanner.Finds (tokens (Source.render (join lineBreak lines)))
      (lines.tail.flatMap fun p => takenOf breakSymbol (tokens p.render)) := by
  have begins : ∀ (p : Source) (rest : List Source), Ends .tight p.render →
      ∃ more, tokens (Source.render (join lineBreak (p :: rest))) = tokens p.render ++ more := by
    intro p rest ends
    cases rest with
    | nil => exact ⟨[], by simp⟩
    | cons q rest =>
        rw [join_cons_cons, Source.render_append, tokens_append ends]
        exact ⟨_, rfl⟩
  have lineEnd : ∀ s : List Char, tokens (Source.render lineBreak ++ s) =
      .char ' ' :: breakSymbol :: .char '\n' :: tokens s := by
    intro s
    rw [lineBreak, render_code, tokens_append (by decide)]
    rfl
  induction lines with
  | nil => exact .nil
  | cons p rest ih =>
      have first := leads p List.mem_cons_self
      have later := ih fun q member => leads q (List.mem_cons_of_mem p member)
      cases rest with
      | nil => simpa using first.silent
      | cons q rest =>
          have next := leads q (by simp)
          obtain ⟨t, lead⟩ := next.visible
          obtain ⟨more, shape⟩ := begins q rest next.ends
          have blank : ∀ c, captureScanner.Finds [.char c] [] :=
            fun c => Scanner.finds_chars (by decide) [c]
          have behind : afterSpace (.char '\n' :: tokens (Source.render (join lineBreak (q :: rest)))) =
              some t := by
            rw [afterSpace, if_pos (by decide), shape]
            exact afterSpace_append lead more
          have taken : takenOf breakSymbol (.char '\n' :: tokens (Source.render (join lineBreak (q :: rest)))) =
              takenOf breakSymbol (tokens q.render) := by
            rw [takenOf, behind, takenOf, lead]
          have found := finds_looker breakSymbol (by decide) behind
            ((blank '\n').append later)
          have whole := first.silent.append ((blank ' ').append found)
          rw [taken] at whole
          rw [join_cons_cons, Source.render_append, Source.render_append, tokens_append first.ends,
            lineEnd]
          simpa using whole

/-! ### Openings

What a line or an item begins with: a text of the user, or a command of the library. -/

/-- Source that begins with the text of the user that is given, or with a command where none is given. -/
structure Opens (s : Source) (opening : Option String) : Prop extends IsLead s where
  taken : ∀ command, takenOf command (tokens s.render) =
    opening.toList.flatMap fun t => Exposure.taken ⟨command, t⟩

theorem opens_text {raw : String} (h : hasText raw = true) : Opens (text raw) (some raw) := by
  obtain ⟨-, -, taken⟩ := afterSpace_text h
  exact ⟨isLead_text h, fun command => by simpa using taken command⟩

/-- Source that begins with a command takes part in no other command. -/
theorem opens_command {s : Source} {controls : List Token} {t : Token} (flow : Flow controls .tight s)
    (silent : captureScanner.ignores controls = true) (lead : afterSpace (tokens s.render) = some t)
    (other : ∀ c, t ≠ .char c) : Opens s none :=
  ⟨⟨flow.inert.ends, Scanner.finds_flow flow silent, t, lead⟩, fun _ => takenOf_eq_nil lead other⟩

theorem opens_href {target shown : Source} (isTarget : ∀ p ∈ target, p.IsTarget)
    (flow : Flow [] .tight shown) : Opens (href target shown) none := by
  have lead : afterSpace (tokens (href target shown).render) = some hrefWord := by
    rw [Flow.tokens_link isTarget flow.loosen]
    rfl
  exact opens_command (.link isTarget flow.loosen) (by decide) lead (by simp [hrefWord])

theorem opens_linkTo (address : String) {shown : Source} (flow : Flow [] .tight shown) :
    Opens (linkTo address shown) none :=
  opens_href (by simp [Piece.IsTarget]) flow

/-- What a command takes of some items or lines, in terms of the texts that they open with. -/
theorem taken_openings {items : List Source} {openings : List (Option String)}
    (h : List.Forall₂ Opens items openings) (command : Token) :
    (items.flatMap fun p => takenOf command (tokens p.render)) =
      (openings.filterMap id).flatMap fun t => Exposure.taken ⟨command, t⟩ := by
  induction h with
  | nil => rfl
  | @cons item opening items openings first _ ih =>
      rw [List.flatMap_cons, ih, first.taken]
      cases opening <;> simp

theorem leads_of_openings {items : List Source} {openings : List (Option String)}
    (h : List.Forall₂ Opens items openings) : ∀ p ∈ items, IsLead p := by
  induction h with
  | nil => simp
  | cons first _ ih =>
      intro p member
      rcases List.mem_cons.1 member with rfl | member
      · exact first.toIsLead
      · exact ih p member

/-- The commands of a list take what its items open with. -/
theorem finds_openings {options : String} {items : List Source} {openings : List (Option String)}
    (ink : Ink options) (h : List.Forall₂ Opens items openings) :
    captureScanner.Finds (tokens (itemize options items).render)
      ((openings.filterMap id).flatMap fun t => Exposure.taken ⟨word "item", t⟩) := by
  rw [← taken_openings h]
  exact finds_itemize ink (leads_of_openings h)

/-- The breaks between lines take what the lines open with, but for the first line. -/
theorem finds_lineOpenings {lines : List Source} {openings : List (Option String)}
    (h : List.Forall₂ Opens lines openings) :
    captureScanner.Finds (tokens (Source.render (join lineBreak lines)))
      ((openings.tail.filterMap id).flatMap fun t => Exposure.taken ⟨breakSymbol, t⟩) := by
  have rest : List.Forall₂ Opens lines.tail openings.tail := by
    cases h with
    | nil => exact .nil
    | cons _ rest => exact rest
  rw [← taken_openings rest]
  exact finds_lines (leads_of_openings h)

/-- Texts that say something open with themselves. -/
theorem openings_textItems (raw : List String) :
    List.Forall₂ Opens (textItems raw) ((raw.filter hasText).map some) := by
  rw [textItems, List.forall₂_map_left_iff, List.forall₂_map_right_iff, List.forall₂_same]
  intro t member
  exact opens_text (List.mem_filter.1 member).2

/-! ### Grids -/

/-- The rows of a grid are lines with breaks between them, and a break at the end. -/
theorem render_gridRows {rows : List (List Source)} (some : rows ≠ []) :
    Source.render (join (code "\n") (rows.map gridRow)) =
      Source.render (join lineBreak (rows.map (join (code " & ")))) ++ " \\\\".toList := by
  have between : " \\\\\n".toList = " \\\\".toList ++ "\n".toList := by decide
  induction rows with
  | nil => exact absurd rfl some
  | cons row rest ih =>
      cases rest with
      | nil => simp [gridRow]
      | cons next rest =>
          have rows : join (code "\n") ((row :: next :: rest).map gridRow) =
              gridRow row ++ (code "\n" ++ join (code "\n") ((next :: rest).map gridRow)) :=
            join_cons_cons _ _ _ _
          have lines : join lineBreak ((row :: next :: rest).map (join (code " & "))) =
              join (code " & ") row ++
                (lineBreak ++ join lineBreak ((next :: rest).map (join (code " & ")))) :=
            join_cons_cons _ _ _ _
          rw [rows, lines, Source.render_append, Source.render_append, ih (by simp),
            Source.render_append, Source.render_append, gridRow, Source.render_append, lineBreak]
          simp only [render_code, between, List.append_assoc]

/-- A row begins with its first cell. -/
theorem isLead_row {cell : Source} {cells : List Source} (h : IsLead cell)
    (flow : Flow [] .tight cell) (flows : ∀ p ∈ cells, Flow [] .tight p) :
    IsLead (join (code " & ") (cell :: cells)) ∧
      ∀ command, takenOf command (tokens (Source.render (join (code " & ") (cell :: cells)))) =
        takenOf command (tokens cell.render) := by
  have between : Flow [] .tight (code " & ") := .ink (by decide)
  have whole : Flow [] .tight (join (code " & ") (cell :: cells)) := by
    refine .join between ?_
    intro p member
    rcases List.mem_cons.1 member with rfl | member
    · exact flow
    · exact flows p member
  obtain ⟨more, shape⟩ : ∃ more, tokens (Source.render (join (code " & ") (cell :: cells))) =
      tokens cell.render ++ more := by
    cases cells with
    | nil => exact ⟨[], by simp⟩
    | cons next cells =>
        rw [join_cons_cons, Source.render_append, tokens_append h.ends]
        exact ⟨_, rfl⟩
  obtain ⟨t, lead⟩ := h.visible
  refine ⟨⟨whole.inert.ends, Scanner.finds_flow whole (by decide), t, ?_⟩, ?_⟩
  · rw [shape]
    exact afterSpace_append lead more
  · intro command
    rw [shape, takenOf_append lead]

/-- The texts that open the rows of a grid, but for the first row. -/
def rowTexts (columns : Nat) (texts : List String) : List String :=
  (chunks columns [] [] texts).tail.filterMap List.head?

/-- A row of texts with empty cells at its end. -/
def rowSource (columns : Nat) (texts : List String) : Source :=
  join (code " & ") (texts.map text ++ List.replicate (columns - texts.length) [])

theorem gridRows_eq (columns : Nat) (raw : List String) :
    (gridRows columns (textItems raw)).map (join (code " & ")) =
      (chunks columns [] [] (raw.filter hasText)).map (rowSource columns) := by
  have cut := chunks_map text columns [] [] (raw.filter hasText)
  rw [List.map_nil, List.map_nil] at cut
  rw [gridRows, textItems, cut, List.map_map, List.map_map]
  refine List.map_congr_left fun texts _ => ?_
  simp [rowSource]

/-- A row of texts that say something may stand behind a break, which takes what the first of them begins
with. -/
theorem isLead_rowSource {columns : Nat} {t : String} {texts : List String}
    (h : ∀ u ∈ t :: texts, hasText u = true) :
    IsLead (rowSource columns (t :: texts)) ∧
      takenOf breakSymbol (tokens (rowSource columns (t :: texts)).render) =
        Exposure.taken ⟨breakSymbol, t⟩ := by
  have first := h t List.mem_cons_self
  obtain ⟨-, -, taken⟩ := afterSpace_text first
  have flows : ∀ p ∈ texts.map text ++ List.replicate (columns - (texts.length + 1)) [],
      Flow [] .tight p := by
    intro p member
    rcases List.mem_append.1 member with member | member
    · obtain ⟨u, -, rfl⟩ := List.mem_map.1 member
      exact .ofText u
    · rw [List.eq_of_mem_replicate member]
      exact .nil
  have whole := isLead_row (isLead_text first) (.ofText t) flows
  rw [rowSource, List.map_cons, List.cons_append, List.length_cons]
  exact ⟨whole.1, (whole.2 breakSymbol).trans (taken breakSymbol)⟩

/-- What the breaks between the rows of a grid take. -/
theorem finds_gridRows (columns : Nat) (raw : List String) :
    captureScanner.Finds
      (tokens (Source.render (join lineBreak
        ((gridRows columns (textItems raw)).map (join (code " & "))))))
      ((rowTexts columns (raw.filter hasText)).flatMap fun t => Exposure.taken ⟨breakSymbol, t⟩) := by
  have visible : ∀ row ∈ chunks columns [] [] (raw.filter hasText),
      row ≠ [] ∧ ∀ t ∈ row, hasText t = true := by
    intro row cut
    refine ⟨chunks_ne_nil (by simp) cut, fun t member => ?_⟩
    have whole := flatten_chunks columns [] [] (raw.filter hasText)
    rw [List.reverse_nil, List.flatten_nil, List.reverse_nil, List.nil_append, List.nil_append] at whole
    exact (List.mem_filter.1 (whole ▸ List.mem_flatten_of_mem cut member)).2
  have leads : ∀ p ∈ (chunks columns [] [] (raw.filter hasText)).map (rowSource columns), IsLead p := by
    intro p member
    obtain ⟨row, cut, rfl⟩ := List.mem_map.1 member
    obtain ⟨nonempty, texts⟩ := visible row cut
    cases row with
    | nil => exact absurd rfl nonempty
    | cons t rest => exact (isLead_rowSource texts).1
  have taken : ∀ rows : List (List String), (∀ row ∈ rows, row ≠ [] ∧ ∀ t ∈ row, hasText t = true) →
      rows.flatMap (fun row => takenOf breakSymbol (tokens (rowSource columns row).render)) =
        (rows.filterMap List.head?).flatMap fun t => Exposure.taken ⟨breakSymbol, t⟩ := by
    intro rows visible
    induction rows with
    | nil => rfl
    | cons row rest ih =>
        have others := ih fun r member => visible r (List.mem_cons_of_mem row member)
        obtain ⟨nonempty, texts⟩ := visible row List.mem_cons_self
        cases row with
        | nil => exact absurd rfl nonempty
        | cons t more =>
            rw [List.flatMap_cons, others, (isLead_rowSource texts).2]
            simp
  have found := finds_lines leads
  rw [← List.map_tail, List.flatMap_map,
    taken _ fun row member => visible row (List.mem_of_mem_tail member)] at found
  rw [gridRows_eq]
  exact found

/-- The break that ends a grid takes nothing. -/
theorem finds_gridEnd :
    captureScanner.Finds (tokens " \\\\\n\\end\x7btabular\x7d\x7d".toList) [] := by
  have read : tokens " \\\\\n\\end\x7btabular\x7d\x7d".toList =
      .char ' ' :: breakSymbol :: tokens "\n\\end\x7btabular\x7d\x7d".toList := by decide
  have lead : afterSpace (tokens "\n\\end\x7btabular\x7d\x7d".toList) = some (word "end") := by decide
  have rest : captureScanner.Finds (tokens "\n\\end\x7btabular\x7d\x7d".toList) [] := .skip (by decide)
  have found := finds_looker breakSymbol (by decide) lead rest
  rw [takenOf_eq_nil lead (by simp [word]), List.append_nil] at found
  rw [read]
  exact (Scanner.finds_chars (by decide) [' ']).append found

/-- What the commands of a grid take. -/
theorem finds_skillsGrid (columns : Nat) (raw : List String) :
    captureScanner.Finds (tokens (skillsGrid (textItems raw) columns).render)
      ((rowTexts (max columns 1) (raw.filter hasText)).flatMap fun t =>
        Exposure.taken ⟨breakSymbol, t⟩) := by
  unfold skillsGrid
  split
  case isTrue empty =>
    have none : raw.filter hasText = [] := by simpa [textItems] using empty
    rw [none]
    exact .nil
  case isFalse some =>
    have cut : gridRows (max columns 1) (textItems raw) ≠ [] := by
      have whole := flatten_chunks (max columns 1) [] [] (textItems raw)
      intro none
      rw [gridRows, List.map_eq_nil_iff] at none
      rw [none] at whole
      simp_all
    have opens : Ends .tight "\\small\n\\begin\x7btabular\x7d".toList := by decide
    have opening : captureScanner.Finds (tokens "\\small\n\\begin\x7btabular\x7d".toList) [] :=
      .skip (by decide)
    have brace : ∀ t ∈ [Token.opening, .closing, .char '\n'], captureScanner.Finds [t] [] := by
      intro t member
      refine .skip ?_
      simp only [List.mem_cons, List.not_mem_nil, or_false] at member
      rcases member with rfl | rfl | rfl <;> decide
    have spec : Flow [word "textwidth"] .tight
        (join (code " ") (List.replicate (max columns 1) (columnSpec (max columns 1)))) :=
      flow_columnSpecs _ (by simp)
    have rows : Flow [breakSymbol] .tight
        (join lineBreak ((gridRows (max columns 1) (textItems raw)).map (join (code " & ")))) := by
      have between : Flow [breakSymbol] .tight lineBreak := .literal (by decide)
      refine .join between ?_
      intro p member
      obtain ⟨row, among, rfl⟩ := List.mem_map.1 member
      refine .join (.ink (by decide)) ?_
      intro cell inside
      rcases mem_gridRows among inside with item | rfl
      · exact flow_textItems raw cell item
      · exact .nil
    have closes : " \\\\\n\\end\x7btabular\x7d\x7d".toList =
        " \\\\".toList ++ ("\n\\end\x7btabular\x7d".toList ++ ['\x7d']) := by decide
    have line : "\n".toList = ['\n'] := rfl
    have newline : ∀ s : List Char, tokens ('\n' :: s) = [.char '\n'] ++ tokens s := fun _ => rfl
    have shape : Source.render (group (code "\\small\n\\begin\x7btabular\x7d" ++
        group (join (code " ") (List.replicate (max columns 1) (columnSpec (max columns 1)))) ++ code "\n" ++
          join (code "\n") ((gridRows (max columns 1) (textItems raw)).map gridRow) ++
            code "\n\\end\x7btabular\x7d")) =
        '\x7b' :: ("\\small\n\\begin\x7btabular\x7d".toList ++ ('\x7b' ::
          (Source.render (join (code " ") (List.replicate (max columns 1) (columnSpec (max columns 1)))) ++
            '\x7d' :: ('\n' :: (Source.render (join lineBreak
              ((gridRows (max columns 1) (textItems raw)).map (join (code " & ")))) ++
                " \\\\\n\\end\x7btabular\x7d\x7d".toList))))) := by
      rw [render_group]
      simp only [Source.render_append, render_code, render_group, render_gridRows cut, closes, line,
        List.append_assoc, List.cons_append, List.nil_append]
    have found := (brace .opening (by simp)).append (opening.append ((brace .opening (by simp)).append
      ((Scanner.finds_flow spec (by decide)).append ((brace .closing (by simp)).append
        ((brace (.char '\n') (by simp)).append
          ((finds_gridRows (max columns 1) raw).append finds_gridEnd))))))
    dsimp only
    rw [shape, tokens_cons_opening, tokens_append opens, tokens_group spec.inert.ends.loosen, newline,
      tokens_append rows.inert.ends]
    simpa using found

end Vitae
