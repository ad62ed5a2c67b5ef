/-
Module: Vitae.Proofs.Tex.Target
Layer: Proofs
Purpose: Link targets as TeX takes them in. The backslash in front of a character of a target shields it,
  unless two carets take the backslash; and two carets may stand for such a character themselves. Where
  neither happens and no line of the target is blank, nothing in it closes or opens a group, begins a comment
  or calls anything, and only there.
Imports: Mathlib.Data.List.Induction, Vitae.Proofs.Tex.Input, Vitae.Proofs.Tex.Token, Vitae.Proofs.Text.Lines
Main exports: Seen, seen, sightsFrom_escapeUrl, isTame, isBlankLine, isHarmless, isHarmless_escapeUrl_iff,
  isHarmless_escapeUrl
-/
import Mathlib.Data.List.Induction
import Vitae.Proofs.Tex.Input
import Vitae.Proofs.Tex.Token
import Vitae.Proofs.Text.Lines

namespace Vitae.Tex.Input

/-! ### Characters with and without a backslash -/

/-- The characters that a backslash is put in front of in a link target. -/
def shields : List Char :=
  ['#', '%', '\\', '\x7b', '\x7d']

/-- Is a backslash put in front of the character? -/
def isShielded (c : Char) : Bool :=
  c ∈ shields

/-- A character that a backslash is put in front of. -/
abbrev Shielded := { c : Char // isShielded c = true }

theorem Shielded.mem (c : Shielded) : c.1 ∈ shields :=
  of_decide_eq_true c.2

/-- What holds of the shielded characters one by one holds of each. -/
theorem Shielded.elim {motive : Char → Prop} (number : motive '#') (percent : motive '%')
    (slash : motive '\\') (opening : motive '\x7b') (closing : motive '\x7d') (c : Shielded) :
    motive c.1 := by
  have member := c.mem
  simp only [shields, List.mem_cons, List.not_mem_nil, or_false] at member
  rcases member with e | e | e | e | e <;> rw [e] <;> assumption

theorem not_shielded_iff {c : Char} :
    isShielded c = false ↔ c ≠ '#' ∧ c ≠ '%' ∧ c ≠ '\\' ∧ c ≠ '\x7b' ∧ c ≠ '\x7d' := by
  simp [isShielded, shields]

theorem escapeUrlChar_plain {c : Char} (h : isShielded c = false) : escapeUrlChar c = [c] := by
  rw [not_shielded_iff] at h
  simp [escapeUrlChar, h]

/-- A shielded character is written as a backslash and something without carets. -/
theorem Shielded.written (c : Shielded) : ∃ tail, escapeUrlChar c.1 = '\\' :: tail ∧ '^' ∉ tail := by
  refine Shielded.elim (motive := fun c => ∃ tail, escapeUrlChar c = '\\' :: tail ∧ '^' ∉ tail)
    ?_ ?_ ?_ ?_ ?_ c
  all_goals exact ⟨_, rfl, by decide⟩

/-- Only the character itself is written with a character that the forms of shielded characters lack. -/
theorem eq_of_mem_escapeUrlChar {c d : Char} (h : d ∈ escapeUrlChar c) (other : d ∉ "\\#%5C7BD".toList) :
    d = c := by
  have forms : shields.all (fun c => (escapeUrlChar c).all (· ∈ "\\#%5C7BD".toList)) = true := by decide
  cases shield : isShielded c with
  | false => simpa [escapeUrlChar_plain shield] using h
  | true =>
      have form := List.all_eq_true.1 forms c (of_decide_eq_true shield)
      exact absurd (of_decide_eq_true (List.all_eq_true.1 form d h)) other

/-- What is seen of the characters of a link target. -/
inductive Seen where
  /-- A typed character with the backslash in front of it. -/
  | shielded (c : Shielded)
  /-- A typed character whose backslash is taken by two carets. -/
  | robbed (c : Shielded)
  /-- Any other typed character, or one that two carets stand for. -/
  | bare (c : Char)

/-- The characters that are seen. Two carets before a backslash are seen as the character with code 28. -/
def Seen.chars : Seen → List Char
  | .shielded c => escapeUrlChar c.1
  | .robbed c => '\x1c' :: (escapeUrlChar c.1).tail
  | .bare c => [c]

/-- Read a character of a link target: what is seen then, and how much of the next carets is read. -/
def Carets.see (carets : Carets) (c : Char) : List Seen × Carets :=
  if h : isShielded c = true then
    match carets with
    | .two => ([.robbed ⟨c, h⟩], .none)
    | carets => (carets.rest.map .bare ++ [.shielded ⟨c, h⟩], .none)
  else ((carets.read c).1.map .bare, (carets.read c).2)

/-- What is seen in the rest of a line of a link target. -/
def seenFrom : Carets → List Char → List Seen
  | carets, [] => carets.rest.map .bare
  | carets, c :: s => (carets.see c).1 ++ seenFrom (carets.see c).2 s

/-- What is seen in a line of a link target. -/
def seen (line : List Char) : List Seen :=
  seenFrom .none line

theorem flatMap_bare (s : List Char) : (s.map Seen.bare).flatMap Seen.chars = s := by
  rw [List.flatMap_map]
  exact List.flatMap_singleton' s

/-- Characters that are no carets are seen as themselves. -/
theorem sightsFrom_append {s : List Char} (h : '^' ∉ s) (rest : List Char) :
    sightsFrom .none (s ++ rest) = s ++ sightsFrom .none rest := by
  induction s with
  | nil => rfl
  | cons c s ih =>
      rw [List.mem_cons, not_or] at h
      have read : Carets.read .none c = ([c], .none) := if_neg (Ne.symm h.1)
      rw [List.cons_append, sightsFrom, read, ih h.2]
      rfl

/-- A backslash ends what is read of carets. -/
theorem Carets.read_slash (carets : Carets) :
    carets.read '\\' = (match carets with | .two => ['\x1c'] | carets => carets.rest ++ ['\\'], .none) := by
  cases carets with
  | none => rfl
  | one => rfl
  | two => rfl
  | half a =>
      have digit : lowerHex? '\\' = Option.none := rfl
      rw [Carets.read]
      cases lowerHex? a <;> rfl

/-- What TeX sees in a link target, carets and all. -/
theorem sightsFrom_escapeUrl (carets : Carets) (s : List Char) :
    sightsFrom carets (escapeUrl s) = (seenFrom carets s).flatMap Seen.chars := by
  induction s generalizing carets with
  | nil => exact (flatMap_bare _).symm
  | cons c s ih =>
      have unfolded : escapeUrl (c :: s) = escapeUrlChar c ++ escapeUrl s := List.flatMap_cons
      rw [unfolded, seenFrom, List.flatMap_append, ← ih]
      cases shield : isShielded c with
      | false =>
          rw [escapeUrlChar_plain shield, Carets.see, dif_neg (by simp [shield]), List.singleton_append,
            sightsFrom, flatMap_bare]
      | true =>
          obtain ⟨tail, form, plain⟩ := Shielded.written ⟨c, shield⟩
          rw [form, List.cons_append, sightsFrom, Carets.read_slash, sightsFrom_append plain, Carets.see,
            dif_pos shield]
          cases carets with
          | two => simp [Seen.chars, form]
          | none | one | half a => simp [Seen.chars, form, flatMap_bare]

/-! ### What is read -/

/-- What leaves a group as it is: every character that neither opens nor closes a group nor stands for a
parameter, and the control symbols that shield a character. -/
def Item.isHarmless : Item → Bool
  | .control name => name == ['#'] || name == ['%']
  | .char _ k => k != .opening && k != .closing && k != .parameter
  | .comment => false

/-- Is everything harmless that the rest of a line is read as? -/
def harmless (state : State) (s : List Char) : Bool :=
  (run state s).all Item.isHarmless

theorem harmless_cons (state : State) (c : Char) (s : List Char) :
    harmless state (c :: s) =
      ((state.read c).1.all Item.isHarmless && harmless (state.read c).2 s) :=
  List.all_append

theorem harmless_over (s : List Char) : harmless .over s = true := by
  induction s with
  | nil => rfl
  | cons c s ih => exact ih

/-- A control word is not harmless, however it ends. -/
theorem harmless_word {c : Char} (letter : c.isAlpha = true) (more s : List Char) :
    harmless (.word (c :: more)) s = false := by
  have other : c ≠ '#' ∧ c ≠ '%' := by
    constructor <;> rintro rfl <;> cases letter
  have word : ∀ more, (Item.control (c :: more)).isHarmless = false := by
    intro more
    simp [Item.isHarmless, other]
  induction s generalizing more with
  | nil =>
      change ((Item.control (c :: more)).isHarmless && true) = false
      rw [word, Bool.false_and]
  | cons d s ih =>
      rw [harmless_cons, State.read]
      by_cases goesOn : d.isAlpha = true
      · rw [if_pos goesOn]
        exact ih (more ++ [d])
      · rw [if_neg goesOn, List.all_cons, word]
        rfl

/-- Behind a backslash only two characters are harmless. -/
theorem harmless_slash (c : Char) (s : List Char) :
    harmless .slash (c :: s) =
      ((c == '#' || c == '%') && harmless (.place .midLine) s) := by
  rw [harmless_cons, State.read]
  by_cases letter : c.isAlpha = true
  · have other : (c == '#' || c == '%') = false := by
      rw [Bool.or_eq_false_iff, beq_eq_false_iff_ne, beq_eq_false_iff_ne]
      constructor <;> rintro rfl <;> cases letter
    rw [if_pos letter, other]
    exact harmless_word letter [] s
  · rw [if_neg letter]
    by_cases symbol : c = '#' ∨ c = '%'
    · rcases symbol with rfl | rfl <;> rfl
    · rw [not_or] at symbol
      have other : (c == '#' || c == '%') = false := by simp [symbol]
      simp [Item.isHarmless, other]

/-- A shielded character is harmless, and what follows it is read from the middle of a line. -/
theorem harmless_shielded (p : Place) (c : Shielded) (s : List Char) :
    harmless (.place p) (escapeUrlChar c.1 ++ s) = harmless (.place .midLine) s := by
  refine Shielded.elim (motive := fun c => harmless (.place p) (escapeUrlChar c ++ s) = _) ?_ ?_ ?_ ?_ ?_ c
  all_goals cases p <;> rfl

/-- A character whose backslash is taken is not. -/
theorem harmless_robbed (p : Place) (c : Shielded) (s : List Char) :
    harmless (.place p) ((Seen.robbed c).chars ++ s) = false := by
  refine Shielded.elim
    (motive := fun c => harmless (.place p) ('\x1c' :: (escapeUrlChar c).tail ++ s) = false) ?_ ?_ ?_ ?_ ?_ c
  all_goals cases p <;> rfl

/-- Neither is one that carets stand for. -/
theorem harmless_exposed (p : Place) (c : Shielded) (other : c.1 ≠ '\\') (s : List Char) :
    harmless (.place p) (c.1 :: s) = false := by
  refine Shielded.elim (motive := fun c => c ≠ '\\' → harmless (.place p) (c :: s) = false)
    ?_ ?_ (fun other => absurd rfl other) ?_ ?_ c other
  all_goals
    intro
    cases p <;> rfl

/-- A space, or a character that is passed over. -/
def isFaint (c : Char) : Bool :=
  category c == .space || category c == .ignored || category c == .invalid

/-- The category of a visible character that needs no backslash and does not end the line. -/
theorem category_visible {c : Char} (bare : isShielded c = false) (goesOn : c ≠ '\r')
    (visible : isFaint c = false) :
    category c ∈ [Category.math, .alignment, .superscript, .subscript, .letter, .active, .other] := by
  have table : ∀ special ∈ specials, isShielded special.1 = false → special.1 ≠ '\r' →
      isFaint special.1 = false →
        special.2 ∈ [Category.math, .alignment, .superscript, .subscript, .letter, .active, .other] := by
    decide
  cases found : specials.lookup c with
  | some k =>
      obtain ⟨before, after, whole, -⟩ := List.lookup_eq_some_iff.1 found
      have member : (c, k) ∈ specials := whole ▸ List.mem_append_right _ List.mem_cons_self
      rw [category, found]
      exact table (c, k) member bare goesOn visible
  | none =>
      rw [category, found, Option.getD_none]
      split <;> decide

/-- A character that is passed over is harmless, and a line that is blank so far stays blank. -/
theorem harmless_faint (p : Place) {c : Char} (faint : isFaint c = true) (s : List Char) :
    ∃ q : Place, (q = .newLine ↔ p = .newLine) ∧
      harmless (.place p) (c :: s) = harmless (.place q) s := by
  simp only [isFaint, Bool.or_eq_true, beq_iff_eq] at faint
  rw [harmless_cons, State.read, Place.read]
  rcases faint with (space | ignored) | invalid
  · rw [space]
    refine ⟨p.space.2, ?_, ?_⟩ <;> cases p <;> simp [Place.space, Item.isHarmless]
  · rw [ignored]
    exact ⟨p, .rfl, rfl⟩
  · rw [invalid]
    exact ⟨p, .rfl, rfl⟩

/-- Any other character that needs no backslash is harmless, too, and nothing blank. -/
theorem harmless_visible (p : Place) {c : Char} (bare : isShielded c = false) (goesOn : c ≠ '\r')
    (visible : isFaint c = false) (s : List Char) :
    harmless (.place p) (c :: s) = harmless (.place .midLine) s := by
  have ordinary := category_visible bare goesOn visible
  simp only [List.mem_cons, List.not_mem_nil, or_false] at ordinary
  rw [harmless_cons, State.read, Place.read]
  rcases ordinary with k | k | k | k | k | k | k <;> rw [k] <;> rfl

/-! ### Tame lines -/

/-- Up to the end of a line, no backslash is taken by carets, and carets stand for none of the characters that
need one, unless they stand for a backslash and for the number or percent sign that it shields. -/
def isTame : List Seen → Bool
  | [] => true
  | .shielded _ :: rest => isTame rest
  | .robbed _ :: _ => false
  | .bare c :: rest =>
      if c = '\r' then true
      else if c = '\\' then
        match rest with
        | .bare d :: rest => (d == '#' || d == '%') && isTame rest
        | _ => false
      else !isShielded c && isTame rest

/-- Nothing visible is seen before the end of the line. -/
def isBlankLine : List Seen → Bool
  | .bare c :: rest => c == '\r' || (isFaint c && isBlankLine rest)
  | _ => false

/-- A line is read as harmless items where it is tame and, read from its beginning, not blank. -/
theorem harmless_seen_iff (xs : List Seen) (p : Place) :
    harmless (.place p) (xs.flatMap Seen.chars) = true ↔
      isTame xs = true ∧ (p = .newLine → isBlankLine xs = false) := by
  fun_induction isTame xs generalizing p with
  | case1 => cases p <;> simp [harmless, run, State.pending, isBlankLine]
  | case2 c rest ih =>
      rw [List.flatMap_cons, Seen.chars, harmless_shielded, ih]
      simp [isBlankLine]
  | case3 c rest =>
      rw [List.flatMap_cons, harmless_robbed]
      simp
  | case4 rest =>
      rw [List.flatMap_cons, Seen.chars, List.singleton_append, harmless_cons]
      change (p.lineEnd.all Item.isHarmless && harmless .over _) = true ↔ _
      rw [harmless_over]
      cases p <;> simp [Place.lineEnd, Item.isHarmless, isBlankLine]
  | case5 d rest notEnd ih =>
      have slash : ∀ s, harmless (.place p) ('\\' :: d :: s) = harmless .slash (d :: s) := fun s => rfl
      have visible : isBlankLine (.bare '\\' :: .bare d :: rest) = false := rfl
      rw [List.flatMap_cons, List.flatMap_cons, Seen.chars, Seen.chars, List.singleton_append,
        List.singleton_append, slash, harmless_slash, Bool.and_eq_true, Bool.and_eq_true, ih, visible]
      simp
  | case6 rest alone =>
      have broken : harmless .slash (rest.flatMap Seen.chars) = false := by
        cases rest with
        | nil => rfl
        | cons x rest =>
            cases x with
            | bare d => exact (alone d rest rfl).elim
            | robbed d => exact harmless_slash _ _
            | shielded d =>
                obtain ⟨tail, form, -⟩ := d.written
                rw [List.flatMap_cons, Seen.chars, form]
                exact harmless_slash _ _
      have slash : harmless (.place p) ((Seen.bare '\\' :: rest).flatMap Seen.chars) = false := broken
      rw [slash]
      simp
  | case7 c rest goesOn plain ih =>
      rw [List.flatMap_cons, Seen.chars, List.singleton_append]
      cases shield : isShielded c with
      | true =>
          rw [harmless_exposed p ⟨c, shield⟩ plain]
          simp
      | false =>
          cases faint : isFaint c with
          | true =>
              obtain ⟨q, same, read⟩ := harmless_faint p faint (rest.flatMap Seen.chars)
              rw [read, ih]
              simp [isBlankLine, goesOn, faint, same]
          | false =>
              rw [harmless_visible p shield goesOn faint, ih]
              simp [isBlankLine, goesOn, faint]

/-! ### Lines -/

theorem dropBlanks_blank (s : List Char) : dropBlanks (s ++ [' ']) = dropBlanks s := by
  simp [dropBlanks]

theorem dropBlanks_eq_self {s : List Char} (h : s.getLast? ≠ some ' ') : dropBlanks s = s := by
  have kept : s.reverse.dropWhile (· == ' ') = s.reverse := by
    rw [← List.head?_reverse] at h
    cases back : s.reverse with
    | nil => rfl
    | cons c rest =>
        rw [back] at h
        exact List.dropWhile_cons_of_neg (by simpa using h)
  rw [dropBlanks, kept, List.reverse_reverse]

/-- The blanks at the right end of a line are those at the right end of its target. -/
theorem dropBlanks_escapeUrl (s : List Char) : dropBlanks (escapeUrl s) = escapeUrl (dropBlanks s) := by
  induction s using List.reverseRecOn with
  | nil => rfl
  | append_singleton s c ih =>
      have last : escapeUrl [c] = escapeUrlChar c := List.flatMap_singleton _ _
      by_cases blank : c = ' '
      · subst blank
        rw [escapeUrl_append, dropBlanks_blank, ← ih]
        exact dropBlanks_blank _
      · have visible : (escapeUrlChar c).getLast? ≠ some ' ' := fun found =>
          blank (eq_of_mem_escapeUrlChar (List.mem_of_getLast? found) (by decide)).symm
        have kept : dropBlanks (s ++ [c]) = s ++ [c] := dropBlanks_eq_self (by simpa using blank)
        rw [kept, dropBlanks_eq_self]
        rw [escapeUrl_append, last, List.getLast?_append]
        cases found : (escapeUrlChar c).getLast? with
        | none => exact absurd (List.getLast?_eq_none_iff.1 found) (escapeUrlChar_ne_nil c)
        | some d => simpa [found] using visible

/-- The lines of a target are the targets of the lines. -/
theorem inputLines_escapeUrl (s : List Char) : inputLines (escapeUrl s) = (inputLines s).map escapeUrl := by
  have split : Text.splitLines (escapeUrl s) = (Text.splitLines s).map escapeUrl := by
    induction s with
    | nil => rfl
    | cons c s ih =>
        have unfolded : escapeUrl (c :: s) = escapeUrlChar c ++ escapeUrl s := List.flatMap_cons
        obtain ⟨first, rest, lines⟩ := Text.splitLines_eq_cons s
        rw [lines, List.map_cons] at ih
        by_cases feed : c = '\n'
        · subst feed
          rw [Text.splitLines_cons, if_pos rfl, lines, List.map_cons, List.map_cons, ← ih]
          rfl
        · have within : '\n' ∉ escapeUrlChar c := fun member =>
            feed (eq_of_mem_escapeUrlChar member (by decide)).symm
          rw [unfolded, Text.splitLines_append_of_not_mem within ih, Text.splitLines_cons, if_neg feed, lines]
          rfl
  have close : ∀ lines : List (List Char),
      closeLines (lines.map escapeUrl) = (closeLines lines).map escapeUrl := by
    intro lines
    fun_induction closeLines lines with
    | case1 => rfl
    | case2 => rfl
    | case3 line next others ih =>
        rw [List.map_cons, List.map_cons, closeLines, dropBlanks_escapeUrl, ← List.map_cons, ih,
          List.map_cons, escapeUrl_append]
        rfl
  rw [inputLines, split, close]
  rfl

/-! ### Targets -/

/-- Is nothing in the text read as anything but a harmless item? -/
def isHarmless (s : List Char) : Bool :=
  (reading s).all Item.isHarmless

/-- A target is harmless where every line is tame, and no line but the first is blank. Without a return at its
end, the last line is not. -/
theorem isHarmless_escapeUrl_iff (u : List Char) :
    isHarmless (escapeUrl u) = true ↔
      (∀ line ∈ inputLines u, isTame (seen line) = true) ∧
        ∀ line ∈ (inputLines u).tail, isBlankLine (seen line) = false := by
  have line : ∀ (p : Place) (l : List Char), (readLine p (escapeUrl l)).all Item.isHarmless = true ↔
      isTame (seen l) = true ∧ (p = .newLine → isBlankLine (seen l) = false) := by
    intro p l
    rw [readLine, sights, sightsFrom_escapeUrl]
    exact harmless_seen_iff (seen l) p
  rw [isHarmless, reading, inputLines_escapeUrl]
  cases inputLines u with
  | nil => simp
  | cons first others =>
      have later : ((others.map escapeUrl).flatMap (readLine .newLine)).all Item.isHarmless = true ↔
          ∀ l ∈ others, isTame (seen l) = true ∧ isBlankLine (seen l) = false := by
        rw [List.flatMap_map, List.all_flatMap, List.all_eq_true]
        refine forall₂_congr fun l _ => ?_
        rw [line]
        simp
      rw [List.map_cons, List.all_append, Bool.and_eq_true, line, later]
      simp [forall_and, and_assoc]

theorem isTame_bare {c : Char} (slash : c ≠ '\\') (rest : List Seen) :
    isTame (.bare c :: rest) = (c == '\r' || (!isShielded c && isTame rest)) := by
  rw [isTame.eq_def]
  by_cases goesOn : c = '\r' <;> simp [goesOn, slash]

/-- A line without carets is tame. -/
theorem isTame_seen {s : List Char} (h : '^' ∉ s) : isTame (seen s) = true := by
  unfold seen
  induction s with
  | nil => rfl
  | cons c s ih =>
      rw [List.mem_cons, not_or] at h
      cases shield : isShielded c with
      | true =>
          rw [seenFrom, Carets.see, dif_pos shield]
          exact ih h.2
      | false =>
          have read : Carets.read .none c = ([c], .none) := if_neg (Ne.symm h.1)
          have slash : c ≠ '\\' := (not_shielded_iff.1 shield).2.2.1
          rw [seenFrom, Carets.see, dif_neg (by simp [shield]), read, List.map_singleton,
            List.singleton_append, isTame_bare slash, shield, ih h.2]
          exact Bool.or_true _

/-- A target without carets and line feeds is harmless. -/
theorem isHarmless_escapeUrl {u : List Char} (carets : '^' ∉ u) (feeds : '\n' ∉ u) :
    isHarmless (escapeUrl u) = true := by
  have lines : Text.splitLines u = [u] := by
    have last := @Text.splitLines_append_of_not_mem u [] [] [] feeds rfl
    rwa [List.append_nil] at last
  rw [isHarmless_escapeUrl_iff, inputLines, lines, closeLines]
  simp [isTame_seen carets]

/-- Two carets and the code of a closing brace are seen as the brace. -/
theorem reading_carets :
    reading (escapeUrl "x.io/^^7d".toList) =
      ("x.io/".toList.map fun c => .char c (category c)) ++ [.char '\x7d' .closing] := by
  decide

end Vitae.Tex.Input
