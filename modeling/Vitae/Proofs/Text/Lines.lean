/-
Module: Vitae.Proofs.Text.Lines
Layer: Proofs
Purpose: The lines of a text that say anything. They do not depend on the space around the text or around a line,
  nor on blank lines or on how lines are ended.
Imports: Vitae.Proofs.Text.Visible, Vitae.Text.Lines
Main exports: trimChars_blank_append, trimChars_append_blank, trimChars_split, splitLines_append_of_not_mem,
  splitLines_append, shownLines, shownLines_trimChars, lines, shown_lines, Respaced, Respaced.shownLines
-/
import Vitae.Proofs.Text.Visible
import Vitae.Text.Lines

namespace Vitae.Text

/-! ### Space around a text -/

/-- Space before a text is dropped with the space on its left. -/
theorem trimChars_blank_append {blank : List Char} (h : blank.all isSpace = true) (s : List Char) :
    trimChars (blank ++ s) = trimChars s := by
  have left : trimLeft (blank ++ s) = trimLeft s :=
    List.dropWhile_append_of_pos (List.all_eq_true.1 h)
  rw [trimChars, left, trimChars]

/-- Space behind a text is dropped with the space on its right. -/
theorem trimChars_append_blank {blank : List Char} (h : blank.all isSpace = true) (s : List Char) :
    trimChars (s ++ blank) = trimChars s := by
  cases visible : s.all isSpace with
  | true =>
      have whole : (s ++ blank).all isSpace = true := by rw [List.all_append, visible, h, Bool.and_true]
      rw [trimChars_eq_nil.2 whole, trimChars_eq_nil.2 visible]
  | false =>
      have some : ¬ (s.dropWhile isSpace).isEmpty = true := by
        rw [List.isEmpty_iff, ← trimLeft, trimLeft_eq_nil, visible]
        exact Bool.false_ne_true
      have left : trimLeft (s ++ blank) = trimLeft s ++ blank := by
        rw [trimLeft, List.dropWhile_append, if_neg some]
        rfl
      have right : blank.reverse.all isSpace = true := by rw [List.all_reverse, h]
      rw [trimChars, left, List.reverse_append, trimLeft,
        List.dropWhile_append_of_pos (List.all_eq_true.1 right)]
      rfl

/-- A text is what is left when it is trimmed, with space around it. -/
theorem trimChars_split (s : List Char) :
    ∃ before after, before.all isSpace = true ∧ after.all isSpace = true ∧
      s = before ++ (trimChars s ++ after) := by
  let inner := trimLeft s
  refine ⟨s.takeWhile isSpace, (inner.reverse.takeWhile isSpace).reverse, List.all_takeWhile, ?_, ?_⟩
  · rw [List.all_reverse]
    exact List.all_takeWhile
  · have right : trimChars s ++ (inner.reverse.takeWhile isSpace).reverse = inner := by
      have split := List.takeWhile_append_dropWhile (p := isSpace) (l := inner.reverse)
      rw [trimChars, ← List.reverse_append, trimLeft]
      exact (congrArg List.reverse split).trans (List.reverse_reverse inner)
    rw [right]
    exact List.takeWhile_append_dropWhile.symm

/-! ### Lines -/

theorem splitLines_cons (c : Char) (s : List Char) :
    splitLines (c :: s) =
      if c = '\n' then [] :: splitLines s
      else match splitLines s with
        | [] => [[c]]
        | line :: others => (c :: line) :: others := rfl

/-- Every text has a first line. -/
theorem splitLines_eq_cons (s : List Char) : ∃ first rest, splitLines s = first :: rest := by
  cases s with
  | nil => exact ⟨[], [], rfl⟩
  | cons c s =>
      rw [splitLines_cons]
      split
      · exact ⟨[], splitLines s, rfl⟩
      · split
        · exact ⟨[c], [], rfl⟩
        · exact ⟨_, _, rfl⟩

/-- A text without line feeds belongs to the first line of what follows it. -/
theorem splitLines_append_of_not_mem {a s first : List Char} {rest : List (List Char)} (h : '\n' ∉ a)
    (lines : splitLines s = first :: rest) : splitLines (a ++ s) = (a ++ first) :: rest := by
  induction a with
  | nil => exact lines
  | cons c a ih =>
      rw [List.mem_cons, not_or] at h
      rw [List.cons_append, splitLines_cons, if_neg (Ne.symm h.1), ih h.2]
      rfl

/-- A text without line feeds is one line. -/
theorem splitLines_of_not_mem {a : List Char} (h : '\n' ∉ a) : splitLines a = [a] := by
  have last : splitLines (a ++ []) = [a ++ []] := splitLines_append_of_not_mem h rfl
  rwa [List.append_nil] at last

/-- The lines of two texts: the last line of the first goes on with the first line of the second. -/
theorem splitLines_append (a b : List Char) :
    ∃ front last first rest, splitLines a = front ++ [last] ∧ splitLines b = first :: rest ∧
      splitLines (a ++ b) = front ++ (last ++ first) :: rest := by
  induction a with
  | nil =>
      obtain ⟨first, rest, lines⟩ := splitLines_eq_cons b
      exact ⟨[], [], first, rest, rfl, lines, lines⟩
  | cons c a ih =>
      obtain ⟨front, last, first, rest, left, right, whole⟩ := ih
      rw [List.cons_append, splitLines_cons, splitLines_cons, whole, left]
      by_cases newline : c = '\n'
      · exact ⟨[] :: front, last, first, rest, by simp [newline], right, by simp [newline]⟩
      · -- the character goes into the first line, which may be the last one too
        cases front with
        | nil => exact ⟨[], c :: last, first, rest, by simp [newline], right, by simp [newline]⟩
        | cons line front =>
            exact ⟨(c :: line) :: front, last, first, rest, by simp [newline], right, by simp [newline]⟩

/-- The lines of a text have no other characters than the text. -/
theorem mem_of_mem_splitLines {s line : List Char} {c : Char} (h : line ∈ splitLines s)
    (member : c ∈ line) : c ∈ s := by
  induction s generalizing line with
  | nil =>
      rw [List.mem_singleton.1 h] at member
      exact member
  | cons d s ih =>
      obtain ⟨first, rest, lines⟩ := splitLines_eq_cons s
      rw [lines] at ih
      rw [splitLines_cons, lines] at h
      split at h
      · rcases List.mem_cons.1 h with rfl | h
        · cases member
        · exact List.mem_cons_of_mem d (ih h member)
      · rcases List.mem_cons.1 h with rfl | h
        · rcases List.mem_cons.1 member with rfl | member
          · exact List.mem_cons_self
          · exact List.mem_cons_of_mem d (ih List.mem_cons_self member)
        · exact List.mem_cons_of_mem d (ih (List.mem_cons_of_mem first h) member)

/-- A character that is no line feed is in one of the lines. -/
theorem exists_mem_splitLines {s : List Char} {c : Char} (member : c ∈ s) (other : c ≠ '\n') :
    ∃ line ∈ splitLines s, c ∈ line := by
  induction s with
  | nil => cases member
  | cons d s ih =>
      obtain ⟨first, rest, lines⟩ := splitLines_eq_cons s
      rw [lines] at ih
      rw [splitLines_cons, lines]
      rcases List.mem_cons.1 member with rfl | later
      · rw [if_neg other]
        exact ⟨c :: first, List.mem_cons_self, List.mem_cons_self⟩
      · obtain ⟨line, among, inside⟩ := ih later
        split
        · exact ⟨line, List.mem_cons_of_mem [] among, inside⟩
        · rcases List.mem_cons.1 among with rfl | among
          · exact ⟨d :: line, List.mem_cons_self, List.mem_cons_of_mem d inside⟩
          · exact ⟨line, List.mem_cons_of_mem _ among, inside⟩

/-- The lines of space are space. -/
theorem splitLines_blank {s : List Char} (h : s.all isSpace = true) :
    ∀ line ∈ splitLines s, line.all isSpace = true := by
  intro line among
  rw [List.all_eq_true] at h ⊢
  exact fun c member => h c (mem_of_mem_splitLines among member)

/-- A line that says anything, without the space around it. -/
def shownLine? (line : List Char) : Option (List Char) :=
  if line.all isSpace then none else some (trimChars line)

/-- The lines of a text that say anything, each without the space around it. -/
def shownLines (s : List Char) : List (List Char) :=
  (splitLines s).filterMap shownLine?

theorem shownLine?_blank_append {blank : List Char} (h : blank.all isSpace = true) (line : List Char) :
    shownLine? (blank ++ line) = shownLine? line := by
  rw [shownLine?, shownLine?, List.all_append, h, Bool.true_and, trimChars_blank_append h]

theorem shownLine?_append_blank {blank : List Char} (h : blank.all isSpace = true) (line : List Char) :
    shownLine? (line ++ blank) = shownLine? line := by
  rw [shownLine?, shownLine?, List.all_append, h, Bool.and_true, trimChars_append_blank h]

/-- Of blank lines nothing is shown. -/
theorem shown_blank {lines : List (List Char)} (h : ∀ line ∈ lines, line.all isSpace = true) :
    lines.filterMap shownLine? = [] := by
  rw [List.filterMap_eq_nil_iff]
  intro line member
  rw [shownLine?, if_pos (h line member)]

theorem shownLines_blank_append {blank : List Char} (h : blank.all isSpace = true) (s : List Char) :
    shownLines (blank ++ s) = shownLines s := by
  obtain ⟨front, last, first, rest, left, right, whole⟩ := splitLines_append blank s
  have lines := splitLines_blank h
  rw [left] at lines
  have before : front.filterMap shownLine? = [] :=
    shown_blank fun line member => lines line (List.mem_append_left _ member)
  have lastBlank : last.all isSpace = true := lines last (by simp)
  rw [shownLines, shownLines, whole, right, List.filterMap_append, before, List.nil_append,
    List.filterMap_cons, List.filterMap_cons, shownLine?_blank_append lastBlank]

theorem shownLines_append_blank {blank : List Char} (h : blank.all isSpace = true) (s : List Char) :
    shownLines (s ++ blank) = shownLines s := by
  obtain ⟨front, last, first, rest, left, right, whole⟩ := splitLines_append s blank
  have lines := splitLines_blank h
  rw [right] at lines
  have after : rest.filterMap shownLine? = [] :=
    shown_blank fun line member => lines line (List.mem_cons_of_mem _ member)
  have firstBlank : first.all isSpace = true := lines first List.mem_cons_self
  rw [shownLines, shownLines, whole, left, List.filterMap_append, List.filterMap_append,
    List.filterMap_cons, after, shownLine?_append_blank firstBlank]
  rfl

/-- A line feed ends a line. -/
theorem splitLines_feed (a b : List Char) : splitLines (a ++ '\n' :: b) = splitLines a ++ splitLines b := by
  induction a with
  | nil => rfl
  | cons c a ih =>
      obtain ⟨first, rest, left⟩ := splitLines_eq_cons a
      rw [List.cons_append, splitLines_cons, splitLines_cons, ih, left]
      split <;> rfl

theorem shownLines_feed (a b : List Char) : shownLines (a ++ '\n' :: b) = shownLines a ++ shownLines b := by
  rw [shownLines, splitLines_feed, List.filterMap_append]
  rfl

theorem shownLines_return (a b : List Char) :
    shownLines (a ++ '\r' :: '\n' :: b) = shownLines a ++ shownLines b := by
  have whole : a ++ '\r' :: '\n' :: b = (a ++ ['\r']) ++ '\n' :: b := by simp
  rw [whole, shownLines_feed, shownLines_append_blank rfl]

/-- The space around a text makes no difference to the lines that it shows. -/
theorem shownLines_trimChars (s : List Char) : shownLines (trimChars s) = shownLines s := by
  obtain ⟨before, after, left, right, whole⟩ := trimChars_split s
  calc shownLines (trimChars s) = shownLines (trimChars s ++ after) :=
        (shownLines_append_blank right _).symm
    _ = shownLines (before ++ (trimChars s ++ after)) := (shownLines_blank_append left _).symm
    _ = shownLines s := congrArg shownLines whole.symm

/-! ### Lines with their ends

A line may end in a line feed alone or in a carriage return before it, and the last line may have no end. A text that
ends in a line feed has no line behind it. -/

/-- A line without the carriage return before its line feed. -/
def dropReturn (line : List Char) : List Char :=
  if line.getLast? = some '\r' then line.dropLast else line

/-- The lines that pieces between line feeds are. All but the last piece are ended by a line feed. -/
def endedLines : List (List Char) → List (List Char)
  | [] => []
  | [last] => if last = [] then [] else [last]
  | line :: others => dropReturn line :: endedLines others

/-- The lines of a text, without their ends. -/
def lines (s : List Char) : List (List Char) :=
  endedLines (splitLines s)

theorem shownLine?_dropReturn (line : List Char) : shownLine? (dropReturn line) = shownLine? line := by
  unfold dropReturn
  split
  case isTrue last =>
    obtain ⟨front, rfl⟩ := List.getLast?_eq_some_iff.1 last
    rw [List.dropLast_concat, shownLine?_append_blank rfl]
  case isFalse => rfl

/-- What a text shows is what its lines show. -/
theorem shown_lines (s : List Char) : (lines s).filterMap shownLine? = shownLines s := by
  have ended : ∀ pieces : List (List Char),
      (endedLines pieces).filterMap shownLine? = pieces.filterMap shownLine? := by
    intro pieces
    induction pieces with
    | nil => rfl
    | cons line others ih =>
        cases others with
        | nil =>
            rw [endedLines]
            split
            case isTrue none =>
              subst none
              rfl
            case isFalse => rfl
        | cons next others =>
            rw [endedLines, List.filterMap_cons, List.filterMap_cons, shownLine?_dropReturn, ih]
            exact List.cons_ne_nil _ _
  exact ended (splitLines s)

theorem feed_not_mem_splitLines {s : List Char} : ∀ line ∈ splitLines s, '\n' ∉ line := by
  induction s with
  | nil => simp [splitLines]
  | cons c s ih =>
      obtain ⟨first, rest, pieces⟩ := splitLines_eq_cons s
      rw [pieces] at ih
      rw [splitLines_cons, pieces]
      intro line among feed
      split at among
      · rcases List.mem_cons.1 among with rfl | among
        · cases feed
        · exact ih line among feed
      case isFalse other =>
        rcases List.mem_cons.1 among with rfl | among
        · rcases List.mem_cons.1 feed with rfl | feed
          · exact other rfl
          · exact ih first List.mem_cons_self feed
        · exact ih line (List.mem_cons_of_mem first among) feed

theorem dropReturn_subset (line : List Char) : dropReturn line ⊆ line := by
  unfold dropReturn
  split
  · exact (List.dropLast_prefix line).subset
  · exact List.Subset.refl line

/-- No line holds a line feed. -/
theorem feed_not_mem_lines {s : List Char} : ∀ line ∈ lines s, '\n' ∉ line := by
  have ended : ∀ pieces : List (List Char), (∀ piece ∈ pieces, '\n' ∉ piece) →
      ∀ line ∈ endedLines pieces, '\n' ∉ line := by
    intro pieces
    induction pieces with
    | nil => simp [endedLines]
    | cons piece others ih =>
        intro whole line among
        have here := whole piece List.mem_cons_self
        cases others with
        | nil =>
            rw [endedLines] at among
            split at among
            · cases among
            · rwa [List.mem_singleton.1 among]
        | cons next others =>
            rw [endedLines] at among
            · rcases List.mem_cons.1 among with rfl | among
              · exact fun feed => here (dropReturn_subset piece feed)
              · exact ih (fun p member => whole p (List.mem_cons_of_mem piece member)) line among
            · exact List.cons_ne_nil _ _
  exact ended (splitLines s) feed_not_mem_splitLines

/-- The lines that say anything are those with a visible character. -/
theorem filterMap_shownLine? (ls : List (List Char)) :
    ls.filterMap shownLine? = (ls.filter fun line => hasText (String.ofList line)).map trimChars := by
  induction ls with
  | nil => rfl
  | cons line others ih =>
      rw [List.filterMap_cons, shownLine?, List.filter_cons, hasText_ofList, ih]
      cases line.all isSpace <;> rfl

/-! ### Space between lines and around them -/

/-- A text with more space, at a place where it separates no words of a line: a line feed has become a carriage return
and a line feed, a blank line stands behind a line, or a line begins or ends with space. -/
inductive Respaced : List Char → List Char → Prop where
  | carriage (a b : List Char) : Respaced (a ++ '\n' :: b) (a ++ '\r' :: '\n' :: b)
  | blankLine (a b blank : List Char) (space : blank.all isSpace = true) :
      Respaced (a ++ '\n' :: b) (a ++ '\n' :: (blank ++ '\n' :: b))
  | lineStart (a b blank : List Char) (space : blank.all isSpace = true)
      (start : a = [] ∨ ∃ before, a = before ++ ['\n']) : Respaced (a ++ b) (a ++ (blank ++ b))
  | lineEnd (a b blank : List Char) (space : blank.all isSpace = true)
      (stop : b = [] ∨ ∃ behind, b = '\n' :: behind ∨ b = '\r' :: '\n' :: behind) :
      Respaced (a ++ b) (a ++ (blank ++ b))

/-- More space between lines and around them shows nothing else. -/
theorem Respaced.shownLines {s t : List Char} (h : Respaced s t) : shownLines t = shownLines s := by
  cases h with
  | carriage a b =>
      rw [shownLines_return, shownLines_feed]
  | blankLine a b blank space =>
      have none : Text.shownLines blank = [] := shown_blank (splitLines_blank space)
      rw [shownLines_feed, shownLines_feed, shownLines_feed, none, List.nil_append]
  | lineStart a b blank space start =>
      rcases start with rfl | ⟨before, rfl⟩
      · exact shownLines_blank_append space b
      · rw [List.append_assoc, List.append_assoc, List.singleton_append, List.singleton_append, shownLines_feed,
          shownLines_feed, shownLines_blank_append space]
  | lineEnd a b blank space stop =>
      rcases stop with rfl | ⟨behind, rfl | rfl⟩
      · rw [List.append_nil, List.append_nil, shownLines_append_blank space]
      · rw [← List.append_assoc, shownLines_feed, shownLines_feed, shownLines_append_blank space]
      · rw [← List.append_assoc, shownLines_return, shownLines_return, shownLines_append_blank space]

end Vitae.Text
