/-
Module: Vitae.Proofs.Tex.Token
Layer: Proofs
Purpose: TeX source as TeX reads it, a sequence of tokens. The reader keeps what it is in the middle of, so
  the tokens of two texts are those of the first and then those of the second wherever the first one does
  not break off inside a token. Escaped text never does.
Imports: Vitae.Tex.Source
Main exports: Token, Mode, lex, tokens, Ending, Ends, tokens_append, source_tokens, tokens_escape,
  tokens_escapeUrl
-/
import Vitae.Tex.Source

namespace Vitae.Tex

/-- A token: a control word, a control symbol, a comment with the end of its line, a brace, or any other
character. -/
inductive Token where
  | word (name : List Char)
  | symbol (c : Char)
  | comment (body : List Char)
  | opening
  | closing
  | char (c : Char)
deriving Repr, DecidableEq

/-- The source that a token was read from. -/
def Token.source : Token → List Char
  | .word name => '\\' :: name
  | .symbol c => ['\\', c]
  | .comment body => '%' :: (body ++ ['\n'])
  | .opening => ['\x7b']
  | .closing => ['\x7d']
  | .char c => [c]

/-- What a reader is in the middle of: nothing, a control sequence of which only the backslash is read, a
control word, or a comment. -/
inductive Mode where
  | text
  | slash
  | word (name : List Char)
  | comment (body : List Char)
deriving Repr, DecidableEq

namespace Mode

/-- Read a character in the middle of nothing. -/
def readText (c : Char) : List Token × Mode :=
  if c = '\\' then ([], .slash)
  else if c = '\x7b' then ([.opening], .text)
  else if c = '\x7d' then ([.closing], .text)
  else if c = '%' then ([], .comment [])
  else ([.char c], .text)

/-- Read a character: the tokens it completes, and what the reader is in the middle of then. A control
word takes all the letters that follow the backslash. -/
def read : Mode → Char → List Token × Mode
  | .text, c => readText c
  | .slash, c => if c.isAlpha then ([], .word [c]) else ([.symbol c], .text)
  | .word name, c =>
      if c.isAlpha then ([], .word (name ++ [c]))
      else (.word name :: (readText c).1, (readText c).2)
  | .comment body, c =>
      if c = '\n' then ([.comment body], .text) else ([], .comment (body ++ [c]))

/-- What the end of the text completes. -/
def pending : Mode → List Token
  | .word name => [.word name]
  | _ => []

/-- The source that is read but not yet part of a token. -/
def held : Mode → List Char
  | .text => []
  | .slash => ['\\']
  | .word name => '\\' :: name
  | .comment body => '%' :: body

end Mode

/-- Read a text from a mode: its tokens, and the mode at its end. -/
def lex : Mode → List Char → List Token × Mode
  | mode, [] => ([], mode)
  | mode, c :: rest =>
      let (now, next) := mode.read c
      let (later, last) := lex next rest
      (now ++ later, last)

/-- The tokens of a text. -/
def tokens (s : List Char) : List Token :=
  (lex .text s).1 ++ (lex .text s).2.pending

@[simp] theorem lex_nil (mode : Mode) : lex mode [] = ([], mode) := rfl

theorem lex_cons (mode : Mode) (c : Char) (rest : List Char) :
    lex mode (c :: rest) =
      ((mode.read c).1 ++ (lex (mode.read c).2 rest).1, (lex (mode.read c).2 rest).2) := rfl

/-- Reading goes on where it left off. -/
theorem lex_append (mode : Mode) (a b : List Char) :
    lex mode (a ++ b) =
      ((lex mode a).1 ++ (lex (lex mode a).2 b).1, (lex (lex mode a).2 b).2) := by
  induction a generalizing mode with
  | nil => simp
  | cons c rest ih =>
      rw [List.cons_append, lex_cons, lex_cons, ih, List.append_assoc]

@[simp] theorem tokens_nil : tokens [] = [] := rfl

/-! ### Where a text may end

A text that ends in the middle of nothing may be followed by anything, one that ends in a control word by
anything but a letter. -/

/-- The two ways for a text to end outside of comments and broken control sequences. -/
inductive Ending where
  | tight
  | loose
deriving Repr, DecidableEq

/-- The modes that an ending allows. -/
def Ending.admits : Ending → Mode → Bool
  | _, .text => true
  | .loose, .word _ => true
  | _, _ => false

/-- A text that ends in the given way. -/
def Ends (e : Ending) (s : List Char) : Prop :=
  e.admits (lex .text s).2 = true

instance (e : Ending) (s : List Char) : Decidable (Ends e s) :=
  inferInstanceAs (Decidable (_ = true))

theorem Ends.tight_iff {s : List Char} : Ends .tight s ↔ (lex .text s).2 = .text := by
  unfold Ends
  cases (lex .text s).2 <;> simp [Ending.admits]

theorem Ends.loosen {e : Ending} {s : List Char} (h : Ends e s) : Ends .loose s := by
  unfold Ends at *
  cases e with
  | loose => exact h
  | tight =>
      cases mode : (lex .text s).2 <;> rw [mode] at h <;> simp_all [Ending.admits]

/-- The first character of a text, if there is one, is not a letter. -/
def Detached (s : List Char) : Prop :=
  ∀ c ∈ s.head?, c.isAlpha = false

instance (s : List Char) : Decidable (Detached s) :=
  decidable_of_iff (s.head?.all (!·.isAlpha) = true) (by cases s <;> simp [Detached])

theorem Detached.append {a b : List Char} (h : Detached a) (nonempty : a ≠ []) :
    Detached (a ++ b) := by
  cases a with
  | nil => exact absurd rfl nonempty
  | cons c rest => exact h

/-- After a loose end, a text that does not begin with a letter is read as from the beginning. -/
theorem lex_of_admits {mode : Mode} {b : List Char} (h : Ending.loose.admits mode = true)
    (detached : Detached b) :
    (lex mode b).1 ++ (lex mode b).2.pending = mode.pending ++ tokens b := by
  cases mode with
  | text => rfl
  | word name =>
      cases b with
      | nil => simp [Mode.pending]
      | cons c rest =>
          have letter : c.isAlpha = false := detached c rfl
          simp [tokens, lex_cons, Mode.read, Mode.pending, letter]
  | slash => simp [Ending.admits] at h
  | comment body => simp [Ending.admits] at h

/-- The end of a text is that of its second half, where the first half ends well. -/
theorem lex_snd_of_admits {mode : Mode} {b : List Char} (h : Ending.loose.admits mode = true)
    (detached : Detached b) (nonempty : b ≠ []) : (lex mode b).2 = (lex .text b).2 := by
  cases mode with
  | text => rfl
  | word name =>
      cases b with
      | nil => exact absurd rfl nonempty
      | cons c rest =>
          have letter : c.isAlpha = false := detached c rfl
          simp [lex_cons, Mode.read, letter]
  | slash => simp [Ending.admits] at h
  | comment body => simp [Ending.admits] at h

/-- The tokens of two texts, where the first ends in the middle of nothing. -/
theorem tokens_append {a : List Char} (h : Ends .tight a) (b : List Char) :
    tokens (a ++ b) = tokens a ++ tokens b := by
  have mode := Ends.tight_iff.1 h
  simp [tokens, lex_append, mode, Mode.pending]

/-- The tokens of two texts, where the second does not go on with a control word of the first. -/
theorem tokens_append_detached {a b : List Char} (h : Ends .loose a) (detached : Detached b) :
    tokens (a ++ b) = tokens a ++ tokens b := by
  unfold tokens
  rw [lex_append, List.append_assoc, lex_of_admits h detached]
  simp [tokens]

theorem Ends.append {a b : List Char} {e : Ending} (ha : Ends .tight a) (hb : Ends e b) :
    Ends e (a ++ b) := by
  unfold Ends
  rw [lex_append, Ends.tight_iff.1 ha]
  exact hb

theorem Ends.append_detached {a b : List Char} {e : Ending} (ha : Ends .loose a) (hb : Ends e b)
    (detached : Detached b) (nonempty : b ≠ []) : Ends e (a ++ b) := by
  unfold Ends
  rw [lex_append, lex_snd_of_admits ha detached nonempty]
  exact hb

/-- The end of a line ends every token. -/
theorem ends_newline (s : List Char) : Ends .tight (s ++ ['\n']) := by
  rw [Ends.tight_iff, lex_append]
  cases (lex .text s).2 <;> rfl

/-! ### A text can be put together again from its tokens -/

theorem source_readText (c : Char) :
    (Mode.readText c).1.flatMap Token.source ++ (Mode.readText c).2.held = [c] := by
  unfold Mode.readText
  repeat' split
  all_goals simp_all [Token.source, Mode.held]

theorem source_read (mode : Mode) (c : Char) :
    (mode.read c).1.flatMap Token.source ++ (mode.read c).2.held = mode.held ++ [c] := by
  cases mode with
  | text => exact source_readText c
  | slash =>
      by_cases letter : c.isAlpha = true
      · simp [Mode.read, letter, Mode.held]
      · simp [Mode.read, letter, Mode.held, Token.source]
  | word name =>
      by_cases letter : c.isAlpha = true
      · simp [Mode.read, letter, Mode.held]
      · have plain := source_readText c
        simpa [Mode.read, letter, Mode.held, Token.source] using plain
  | comment body =>
      by_cases newline : c = '\n'
      · simp [Mode.read, newline, Mode.held, Token.source]
      · simp [Mode.read, newline, Mode.held]

theorem source_lex (mode : Mode) (s : List Char) :
    (lex mode s).1.flatMap Token.source ++ (lex mode s).2.held = mode.held ++ s := by
  induction s generalizing mode with
  | nil => simp
  | cons c rest ih =>
      rw [lex_cons, List.flatMap_append, List.append_assoc, ih, ← List.append_assoc, source_read]
      simp

/-- No character of a text is lost between its tokens. -/
theorem source_tokens {s : List Char} (h : Ends .loose s) : (tokens s).flatMap Token.source = s := by
  have whole := source_lex .text s
  unfold Ends at h
  unfold tokens
  rw [List.flatMap_append]
  cases mode : (lex .text s).2 with
  | text => simpa [mode, Mode.pending, Mode.held] using whole
  | word name => simpa [mode, Mode.pending, Mode.held, Token.source] using whole
  | slash => simp [mode, Ending.admits] at h
  | comment body => simp [mode, Ending.admits] at h

/-! ### Braces -/

theorem tokens_cons_opening (b : List Char) : tokens ('\x7b' :: b) = .opening :: tokens b := rfl

theorem tokens_cons_closing (b : List Char) : tokens ('\x7d' :: b) = .closing :: tokens b := rfl

/-- The tokens of a group. -/
theorem tokens_group {a : List Char} (h : Ends .loose a) (b : List Char) :
    tokens ('\x7b' :: (a ++ '\x7d' :: b)) = .opening :: (tokens a ++ .closing :: tokens b) := by
  have detached : Detached ('\x7d' :: b) := by simp [Detached]
  rw [tokens_cons_opening, tokens_append_detached h detached, tokens_cons_closing]

/-! ### Escaped text -/

/-- The characters that are escaped by a backslash. -/
def slashed : List Char :=
  ['&', '%', '$', '#', '_', '\x7b', '\x7d']

/-- The characters that are escaped by a control word, and the words. -/
def spelled : List (Char × String) :=
  [('\\', "textbackslash"), ('~', "textasciitilde"), ('^', "textasciicircum"), ('<', "textless"),
   ('>', "textgreater")]

/-- A character is escaped in one of three ways. -/
theorem escapeChar_cases (c : Char) :
    (∃ name, (c, name) ∈ spelled ∧ escapeChar c = closedWord name) ∨
      (c ∈ slashed ∧ escapeChar c = ['\\', c]) ∨
      (isReserved c = false ∧ escapeChar c = [c]) := by
  by_cases reserved : isReserved c = true
  · simp only [isReserved, decide_eq_true_eq, List.mem_cons, List.not_mem_nil, or_false] at reserved
    rcases reserved with rfl | rfl | rfl | rfl | rfl | rfl | rfl | rfl | rfl | rfl | rfl | rfl
    all_goals simp [spelled, slashed, escapeChar, isReserved]
  · rw [Bool.not_eq_true] at reserved
    exact .inr (.inr ⟨reserved, escapeChar_of_not_reserved reserved⟩)

/-- The escaped forms of the characters that are not written as they are. -/
def spellings : List (List Char) :=
  (spelled.map fun pair => closedWord pair.2) ++ slashed.map fun c => ['\\', c]

/-- What holds of the escaped forms one by one, and of the characters that are written as they are, holds
of every character that is escaped. -/
theorem forall_escapeChar {P : List Char → Prop} (forms : ∀ s ∈ spellings, P s)
    (plain : ∀ c, isReserved c = false → P [c]) (c : Char) : P (escapeChar c) := by
  rcases escapeChar_cases c with ⟨name, member, e⟩ | ⟨member, e⟩ | ⟨reserved, e⟩ <;> rw [e]
  · exact forms _ (List.mem_append_left _ (List.mem_map.2 ⟨(c, name), member, rfl⟩))
  · exact forms _ (List.mem_append_right _ (List.mem_map.2 ⟨c, member, rfl⟩))
  · exact plain c reserved

/-- The forms of the characters that are escaped in a link target. -/
def urlSpellings : List (List Char) :=
  ["\\#".toList, "\\%".toList, "\\%5C".toList, "\\%7B".toList, "\\%7D".toList]

/-- What holds of the forms in a link target one by one, and of the characters that are written as they
are, holds of every character that is escaped for a link target. -/
theorem forall_escapeUrlChar {P : List Char → Prop} (forms : ∀ s ∈ urlSpellings, P s)
    (plain : ∀ c, c ≠ '\\' → c ≠ '\x7b' → c ≠ '\x7d' → c ≠ '%' → P [c]) (c : Char) :
    P (escapeUrlChar c) := by
  have cases : escapeUrlChar c ∈ urlSpellings ∨
      (c ≠ '\\' ∧ c ≠ '\x7b' ∧ c ≠ '\x7d' ∧ c ≠ '%' ∧ escapeUrlChar c = [c]) := by
    unfold escapeUrlChar urlSpellings
    repeat' split
    all_goals simp_all
  rcases cases with member | ⟨slash, opening, closing, percent, e⟩
  · exact forms _ member
  · rw [e]
    exact plain c slash opening closing percent

/-- A character that starts no other token is a token. -/
theorem lex_text_char {c : Char} (slash : c ≠ '\\') (opening : c ≠ '\x7b') (closing : c ≠ '\x7d')
    (percent : c ≠ '%') : lex .text [c] = ([.char c], .text) := by
  simp [lex_cons, Mode.read, Mode.readText, slash, opening, closing, percent]

theorem not_reserved_ne {c d : Char} (h : isReserved c = false) (hd : isReserved d = true) : c ≠ d := by
  rintro rfl
  simp [h] at hd

/-- A character that is not reserved is read as itself. -/
theorem lex_not_reserved {c : Char} (h : isReserved c = false) :
    lex .text [c] = ([.char c], .text) :=
  lex_text_char (not_reserved_ne h rfl) (not_reserved_ne h rfl) (not_reserved_ne h rfl)
    (not_reserved_ne h rfl)

/-- The tokens of a control word that an empty group ends. -/
theorem lex_closedWord {c : Char} {name : String} (h : (c, name) ∈ spelled) :
    lex .text (closedWord name) = ([.word name.toList, .opening, .closing], .text) := by
  simp only [spelled, List.mem_cons, List.not_mem_nil, or_false, Prod.mk.injEq] at h
  rcases h with ⟨-, rfl⟩ | ⟨-, rfl⟩ | ⟨-, rfl⟩ | ⟨-, rfl⟩ | ⟨-, rfl⟩ <;> decide

/-- The token of a character behind a backslash. -/
theorem lex_slashed {c : Char} (h : c ∈ slashed) : lex .text ['\\', c] = ([.symbol c], .text) := by
  have letter : c.isAlpha = false := by
    simp only [slashed, List.mem_cons, List.not_mem_nil, or_false] at h
    rcases h with rfl | rfl | rfl | rfl | rfl | rfl | rfl <;> rfl
  simp [lex_cons, Mode.read, Mode.readText, letter]

theorem escapeChar_tight (c : Char) : Ends .tight (escapeChar c) := by
  refine forall_escapeChar (P := Ends .tight) (by decide) (fun c plain => ?_) c
  rw [Ends.tight_iff, lex_not_reserved plain]

theorem escapeUrlChar_tight (c : Char) : Ends .tight (escapeUrlChar c) := by
  refine forall_escapeUrlChar (P := Ends .tight) (by decide)
    (fun c slash opening closing percent => ?_) c
  rw [Ends.tight_iff, lex_text_char slash opening closing percent]

/-- Texts put together from tight pieces are tight, and so are their tokens. -/
theorem tokens_flatMap {f : Char → List Char} (h : ∀ c, Ends .tight (f c)) (s : List Char) :
    Ends .tight (s.flatMap f) ∧ tokens (s.flatMap f) = s.flatMap fun c => tokens (f c) := by
  induction s with
  | nil => exact ⟨rfl, rfl⟩
  | cons c rest ih =>
      simp only [List.flatMap_cons]
      exact ⟨(h c).append ih.1, by rw [tokens_append (h c), ih.2]⟩

theorem escape_tight (s : List Char) : Ends .tight (escape s) :=
  (tokens_flatMap escapeChar_tight s).1

theorem escapeUrl_tight (s : List Char) : Ends .tight (escapeUrl s) :=
  (tokens_flatMap escapeUrlChar_tight s).1

/-- Escaped text is read one character after the other. -/
theorem tokens_escape (s : List Char) : tokens (escape s) = s.flatMap fun c => tokens (escapeChar c) :=
  (tokens_flatMap escapeChar_tight s).2

/-- A link target is read one character after the other. -/
theorem tokens_escapeUrl (s : List Char) :
    tokens (escapeUrl s) = s.flatMap fun c => tokens (escapeUrlChar c) :=
  (tokens_flatMap escapeUrlChar_tight s).2

end Vitae.Tex
