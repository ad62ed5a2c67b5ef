/-
Module: Vitae.Proofs.Tex.Brace
Layer: Proofs
Purpose: How deep the braces of a text are nested. The depth is counted in the characters, where a
  backslash takes the character behind it and a percent sign the rest of its line, and in the tokens. Both
  counts agree, and the second one is what balanced pieces of source leave alone.
Imports: Vitae.Proofs.Tex.Token
Main exports: braceDepth, depthAfter, braceDepth_eq, Balanced, Balanced.depthAfter
-/
import Vitae.Proofs.Tex.Token

namespace Vitae.Tex

/-- How the next character counts: by itself, not at all since a backslash takes it, or not at all up to
the end of the line. -/
inductive Scan where
  | plain
  | taken
  | comment
deriving Repr, DecidableEq

/-- The depth of the braces after a text, from a given depth on. There is none where a brace closes that
was not open. -/
def braceDepth : Scan → Nat → List Char → Option Nat
  | _, depth, [] => some depth
  | .taken, depth, _ :: rest => braceDepth .plain depth rest
  | .comment, depth, c :: rest =>
      braceDepth (if c = '\n' then .plain else .comment) depth rest
  | .plain, depth, c :: rest =>
      if c = '\\' then braceDepth .taken depth rest
      else if c = '%' then braceDepth .comment depth rest
      else if c = '\x7b' then braceDepth .plain (depth + 1) rest
      else if c = '\x7d' then
        match depth with
        | 0 => none
        | depth + 1 => braceDepth .plain depth rest
      else braceDepth .plain depth rest

/-- The depth of the braces after a sequence of tokens. -/
def depthAfter : Nat → List Token → Option Nat
  | depth, [] => some depth
  | depth, .opening :: rest => depthAfter (depth + 1) rest
  | 0, .closing :: _ => none
  | depth + 1, .closing :: rest => depthAfter depth rest
  | depth, .word _ :: rest => depthAfter depth rest
  | depth, .symbol _ :: rest => depthAfter depth rest
  | depth, .comment _ :: rest => depthAfter depth rest
  | depth, .char _ :: rest => depthAfter depth rest

theorem depthAfter_append (depth : Nat) (a b : List Token) :
    depthAfter depth (a ++ b) = (depthAfter depth a).bind fun depth => depthAfter depth b := by
  induction a generalizing depth with
  | nil => rfl
  | cons t rest ih =>
      cases t with
      | closing =>
          cases depth with
          | zero => rfl
          | succ depth => exact ih depth
      | opening => exact ih (depth + 1)
      | word name => exact ih depth
      | symbol c => exact ih depth
      | comment body => exact ih depth
      | char c => exact ih depth

/-- What is open before a text changes nothing about the text. -/
theorem depthAfter_add {depth last : Nat} {a : List Token} (h : depthAfter depth a = some last)
    (more : Nat) : depthAfter (depth + more) a = some (last + more) := by
  induction a generalizing depth with
  | nil =>
      cases h
      rfl
  | cons t rest ih =>
      cases t with
      | closing =>
          cases depth with
          | zero => simp [depthAfter] at h
          | succ depth =>
              rw [Nat.succ_add]
              exact ih h
      | opening =>
          have step := @ih (depth + 1) h
          rw [Nat.add_right_comm] at step
          exact step
      | word name => exact ih h
      | symbol c => exact ih h
      | comment body => exact ih h
      | char c => exact ih h

/-! ### Both counts agree -/

/-- How the next character counts in a mode. -/
def Mode.scan : Mode → Scan
  | .text => .plain
  | .slash => .taken
  | .word _ => .plain
  | .comment _ => .comment

theorem braceDepth_readText (depth : Nat) (c : Char) (rest : List Char) :
    braceDepth .plain depth (c :: rest) =
      (depthAfter depth (Mode.readText c).1).bind fun depth =>
        braceDepth (Mode.readText c).2.scan depth rest := by
  unfold Mode.readText
  by_cases slash : c = '\\'
  · simp [braceDepth, slash, depthAfter, Mode.scan]
  · by_cases opening : c = '\x7b'
    · simp [braceDepth, opening, depthAfter, Mode.scan]
    · by_cases closing : c = '\x7d'
      · cases depth <;> simp [braceDepth, closing, depthAfter, Mode.scan]
      · by_cases percent : c = '%'
        · simp [braceDepth, percent, depthAfter, Mode.scan]
        · simp [braceDepth, slash, opening, closing, percent, depthAfter, Mode.scan]

/-- A letter is no brace and starts no comment. -/
theorem braceDepth_letter {c : Char} (letter : c.isAlpha = true) (depth : Nat) (rest : List Char) :
    braceDepth .plain depth (c :: rest) = braceDepth .plain depth rest := by
  have ne : ∀ d : Char, d.isAlpha = false → c ≠ d := by
    rintro d other rfl
    simp [letter] at other
  simp [braceDepth, ne '\\' rfl, ne '%' rfl, ne '\x7b' rfl, ne '\x7d' rfl]

theorem braceDepth_read (mode : Mode) (depth : Nat) (c : Char) (rest : List Char) :
    braceDepth mode.scan depth (c :: rest) =
      (depthAfter depth (mode.read c).1).bind fun depth =>
        braceDepth (mode.read c).2.scan depth rest := by
  cases mode with
  | text => exact braceDepth_readText depth c rest
  | slash =>
      by_cases letter : c.isAlpha = true <;>
        simp [Mode.read, letter, Mode.scan, braceDepth, depthAfter]
  | word name =>
      by_cases letter : c.isAlpha = true
      · simp [Mode.read, letter, Mode.scan, braceDepth_letter letter, depthAfter]
      · simpa [Mode.read, letter, Mode.scan, depthAfter] using braceDepth_readText depth c rest
  | comment body =>
      by_cases newline : c = '\n' <;>
        simp [Mode.read, newline, Mode.scan, braceDepth, depthAfter]

theorem braceDepth_lex (mode : Mode) (depth : Nat) (s : List Char) :
    braceDepth mode.scan depth s = depthAfter depth (lex mode s).1 := by
  induction s generalizing mode depth with
  | nil => cases mode <;> rfl
  | cons c rest ih =>
      rw [lex_cons, depthAfter_append, braceDepth_read]
      simp only [ih]

/-- The depth counted in the characters of a text is that counted in its tokens. -/
theorem braceDepth_eq (depth : Nat) (s : List Char) :
    braceDepth .plain depth s = depthAfter depth (tokens s) := by
  have counted := braceDepth_lex .text depth s
  have pending : ∀ mode : Mode, ∀ depth, depthAfter depth mode.pending = some depth := by
    intro mode depth
    cases mode <;> rfl
  unfold tokens
  rw [depthAfter_append, ← counted]
  simp [pending, Mode.scan]

/-! ### Balanced sequences of tokens -/

/-- Every brace is closed, and none that was not opened. -/
def Balanced (ts : List Token) : Prop :=
  depthAfter 0 ts = some 0

instance (ts : List Token) : Decidable (Balanced ts) :=
  inferInstanceAs (Decidable (_ = _))

namespace Balanced

theorem nil : Balanced [] := rfl

/-- A balanced sequence leaves the depth as it is. -/
theorem depthAfter {ts : List Token} (h : Balanced ts) (depth : Nat) (rest : List Token) :
    Tex.depthAfter depth (ts ++ rest) = Tex.depthAfter depth rest := by
  have shifted := depthAfter_add h depth
  rw [Nat.zero_add] at shifted
  rw [depthAfter_append, shifted]
  rfl

theorem append {a b : List Token} (ha : Balanced a) (hb : Balanced b) : Balanced (a ++ b) := by
  unfold Balanced
  rw [ha.depthAfter]
  exact hb

theorem group {a b : List Token} (ha : Balanced a) (hb : Balanced b) :
    Balanced (.opening :: (a ++ .closing :: b)) := by
  change Tex.depthAfter 1 (a ++ .closing :: b) = some 0
  rw [ha.depthAfter]
  exact hb

theorem flatMap {α : Type} {xs : List α} {f : α → List Token} (h : ∀ x ∈ xs, Balanced (f x)) :
    Balanced (xs.flatMap f) := by
  induction xs with
  | nil => exact nil
  | cons x rest ih =>
      rw [List.flatMap_cons]
      exact (h x List.mem_cons_self).append (ih fun y member => h y (List.mem_cons_of_mem x member))

end Balanced

theorem balanced_escapeChar (c : Char) : Balanced (tokens (escapeChar c)) := by
  refine forall_escapeChar (P := fun s => Balanced (tokens s)) (by decide) (fun c plain => ?_) c
  rw [tokens, lex_not_reserved plain]
  rfl

theorem balanced_escapeUrlChar (c : Char) : Balanced (tokens (escapeUrlChar c)) := by
  refine forall_escapeUrlChar (P := fun s => Balanced (tokens s)) (by decide)
    (fun c slash opening closing percent => ?_) c
  rw [tokens, lex_text_char slash opening closing percent]
  rfl

theorem balanced_escape (s : List Char) : Balanced (tokens (escape s)) := by
  rw [tokens_escape]
  exact .flatMap fun c _ => balanced_escapeChar c

theorem balanced_escapeUrl (s : List Char) : Balanced (tokens (escapeUrl s)) := by
  rw [tokens_escapeUrl]
  exact .flatMap fun c _ => balanced_escapeUrlChar c

end Vitae.Tex
