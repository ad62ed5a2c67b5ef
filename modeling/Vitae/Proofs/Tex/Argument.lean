/-
Module: Vitae.Proofs.Tex.Argument
Layer: Proofs
Purpose: Reading commands back: the calls of a command with their arguments in braces, and the text that
  escaped source stands for. An argument ends at the brace that closes it, whatever braces it holds.
Imports: Vitae.Proofs.Tex.Brace, Vitae.Proofs.Tex.Scanner
Main exports: takeGroup, readGroups, calls, callScanner, finds_call, unescape, unescape_escape,
  unescape_text
-/
import Vitae.Proofs.Tex.Brace
import Vitae.Proofs.Tex.Scanner

namespace Vitae.Tex

/-! ### Groups -/

/-- What stands before the brace that closes a group, and what follows the brace. `depth` groups are open
inside. -/
def takeGroup : Nat → List Token → Option (List Token × List Token)
  | _, [] => none
  | 0, .closing :: rest => some ([], rest)
  | depth + 1, .closing :: rest => (takeGroup depth rest).map (Prod.map (.closing :: ·) id)
  | depth, .opening :: rest => (takeGroup (depth + 1) rest).map (Prod.map (.opening :: ·) id)
  | depth, t :: rest => (takeGroup depth rest).map (Prod.map (t :: ·) id)

/-- What stands in each of the groups that come first, and what follows them. -/
def readGroups : Nat → List Token → Option (List (List Token) × List Token)
  | 0, ts => some ([], ts)
  | count + 1, .opening :: rest => do
      let (body, rest) ← takeGroup 0 rest
      let (others, rest) ← readGroups count rest
      pure (body :: others, rest)
  | _ + 1, _ => none

/-- Tokens that leave some groups open stand before what closes the groups. -/
theorem takeGroup_append {depth last : Nat} {ts : List Token} (h : depthAfter depth ts = some last)
    (rest : List Token) :
    takeGroup depth (ts ++ rest) = (takeGroup last rest).map (Prod.map (ts ++ ·) id) := by
  induction ts generalizing depth with
  | nil =>
      cases h
      cases found : takeGroup last rest with
      | none => simp [found]
      | some taken => simp [found, Prod.map]
  | cons t ts ih =>
      rw [List.cons_append]
      cases t with
      | closing =>
          cases depth with
          | zero => simp [depthAfter] at h
          | succ depth =>
              rw [takeGroup, ih h, Option.map_map]
              rfl
      | opening =>
          rw [takeGroup, ih h, Option.map_map]
          rfl
      | word _ | symbol _ | comment _ | char _ =>
          rw [takeGroup, ih h, Option.map_map] <;> simp
          rfl

/-- A group ends at its own brace. -/
theorem takeGroup_balanced {ts : List Token} (h : Balanced ts) (rest : List Token) :
    takeGroup 0 (ts ++ .closing :: rest) = some (ts, rest) := by
  rw [takeGroup_append h, takeGroup]
  simp

/-- Groups are read back as they were written. -/
theorem readGroups_groupTokens {arguments : List (List Token)} (h : ∀ a ∈ arguments, Balanced a)
    (count : Nat) (enough : count ≤ arguments.length) (rest : List Token) :
    readGroups count (groupTokens arguments ++ rest) =
      some (arguments.take count, groupTokens (arguments.drop count) ++ rest) := by
  induction arguments generalizing count with
  | nil =>
      have none : count = 0 := Nat.le_zero.1 enough
      rw [none]
      rfl
  | cons a others ih =>
      cases count with
      | zero => rfl
      | succ count =>
          have later := ih (fun b member => h b (List.mem_cons_of_mem a member)) count
            (Nat.le_of_succ_le_succ enough)
          have shape : groupTokens (a :: others) ++ rest =
              .opening :: (a ++ .closing :: (groupTokens others ++ rest)) := by
            simp [groupTokens]
          rw [shape, readGroups, takeGroup_balanced (h a List.mem_cons_self)]
          simp [later]

/-! ### Calls -/

/-- The arguments of the calls of a command, in their order, or nothing for a call that breaks off. -/
def calls (command : Token) (arity : Nat) : List Token → List (Option (List (List Token)))
  | [] => []
  | t :: rest =>
      if t = command then (readGroups arity rest).map Prod.fst :: calls command arity rest
      else calls command arity rest

/-- The reader that looks for the calls of a command. -/
def callScanner (command : Token) (arity : Nat) : Scanner (Option (List (List Token))) where
  heads := [command]
  scan := calls command arity
  scan_nil := rfl
  scan_skip := by
    intro t rest other
    rw [calls, if_neg (by simpa using other)]

theorem ignores_callScanner {command : Token} (arity : Nat) {controls : List Token}
    (foreign : isForeign controls command = true) : (callScanner command arity).ignores controls = true := by
  simpa [Scanner.ignores, callScanner] using foreign

/-- A call is found with its arguments. -/
theorem finds_call {command : Token} {arity : Nat} {arguments : List (List Token)}
    (control : command.isControl = true) (balanced : ∀ a ∈ arguments, Balanced a)
    (silent : ∀ a ∈ arguments, command ∉ a) (enough : arity ≤ arguments.length) :
    (callScanner command arity).Finds (command :: groupTokens arguments)
      [some (arguments.take arity)] := by
  have inside : (callScanner command arity).Finds (groupTokens arguments) [] := by
    refine .skip ?_
    intro t member found
    have same : t = command := List.mem_singleton.1 found
    obtain ⟨ts, among, here⟩ := mem_groupTokens member (same ▸ control)
    exact silent ts among (same ▸ here)
  intro rest
  have others : calls command arity (groupTokens arguments ++ rest) = calls command arity rest :=
    inside rest
  change calls command arity (command :: (groupTokens arguments ++ rest)) = _
  rw [calls, if_pos rfl, readGroups_groupTokens balanced arity enough, others]
  rfl

/-! ### The text that source stands for -/

/-- The source that tokens were read from. -/
def sourceOf (ts : List Token) : List Char :=
  ts.flatMap Token.source

/-- The text that source stands for. What the escaper did is undone; whatever it does not write stands for
itself. -/
def unescape : List Token → List Char
  | [] => []
  | .word name :: .opening :: .closing :: rest =>
      match spelled.find? fun pair => pair.2.toList == name with
      | some pair => pair.1 :: unescape rest
      | none => '\\' :: (name ++ '\x7b' :: '\x7d' :: unescape rest)
  | .symbol c :: rest => c :: unescape rest
  | t :: rest => t.source ++ unescape rest

theorem unescape_escapeChar (c : Char) (rest : List Token) :
    unescape (tokens (escapeChar c) ++ rest) = c :: unescape rest := by
  rcases escapeChar_cases c with ⟨name, member, e⟩ | ⟨member, e⟩ | ⟨plain, e⟩ <;> rw [e, tokens]
  · rw [lex_closedWord member]
    have found : (spelled.find? fun pair => pair.2.toList == name.toList) = some (c, name) := by
      simp only [spelled, List.mem_cons, List.not_mem_nil, or_false, Prod.mk.injEq] at member
      rcases member with ⟨rfl, rfl⟩ | ⟨rfl, rfl⟩ | ⟨rfl, rfl⟩ | ⟨rfl, rfl⟩ | ⟨rfl, rfl⟩ <;> decide
    simp only [Mode.pending, List.append_nil, List.cons_append, List.nil_append, unescape, found]
  · rw [lex_slashed member]
    rfl
  · rw [lex_not_reserved plain]
    rfl

/-- Escaped text stands for the text: nothing is escaped twice, and nothing is lost. -/
theorem unescape_escape (s : List Char) : unescape (tokens (escape s)) = s := by
  rw [tokens_escape]
  induction s with
  | nil => rfl
  | cons c rest ih => rw [List.flatMap_cons, unescape_escapeChar, ih]

/-- Text of the user is its escaped characters, without the space around them. -/
theorem render_text (raw : String) :
    (text raw).render = escape (Text.trimChars raw.toList) := by
  unfold text
  split
  case isTrue => simp [Piece.render, Text.trim]
  case isFalse blank =>
    rw [Bool.not_eq_true, Text.hasText_eq_false, ← Text.trimChars_eq_nil] at blank
    rw [blank]
    rfl

/-- Text of the user is blank where nothing visible is typed. -/
theorem isBlank_text (raw : String) : (text raw).isBlank = !Text.hasText raw := by
  unfold text
  cases shown : Text.hasText raw with
  | false => rfl
  | true =>
      have some : Text.trim raw ≠ "" := by
        intro none
        rw [Text.hasText_eq_false_iff_trim.2 none] at shown
        cases shown
      simp [Source.isBlank, Piece.isEmpty, some]

/-- Text of the user is read back as it was typed, without the space around it. -/
theorem unescape_text (raw : String) :
    unescape (tokens (text raw).render) = Text.trimChars raw.toList := by
  rw [render_text, unescape_escape]

end Vitae.Tex
