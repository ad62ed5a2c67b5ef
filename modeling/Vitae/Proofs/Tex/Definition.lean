/-
Module: Vitae.Proofs.Tex.Definition
Layer: Proofs
Purpose: The commands that source defines, read back from its tokens with the numbers of their parameters. A
  definition that is read to its end is read so whatever follows it.
Imports: Vitae.Proofs.Tex.Argument
Main exports: Definition, readDefinition, definitions, definitionScanner, finds_definitions
-/
import Vitae.Proofs.Tex.Argument

namespace Vitae.Tex

/-- A command and the number of its parameters. -/
structure Definition where
  name : List Char
  arity : Nat
deriving Repr, DecidableEq

/-- The definition behind the command that makes definitions: the name in braces, the number of parameters
in brackets, where there are any, and the body in braces. -/
def readDefinition : List Token → Option Definition
  | .opening :: .word name :: .closing :: .opening :: rest =>
      if (takeGroup 0 rest).isSome then some ⟨name, 0⟩ else none
  | .opening :: .word name :: .closing :: .char '[' :: .char d :: .char ']' :: .opening :: rest =>
      if d.isDigit && (takeGroup 0 rest).isSome then some ⟨name, d.toNat - '0'.toNat⟩ else none
  | _ => none

/-- The command that makes definitions. -/
def newcommandWord : Token :=
  .word "newcommand".toList

/-- The definitions in source, in their order, or nothing for one that cannot be read. -/
def definitions : List Token → List (Option Definition)
  | [] => []
  | t :: rest =>
      if t = newcommandWord then readDefinition rest :: definitions rest else definitions rest

/-- The reader that looks for definitions. -/
def definitionScanner : Scanner (Option Definition) where
  heads := [newcommandWord]
  scan := definitions
  scan_nil := rfl
  scan_skip := by
    intro t rest other
    rw [definitions, if_neg (by simpa using other)]

/-! ### What follows a definition -/

/-- A group that is closed stays so, whatever follows. -/
theorem isSome_takeGroup_append {depth : Nat} {ts : List Token} (h : (takeGroup depth ts).isSome = true)
    (rest : List Token) : (takeGroup depth (ts ++ rest)).isSome = true := by
  induction ts generalizing depth with
  | nil => simp [takeGroup] at h
  | cons t ts ih =>
      rw [List.cons_append]
      cases t with
      | closing =>
          cases depth with
          | zero => rfl
          | succ depth =>
              rw [takeGroup, Option.isSome_map] at h ⊢
              exact ih h
      | opening =>
          rw [takeGroup, Option.isSome_map] at h ⊢
          exact ih h
      | word _ | symbol _ | comment _ | char _ =>
          rw [takeGroup, Option.isSome_map] at h ⊢
          · exact ih h
          all_goals simp

theorem readDefinition_append {ts : List Token} {d : Definition} (h : readDefinition ts = some d)
    (rest : List Token) : readDefinition (ts ++ rest) = some d := by
  unfold readDefinition at h
  split at h
  case h_1 name body =>
    split at h
    case isTrue closed =>
      rw [← h]
      exact if_pos (isSome_takeGroup_append closed rest)
    case isFalse => cases h
  case h_2 name digit body =>
    split at h
    case isTrue closed =>
      rw [Bool.and_eq_true] at closed
      rw [← h]
      exact if_pos (Bool.and_eq_true_iff.2 ⟨closed.1, isSome_takeGroup_append closed.2 rest⟩)
    case isFalse => cases h
  case h_3 => cases h

/-- Definitions that are read to their ends are found, whatever follows them. -/
theorem finds_definitions {ts : List Token} {found : List Definition}
    (h : definitions ts = found.map some) : definitionScanner.Finds ts (found.map some) := by
  intro rest
  change definitions (ts ++ rest) = found.map some ++ definitions rest
  induction ts generalizing found with
  | nil =>
      rw [← h]
      rfl
  | cons t ts ih =>
      rw [definitions] at h
      rw [List.cons_append, definitions]
      split at h
      case isTrue here =>
        rw [if_pos here]
        cases found with
        | nil => cases h
        | cons d found =>
            rw [List.map_cons, List.cons.injEq] at h
            rw [readDefinition_append h.1, ih h.2, List.map_cons, List.cons_append]
      case isFalse other =>
        rw [if_neg other]
        exact ih h

example :
    definitions (tokens "\\newcommand\x7b\\line\x7d[2]\x7b#1\x7b\x7d#2\x7d\\line".toList) =
      [some ⟨"line".toList, 2⟩] := by
  decide

end Vitae.Tex
