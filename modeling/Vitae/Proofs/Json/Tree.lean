/-
Module: Vitae.Proofs.Json.Tree
Layer: Proofs
Purpose: The lexemes of a tree in their order, and the two ways between them and the tree. The machine that
  reads lexemes builds the tree again, and the text of a tree spells them.
Imports: Vitae.Json.Value, Vitae.Proofs.Json.Lexeme
Main exports: Json.lexemes, Json.ofText_of_spells, Json.Printable, Json.Printable.ofText_text
-/
import Vitae.Json.Value
import Vitae.Proofs.Json.Lexeme

namespace Vitae

open Vitae.Json
open Vitae.Json.Token (Apart Lexeme Spells)

namespace Json

mutual

/-- The lexemes of a tree. -/
def lexemes : Json → List Token
  | .null => [.null]
  | .bool b => [.bool b]
  | .number n => [.number n]
  | .string t => [.string t]
  | .array items => .openArray :: (itemLexemes items ++ [.closeArray])
  | .object members => .openObject :: (memberLexemes members ++ [.closeObject])
  | .fault => [.broken]

/-- The lexemes of the items of a list, with commas between them. -/
def itemLexemes : List Json → List Token
  | [] => []
  | [v] => v.lexemes
  | v :: vs => v.lexemes ++ .comma :: itemLexemes vs

/-- The lexemes of the entries of an object, with commas between them. -/
def memberLexemes : List (Member Json) → List Token
  | [] => []
  | [m] => entryLexemes m
  | m :: ms => entryLexemes m ++ .comma :: memberLexemes ms

/-- The lexemes of one entry. -/
def entryLexemes : Member Json → List Token
  | .pair name v => .string name :: .colon :: v.lexemes
  | .fault => [.broken]

end

/-! ### Neighbours

Two numerals never stand next to each other in a tree. -/

/-- Lexemes that can follow a numeral. -/
structure Detached (ts : List Token) : Prop where
  chain : ts.IsChain Apart
  head : ∀ t ∈ ts.head?, t.isNumber = false

theorem Detached.nil : Detached [] :=
  ⟨.nil, by simp⟩

theorem isChain_cons {t : Token} {ts : List Token} (other : t.isNumber = false)
    (h : ts.IsChain Apart) : (t :: ts).IsChain Apart :=
  List.isChain_cons.2 ⟨fun _ _ number => absurd number (by simp [other]), h⟩

theorem Detached.cons {t : Token} {ts : List Token} (other : t.isNumber = false)
    (h : ts.IsChain Apart) : Detached (t :: ts) where
  chain := isChain_cons other h
  head u first := by
    obtain rfl : t = u := Option.some.inj first
    exact other

theorem Detached.scalar {ts : List Token} (h : Detached ts) (t : Token) :
    (t :: ts).IsChain Apart :=
  List.isChain_cons.2 ⟨fun u first _ => h.head u first, h.chain⟩

mutual

theorem isChain_lexemes : ∀ (v : Json) {rest : List Token}, Detached rest →
    (v.lexemes ++ rest).IsChain Apart
  | .null, _, h => h.scalar _
  | .bool _, _, h => h.scalar _
  | .number _, _, h => h.scalar _
  | .string _, _, h => h.scalar _
  | .array items, rest, h => by
      have closed : Detached (.closeArray :: rest) := .cons rfl h.chain
      have inside := isChain_itemLexemes items closed
      simpa [lexemes] using isChain_cons (t := .openArray) rfl inside
  | .object members, rest, h => by
      have closed : Detached (.closeObject :: rest) := .cons rfl h.chain
      have inside := isChain_memberLexemes members closed
      simpa [lexemes] using isChain_cons (t := .openObject) rfl inside
  | .fault, _, h => h.scalar _

theorem isChain_itemLexemes : ∀ (items : List Json) {rest : List Token}, Detached rest →
    (itemLexemes items ++ rest).IsChain Apart
  | [], _, h => h.chain
  | [v], _, h => isChain_lexemes v h
  | v :: w :: vs, rest, h => by
      have others := isChain_itemLexemes (w :: vs) h
      have separated : Detached (.comma :: (itemLexemes (w :: vs) ++ rest)) := .cons rfl others
      simpa [itemLexemes] using isChain_lexemes v separated

theorem isChain_memberLexemes : ∀ (members : List (Member Json)) {rest : List Token},
    Detached rest → (memberLexemes members ++ rest).IsChain Apart
  | [], _, h => h.chain
  | [m], _, h => isChain_entryLexemes m h
  | m :: n :: ms, rest, h => by
      have others := isChain_memberLexemes (n :: ms) h
      have separated : Detached (.comma :: (memberLexemes (n :: ms) ++ rest)) := .cons rfl others
      simpa [memberLexemes] using isChain_entryLexemes m separated

theorem isChain_entryLexemes : ∀ (m : Member Json) {rest : List Token}, Detached rest →
    (entryLexemes m ++ rest).IsChain Apart
  | .pair _ v, _, h => isChain_cons rfl (isChain_cons rfl (isChain_lexemes v h))
  | .fault, _, h => h.scalar _

end

/-! ### Reading

A tree without a fault is built again from its lexemes, in whatever it stands. -/

/-- Go on after the result of a lexeme. -/
def Outcome.run (o : Outcome) (rest : List Token) : Json × List Token :=
  match o with
  | .more s => Json.run s rest
  | .done v => (v, rest)

theorem run_cons (s : State) (t : Token) (rest : List Token) :
    run s (t :: rest) = (step s t).run rest := by
  rw [run]
  cases step s t <;> rfl

/-- The lexemes of a tree without a fault begin as a value does, not as the end of a list. -/
theorem lexemes_head {v : Json} (whole : .broken ∉ v.lexemes) :
    ∃ t ts, v.lexemes = t :: ts ∧ t ≠ .closeArray := by
  cases v with
  | fault => simp [lexemes] at whole
  | _ => exact ⟨_, _, rfl, by simp⟩

theorem lexemes_itemLexemes_head {v : Json} {vs : List Json}
    (whole : .broken ∉ itemLexemes (v :: vs)) :
    ∃ t ts, itemLexemes (v :: vs) = t :: ts ∧ t ≠ .closeArray := by
  cases vs with
  | nil => exact lexemes_head whole
  | cons w vs =>
      have first : .broken ∉ v.lexemes := fun inside =>
        whole (List.mem_append_left _ inside)
      obtain ⟨t, ts, head, open'⟩ := lexemes_head first
      exact ⟨t, ts ++ .comma :: itemLexemes (w :: vs), by simp [itemLexemes, head], open'⟩

/-- Where a list may end at once, anything else is its first item. -/
theorem run_firstItem {t : Token} (frames : List Frame) (rest : List Token)
    (other : t ≠ .closeArray) :
    run ⟨.firstItem, frames⟩ (t :: rest) = run ⟨.value, .items [] :: frames⟩ (t :: rest) := by
  rw [run_cons, run_cons]
  cases t <;> first | exact absurd rfl other | rfl

/-- A name with its colon leads to the value of the entry. -/
theorem run_name (first : Bool) (done : List (Member Json)) (name : Quoted) (frames : List Frame)
    (rest : List Token) :
    run ⟨.name first done, frames⟩ (.string name :: .colon :: rest) =
      run ⟨.value, .members done name :: frames⟩ rest := by
  cases first <;> rfl

mutual

theorem run_lexemes : ∀ (v : Json) (frames : List Frame) (rest : List Token),
    .broken ∉ v.lexemes →
      run ⟨.value, frames⟩ (v.lexemes ++ rest) = (complete v frames).run rest
  | .null, frames, rest, _ => run_cons ⟨.value, frames⟩ .null rest
  | .bool b, frames, rest, _ => run_cons ⟨.value, frames⟩ (.bool b) rest
  | .number n, frames, rest, _ => run_cons ⟨.value, frames⟩ (.number n) rest
  | .string t, frames, rest, _ => run_cons ⟨.value, frames⟩ (.string t) rest
  | .array [], frames, rest, _ => by
      rw [lexemes, List.cons_append, run_cons]
      exact run_cons ⟨.firstItem, frames⟩ .closeArray rest
  | .array (v :: vs), frames, rest, whole => by
      have inside : .broken ∉ itemLexemes (v :: vs) := fun broken => whole (by simp [lexemes, broken])
      obtain ⟨t, ts, head, other⟩ := lexemes_itemLexemes_head inside
      calc run ⟨.value, frames⟩ ((Json.array (v :: vs)).lexemes ++ rest)
          = run ⟨.firstItem, frames⟩ (itemLexemes (v :: vs) ++ .closeArray :: rest) := by
            simp only [lexemes, List.cons_append, List.append_assoc, List.nil_append, run_cons]
            rfl
        _ = run ⟨.value, .items [] :: frames⟩ (itemLexemes (v :: vs) ++ .closeArray :: rest) := by
            rw [head]
            exact run_firstItem frames _ other
        _ = (complete (.array (v :: vs)) frames).run rest :=
            run_itemLexemes (v :: vs) [] frames rest (by simp) inside
  | .object [], frames, rest, _ => by
      rw [lexemes, List.cons_append, run_cons]
      exact run_cons ⟨.name true [], frames⟩ .closeObject rest
  | .object (m :: ms), frames, rest, whole => by
      have inside : .broken ∉ memberLexemes (m :: ms) := fun broken =>
        whole (by simp [lexemes, broken])
      have read := run_memberLexemes (m :: ms) true [] frames rest (by simp) inside
      rw [lexemes, List.cons_append, List.append_assoc, run_cons]
      exact read
  | .fault, _, _, whole => absurd List.mem_cons_self whole

theorem run_itemLexemes : ∀ (items done : List Json) (frames : List Frame) (rest : List Token),
    items ≠ [] → .broken ∉ itemLexemes items →
      run ⟨.value, .items done :: frames⟩ (itemLexemes items ++ .closeArray :: rest) =
        (complete (.array (done.reverse ++ items)) frames).run rest
  | [], _, _, _, filled, _ => absurd rfl filled
  | [v], done, frames, rest, _, whole => by
      have read := run_lexemes v (.items done :: frames) (.closeArray :: rest) whole
      rw [itemLexemes, read]
      simp [complete, Outcome.run, run_cons, step]
  | v :: w :: vs, done, frames, rest, _, whole => by
      have first : .broken ∉ v.lexemes := fun broken => whole (by simp [itemLexemes, broken])
      have others : .broken ∉ itemLexemes (w :: vs) := fun broken =>
        whole (by simp [itemLexemes, broken])
      have read := run_lexemes v (.items done :: frames)
        (.comma :: (itemLexemes (w :: vs) ++ .closeArray :: rest)) first
      have next := run_itemLexemes (w :: vs) (v :: done) frames rest (by simp) others
      simp only [itemLexemes, List.append_assoc, List.cons_append, read]
      simpa [complete, Outcome.run, run_cons, step] using next

theorem run_memberLexemes : ∀ (members : List (Member Json)) (first : Bool)
    (done : List (Member Json)) (frames : List Frame) (rest : List Token),
    members ≠ [] → .broken ∉ memberLexemes members →
      run ⟨.name first done, frames⟩ (memberLexemes members ++ .closeObject :: rest) =
        (complete (.object (done.reverse ++ members)) frames).run rest
  | [], _, _, _, _, filled, _ => absurd rfl filled
  | [.pair name v], first, done, frames, rest, _, whole => by
      have inside : .broken ∉ v.lexemes := fun broken =>
        whole (by simp [memberLexemes, entryLexemes, broken])
      have read := run_lexemes v (.members done name :: frames) (.closeObject :: rest) inside
      rw [memberLexemes, entryLexemes, List.cons_append, List.cons_append, run_name, read]
      simp [complete, Outcome.run, run_cons, step]
  | .pair name v :: n :: ms, first, done, frames, rest, _, whole => by
      have inside : .broken ∉ v.lexemes := fun broken =>
        whole (by simp [memberLexemes, entryLexemes, broken])
      have others : .broken ∉ memberLexemes (n :: ms) := fun broken =>
        whole (by simp [memberLexemes, broken])
      have read := run_lexemes v (.members done name :: frames)
        (.comma :: (memberLexemes (n :: ms) ++ .closeObject :: rest)) inside
      have next := run_memberLexemes (n :: ms) false (.pair name v :: done) frames rest (by simp)
        others
      simp only [memberLexemes, entryLexemes, List.append_assoc, List.cons_append, run_name, read]
      simpa [complete, Outcome.run, run_cons, step] using next
  | .fault :: [], _, _, _, _, _, whole => absurd List.mem_cons_self whole
  | .fault :: _ :: _, _, _, _, _, _, whole => absurd List.mem_cons_self whole

end

/-- A text that spells the lexemes of a tree is read as that tree, to its end. -/
theorem ofText_of_spells {v : Json} {s : String} (h : Spells v.lexemes s.toList) :
    ofText s = (v, []) := by
  have apart : v.lexemes.IsChain Apart := by
    simpa using isChain_lexemes v .nil
  have read := run_lexemes v [] [] h.not_broken
  rw [List.append_nil] at read
  rw [ofText, Token.ofText_of_spells h apart, ofTokens, read]
  rfl

/-! ### Writing -/

mutual

/-- The text of a tree is the text of its lexemes. -/
theorem chars_eq_flatMap : ∀ v : Json, v.chars = v.lexemes.flatMap Token.text
  | .null => rfl
  | .bool true => rfl
  | .bool false => rfl
  | .number n => (List.append_nil n.text).symm
  | .string (.plain s) => (List.append_nil (Quoted.quote s)).symm
  | .string .unpaired => rfl
  | .array items => by
      have inside := itemChars_eq_flatMap items
      change '[' :: (itemChars items ++ [']']) =
        '[' :: (itemLexemes items ++ [Token.closeArray]).flatMap Token.text
      rw [List.flatMap_append, inside]
      rfl
  | .object members => by
      have inside := memberChars_eq_flatMap members
      change '\x7b' :: (memberChars members ++ ['\x7d']) =
        '\x7b' :: (memberLexemes members ++ [Token.closeObject]).flatMap Token.text
      rw [List.flatMap_append, inside]
      rfl
  | .fault => rfl

theorem itemChars_eq_flatMap :
    ∀ items : List Json, itemChars items = (itemLexemes items).flatMap Token.text
  | [] => rfl
  | [v] => chars_eq_flatMap v
  | v :: w :: vs => by
      rw [itemChars, itemLexemes, chars_eq_flatMap v, itemChars_eq_flatMap (w :: vs), List.flatMap_append,
        List.flatMap_cons]
      · rfl
      all_goals simp

theorem memberChars_eq_flatMap :
    ∀ members : List (Member Json), memberChars members = (memberLexemes members).flatMap Token.text
  | [] => rfl
  | [m] => entryChars_eq_flatMap m
  | m :: n :: ms => by
      rw [memberChars, memberLexemes, entryChars_eq_flatMap m, memberChars_eq_flatMap (n :: ms),
        List.flatMap_append, List.flatMap_cons]
      · rfl
      all_goals simp

theorem entryChars_eq_flatMap :
    ∀ m : Member Json, entryChars m = (entryLexemes m).flatMap Token.text
  | .pair (.plain name) v =>
      congrArg (fun value => Quoted.quote name ++ ':' :: value) (chars_eq_flatMap v)
  | .pair .unpaired v => congrArg (':' :: ·) (chars_eq_flatMap v)
  | .fault => rfl

end

/-- Every lexeme of the tree has a text. -/
def Printable (v : Json) : Prop :=
  ∀ t ∈ v.lexemes, Lexeme t t.text

/-- The text of a tree spells the lexemes of the tree. -/
theorem Printable.spells {v : Json} (h : v.Printable) : Spells v.lexemes v.text.toList := by
  rw [text, String.toList_ofList, chars_eq_flatMap]
  exact .flatMap h

/-- The text of a tree is read as that tree, to its end. -/
theorem Printable.ofText_text {v : Json} (h : v.Printable) : ofText v.text = (v, []) :=
  ofText_of_spells h.spells

theorem mem_itemLexemes {t : Token} :
    ∀ {items : List Json}, t ∈ itemLexemes items → t = .comma ∨ ∃ v ∈ items, t ∈ v.lexemes
  | [v], inside => .inr ⟨v, List.mem_cons_self, inside⟩
  | v :: w :: vs, inside => by
      obtain first | comma | later : t ∈ v.lexemes ∨ t = .comma ∨ t ∈ itemLexemes (w :: vs) := by
        simpa [itemLexemes] using inside
      · exact .inr ⟨v, List.mem_cons_self, first⟩
      · exact .inl comma
      · obtain comma | ⟨u, member, within⟩ := mem_itemLexemes later
        · exact .inl comma
        · exact .inr ⟨u, List.mem_cons_of_mem v member, within⟩

theorem mem_memberLexemes {t : Token} : ∀ {members : List (Member Json)},
    t ∈ memberLexemes members → t = .comma ∨ ∃ m ∈ members, t ∈ entryLexemes m
  | [m], inside => .inr ⟨m, List.mem_cons_self, inside⟩
  | m :: n :: ms, inside => by
      obtain first | comma | later :
          t ∈ entryLexemes m ∨ t = .comma ∨ t ∈ memberLexemes (n :: ms) := by
        simpa [memberLexemes] using inside
      · exact .inr ⟨m, List.mem_cons_self, first⟩
      · exact .inl comma
      · obtain comma | ⟨k, member, within⟩ := mem_memberLexemes later
        · exact .inl comma
        · exact .inr ⟨k, List.mem_cons_of_mem m member, within⟩

theorem Printable.null : Printable .null :=
  List.forall_mem_singleton.2 .null

theorem Printable.string (s : String) : Printable (ofString s) :=
  List.forall_mem_singleton.2 (.string (Quoted.quote_text s))

theorem Printable.number {n : Numeral} (h : Numeral.NumeralText n n.text) :
    Printable (.number n) :=
  List.forall_mem_singleton.2 (.number h)

theorem Printable.array {items : List Json} (h : ∀ v ∈ items, v.Printable) :
    Printable (.array items) := by
  intro t inside
  obtain rfl | within | rfl : t = .openArray ∨ t ∈ itemLexemes items ∨ t = .closeArray := by
    simpa [lexemes] using inside
  · exact .openArray
  · obtain rfl | ⟨v, member, within⟩ := mem_itemLexemes within
    · exact .comma
    · exact h v member t within
  · exact .closeArray

theorem Printable.object {entries : List (String × Json)} (h : ∀ e ∈ entries, e.2.Printable) :
    Printable (.object (entries.map fun e => entry e.1 e.2)) := by
  intro t inside
  obtain rfl | within | rfl : t = .openObject ∨
      t ∈ memberLexemes (entries.map fun e => entry e.1 e.2) ∨ t = .closeObject := by
    simpa [lexemes] using inside
  · exact .openObject
  · obtain rfl | ⟨m, member, within⟩ := mem_memberLexemes within
    · exact .comma
    · obtain ⟨e, given, rfl⟩ := List.mem_map.1 member
      obtain rfl | rfl | value : t = .string (.plain e.1) ∨ t = .colon ∨ t ∈ e.2.lexemes := by
        simpa [entry, entryLexemes] using within
      · exact .string (Quoted.quote_text e.1)
      · exact .colon
      · exact h e given t value
  · exact .closeObject

end Json

end Vitae
