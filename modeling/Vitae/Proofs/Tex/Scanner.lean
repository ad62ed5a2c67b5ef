/-
Module: Vitae.Proofs.Tex.Scanner
Layer: Proofs
Purpose: Readers that look for some tokens and pass over all others. What such a reader finds in a sequence
  of tokens does not depend on what follows, so it is put together from what it finds in the parts, and
  source without the tokens that it looks for shows it nothing.
Imports: Vitae.Proofs.Tex.Flow
Main exports: isForeign, Flow.not_mem, Modular, Scanner, Scanner.Finds, Scanner.ignores, finds_flow
-/
import Vitae.Proofs.Tex.Flow

namespace Vitae.Tex

/-- Decide whether a token is a control sequence that source with the given ones cannot hold. -/
def isForeign (controls : List Token) (t : Token) : Bool :=
  t.isControl && !controls.contains t && !isEscape t && t != hrefWord

theorem isForeign_iff {controls : List Token} {t : Token} :
    isForeign controls t = true ↔
      t.isControl = true ∧ t ∉ controls ∧ isEscape t = false ∧ t ≠ hrefWord := by
  simp [isForeign, and_assoc]

theorem Flow.not_mem {controls : List Token} {e : Ending} {s : Source} (flow : Flow controls e s)
    {t : Token} (foreign : isForeign controls t = true) : t ∉ tokens s.render := by
  obtain ⟨control, absent, plain, other⟩ := isForeign_iff.1 foreign
  intro member
  rcases flow.listed t member control with listed | escaped | link
  · exact absent listed
  · rw [plain] at escaped
    exact absurd escaped (by simp)
  · exact other link

/-- What is found in a sequence of tokens is put together from what is found in its parts. -/
structure Modular {α : Type} (P : List Token → List α → Prop) : Prop where
  nil : P [] []
  append : ∀ {a b : List Token} {out out' : List α}, P a out → P b out' → P (a ++ b) (out ++ out')
  eq_nil : ∀ {out : List α}, P [] out → out = []

namespace Modular

variable {α β : Type} {P : List Token → List α → Prop}

/-- What holds of a sequence where it holds of its parts, with nothing to be found besides. -/
theorem of_holds {Q : List Token → Prop} (nil : Q []) (append : ∀ {a b : List Token}, Q a → Q b → Q (a ++ b)) :
    Modular fun ts (_ : List Empty) => Q ts where
  nil := nil
  append := append
  eq_nil := by
    intro out _
    cases out with
    | nil => rfl
    | cons x _ => exact x.elim

theorem flatMap (modular : Modular P) (out : β → List α) {xs : List β} {g : β → List Token}
    (h : ∀ x ∈ xs, P (g x) (out x)) : P (xs.flatMap g) (xs.flatMap out) := by
  induction xs with
  | nil => exact modular.nil
  | cons x rest ih =>
      have later := ih fun y member => h y (List.mem_cons_of_mem x member)
      rw [List.flatMap_cons, List.flatMap_cons]
      exact modular.append (h x List.mem_cons_self) later

/-- What is found in source that has no characters. -/
theorem eq_nil_of_blank (modular : Modular P) {s : Source} {out : List α} (h : P (tokens s.render) out)
    (blank : s.isBlank = true) : out = [] := by
  rw [Source.isBlank_iff.1 blank, tokens_nil] at h
  exact modular.eq_nil h

end Modular

/-- What is found in the parts that have characters is found in all of them, where nothing is found in the
others. -/
theorem flatMap_visible {α β : Type} {xs : List β} {g : β → Source} {out : β → List α}
    (h : ∀ x ∈ xs, (g x).isBlank = true → out x = []) :
    (xs.filter fun x => !(g x).isBlank).flatMap out = xs.flatMap out := by
  induction xs with
  | nil => rfl
  | cons x rest ih =>
      have others := ih fun y member => h y (List.mem_cons_of_mem x member)
      cases blank : (g x).isBlank with
      | true => simp [blank, h x List.mem_cons_self blank, others]
      | false => simp [blank, others]

/-- A reader of tokens. It looks for some of them and passes over all others. -/
structure Scanner (α : Type) where
  heads : List Token
  scan : List Token → List α
  scan_nil : scan [] = []
  scan_skip : ∀ {t : Token} {rest : List Token}, t ∉ heads → scan (t :: rest) = scan rest

namespace Scanner

variable {α : Type} {f : Scanner α}

/-- The reader finds `out` in the tokens, whatever follows them. -/
def Finds (f : Scanner α) (ts : List Token) (out : List α) : Prop :=
  ∀ rest, f.scan (ts ++ rest) = out ++ f.scan rest

/-- Decide whether a reader looks for control sequences only, and none of those that source with the given
ones can hold. -/
def ignores (f : Scanner α) (controls : List Token) : Bool :=
  f.heads.all (isForeign controls)

theorem ignores_mono {controls controls' : List Token} (h : f.ignores controls' = true)
    (fewer : controls ⊆ controls') : f.ignores controls = true := by
  rw [ignores, List.all_eq_true] at *
  intro t member
  obtain ⟨control, absent, plain, other⟩ := isForeign_iff.1 (h t member)
  exact isForeign_iff.2 ⟨control, fun listed => absent (fewer listed), plain, other⟩

namespace Finds

theorem nil : Finds f [] [] :=
  fun _ => rfl

theorem append {a b : List Token} {out out' : List α} (ha : Finds f a out) (hb : Finds f b out') :
    Finds f (a ++ b) (out ++ out') := by
  intro rest
  rw [List.append_assoc, ha, hb, List.append_assoc]

/-- What is found where nothing follows. -/
theorem scan_eq {ts : List Token} {out : List α} (h : Finds f ts out) : f.scan ts = out := by
  have alone := h []
  rwa [List.append_nil, f.scan_nil, List.append_nil] at alone

/-- Where there are no tokens, nothing is found. -/
theorem eq_nil {out : List α} (h : Finds f [] out) : out = [] :=
  h.scan_eq.symm.trans f.scan_nil

theorem skip {ts : List Token} (h : ∀ t ∈ ts, t ∉ f.heads) : Finds f ts [] := by
  intro rest
  induction ts with
  | nil => rfl
  | cons t ts ih =>
      have others := ih fun u member => h u (List.mem_cons_of_mem t member)
      rw [List.cons_append, f.scan_skip (h t List.mem_cons_self), others]

end Finds

/-- What a reader finds is put together from what it finds in the parts. -/
theorem modular : Modular f.Finds :=
  ⟨.nil, Finds.append, Finds.eq_nil⟩

theorem Finds.flatMap {β : Type} {xs : List β} {g : β → List Token} {out : β → List α}
    (h : ∀ x ∈ xs, Finds f (g x) (out x)) : Finds f (xs.flatMap g) (xs.flatMap out) :=
  modular.flatMap out h

/-- Nothing is found in tokens with no control sequence but those that are listed. -/
theorem finds_listed {controls ts : List Token} (h : f.ignores controls = true)
    (listed : ∀ t ∈ ts, t.isControl = true → t ∈ controls) : Finds f ts [] := by
  refine .skip ?_
  intro t member found
  obtain ⟨control, absent, -, -⟩ := isForeign_iff.1 (List.all_eq_true.1 h t found)
  exact absent (listed t member control)

/-- A reader of control sequences finds nothing in characters. -/
theorem finds_chars (h : f.ignores [] = true) (s : List Char) : Finds f (s.map .char) [] := by
  refine finds_listed h ?_
  intro t member control
  obtain ⟨c, -, rfl⟩ := List.mem_map.1 member
  simp [Token.isControl] at control

/-- The braces of a group show a reader of control sequences nothing. -/
theorem Finds.group (h : f.ignores [] = true) {ts : List Token} {out : List α} (found : Finds f ts out) :
    Finds f (.opening :: (ts ++ [.closing])) out := by
  have opening : Finds f [.opening] [] := finds_listed h (by simp [Token.isControl])
  have closing : Finds f [.closing] [] := finds_listed h (by simp [Token.isControl])
  simpa using opening.append (found.append closing)

/-- Nothing is found in source with none of the tokens looked for, whatever its texts say. -/
theorem finds_flow {controls : List Token} {e : Ending} {s : Source} (flow : Flow controls e s)
    (h : f.ignores controls = true) : Finds f (tokens s.render) [] := by
  refine .skip ?_
  intro t member found
  exact flow.not_mem (List.all_eq_true.1 h t found) member

end Scanner

end Vitae.Tex
