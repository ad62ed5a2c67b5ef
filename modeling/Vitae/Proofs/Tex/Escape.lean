/-
Module: Vitae.Proofs.Tex.Escape
Layer: Proofs
Purpose: Escaped text as a language of its own. The texts that escaping writes are the sequences of its forms
  and of characters that are not reserved, which a search for stray reserved characters recognises from the
  text alone. Nothing is lost by escaping, and text that needs it is changed by it each time.
Imports: Vitae.Proofs.Tex.Argument
Main exports: Escaped, escaped_iff_exists, strays, strays_eq_nil_iff, escape_injective, escape_eq_self_iff,
  escape_safe_and_lossless
-/
import Vitae.Proofs.Tex.Argument

namespace Vitae.Tex

/-! ### The language of escaped text -/

/-- A text made of the forms of escaped characters and of characters that are not reserved. -/
inductive Escaped : List Char → Prop
  | nil : Escaped []
  | form {f s : List Char} : f ∈ spellings → Escaped s → Escaped (f ++ s)
  | plain {c : Char} {s : List Char} : isReserved c = false → Escaped s → Escaped (c :: s)

/-- Each form is what some character is escaped to. -/
theorem exists_escapeChar {f : List Char} (h : f ∈ spellings) : ∃ c, escapeChar c = f := by
  have words : ∀ pair ∈ spelled, escapeChar pair.1 = closedWord pair.2 := by decide
  have symbols : slashed.all (fun c => escapeChar c == ['\\', c]) = true := by decide
  rw [spellings, List.mem_append, List.mem_map, List.mem_map] at h
  rcases h with ⟨pair, member, rfl⟩ | ⟨c, member, rfl⟩
  · exact ⟨pair.1, words pair member⟩
  · exact ⟨c, eq_of_beq (List.all_eq_true.1 symbols c member)⟩

theorem escaped_escape (s : List Char) : Escaped (escape s) := by
  induction s with
  | nil => exact .nil
  | cons c rest ih =>
      refine forall_escapeChar (P := fun form => Escaped (form ++ escape rest)) ?_ ?_ c
      · intro f member
        exact .form member ih
      · intro c plain
        exact .plain plain ih

/-- The language of escaped text is what escaping writes. -/
theorem escaped_iff_exists {t : List Char} : Escaped t ↔ ∃ s, escape s = t := by
  constructor
  · intro h
    induction h with
    | nil => exact ⟨[], rfl⟩
    | form member _ ih =>
        obtain ⟨c, rfl⟩ := exists_escapeChar member
        obtain ⟨s, rfl⟩ := ih
        exact ⟨c :: s, List.flatMap_cons⟩
    | @plain c _ reserved _ ih =>
        obtain ⟨s, rfl⟩ := ih
        refine ⟨c :: s, ?_⟩
        rw [escape, List.flatMap_cons, escapeChar_of_not_reserved reserved]
        rfl
  · rintro ⟨s, rfl⟩
    exact escaped_escape s

/-! ### Stray characters -/

/-- The form of an escaped character that a text begins with. -/
def formAt? (s : List Char) : Option (List Char) :=
  spellings.find? fun form : List Char => form.isPrefixOf s

/-- No form is the beginning of another, so a text begins with one form at most. -/
theorem formAt?_eq_some_iff {f s : List Char} : formAt? s = some f ↔ f ∈ spellings ∧ f <+: s := by
  have found : ∀ {g : List Char}, formAt? s = some g → g ∈ spellings ∧ g <+: s := fun h =>
    ⟨List.mem_of_find?_eq_some h,
      List.isPrefixOf_iff_prefix.1 (List.find?_some (p := fun form : List Char => form.isPrefixOf s) h)⟩
  have prefixFree : ∀ f ∈ spellings, ∀ g ∈ spellings, f <+: g → f = g := by decide
  refine ⟨found, ?_⟩
  rintro ⟨member, begins⟩
  cases look : formAt? s with
  | none =>
      have none := List.find?_eq_none.1 look f member
      exact absurd (List.isPrefixOf_iff_prefix.2 begins) none
  | some g =>
      obtain ⟨other, begins'⟩ := found look
      rcases List.prefix_or_prefix_of_prefix begins begins' with inside | inside
      · rw [prefixFree f member g other inside]
      · rw [prefixFree g other f member inside]

/-- A form begins with a backslash, so a text that does not begin with something reserved begins with none. -/
theorem formAt?_plain {c : Char} (h : isReserved c = false) (rest : List Char) :
    formAt? (c :: rest) = none := by
  have slash : ∀ f ∈ spellings, f.head? = some '\\' := by decide
  rw [Option.eq_none_iff_forall_ne_some]
  intro f found
  obtain ⟨member, begins⟩ := formAt?_eq_some_iff.1 found
  obtain ⟨more, rfl⟩ := List.head?_eq_some_iff.1 (slash f member)
  exact not_reserved_ne h rfl (List.cons_prefix_cons.1 begins).1.symm

/-- The reserved characters of a text that stand outside of the forms of escaped characters, once `skip`
characters are passed over. -/
def straysFrom : Nat → List Char → List Char
  | _, [] => []
  | skip + 1, _ :: rest => straysFrom skip rest
  | 0, c :: rest =>
      match formAt? (c :: rest) with
      | some form => straysFrom (form.length - 1) rest
      | none => if isReserved c then c :: straysFrom 0 rest else straysFrom 0 rest

/-- The reserved characters of a text that stand outside of the forms of escaped characters. -/
def strays (s : List Char) : List Char :=
  straysFrom 0 s

theorem straysFrom_length (s rest : List Char) : straysFrom s.length (s ++ rest) = strays rest := by
  induction s with
  | nil => rfl
  | cons c s ih => exact ih

/-- A form is passed over in the search for stray characters. -/
theorem strays_form {f : List Char} (h : f ∈ spellings) (rest : List Char) :
    strays (f ++ rest) = strays rest := by
  have found := formAt?_eq_some_iff.2 ⟨h, List.prefix_append f rest⟩
  have nonempty : ∀ f ∈ spellings, f ≠ [] := by decide
  cases f with
  | nil => exact absurd rfl (nonempty _ h)
  | cons c f =>
      rw [List.cons_append] at found ⊢
      rw [strays, straysFrom, found]
      exact straysFrom_length f rest

/-- So is a character that is not reserved. -/
theorem strays_plain {c : Char} (h : isReserved c = false) (rest : List Char) :
    strays (c :: rest) = strays rest := by
  rw [strays, straysFrom, formAt?_plain h, h]
  rfl

/-- The texts without stray characters are the escaped texts. -/
theorem strays_eq_nil_iff {t : List Char} : strays t = [] ↔ Escaped t := by
  constructor
  · intro clear
    -- a form may be longer than one character, so the induction is on the length of the text
    induction size : t.length using Nat.strongRecOn generalizing t with
    | ind n ih =>
        cases t with
        | nil => exact .nil
        | cons c rest =>
            cases found : formAt? (c :: rest) with
            | some f =>
                obtain ⟨member, more, whole⟩ := formAt?_eq_some_iff.1 found
                rw [← whole] at clear ⊢
                rw [strays_form member] at clear
                have nonempty : ∀ f ∈ spellings, 0 < f.length := by decide
                have shorter : more.length < n := by
                  rw [← size, ← whole, List.length_append]
                  exact Nat.lt_add_of_pos_left (nonempty f member)
                exact .form member (ih more.length shorter clear rfl)
            | none =>
                rw [strays, straysFrom, found] at clear
                cases reserved : isReserved c with
                | true => simp [reserved] at clear
                | false =>
                    have shorter : rest.length < n := size ▸ Nat.lt_succ_self _
                    rw [reserved] at clear
                    exact .plain reserved (ih rest.length shorter clear rfl)
  · intro h
    induction h with
    | nil => rfl
    | form member _ ih => rw [strays_form member, ih]
    | plain reserved _ ih => rw [strays_plain reserved, ih]

/-! ### Escaping twice -/

theorem escape_injective : Function.Injective escape := by
  intro s t same
  rw [← unescape_escape s, same, unescape_escape]

/-- The escaped form of a character is longer than the character, unless the character is its own form. -/
theorem length_escapeChar (c : Char) :
    (escapeChar c).length = 1 ∧ isReserved c = false ∨ 1 < (escapeChar c).length ∧ isReserved c = true := by
  cases reserved : isReserved c with
  | false => exact .inl ⟨by rw [escapeChar_of_not_reserved reserved]; rfl, rfl⟩
  | true =>
      refine .inr ⟨?_, rfl⟩
      rcases escapeChar_cases c with ⟨name, -, e⟩ | ⟨-, e⟩ | ⟨plain, -⟩
      · simp [e, closedWord]
      · simp [e]
      · rw [plain] at reserved
        cases reserved

theorem length_le_length_escape (s : List Char) : s.length ≤ (escape s).length := by
  induction s with
  | nil => exact Nat.le_refl _
  | cons c rest ih =>
      have head := length_escapeChar c
      rw [escape, List.flatMap_cons, List.length_append, List.length_cons]
      change _ ≤ _ + (escape rest).length
      omega

/-- Escaping leaves a text as it is where it holds nothing reserved, and only there. -/
theorem escape_eq_self_iff {s : List Char} : escape s = s ↔ s.any isReserved = false := by
  induction s with
  | nil => exact iff_of_true rfl rfl
  | cons c rest ih =>
      have unfolded : escape (c :: rest) = escapeChar c ++ escape rest := List.flatMap_cons
      rw [List.any_cons, Bool.or_eq_false_iff, ← ih, unfolded]
      rcases length_escapeChar c with ⟨-, plain⟩ | ⟨longer, reserved⟩
      · simp [escapeChar_of_not_reserved plain, plain]
      · refine iff_of_false ?_ (by simp [reserved])
        intro same
        have lengths := congrArg List.length same
        have rest := length_le_length_escape rest
        rw [List.length_append, List.length_cons] at lengths
        omega

/-- What is escaped to itself, escaped once more, was escaped to itself the first time. -/
theorem escape_escape_eq_iff {s : List Char} : escape (escape s) = escape s ↔ s.any isReserved = false :=
  escape_injective.eq_iff.trans escape_eq_self_iff

/-- Escaping is safe and loses nothing. What it writes is made of its forms and of characters that are not
reserved, so that no reserved character stands outside of a form; it is read back from left to right as the
text it was made of, so that no two texts are written alike; and it leaves a text as it is, for the first time
or for the second, where nothing in the text is reserved. -/
theorem escape_safe_and_lossless (s : List Char) :
    Escaped (escape s) ∧ strays (escape s) = [] ∧ unescape (tokens (escape s)) = s ∧
      (∀ t, escape t = escape s ↔ t = s) ∧
      (escape s = s ↔ s.any isReserved = false) ∧
      (escape (escape s) = escape s ↔ s.any isReserved = false) :=
  ⟨escaped_escape s, strays_eq_nil_iff.2 (escaped_escape s), unescape_escape s,
    fun _ => escape_injective.eq_iff, escape_eq_self_iff, escape_escape_eq_iff⟩

end Vitae.Tex
