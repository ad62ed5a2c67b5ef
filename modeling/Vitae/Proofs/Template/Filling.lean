/-
Module: Vitae.Proofs.Template.Filling
Layer: Proofs
Purpose: Filling in placeholders one name after the other gives what filling all of them in at once gives,
  where no value brings a placeholder of its own. A template is taken apart into characters and
  placeholders, and each name that is filled in leaves a template with fewer placeholders.
Imports: Vitae.Proofs.Tex.Calm, Vitae.Template.Placeholder
Main exports: Segment, Separate, Clean, fill_source
-/
import Vitae.Proofs.Tex.Calm
import Vitae.Template.Placeholder

namespace Vitae.Template

open Tex

/-- A part of a template: a character, a placeholder, or a placeholder in one more pair of braces. -/
inductive Segment where
  | char (c : Char)
  | slot (name : String)
  | wrapped (name : String)
deriving Repr, DecidableEq

/-- The text of a part. -/
def Segment.source : Segment → List Char
  | .char c => [c]
  | .slot name => placeholder name
  | .wrapped name => '\x7b' :: (placeholder name ++ ['\x7d'])

/-- The text of a template. -/
def source (segments : List Segment) : List Char :=
  segments.flatMap Segment.source

/-- A name without braces. -/
def BraceFree (name : String) : Prop :=
  '\x7b' ∉ name.toList ∧ '\x7d' ∉ name.toList

instance (name : String) : Decidable (BraceFree name) :=
  inferInstanceAs (Decidable (_ ∧ _))

/-- Every doubled brace of a template opens one of its placeholders. The flag says whether the template
stands behind an opening brace. -/
def Separate : Bool → List Segment → Prop
  | _, [] => True
  | behind, .char c :: rest => (behind = true → c ≠ '\x7b') ∧ Separate (c == '\x7b') rest
  | behind, .slot name :: rest => behind = false ∧ BraceFree name ∧ Separate false rest
  | behind, .wrapped name :: rest => behind = false ∧ BraceFree name ∧ Separate false rest

/-- A value that makes no doubled brace with what stands around it. -/
structure Clean (value : List Char) : Prop where
  single : occurrences doubledBrace value = 0
  head : value.head? ≠ some '\x7b'
  last : value.getLast? ≠ some '\x7b'

@[simp] theorem source_nil : source [] = [] := rfl

@[simp] theorem source_cons (segment : Segment) (rest : List Segment) :
    source (segment :: rest) = segment.source ++ source rest :=
  List.flatMap_cons

theorem source_chars (s : List Char) : source (s.map .char) = s := by
  induction s with
  | nil => rfl
  | cons c rest ih => simp [Segment.source, ih]

theorem source_append (a b : List Segment) : source (a ++ b) = source a ++ source b :=
  List.flatMap_append

/-! ### Replacing one name -/

section Replace

variable {name : String} {value : List Char}

/-- A character that begins no placeholder stays. -/
theorem replace_char {c : Char} {rest : List Char} (h : c ≠ '\x7b' ∨ rest.head? ≠ some '\x7b') :
    replace (placeholder name) value (c :: rest) = c :: replace (placeholder name) value rest := by
  have apart : (placeholder name).isPrefixOf (c :: rest) = false := by
    rw [← Bool.not_eq_true, List.isPrefixOf_iff_prefix]
    rintro ⟨behind, whole⟩
    simp only [placeholder, List.cons_append, List.nil_append, List.cons.injEq] at whole
    obtain ⟨same, others⟩ := whole
    rcases h with h | h
    · exact h same.symm
    · rw [← others] at h
      simp at h
  rw [replace, replaceAfter, apart]
  rfl

/-- A text without opening braces stays. -/
theorem replace_plain {s : List Char} (h : '\x7b' ∉ s) (rest : List Char) :
    replace (placeholder name) value (s ++ rest) = s ++ replace (placeholder name) value rest := by
  induction s with
  | nil => rfl
  | cons c s ih =>
      rw [List.mem_cons, not_or] at h
      rw [List.cons_append, replace_char (.inl (Ne.symm h.1)), ih h.2]
      rfl

/-- The characters of an occurrence that is already replaced are skipped. -/
theorem replaceAfter_skip (pattern s rest : List Char) :
    replaceAfter pattern value s.length (s ++ rest) = replaceAfter pattern value 0 rest := by
  induction s with
  | nil => rfl
  | cons c s ih => exact ih

/-- The placeholder of the name is replaced. -/
theorem replace_slot (rest : List Char) :
    replace (placeholder name) value (placeholder name ++ rest) =
      value ++ replace (placeholder name) value rest := by
  have begins : (placeholder name).isPrefixOf (placeholder name ++ rest) = true := by
    rw [List.isPrefixOf_iff_prefix]
    exact List.prefix_append _ _
  have shape : placeholder name = '\x7b' :: (placeholder name).tail := rfl
  have skip := @replaceAfter_skip value (placeholder name) (placeholder name).tail rest
  rw [replace, shape, List.cons_append, replaceAfter, ← shape, ← List.cons_append, ← shape, begins]
  rw [List.length_tail] at skip
  simp only [if_true]
  rw [skip]
  rfl

/-- Names without braces whose placeholders begin alike are the same. -/
theorem eq_of_begins {a b rest : List Char} (ha : '\x7d' ∉ a) (hb : '\x7d' ∉ b)
    (h : (a ++ ['\x7d', '\x7d']) <+: b ++ '\x7d' :: rest) : a = b := by
  induction a generalizing b with
  | nil =>
      cases b with
      | nil => rfl
      | cons d b =>
          obtain ⟨behind, whole⟩ := h
          simp only [List.nil_append, List.cons_append, List.cons.injEq] at whole
          exact absurd (whole.1 ▸ List.mem_cons_self) hb
  | cons c a ih =>
      cases b with
      | nil =>
          obtain ⟨behind, whole⟩ := h
          simp only [List.nil_append, List.cons_append, List.cons.injEq] at whole
          exact absurd (whole.1 ▸ List.mem_cons_self) ha
      | cons d b =>
          rw [List.cons_append, List.cons_append, List.cons_prefix_cons] at h
          rw [List.mem_cons, not_or] at ha hb
          rw [h.1, ih ha.2 hb.2 h.2]

/-- The placeholder of another name stays. -/
theorem replace_other {other : String} (free : BraceFree name) (freeOther : BraceFree other)
    (ne : other ≠ name) (rest : List Char) :
    replace (placeholder name) value (placeholder other ++ rest) =
      placeholder other ++ replace (placeholder name) value rest := by
  have apart : (placeholder name).isPrefixOf (placeholder other ++ rest) = false := by
    rw [← Bool.not_eq_true, List.isPrefixOf_iff_prefix]
    intro begins
    simp only [placeholder, List.append_assoc, List.cons_append, List.nil_append,
      List.cons_prefix_cons, true_and] at begins
    exact ne (String.toList_injective (eq_of_begins free.2 freeOther.2 begins)).symm
  have inside : '\x7b' ∉ other.toList ++ ['\x7d', '\x7d'] := by
    simp [freeOther.1]
  -- the second brace of the placeholder is followed by its name or by a closing brace
  have second : (other.toList ++ ['\x7d', '\x7d'] ++ rest).head? ≠ some '\x7b' := by
    cases chars : other.toList with
    | nil => simp
    | cons c s =>
        have first := freeOther.1
        rw [chars, List.mem_cons, not_or] at first
        simpa using Ne.symm first.1
  have shape : placeholder other ++ rest =
      '\x7b' :: '\x7b' :: (other.toList ++ ['\x7d', '\x7d'] ++ rest) := by
    simp [placeholder]
  have rests : replace (placeholder name) value
      ('\x7b' :: (other.toList ++ ['\x7d', '\x7d'] ++ rest)) =
        '\x7b' :: (other.toList ++ ['\x7d', '\x7d'] ++ replace (placeholder name) value rest) := by
    rw [replace_char (.inr second), replace_plain inside]
  rw [shape] at apart ⊢
  rw [replace, replaceAfter, apart]
  change '\x7b' :: replace (placeholder name) value _ = _
  rw [rests]
  simp [placeholder]

/-- A brace before a placeholder stays. -/
theorem replace_brace (free : BraceFree name) (other : String) (rest : List Char) :
    replace (placeholder name) value ('\x7b' :: (placeholder other ++ rest)) =
      '\x7b' :: replace (placeholder name) value (placeholder other ++ rest) := by
  have apart : (placeholder name).isPrefixOf ('\x7b' :: (placeholder other ++ rest)) = false := by
    rw [← Bool.not_eq_true, List.isPrefixOf_iff_prefix]
    intro begins
    simp only [placeholder, List.append_assoc, List.cons_append, List.nil_append,
      List.cons_prefix_cons, true_and] at begins
    cases chars : name.toList with
    | nil => simp [chars] at begins
    | cons c s =>
        rw [chars, List.cons_append, List.cons_prefix_cons] at begins
        have first := free.1
        rw [chars, begins.1] at first
        exact first List.mem_cons_self
  rw [replace, replaceAfter, apart]
  rfl

end Replace

/-! ### Replacing one name in a template -/

/-- A part after a name is filled in. -/
def Segment.put (name : String) (value : List Char) : Segment → List Segment
  | .slot other => if other = name then value.map .char else [.slot other]
  | .wrapped other =>
      if other = name then .char '\x7b' :: (value.map .char ++ [.char '\x7d']) else [.wrapped other]
  | .char c => [.char c]

/-- A template after a name is filled in. -/
def put (name : String) (value : List Char) (segments : List Segment) : List Segment :=
  segments.flatMap (Segment.put name value)

/-- The text of a template behind a brace does not begin with one. -/
theorem Separate.head {segments : List Segment} (h : Separate true segments) :
    (source segments).head? ≠ some '\x7b' := by
  cases segments with
  | nil => simp
  | cons segment rest =>
      cases segment with
      | char c => simpa [Segment.source] using h.1 rfl
      | slot name => exact absurd h.1 (by simp)
      | wrapped name => exact absurd h.1 (by simp)

/-- Replacing the placeholder of a name in the text of a template fills the name in. -/
theorem replace_source {name : String} {value : List Char} (free : BraceFree name) {behind : Bool}
    {segments : List Segment} (h : Separate behind segments) :
    replace (placeholder name) value (source segments) = source (put name value segments) := by
  induction segments generalizing behind with
  | nil => rfl
  | cons segment rest ih =>
      have step : source (put name value (segment :: rest)) =
          source (segment.put name value) ++ source (put name value rest) := by
        rw [put, List.flatMap_cons, source_append]
        rfl
      rw [step, source_cons]
      cases segment with
      | char c =>
          have apart : c ≠ '\x7b' ∨ (source rest).head? ≠ some '\x7b' := by
            by_cases brace : c = '\x7b'
            · have later := h.2
              rw [brace] at later
              exact .inr later.head
            · exact .inl brace
          rw [← ih h.2]
          exact replace_char apart
      | slot other =>
          rw [← ih h.2.2, Segment.source, Segment.put]
          by_cases same : other = name
          · rw [same, if_pos rfl, source_chars, replace_slot]
          · rw [if_neg same, replace_other free h.2.1 same]
            simp [Segment.source]
      | wrapped other =>
          have closing : ∀ t, replace (placeholder name) value ('\x7d' :: t) =
              '\x7d' :: replace (placeholder name) value t :=
            fun t => replace_char (.inl (by decide))
          rw [← ih h.2.2, Segment.source, Segment.put, List.cons_append, List.append_assoc,
            replace_brace free]
          by_cases same : other = name
          · rw [same, if_pos rfl, replace_slot, List.singleton_append, closing, source_cons,
              source_append, source_chars]
            simp [Segment.source]
          · rw [if_neg same, replace_other free h.2.1 same, List.singleton_append, closing]
            simp [Segment.source]

/-! ### Filling in all names -/

/-- The characters of a clean value keep the braces of a template apart. -/
theorem Separate.chars {value : List Char} {rest : List Segment} {behind : Bool}
    (single : occurrences doubledBrace value = 0)
    (head : behind = true → value.head? ≠ some '\x7b') (last : value.getLast? ≠ some '\x7b')
    (empty : value = [] → Separate behind rest) (h : Separate false rest) :
    Separate behind (value.map .char ++ rest) := by
  induction value generalizing behind with
  | nil => exact empty rfl
  | cons c value ih =>
      refine ⟨fun after brace => head after (by rw [brace]; rfl), ?_⟩
      have singles : occurrences doubledBrace value = 0 := by
        rw [occurrences] at single
        omega
      refine ih singles ?_ ?_ ?_
      · intro brace second
        cases value with
        | nil => simp at second
        | cons d value =>
            rw [beq_iff_eq] at brace
            have same : d = '\x7b' := by simpa using second
            simp [brace, same, occurrences, doubledBrace, List.isPrefixOf] at single
      · intro final
        cases value with
        | nil => simp at final
        | cons d value => exact last (by rw [List.getLast?_cons_cons, final])
      · intro none
        have other : c ≠ '\x7b' := by
          rw [none] at last
          simpa using last
        have ahead : (c == '\x7b') = false := by simpa using other
        rw [ahead]
        exact h

/-- Filling in a clean value leaves a template. -/
theorem Separate.put {name : String} {value : List Char} {segments : List Segment} {behind : Bool}
    (clean : Clean value) (h : Separate behind segments) :
    Separate behind (Template.put name value segments) := by
  induction segments generalizing behind with
  | nil => trivial
  | cons segment rest ih =>
      rw [Template.put, List.flatMap_cons]
      cases segment with
      | char c => exact ⟨h.1, ih h.2⟩
      | slot other =>
          obtain ⟨rfl, free, later⟩ := h
          rw [Segment.put]
          split
          · exact .chars clean.single (fun _ => clean.head) clean.last (fun _ => ih later) (ih later)
          · exact ⟨rfl, free, ih later⟩
      | wrapped other =>
          obtain ⟨rfl, free, later⟩ := h
          rw [Segment.put]
          split
          · have closing : ∀ behind, Separate behind
                (.char '\x7d' :: Template.put name value rest) :=
              fun behind => ⟨fun _ => by decide, ih later⟩
            rw [List.cons_append, List.append_assoc]
            exact ⟨by simp, .chars clean.single (fun _ => clean.head) clean.last
              (fun _ => closing _) (closing _)⟩
          · exact ⟨rfl, free, ih later⟩

/-- A part with all its names filled in at once. A name without a value keeps its placeholder. -/
def Segment.text (values : List (String × List Char)) : Segment → List Char
  | .char c => [c]
  | .slot name => (values.lookup name).getD (placeholder name)
  | .wrapped name => '\x7b' :: ((values.lookup name).getD (placeholder name) ++ ['\x7d'])

theorem text_chars (values : List (String × List Char)) (s : List Char) :
    (s.map .char).flatMap (Segment.text values) = s := by
  induction s with
  | nil => rfl
  | cons c rest ih => simp [Segment.text, ih]

theorem text_put (name : String) (value : List Char) (values : List (String × List Char))
    (segment : Segment) :
    (segment.put name value).flatMap (Segment.text values) =
      segment.text ((name, value) :: values) := by
  cases segment with
  | char c => simp [Segment.put, Segment.text]
  | slot other =>
      by_cases same : other = name
      · simp [Segment.put, Segment.text, same, text_chars]
      · have ahead : (other == name) = false := by simpa using same
        simp [Segment.put, Segment.text, same, List.lookup_cons, ahead]
  | wrapped other =>
      by_cases same : other = name
      · simp [Segment.put, Segment.text, same, text_chars]
      · have ahead : (other == name) = false := by simpa using same
        simp [Segment.put, Segment.text, same, List.lookup_cons, ahead]

/-- Filling in names one after the other fills them in at once, and no value is looked at again. -/
theorem fill_source {values : List (String × List Char)} {segments : List Segment}
    (h : Separate false segments)
    (clean : ∀ pair ∈ values, BraceFree pair.1 ∧ Clean pair.2) :
    fill (source segments) values = segments.flatMap (Segment.text values) := by
  induction values generalizing segments with
  | nil =>
      have same : Segment.source = Segment.text [] := by
        funext segment
        cases segment <;> rfl
      rw [← same]
      rfl
  | cons pair values ih =>
      obtain ⟨name, value⟩ := pair
      obtain ⟨free, first⟩ := clean (name, value) List.mem_cons_self
      have step : fill (source segments) ((name, value) :: values) =
          fill (replace (placeholder name) value (source segments)) values := rfl
      rw [step, replace_source free h,
        ih (h.put first) fun pair member => clean pair (List.mem_cons_of_mem _ member), put,
        List.flatMap_assoc, funext (text_put name value values)]

end Vitae.Template
