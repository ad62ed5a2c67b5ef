/-
Module: Vitae.Proofs.Tex.Inert
Layer: Proofs
Purpose: Texts that leave the structure of a document as it is: calm texts whose environments are nested
  and that hold no landmark. Escaped text is inert, and so is what is put together from inert texts in the
  ways in which the library puts source together.
Imports: Vitae.Proofs.Tex.Calm, Vitae.Tex.Source
Main exports: Inert, isInert, Inert.append, Inert.groups, Inert.frame, inert_escape, inert_escapeUrl
-/
import Vitae.Proofs.Tex.Calm
import Vitae.Tex.Source

namespace Vitae.Tex

/-- A text that leaves the structure of a document as it is. -/
structure Inert (e : Ending) (s : List Char) : Prop extends Calm e s where
  nested : Nested (marks s)
  unmarked : Unmarked s

/-- Decide whether a text leaves the structure of a document as it is. -/
def isInert (e : Ending) (s : List Char) : Bool :=
  isCalm e s && decide (Nested (marks s)) && decide (Unmarked s)

/-- The groups of some texts, one after the other. -/
def groups (arguments : List (List Char)) : List Char :=
  arguments.flatMap fun a => '\x7b' :: (a ++ ['\x7d'])

@[simp] theorem groups_nil : groups [] = [] := rfl

theorem groups_cons (a : List Char) (rest : List (List Char)) :
    groups (a :: rest) = ['\x7b'] ++ (a ++ (['\x7d'] ++ groups rest)) := by
  simp [groups]

/-- The groups of source are the groups of its text. -/
theorem render_groups (arguments : List Source) :
    Source.render (arguments.flatMap group) = groups (arguments.map Source.render) := by
  induction arguments with
  | nil => rfl
  | cons a rest ih =>
      rw [List.flatMap_cons, Source.render_append, render_group, ih, List.map_cons, groups_cons]
      simp

/-! ### Groups -/

/-- A brace alone is no part of a landmark or a mark. -/
theorem brace_alone {c : Char} (h : '\\' ≠ c) :
    Settled [c] ∧ Unmarked [c] ∧ Sought [c] ∧ marks [c] = [] := by
  have absent : '\\' ∉ [c] := by simpa using h
  obtain ⟨settled, unmarked⟩ := settled_of_not_mem absent
  exact ⟨settled, unmarked, sought_of_not_mem absent⟩

/-- Groups behind a calm text, one after the other. -/
theorem Calm.groups {s : List Char} {arguments : List (List Char)} (hs : Calm .loose s)
    (nonempty : s ≠ []) (last : s.getLast? ≠ some '\x7b') (called : arguments ≠ [])
    (calm : ∀ a ∈ arguments, Calm .loose a) : Calm .tight (s ++ Tex.groups arguments) := by
  induction arguments generalizing s with
  | nil => exact absurd rfl called
  | cons a rest ih =>
      have first := hs.group nonempty last (calm a List.mem_cons_self)
      have shape : s ++ Tex.groups (a :: rest) =
          (s ++ '\x7b' :: (a ++ ['\x7d'])) ++ Tex.groups rest := by
        simp [groups_cons]
      rw [shape]
      cases rest with
      | nil => simpa using first
      | cons b rest =>
          have closed : (s ++ '\x7b' :: (a ++ ['\x7d'])).getLast? = some '\x7d' := by
            rw [← List.cons_append, ← List.append_assoc, List.getLast?_concat]
          exact ih first.loosen (by simp) (by simp [closed]) (by simp)
            fun c member => calm c (List.mem_cons_of_mem a member)

/-- Groups of inert texts hold nested marks and no landmark. -/
theorem groups_inert {arguments : List (List Char)} (inert : ∀ a ∈ arguments, Inert .loose a) :
    Sought (groups arguments) ∧ Settled (groups arguments) ∧ Nested (marks (groups arguments)) ∧
      Unmarked (groups arguments) := by
  induction arguments with
  | nil => exact ⟨rfl, fun p _ => .nil p, rfl, fun _ _ => rfl⟩
  | cons a rest ih =>
      obtain ⟨sought, settled, nested, unmarked⟩ :=
        ih fun b member => inert b (List.mem_cons_of_mem a member)
      have here := inert a List.mem_cons_self
      obtain ⟨settled₁, unmarked₁, sought₁, marks₁⟩ := brace_alone (c := '\x7b') (by decide)
      obtain ⟨settled₂, unmarked₂, sought₂, marks₂⟩ := brace_alone (c := '\x7d') (by decide)
      rw [groups_cons]
      refine ⟨sought₁.append (here.sought.append (sought₂.append sought)),
        settled₁.append (here.settled.append (settled₂.append settled)), ?_, ?_⟩
      · rw [marks_append sought₁, marks_append here.sought, marks_append sought₂, marks₁, marks₂]
        exact here.nested.append nested
      · exact unmarked₁.append settled₁
          (here.unmarked.append here.settled (unmarked₂.append settled₂ unmarked))

namespace Inert

variable {e : Ending} {a b s : List Char}

theorem of_check (h : isInert e s = true) : Inert e s := by
  simp only [isInert, Bool.and_eq_true, decide_eq_true_eq] at h
  obtain ⟨⟨calm, nested⟩, unmarked⟩ := h
  exact ⟨.of_check calm, nested, unmarked⟩

theorem nil : Inert .tight [] :=
  ⟨.nil, .nil, fun _ _ => rfl⟩

theorem loosen (h : Inert e s) : Inert .loose s :=
  { h with toCalm := h.toCalm.loosen }

theorem append (ha : Inert .tight a) (hb : Inert e b) : Inert e (a ++ b) where
  toCalm := ha.toCalm.append hb.toCalm
  nested := by
    rw [marks_append ha.sought]
    exact ha.nested.append hb.nested
  unmarked := ha.unmarked.append ha.settled hb.unmarked

theorem append_detached (ha : Inert .loose a) (hb : Inert e b) (detached : Detached b)
    (nonempty : b ≠ []) : Inert e (a ++ b) where
  toCalm := ha.toCalm.append_detached hb.toCalm detached nonempty
  nested := by
    rw [marks_append ha.sought]
    exact ha.nested.append hb.nested
  unmarked := ha.unmarked.append ha.settled hb.unmarked

/-- Groups of inert texts behind an inert text. -/
theorem groups {arguments : List (List Char)} (hs : Inert .loose s) (nonempty : s ≠ [])
    (last : s.getLast? ≠ some '\x7b') (called : arguments ≠ [])
    (inert : ∀ a ∈ arguments, Inert .loose a) : Inert .tight (s ++ Tex.groups arguments) where
  toCalm := hs.toCalm.groups nonempty last called fun a member => (inert a member).toCalm
  nested := by
    rw [marks_append hs.sought]
    exact hs.nested.append (groups_inert inert).2.2.1
  unmarked := hs.unmarked.append hs.settled (groups_inert inert).2.2.2

/-- An environment around an inert text, with groups of inert texts behind its beginning. -/
theorem frame {name opening closing : List Char} {arguments : List (List Char)}
    (opens : Calm .tight opening) (begins : marks opening = [.begins name])
    (clear : Unmarked opening) (nonempty : opening ≠ []) (last : opening.getLast? ≠ some '\x7b')
    (inert : ∀ a ∈ arguments, Inert .loose a) (body : Inert .tight s)
    (closes : Calm .tight closing) (ends : marks closing = [.ends name])
    (clear' : Unmarked closing) :
    Inert .tight (opening ++ (Tex.groups arguments ++ (s ++ closing))) where
  toCalm := by
    have front : Calm .tight (opening ++ Tex.groups arguments) := by
      cases arguments with
      | nil => simpa using opens
      | cons a rest =>
          exact opens.loosen.groups nonempty last (by simp) fun a member => (inert a member).toCalm
    have whole := front.append (body.toCalm.append closes)
    rwa [List.append_assoc] at whole
  nested := by
    obtain ⟨sought, -, nested, -⟩ := groups_inert inert
    rw [marks_append opens.sought, marks_append sought, marks_append body.sought, begins, ends]
    have inside := (nested.append body.nested).frame name
    simpa using inside
  unmarked := by
    obtain ⟨-, settled, -, unmarked⟩ := groups_inert inert
    exact clear.append opens.settled
      (unmarked.append settled (body.unmarked.append body.settled clear'))

end Inert

/-- Characters that mean nothing but themselves are inert. -/
theorem inert_ink {s : List Char} (h : Inked s) : Inert .tight s where
  toCalm := calm_ink h
  nested := by
    rw [(sought_of_not_mem (not_mem_of_ink h rfl)).2]
    exact .nil
  unmarked := (settled_of_not_mem (not_mem_of_ink h rfl)).2

/-- Escaped text is inert, whatever the text is. -/
theorem inert_escape (s : List Char) : Inert .tight (escape s) where
  toCalm := calm_escape s
  nested := by
    rw [(sought_escape s).2]
    exact .nil
  unmarked := (settled_escape s).2

/-- A link target is inert, whatever the address is. -/
theorem inert_escapeUrl (s : List Char) : Inert .tight (escapeUrl s) where
  toCalm := calm_escapeUrl s
  nested := by
    rw [(sought_escapeUrl s).2]
    exact .nil
  unmarked := (settled_escapeUrl s).2

end Vitae.Tex
