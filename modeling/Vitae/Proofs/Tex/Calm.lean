/-
Module: Vitae.Proofs.Tex.Calm
Layer: Proofs
Purpose: Texts that can stand beside each other: nothing is broken off at their end, their braces are
  balanced, and neither a landmark nor the name of an environment nor a doubled brace goes on in the text
  behind them. Escaped text is calm, and so is what is put together from calm texts.
Imports: Vitae.Proofs.Tex.Brace, Vitae.Proofs.Tex.Environment, Vitae.Proofs.Tex.Occurrence
Main exports: Calm, isCalm, Calm.append, Calm.group, calm_escape
-/
import Vitae.Proofs.Tex.Brace
import Vitae.Proofs.Tex.Environment
import Vitae.Proofs.Tex.Occurrence

namespace Vitae.Tex

/-- The beginning of a placeholder. -/
def doubledBrace : List Char :=
  ['\x7b', '\x7b']

/-- Two opening braces meet only where a text ends in one and the next begins with one. -/
theorem doubled_append {a b : List Char}
    (h : a.getLast? ≠ some '\x7b' ∨ b.head? ≠ some '\x7b') :
    occurrences doubledBrace (a ++ b) = occurrences doubledBrace a + occurrences doubledBrace b := by
  induction a with
  | nil => simp [occurrences]
  | cons c rest ih =>
      cases rest with
      | nil =>
          -- the one place where the two texts meet
          have here : doubledBrace.isPrefixOf (c :: b) = false := by
            cases b with
            | nil => simp [doubledBrace, List.isPrefixOf]
            | cons d b =>
                rcases h with h | h
                · have other : c ≠ '\x7b' := by simpa using h
                  simp [doubledBrace, List.isPrefixOf, other.symm]
                · have other : d ≠ '\x7b' := by simpa using h
                  simp [doubledBrace, List.isPrefixOf, other.symm]
          have alone : doubledBrace.isPrefixOf [c] = false := by
            simp [doubledBrace, List.isPrefixOf]
          simp [occurrences, here, alone]
      | cons d rest =>
          have last : (d :: rest).getLast? ≠ some '\x7b' ∨ b.head? ≠ some '\x7b' := by
            simpa [List.getLast?_cons_cons] using h
          have same : doubledBrace.isPrefixOf (c :: d :: (rest ++ b)) =
              doubledBrace.isPrefixOf (c :: d :: rest) := by
            simp [doubledBrace, List.isPrefixOf]
          have step := ih last
          rw [List.cons_append] at step
          rw [List.cons_append, List.cons_append, occurrences, same, step, ← Nat.add_assoc]
          rfl

/-- A text that can stand beside others. -/
structure Calm (e : Ending) (s : List Char) : Prop where
  ends : Ends e s
  balanced : Balanced (tokens s)
  settled : Settled s
  sought : Sought s
  single : occurrences doubledBrace s = 0
  head : s.head? ≠ some '\x7b'

/-- Decide whether a text can stand beside others. -/
def isCalm (e : Ending) (s : List Char) : Bool :=
  decide (Ends e s) && decide (Balanced (tokens s)) && landmarks.all (isApart · s) &&
    decide (Sought s) && occurrences doubledBrace s == 0 && s.head? != some '\x7b'

namespace Calm

theorem of_check {e : Ending} {s : List Char} (h : isCalm e s = true) : Calm e s := by
  simp only [isCalm, Bool.and_eq_true, decide_eq_true_eq, beq_iff_eq, bne_iff_ne] at h
  obtain ⟨⟨⟨⟨⟨ends, balanced⟩, settled⟩, sought⟩, single⟩, head⟩ := h
  exact ⟨ends, balanced, .of_check settled, sought, single, head⟩

theorem nil : Calm .tight [] :=
  ⟨rfl, rfl, fun p _ => .nil p, rfl, rfl, by simp⟩

theorem loosen {e : Ending} {s : List Char} (h : Calm e s) : Calm .loose s :=
  { h with ends := h.ends.loosen }

theorem head_append {a b : List Char} (ha : a.head? ≠ some '\x7b') (hb : b.head? ≠ some '\x7b') :
    (a ++ b).head? ≠ some '\x7b' := by
  cases a with
  | nil => exact hb
  | cons c rest => simpa using ha

theorem append {e : Ending} {a b : List Char} (ha : Calm .tight a) (hb : Calm e b) :
    Calm e (a ++ b) where
  ends := ha.ends.append hb.ends
  balanced := by
    rw [tokens_append ha.ends]
    exact ha.balanced.append hb.balanced
  settled := ha.settled.append hb.settled
  sought := ha.sought.append hb.sought
  single := by rw [doubled_append (.inr hb.head), ha.single, hb.single]
  head := head_append ha.head hb.head

theorem append_detached {e : Ending} {a b : List Char} (ha : Calm .loose a) (hb : Calm e b)
    (detached : Detached b) (nonempty : b ≠ []) : Calm e (a ++ b) where
  ends := ha.ends.append_detached hb.ends detached nonempty
  balanced := by
    rw [tokens_append_detached ha.ends detached]
    exact ha.balanced.append hb.balanced
  settled := ha.settled.append hb.settled
  sought := ha.sought.append hb.sought
  single := by rw [doubled_append (.inr hb.head), ha.single, hb.single]
  head := head_append ha.head hb.head

/-- The tokens of a text that does not begin with a brace do not begin with one. -/
theorem head_tokens {e : Ending} {s : List Char} (h : Calm e s) :
    (tokens s).head? ≠ some .opening := by
  intro first
  obtain ⟨rest, read⟩ := List.head?_eq_some_iff.1 first
  have whole := source_tokens h.ends.loosen
  rw [read] at whole
  refine h.head ?_
  rw [← whole]
  rfl

/-- A brace alone keeps the reader in the middle of nothing. -/
theorem ends_group {a : List Char} (h : Ends .loose a) :
    Ends .tight ('\x7b' :: (a ++ ['\x7d'])) := by
  have opening : Ends .tight ['\x7b'] := rfl
  have closing : Ends .tight ['\x7d'] := rfl
  exact opening.append (h.append_detached closing (by simp [Detached]) (by simp))

/-- A group behind a calm text that does not end in a brace. -/
theorem group {s a : List Char} (hs : Calm .loose s) (nonempty : s ≠ [])
    (last : s.getLast? ≠ some '\x7b') (ha : Calm .loose a) :
    Calm .tight (s ++ '\x7b' :: (a ++ ['\x7d'])) where
  ends := hs.ends.append_detached (ends_group ha.ends) (by simp [Detached]) (by simp)
  balanced := by
    rw [tokens_append_detached hs.ends (by simp [Detached]), tokens_group ha.ends]
    exact hs.balanced.append (ha.balanced.group .nil)
  settled := by
    have brace : ∀ c, '\\' ≠ c → Settled [c] := fun c ne => (settled_of_not_mem (by simpa using ne)).1
    exact hs.settled.append ((brace '\x7b' (by decide)).append
      (ha.settled.append (brace '\x7d' (by decide))))
  sought := by
    have brace : ∀ c, '\\' ≠ c → Sought [c] := fun c ne => (sought_of_not_mem (by simpa using ne)).1
    exact hs.sought.append ((brace '\x7b' (by decide)).append
      (ha.sought.append (brace '\x7d' (by decide))))
  single := by
    have inner : occurrences doubledBrace (a ++ ['\x7d']) = 0 := by
      rw [doubled_append (.inr (by simp)), ha.single]
      rfl
    have head : (a ++ ['\x7d']).head? ≠ some '\x7b' := head_append ha.head (by simp)
    have outer := doubled_append (a := ['\x7b']) (.inr head)
    rw [inner] at outer
    rw [doubled_append (.inl last), hs.single, ← List.singleton_append, outer]
    rfl
  head := by
    cases s with
    | nil => exact absurd rfl nonempty
    | cons c rest => simpa using hs.head

end Calm

/-- A character that means nothing but itself. -/
def isInk (c : Char) : Bool :=
  c ∉ ['\\', '\x7b', '\x7d', '%']

/-- Characters that mean nothing but themselves. -/
def Inked (s : List Char) : Prop :=
  ∀ c ∈ s, isInk c = true

instance (s : List Char) : Decidable (Inked s) :=
  decidable_of_iff (s.all isInk = true) List.all_eq_true

theorem isInk_iff {c : Char} :
    isInk c = true ↔ c ≠ '\\' ∧ c ≠ '\x7b' ∧ c ≠ '\x7d' ∧ c ≠ '%' := by
  simp [isInk]

/-- Characters that mean nothing but themselves are read as themselves. -/
theorem lex_ink {s : List Char} (h : Inked s) :
    lex .text s = (s.map .char, .text) := by
  induction s with
  | nil => rfl
  | cons c rest ih =>
      obtain ⟨slash, opening, closing, percent⟩ := isInk_iff.1 (h c List.mem_cons_self)
      rw [← List.singleton_append, lex_append, lex_text_char slash opening closing percent,
        ih fun d member => h d (List.mem_cons_of_mem c member)]
      rfl

theorem tokens_ink {s : List Char} (h : Inked s) : tokens s = s.map .char := by
  rw [tokens, lex_ink h]
  simp [Mode.pending]

theorem balanced_char (s : List Char) : Balanced (s.map .char) := by
  induction s with
  | nil => exact .nil
  | cons c rest ih => exact ih

theorem not_mem_of_ink {s : List Char} {d : Char} (h : Inked s)
    (special : isInk d = false) : d ∉ s := by
  intro member
  simp [h d member] at special

/-- Characters that mean nothing but themselves are calm. -/
theorem calm_ink {s : List Char} (h : Inked s) : Calm .tight s where
  ends := by rw [Ends.tight_iff, lex_ink h]
  balanced := by
    rw [tokens_ink h]
    exact balanced_char s
  settled := (settled_of_not_mem (not_mem_of_ink h rfl)).1
  sought := (sought_of_not_mem (not_mem_of_ink h rfl)).1
  single := (apart_of_not_mem (not_mem_of_ink h rfl)).2
  head := by
    intro brace
    exact not_mem_of_ink h rfl (List.mem_of_mem_head? brace)

/-- Text whose characters are never doubled braces stays so when it is escaped. -/
theorem single_flatMap {f : Char → List Char}
    (h : ∀ c, occurrences doubledBrace (f c) = 0 ∧ (f c).head? ≠ some '\x7b') (s : List Char) :
    occurrences doubledBrace (s.flatMap f) = 0 ∧ (s.flatMap f).head? ≠ some '\x7b' := by
  induction s with
  | nil => exact ⟨rfl, by simp⟩
  | cons c rest ih =>
      rw [List.flatMap_cons, doubled_append (.inr ih.2), (h c).1, ih.1]
      exact ⟨rfl, Calm.head_append (h c).2 ih.2⟩

theorem single_escapeChar (c : Char) :
    occurrences doubledBrace (escapeChar c) = 0 ∧ (escapeChar c).head? ≠ some '\x7b' := by
  refine forall_escapeChar (P := fun s => occurrences doubledBrace s = 0 ∧ s.head? ≠ some '\x7b')
    (by decide) (fun c plain => ?_) c
  have brace := not_reserved_ne (d := '\x7b') plain rfl
  simp [occurrences, doubledBrace, List.isPrefixOf, brace]

theorem single_escapeUrlChar (c : Char) :
    occurrences doubledBrace (escapeUrlChar c) = 0 ∧ (escapeUrlChar c).head? ≠ some '\x7b' := by
  refine forall_escapeUrlChar (P := fun s => occurrences doubledBrace s = 0 ∧ s.head? ≠ some '\x7b')
    (by decide) (fun c _ brace _ _ => ?_) c
  simp [occurrences, doubledBrace, List.isPrefixOf, brace]

/-- Escaped text is calm, whatever the text is. -/
theorem calm_escape (s : List Char) : Calm .tight (escape s) where
  ends := escape_tight s
  balanced := balanced_escape s
  settled := (settled_escape s).1
  sought := (sought_escape s).1
  single := (single_flatMap single_escapeChar s).1
  head := (single_flatMap single_escapeChar s).2

/-- A link target is calm, whatever the address is. -/
theorem calm_escapeUrl (s : List Char) : Calm .tight (escapeUrl s) where
  ends := escapeUrl_tight s
  balanced := balanced_escapeUrl s
  settled := (settled_escapeUrl s).1
  sought := (sought_escapeUrl s).1
  single := (single_flatMap single_escapeUrlChar s).1
  head := (single_flatMap single_escapeUrlChar s).2

end Vitae.Tex
