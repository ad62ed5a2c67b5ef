/-
Module: Vitae.Proofs.Tex.Skeleton
Layer: Proofs
Purpose: What is left of a text when the targets of its links, its ordinary characters and what the escaper
  writes are taken away. Source keeps its skeleton when other text and other targets are put in the place
  of those that it has.
Imports: Vitae.Proofs.Tex.Flow
Main exports: withoutTargets, bare, skeleton, Reads, Source.mask, Flow.mask, Flow.alike
-/
import Vitae.Proofs.Tex.Flow

namespace Vitae.Tex

/-- What a reader that leaves out link targets looks at: the page, or a target with some braces open. No
brace is open yet where the target is still to begin. -/
inductive View where
  | page
  | target (braces : Nat)
deriving Repr, DecidableEq

/-- Tokens without what stands in the first argument of a link. -/
def withoutTargets : View → List Token → List Token
  | _, [] => []
  | .page, t :: rest => t :: withoutTargets (if t = hrefWord then .target 0 else .page) rest
  | .target 0, .opening :: rest => .opening :: withoutTargets (.target 1) rest
  | .target 0, t :: rest => t :: withoutTargets .page rest
  | .target (braces + 1), .opening :: rest => withoutTargets (.target (braces + 2)) rest
  | .target 1, .closing :: rest => .closing :: withoutTargets .page rest
  | .target (braces + 2), .closing :: rest => withoutTargets (.target (braces + 1)) rest
  | .target (braces + 1), _ :: rest => withoutTargets (.target (braces + 1)) rest

/-- A control word of the escaper. -/
def Token.isSpelled : Token → Bool
  | .word name => spelled.any fun pair => pair.2.toList == name
  | _ => false

/-- A token that says nothing about the structure of a text: an ordinary character, or one that the escaper
writes behind a backslash. -/
def Token.isOrdinary : Token → Bool
  | .char c => !isReserved c
  | .symbol c => slashed.contains c
  | _ => false

/-- Tokens without ordinary characters and without what the escaper writes. The first `skip` tokens belong
to a control word of the escaper already left out, whose empty group they are. -/
def bareAfter (skip : Nat) : List Token → List Token
  | [] => []
  | t :: rest =>
      match skip with
      | skip + 1 => bareAfter skip rest
      | 0 =>
          if t.isSpelled && [.opening, .closing].isPrefixOf rest then bareAfter 2 rest
          else if t.isOrdinary then bareAfter 0 rest
          else t :: bareAfter 0 rest

/-- Tokens without ordinary characters and without what the escaper writes. -/
def bare (ts : List Token) : List Token :=
  bareAfter 0 ts

/-- The skeleton of a text. -/
def skeleton (s : List Char) : List Token :=
  bare (withoutTargets .page (tokens s))

/-! ### Reading on

Both readers read on where they left off, unless something is broken off: a link without its target, or a
control word of the escaper without its group. -/

/-- Tokens of which the skeleton is `out`, whatever follows them. -/
def Reads (ts out : List Token) : Prop :=
  ∃ shown, (∀ rest, withoutTargets .page (ts ++ rest) = shown ++ withoutTargets .page rest) ∧
    ∀ rest, bare (shown ++ rest) = out ++ bare rest

namespace Reads

theorem nil : Reads [] [] :=
  ⟨[], fun _ => rfl, fun _ => rfl⟩

theorem append {a b out out' : List Token} (ha : Reads a out) (hb : Reads b out') :
    Reads (a ++ b) (out ++ out') := by
  obtain ⟨shown, skipped, left⟩ := ha
  obtain ⟨shown', skipped', left'⟩ := hb
  refine ⟨shown ++ shown', ?_, ?_⟩
  · intro rest
    rw [List.append_assoc, skipped, skipped', List.append_assoc]
  · intro rest
    rw [List.append_assoc, left, left', List.append_assoc]

/-- The skeleton of a text, from what its tokens read as. -/
theorem bare_eq {ts out : List Token} (h : Reads ts out) :
    bare (withoutTargets .page ts) = out := by
  obtain ⟨shown, skipped, left⟩ := h
  have all := skipped []
  rw [List.append_nil] at all
  have bared := left []
  rw [all, withoutTargets, bared, bare, bareAfter, List.append_nil]

end Reads

/-- A token after which both readers go on as before. -/
def Token.isSteady (t : Token) : Bool :=
  t != hrefWord && !t.isSpelled

theorem reads_token {t : Token} (steady : t.isSteady = true) :
    Reads [t] (if t.isOrdinary then [] else [t]) := by
  simp only [Token.isSteady, Bool.and_eq_true, bne_iff_ne, Bool.not_eq_true'] at steady
  refine ⟨[t], ?_, ?_⟩
  · intro rest
    rw [List.singleton_append, withoutTargets, if_neg steady.1]
    rfl
  · intro rest
    rw [List.singleton_append, bare, bareAfter, steady.2]
    split
    · simp_all
    · split <;> rfl

theorem steady_of_not_control {t : Token} (h : t.isControl = false) : t.isSteady = true := by
  cases t <;> simp_all [Token.isControl, Token.isSteady, Token.isSpelled, hrefWord]

/-- The tokens that tell the structure of a text. -/
def Token.isStructural (t : Token) : Bool :=
  !t.isOrdinary

theorem reads_steady {ts : List Token} (steady : ∀ t ∈ ts, t.isSteady = true) :
    Reads ts (ts.filter Token.isStructural) := by
  induction ts with
  | nil => exact .nil
  | cons t rest ih =>
      have first := reads_token (steady t List.mem_cons_self)
      have others := ih fun u member => steady u (List.mem_cons_of_mem t member)
      have both := first.append others
      cases ordinary : t.isOrdinary <;> simpa [Token.isStructural, ordinary] using both

/-- A control word of the escaper and its group leave nothing. -/
theorem reads_spelled {c : Char} {name : String} (h : (c, name) ∈ spelled) :
    Reads [.word name.toList, .opening, .closing] [] := by
  have steady : Token.word name.toList ≠ hrefWord := by
    simp only [spelled, List.mem_cons, List.not_mem_nil, or_false, Prod.mk.injEq] at h
    rcases h with ⟨-, rfl⟩ | ⟨-, rfl⟩ | ⟨-, rfl⟩ | ⟨-, rfl⟩ | ⟨-, rfl⟩ <;> decide
  have isSpelled : (Token.word name.toList).isSpelled = true :=
    List.any_eq_true.2 ⟨(c, name), h, by simp⟩
  refine ⟨[.word name.toList, .opening, .closing], ?_, ?_⟩
  · intro rest
    simp only [List.cons_append, List.nil_append, withoutTargets, if_neg steady]
    rfl
  · intro rest
    simp only [List.cons_append, List.nil_append, bare, bareAfter, isSpelled]
    rfl

/-- Escaped text leaves nothing. -/
theorem reads_escape (s : List Char) : Reads (tokens (escape s)) [] := by
  rw [tokens_escape]
  induction s with
  | nil => exact .nil
  | cons c rest ih =>
      have first : Reads (tokens (escapeChar c)) [] := by
        rcases escapeChar_cases c with ⟨name, member, e⟩ | ⟨member, e⟩ | ⟨plain, e⟩ <;>
          rw [e, tokens]
        · rw [lex_closedWord member]
          exact reads_spelled member
        · rw [lex_slashed member]
          have symbol := reads_token (t := .symbol c) rfl
          simpa [Token.isOrdinary, Mode.pending, member] using symbol
        · rw [lex_not_reserved plain]
          have char := reads_token (t := .char c) rfl
          simpa [Token.isOrdinary, Mode.pending, plain] using char
      rw [List.flatMap_cons]
      exact first.append ih

/-- The braces of a group stay, whatever is left of what is in it. -/
theorem reads_group {ts out : List Token} (h : Reads ts out) :
    Reads (.opening :: (ts ++ [.closing])) (.opening :: (out ++ [.closing])) := by
  have opening := reads_token (t := .opening) rfl
  have closing := reads_token (t := .closing) rfl
  exact opening.append (h.append closing)

/-- Two sequences of tokens with one skeleton, whatever follows them. -/
def Alike (ts us : List Token) : Prop :=
  ∃ out, Reads ts out ∧ Reads us out

namespace Alike

theorem append {a b a' b' : List Token} (ha : Alike a a') (hb : Alike b b') :
    Alike (a ++ b) (a' ++ b') := by
  obtain ⟨out, left, right⟩ := ha
  obtain ⟨out', left', right'⟩ := hb
  exact ⟨out ++ out', left.append left', right.append right'⟩

/-- What has the skeleton of a third has one skeleton. -/
theorem through {a b c : List Token} (ha : Alike a c) (hb : Alike b c) : Alike a b := by
  obtain ⟨out, left, right⟩ := ha
  obtain ⟨out', left', right'⟩ := hb
  have same : out = out' := right.bare_eq.symm.trans right'.bare_eq
  exact ⟨out, left, same ▸ left'⟩

theorem steady {ts : List Token} (h : ∀ t ∈ ts, t.isSteady = true) : Alike ts ts :=
  ⟨_, reads_steady h, reads_steady h⟩

theorem group {a a' : List Token} (h : Alike a a') :
    Alike (.opening :: (a ++ [.closing])) (.opening :: (a' ++ [.closing])) := by
  obtain ⟨out, left, right⟩ := h
  exact ⟨_, reads_group left, reads_group right⟩

theorem groups {α : Type} {arguments : List α} {f g : α → List Token}
    (h : ∀ a ∈ arguments, Alike (f a) (g a)) :
    Alike (groupTokens (arguments.map f)) (groupTokens (arguments.map g)) := by
  induction arguments with
  | nil => exact ⟨[], .nil, .nil⟩
  | cons a rest ih =>
      have first := (h a List.mem_cons_self).group
      exact first.append (ih fun b member => h b (List.mem_cons_of_mem a member))

end Alike

/-- Nothing is left of the target of a link but its braces. -/
theorem reads_target {target : List Token} (plain : ∀ t ∈ target, t ≠ .opening ∧ t ≠ .closing) :
    Reads (hrefWord :: .opening :: (target ++ [.closing])) [hrefWord, .opening, .closing] := by
  have inside : ∀ rest, withoutTargets (.target 1) (target ++ .closing :: rest) =
      .closing :: withoutTargets .page rest := by
    intro rest
    induction target with
    | nil => rfl
    | cons t target ih =>
        have first := plain t List.mem_cons_self
        have later := ih fun u member => plain u (List.mem_cons_of_mem t member)
        rw [List.cons_append]
        cases t with
        | opening => exact absurd rfl first.1
        | closing => exact absurd rfl first.2
        | word name => exact later
        | symbol c => exact later
        | comment body => exact later
        | char c => exact later
  refine ⟨[hrefWord, .opening, .closing], ?_, ?_⟩
  · intro rest
    rw [List.cons_append, withoutTargets, if_pos rfl, List.cons_append, withoutTargets,
      List.append_assoc, List.singleton_append, inside]
    rfl
  · intro rest
    have unspelled : hrefWord.isSpelled = false := by decide
    have structural : hrefWord.isOrdinary = false := rfl
    simp only [List.cons_append, List.nil_append, bare, bareAfter, unspelled, structural]
    rfl

/-! ### Other text in the place of the user's -/

/-- A piece with a mark in the place of its text or its address. Nothing stays nothing. -/
def Piece.mask : Piece → Piece
  | .code s => .code s
  | .text raw => .text (if raw.isEmpty then "" else "x")
  | .url raw => .url (if raw.isEmpty then "" else "x")

/-- Source with marks in the place of its text and its addresses. -/
def Source.mask (s : Source) : Source :=
  s.map Piece.mask

theorem isEmpty_mask (p : Piece) : p.mask.isEmpty = p.isEmpty := by
  cases p with
  | code s => rfl
  | text raw => cases empty : raw.isEmpty <;> simp [Piece.mask, Piece.isEmpty, empty]
  | url raw => cases empty : raw.isEmpty <;> simp [Piece.mask, Piece.isEmpty, empty]

namespace Source

@[simp] theorem mask_nil : mask [] = [] := rfl

@[simp] theorem mask_append (a b : Source) : mask (a ++ b) = mask a ++ mask b :=
  List.map_append

@[simp] theorem mask_code (s : String) : mask (code s) = code s := rfl

@[simp] theorem mask_group (body : Source) : mask (group body) = group (mask body) := by
  simp [group]

@[simp] theorem mask_groups (arguments : List Source) :
    mask (arguments.flatMap group) = (arguments.map mask).flatMap group := by
  induction arguments with
  | nil => rfl
  | cons a rest ih => simp [ih]

@[simp] theorem mask_command (name : String) (arguments : List Source) :
    mask (command name arguments) = command name (arguments.map mask) := by
  simp [command]

@[simp] theorem mask_href (target shown : Source) :
    mask (href target shown) = href (mask target) (mask shown) := by
  simp [href]

@[simp] theorem isBlank_mask (s : Source) : (mask s).isBlank = s.isBlank := by
  simp [isBlank, mask, List.all_map, Function.comp_def, isEmpty_mask]

@[simp] theorem mask_join (separator : Source) (parts : List Source) :
    mask (join separator parts) = join (mask separator) (parts.map mask) := by
  induction parts with
  | nil => rfl
  | cons p rest ih =>
      cases rest with
      | nil => simp
      | cons q rest =>
          rw [join_cons_cons, mask_append, mask_append, ih]
          exact (join_cons_cons _ _ _ _).symm

theorem filter_mask (parts : List Source) :
    (parts.map mask).filter (fun part => !part.isBlank) =
      (parts.filter fun part => !part.isBlank).map mask := by
  simp [List.filter_map, Function.comp_def]

@[simp] theorem mask_joinNonEmpty (separator : Source) (parts : List Source) :
    mask (joinNonEmpty separator parts) = joinNonEmpty (mask separator) (parts.map mask) := by
  rw [joinNonEmpty, joinNonEmpty, mask_join, filter_mask]

end Source

theorem isTarget_mask {target : Source} (h : ∀ p ∈ target, p.IsTarget) :
    ∀ p ∈ target.mask, p.IsTarget := by
  intro p member
  obtain ⟨q, among, rfl⟩ := List.mem_map.1 member
  have isTarget := h q among
  cases q with
  | code s => exact isTarget
  | text raw => exact isTarget
  | url raw => trivial

namespace Flow

variable {controls : List Token} {e : Ending} {s : Source}

/-- Other text keeps source as the library writes it. -/
theorem mask (h : Flow controls e s) : Flow controls e s.mask := by
  induction h with
  | nil => exact .nil
  | text raw => exact .text _
  | code isCode => exact .code isCode
  | @call t arguments isCode nonempty last called _ ih =>
      have masked : ∀ a ∈ arguments.map Source.mask, Flow controls .loose a := by
        intro a member
        obtain ⟨b, among, rfl⟩ := List.mem_map.1 member
        exact ih b among
      simpa using Flow.call isCode nonempty last (by simpa using called) masked
  | link isTarget _ ih =>
      rw [Source.mask_href]
      exact .link (isTarget_mask isTarget) ih
  | @frame name opening closing arguments body opens nonempty last closes _ _ ihs ih =>
      have masked : ∀ a ∈ arguments.map Source.mask, Flow controls .loose a := by
        intro a member
        obtain ⟨b, among, rfl⟩ := List.mem_map.1 member
        exact ihs b among
      simpa using Flow.frame opens nonempty last closes masked ih
  | append _ _ ha hb =>
      rw [Source.mask_append]
      exact .append ha hb
  | follow _ _ detached nonempty ha hb =>
      rw [Source.mask_append, Source.mask_append, Source.mask_code] at *
      exact .follow ha hb detached nonempty
  | loosen _ ih => exact .loosen ih
  | cut _ ih =>
      simp only [Source.mask_append, Source.mask_code] at *
      exact .cut ih

/-- Source has the skeleton that it has with other text and other targets, unless its code breaks off a
link or a control word of the escaper. -/
theorem alike (h : Flow controls e s) (steady : ∀ t ∈ controls, t.isSteady = true) :
    Alike (tokens s.render) (tokens s.mask.render) := by
  have steadyCode : ∀ {e ms l}, Code controls e ms l → Alike (tokens l) (tokens l) := by
    intro e ms l isCode
    refine .steady ?_
    intro t member
    cases control : t.isControl with
    | true => exact steady t (isCode.listed t member control)
    | false => exact steady_of_not_control control
  induction h with
  | nil => exact ⟨[], .nil, .nil⟩
  | text raw =>
      refine ⟨[], ?_, ?_⟩
      · simpa [Piece.render] using reads_escape raw.toList
      · simpa [Source.mask, Piece.mask, Piece.render] using
          reads_escape (if raw.isEmpty then "" else "x" : String).toList
  | code isCode =>
      rw [Source.mask_code, render_code]
      exact steadyCode isCode
  | @call t arguments isCode nonempty last called flows ih =>
      have masked : ∀ a ∈ arguments.map Source.mask, Flow controls .loose a := by
        intro a member
        obtain ⟨b, among, rfl⟩ := List.mem_map.1 member
        exact (flows b among).mask
      have left := tokens_call isCode.ends called flows []
      have right := tokens_call isCode.ends (by simpa using called) masked []
      rw [List.append_nil, tokens_nil, List.append_nil] at left right
      rw [List.map_map] at right
      rw [Source.mask_append, Source.mask_code, Source.mask_groups, left, right]
      exact (steadyCode isCode).append (.groups ih)
  | @link target shown isTarget flows ih =>
      have plain : ∀ {target : Source}, (∀ p ∈ target, p.IsTarget) →
          ∀ t ∈ tokens target.render, t ≠ .opening ∧ t ≠ .closing := by
        intro target isTarget t member
        rcases (tokens_targets isTarget).2 t member with ⟨c, rfl⟩ | ⟨c, -, rfl⟩ <;> simp
      have isTarget' := isTarget_mask isTarget
      have front : Alike (hrefWord :: .opening :: (tokens target.render ++ [.closing]))
          (hrefWord :: .opening :: (tokens target.mask.render ++ [.closing])) :=
        ⟨_, reads_target (plain isTarget), reads_target (plain isTarget')⟩
      have whole := front.append ih.group
      rw [Source.mask_href, tokens_link isTarget flows, tokens_link isTarget' flows.mask]
      simpa [groupTokens] using whole
  | @frame name opening closing arguments body opens nonempty last closes flows inside ihs ih =>
      have masked : ∀ a ∈ arguments.map Source.mask, Flow controls .loose a := by
        intro a member
        obtain ⟨b, among, rfl⟩ := List.mem_map.1 member
        exact (flows b among).mask
      have right := @tokens_frame _ _ closing _ _ opens.ends masked inside.mask
      rw [List.map_map] at right
      rw [Source.mask_append, Source.mask_append, Source.mask_append, Source.mask_code,
        Source.mask_code, Source.mask_groups, right, tokens_frame opens.ends flows inside]
      exact (steadyCode opens).append ((Alike.groups ihs).append (ih.append (steadyCode closes)))
  | append first second ha hb =>
      rw [Source.mask_append, first.tokens_append, first.mask.tokens_append]
      exact ha.append hb
  | follow first second detached nonempty ha hb =>
      rw [Source.mask_append, first.tokens_follow detached nonempty]
      rw [Source.mask_append, Source.mask_code] at hb ⊢
      rw [first.mask.tokens_follow detached nonempty]
      exact ha.append hb
  | loosen _ ih => exact ih
  | cut _ ih =>
      simp only [Source.mask_append, Source.mask_code] at ih ⊢
      rw [render_cut, render_cut]
      exact ih

end Flow

end Vitae.Tex
