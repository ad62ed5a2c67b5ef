/-
Module: Vitae.Proofs.Tex.Flow
Layer: Proofs
Purpose: The grammar of the source that the library writes. The library's own code is put around text of
  the user and around link targets in a few ways only, and whatever is put together so is inert and holds
  no control sequences but those of its code, for every text and every target.
Imports: Vitae.Proofs.Tex.Inert
Main exports: Code, Code.of_check, Flow, Flow.mono, Flow.inert, Flow.listed, Flow.join
-/
import Vitae.Proofs.Tex.Inert

namespace Vitae.Tex

@[simp] theorem render_code (s : String) : Source.render (code s) = s.toList := by
  simp [code, Piece.render]

@[simp] theorem join_nil (separator : Source) : join separator [] = [] := rfl

@[simp] theorem join_singleton (separator part : Source) : join separator [part] = part := by
  simp [join]

theorem join_cons_cons (separator p q : Source) (rest : List Source) :
    join separator (p :: q :: rest) = p ++ (separator ++ join separator (q :: rest)) := by
  rw [join, join, List.intercalate_cons_cons, List.append_assoc]

/-- A token that acts on the text around it: a control sequence or a comment. -/
def Token.isControl : Token → Bool
  | .word _ => true
  | .symbol _ => true
  | .comment _ => true
  | _ => false

/-- Code of the library with the given marks of environments: calm, without landmarks, and with no control
sequence that is not listed. -/
structure Code (controls : List Token) (e : Ending) (ms : List Mark) (s : List Char) : Prop
    extends Calm e s where
  listed : ∀ t ∈ tokens s, t.isControl = true → t ∈ controls
  marked : marks s = ms
  unmarked : Unmarked s

/-- Decide whether a text is such code. -/
def isCode (controls : List Token) (e : Ending) (ms : List Mark) (s : List Char) : Bool :=
  isCalm e s && (tokens s).all (fun t => !t.isControl || controls.contains t) &&
    decide (marks s = ms) && decide (Unmarked s)

/-- Decide whether a name makes a command with the given control word. -/
def isCommand (control : Token) (name : String) : Bool :=
  isCode [control] .loose [] ("\\" ++ name).toList && ("\\" ++ name).toList.getLast? != some '\x7b'

/-- A piece of a link target: an address, or code that means nothing but itself. -/
def Piece.IsTarget : Piece → Prop
  | .code s => Inked s.toList
  | .text _ => False
  | .url _ => True

/-- Source as the library writes it. A loose end is one in a control word. -/
inductive Flow (controls : List Token) : Ending → Source → Prop where
  | nil : Flow controls .tight []
  | text (raw : String) : Flow controls .tight [.text raw]
  | code {e : Ending} {s : String} (isCode : Code controls e [] s.toList) :
      Flow controls e (code s)
  | call {s : String} {arguments : List Source}
      (isCode : Code controls .loose [] s.toList) (nonempty : s.toList ≠ [])
      (last : s.toList.getLast? ≠ some '\x7b') (called : arguments ≠ [])
      (flows : ∀ a ∈ arguments, Flow controls .loose a) :
      Flow controls .tight (Tex.code s ++ arguments.flatMap group)
  | link {target shown : Source} (isTarget : ∀ p ∈ target, p.IsTarget)
      (flows : Flow controls .loose shown) :
      Flow controls .tight (href target shown)
  | frame {name : List Char} {opening closing : String} {arguments : List Source} {body : Source}
      (opens : Code controls .tight [.begins name] opening.toList)
      (nonempty : opening.toList ≠ []) (last : opening.toList.getLast? ≠ some '\x7b')
      (closes : Code controls .tight [.ends name] closing.toList)
      (flows : ∀ a ∈ arguments, Flow controls .loose a)
      (inside : Flow controls .tight body) :
      Flow controls .tight
        (Tex.code opening ++ (arguments.flatMap group ++ (body ++ Tex.code closing)))
  | append {e : Ending} {a b : Source} (first : Flow controls .tight a)
      (second : Flow controls e b) : Flow controls e (a ++ b)
  | follow {e : Ending} {a b : Source} {s : String} (first : Flow controls .loose a)
      (second : Flow controls e (Tex.code s ++ b)) (detached : Detached s.toList)
      (nonempty : s.toList ≠ []) : Flow controls e (a ++ (Tex.code s ++ b))
  | loosen {s : Source} (tight : Flow controls .tight s) : Flow controls .loose s
  | cut {e : Ending} {a b : Source} {s t : String}
      (whole : Flow controls e (a ++ (Tex.code (s ++ t) ++ b))) :
      Flow controls e (a ++ (Tex.code s ++ (Tex.code t ++ b)))

/-- Where code is cut into pieces makes no difference. -/
theorem render_cut (a b : Source) (s t : String) :
    Source.render (a ++ (code s ++ (code t ++ b))) =
      Source.render (a ++ (code (s ++ t) ++ b)) := by
  simp

/-! ### Code and targets -/

namespace Code

variable {controls : List Token} {e : Ending} {ms : List Mark} {s : List Char}

theorem of_check (h : isCode controls e ms s = true) : Code controls e ms s := by
  simp only [isCode, Bool.and_eq_true, decide_eq_true_eq, List.all_eq_true] at h
  obtain ⟨⟨⟨calm, listed⟩, marked⟩, unmarked⟩ := h
  refine ⟨.of_check calm, ?_, marked, unmarked⟩
  intro t member control
  simpa [control] using listed t member

theorem mono {controls' : List Token} (h : Code controls e ms s) (more : controls ⊆ controls') :
    Code controls' e ms s :=
  { h with listed := fun t member control => more (h.listed t member control) }

theorem loosen (h : Code controls e ms s) : Code controls .loose ms s :=
  { h with toCalm := h.toCalm.loosen }

theorem inert (h : Code controls e [] s) : Inert e s where
  toCalm := h.toCalm
  nested := by
    rw [h.marked]
    exact .nil
  unmarked := h.unmarked

/-- Characters that mean nothing but themselves are code. -/
theorem ink (h : Inked s) : Code controls .tight [] s where
  toCalm := calm_ink h
  listed := by
    intro t member control
    rw [tokens_ink h] at member
    obtain ⟨c, -, rfl⟩ := List.mem_map.1 member
    simp [Token.isControl] at control
  marked := (sought_of_not_mem (not_mem_of_ink h rfl)).2
  unmarked := (inert_ink h).unmarked

theorem append {ms' : List Mark} {a b : List Char} (ha : Code controls .tight ms a)
    (hb : Code controls e ms' b) : Code controls e (ms ++ ms') (a ++ b) where
  toCalm := ha.toCalm.append hb.toCalm
  listed := by
    intro t member
    rw [tokens_append ha.ends, List.mem_append] at member
    rcases member with member | member
    · exact ha.listed t member
    · exact hb.listed t member
  marked := by rw [marks_append ha.sought, ha.marked, hb.marked]
  unmarked := ha.unmarked.append ha.settled hb.unmarked

end Code

/-- The tokens of an escaped character of a link target are characters, or symbols of the escaper. -/
theorem tokens_escapeUrlChar (c : Char) :
    ∀ t ∈ tokens (escapeUrlChar c), (∃ d, t = .char d) ∨ ∃ d ∈ slashed, t = .symbol d := by
  have checked : ∀ s ∈ urlSpellings, ∀ t ∈ tokens s,
      t ∈ ['5', '7', 'B', 'C', 'D'].map Token.char ∨ t ∈ slashed.map Token.symbol := by decide
  refine forall_escapeUrlChar
    (P := fun s => ∀ t ∈ tokens s, (∃ d, t = .char d) ∨ ∃ d ∈ slashed, t = .symbol d)
    (fun s known t member => ?_) (fun d slash opening closing percent t member => ?_) c
  · rcases checked s known t member with plain | symbol
    · obtain ⟨d, -, rfl⟩ := List.mem_map.1 plain
      exact .inl ⟨d, rfl⟩
    · obtain ⟨d, escaped, rfl⟩ := List.mem_map.1 symbol
      exact .inr ⟨d, escaped, rfl⟩
  · rw [tokens, lex_text_char slash opening closing percent] at member
    exact .inl ⟨d, List.mem_singleton.1 member⟩

/-- The tokens of a piece of a link target are characters, or symbols of the escaper. -/
theorem tokens_target {p : Piece} (h : p.IsTarget) :
    Inert .tight p.render ∧ ∀ t ∈ tokens p.render, (∃ c, t = .char c) ∨ ∃ c ∈ slashed, t = .symbol c := by
  cases p with
  | text raw => exact absurd h id
  | code s =>
      refine ⟨inert_ink h, ?_⟩
      intro t member
      rw [Piece.render, tokens_ink h] at member
      obtain ⟨c, -, rfl⟩ := List.mem_map.1 member
      exact .inl ⟨c, rfl⟩
  | url raw =>
      refine ⟨inert_escapeUrl _, ?_⟩
      intro t member
      rw [Piece.render, tokens_escapeUrl] at member
      obtain ⟨c, -, read⟩ := List.mem_flatMap.1 member
      exact tokens_escapeUrlChar c t read

/-- The same for all pieces of a target. -/
theorem tokens_targets {target : Source} (h : ∀ p ∈ target, p.IsTarget) :
    Inert .tight target.render ∧
      ∀ t ∈ tokens target.render, (∃ c, t = .char c) ∨ ∃ c ∈ slashed, t = .symbol c := by
  induction target with
  | nil => exact ⟨.nil, by simp⟩
  | cons p rest ih =>
      obtain ⟨inert, plain⟩ := tokens_target (h p List.mem_cons_self)
      obtain ⟨inerts, plains⟩ := ih fun q member => h q (List.mem_cons_of_mem p member)
      rw [Source.render_cons, tokens_append inert.ends]
      refine ⟨inert.append inerts, ?_⟩
      intro t member
      rcases List.mem_append.1 member with member | member
      · exact plain t member
      · exact plains t member

/-! ### Tokens of groups and commands -/

/-- The tokens of some groups. -/
def groupTokens (arguments : List (List Token)) : List Token :=
  arguments.flatMap fun ts => .opening :: (ts ++ [.closing])

theorem tokens_groups {arguments : List (List Char)} (h : ∀ a ∈ arguments, Ends .loose a)
    (rest : List Char) :
    tokens (groups arguments ++ rest) = groupTokens (arguments.map tokens) ++ tokens rest := by
  induction arguments with
  | nil => rfl
  | cons a others ih =>
      have later := ih fun b member => h b (List.mem_cons_of_mem a member)
      have shape : groups (a :: others) ++ rest =
          '\x7b' :: (a ++ '\x7d' :: (groups others ++ rest)) := by
        simp [groups_cons]
      rw [shape, tokens_group (h a List.mem_cons_self), later]
      simp [groupTokens]

/-- The groups of some texts do not begin with a letter. -/
theorem detached_groups (arguments : List (List Char)) (rest : List Char)
    (called : arguments ≠ []) : Detached (groups arguments ++ rest) := by
  cases arguments with
  | nil => exact absurd rfl called
  | cons a others => simp [groups_cons, Detached]

/-- The tokens of code with groups behind it. -/
theorem tokens_call {s : List Char} {arguments : List (List Char)} (hs : Ends .loose s)
    (called : arguments ≠ []) (h : ∀ a ∈ arguments, Ends .loose a) (rest : List Char) :
    tokens (s ++ (groups arguments ++ rest)) =
      tokens s ++ (groupTokens (arguments.map tokens) ++ tokens rest) := by
  rw [tokens_append_detached hs (detached_groups arguments rest called), tokens_groups h]

theorem mem_groupTokens {arguments : List (List Token)} {t : Token}
    (h : t ∈ groupTokens arguments) (control : t.isControl = true) : ∃ ts ∈ arguments, t ∈ ts := by
  obtain ⟨ts, member, inside⟩ := List.mem_flatMap.1 h
  refine ⟨ts, member, ?_⟩
  simp only [List.mem_cons, List.mem_append, List.not_mem_nil, or_false] at inside
  rcases inside with rfl | inside | rfl
  · simp [Token.isControl] at control
  · exact inside
  · simp [Token.isControl] at control

/-! ### Source as the library writes it -/

/-- The command of a link. -/
def hrefWord : Token :=
  .word "href".toList

/-- The control sequences that the escaper writes. -/
def isEscape : Token → Bool
  | .symbol c => slashed.contains c
  | .word name => spelled.any fun pair => pair.2.toList == name
  | _ => false

theorem isEscape_of_escapeChar {c : Char} {t : Token} (h : t ∈ tokens (escapeChar c))
    (control : t.isControl = true) : isEscape t = true := by
  rcases escapeChar_cases c with ⟨name, member, e⟩ | ⟨member, e⟩ | ⟨plain, e⟩ <;>
    rw [e, tokens] at h
  · simp only [lex_closedWord member, Mode.pending, List.append_nil, List.mem_cons,
      List.not_mem_nil, or_false] at h
    rcases h with rfl | rfl | rfl
    · exact List.any_eq_true.2 ⟨_, member, by simp⟩
    · simp [Token.isControl] at control
    · simp [Token.isControl] at control
  · simp only [lex_slashed member, Mode.pending, List.append_nil, List.mem_singleton] at h
    simpa [h, isEscape] using member
  · simp only [lex_not_reserved plain, Mode.pending, List.append_nil, List.mem_singleton] at h
    simp [h, Token.isControl] at control

theorem calm_href : Inert .loose ("\\" ++ "href" : String).toList :=
  .of_check (by decide)

theorem link_eq (target shown : Source) :
    href target shown = Tex.code ("\\" ++ "href") ++ [target, shown].flatMap group := rfl

namespace Flow

variable {controls : List Token} {e : Ending} {s : Source}

/-- More control sequences may be listed. -/
theorem mono {controls' : List Token} (h : Flow controls e s) (more : controls ⊆ controls') :
    Flow controls' e s := by
  induction h with
  | nil => exact .nil
  | text raw => exact .text raw
  | code isCode => exact .code (isCode.mono more)
  | call isCode nonempty last called _ ih => exact .call (isCode.mono more) nonempty last called ih
  | link isTarget _ ih => exact .link isTarget ih
  | frame opens nonempty last closes _ _ ihs ih =>
      exact .frame (opens.mono more) nonempty last (closes.mono more) ihs ih
  | append _ _ ha hb => exact .append ha hb
  | follow _ _ detached nonempty ha hb => exact .follow ha hb detached nonempty
  | loosen _ ih => exact .loosen ih
  | cut _ ih => exact .cut ih

/-- Source as the library writes it is inert. -/
theorem inert (h : Flow controls e s) : Inert e s.render := by
  induction h with
  | nil => exact .nil
  | text raw => simpa [Piece.render] using inert_escape raw.toList
  | code isCode => simpa using isCode.inert
  | call isCode nonempty last called _ ih =>
      rw [Source.render_append, render_code, render_groups]
      refine isCode.inert.groups nonempty last (by simpa using called) ?_
      intro a member
      obtain ⟨source, among, rfl⟩ := List.mem_map.1 member
      exact ih source among
  | @link target shown isTarget _ ih =>
      rw [link_eq, Source.render_append, render_code, render_groups]
      refine calm_href.groups (by simp) (by decide) (by simp) ?_
      intro a member
      simp only [List.map_cons, List.map_nil, List.mem_cons, List.not_mem_nil, or_false] at member
      rcases member with rfl | rfl
      · exact (tokens_targets isTarget).1.loosen
      · exact ih
  | frame opens nonempty last closes _ _ ihs ih =>
      rw [Source.render_append, Source.render_append, Source.render_append, render_code,
        render_code, render_groups]
      refine .frame opens.toCalm opens.marked opens.unmarked nonempty last ?_ ih closes.toCalm
        closes.marked closes.unmarked
      intro a member
      obtain ⟨source, among, rfl⟩ := List.mem_map.1 member
      exact ihs source among
  | append _ _ ha hb =>
      rw [Source.render_append]
      exact ha.append hb
  | follow _ _ detached nonempty ha hb =>
      rw [Source.render_append]
      refine ha.append_detached hb ?_ ?_
      · rw [Source.render_append, render_code]
        exact detached.append nonempty
      · simp [nonempty]
  | loosen _ ih => exact ih.loosen
  | cut _ ih =>
      rw [render_cut]
      exact ih

/-- The ends of the arguments of a call. -/
theorem ends_arguments {arguments : List Source} (h : ∀ a ∈ arguments, Flow controls .loose a) :
    ∀ a ∈ arguments.map Source.render, Ends .loose a := by
  intro a member
  obtain ⟨source, among, rfl⟩ := List.mem_map.1 member
  exact (h source among).inert.ends

/-- The tokens of code with groups behind it. -/
theorem tokens_call {t : String} {arguments : List Source} (ends : Ends .loose t.toList)
    (called : arguments ≠ []) (h : ∀ a ∈ arguments, Flow controls .loose a) (rest : List Char) :
    tokens (Source.render (Tex.code t ++ arguments.flatMap group) ++ rest) =
      tokens t.toList ++
        (groupTokens (arguments.map fun a => tokens a.render) ++ tokens rest) := by
  rw [Source.render_append, render_code, render_groups, List.append_assoc,
    Tex.tokens_call ends (by simpa using called) (ends_arguments h), List.map_map]
  rfl

/-- The tokens of two pieces of source, where nothing is broken off between them. -/
theorem tokens_append {a : Source} (first : Flow controls .tight a) (b : Source) :
    tokens (Source.render (a ++ b)) = tokens a.render ++ tokens b.render := by
  rw [Source.render_append, Tex.tokens_append first.inert.ends]

/-- The tokens of source with code behind it that does not begin with a letter. -/
theorem tokens_follow {a b : Source} {t : String} (first : Flow controls .loose a)
    (detached : Detached t.toList) (nonempty : t.toList ≠ []) :
    tokens (Source.render (a ++ (Tex.code t ++ b))) =
      tokens a.render ++ tokens (Source.render (Tex.code t ++ b)) := by
  rw [Source.render_append]
  refine tokens_append_detached first.inert.ends ?_
  rw [Source.render_append, render_code]
  exact detached.append nonempty

/-- The tokens of a link. -/
theorem tokens_link {target shown : Source} (isTarget : ∀ p ∈ target, p.IsTarget)
    (flows : Flow controls .loose shown) :
    tokens (href target shown).render =
      hrefWord :: groupTokens [tokens target.render, tokens shown.render] := by
  have command : tokens ("\\" ++ "href" : String).toList = [hrefWord] := by decide
  have ends : ∀ a ∈ [target, shown].map Source.render, Ends .loose a := by
    simpa using ⟨(tokens_targets isTarget).1.ends.loosen, flows.inert.ends⟩
  have read := Tex.tokens_call calm_href.ends (by simp) ends []
  rw [command, List.append_nil, tokens_nil, List.append_nil] at read
  rw [link_eq, Source.render_append, render_code, render_groups, read]
  rfl

/-- The tokens of an environment. -/
theorem tokens_frame {opening closing : String} {arguments : List Source} {body : Source}
    (opens : Ends .tight opening.toList) (flows : ∀ a ∈ arguments, Flow controls .loose a)
    (inside : Flow controls .tight body) :
    tokens (Source.render
        (Tex.code opening ++ (arguments.flatMap group ++ (body ++ Tex.code closing)))) =
      tokens opening.toList ++ (groupTokens (arguments.map fun a => tokens a.render) ++
        (tokens body.render ++ tokens closing.toList)) := by
  rw [Source.render_append, Source.render_append, Source.render_append, render_code, render_code,
    render_groups, Tex.tokens_append opens, tokens_groups (ends_arguments flows),
    Tex.tokens_append inside.inert.ends, List.map_map]
  rfl

/-- Its control sequences are those of its code, those of links and those of the escaper. -/
theorem listed (h : Flow controls e s) :
    ∀ t ∈ tokens s.render, t.isControl = true → t ∈ controls ∨ isEscape t = true ∨ t = hrefWord := by
  induction h with
  | nil => simp
  | text raw =>
      intro t member control
      refine .inr (.inl ?_)
      simp only [Source.render_cons, Source.render_nil, List.append_nil, Piece.render,
        tokens_escape, List.mem_flatMap] at member
      obtain ⟨c, -, read⟩ := member
      exact isEscape_of_escapeChar read control
  | code isCode =>
      intro t member control
      rw [render_code] at member
      exact .inl (isCode.listed t member control)
  | @call code arguments isCode _ _ called flows ih =>
      have read := tokens_call isCode.ends called flows []
      rw [List.append_nil] at read
      intro t member control
      rw [read, tokens_nil, List.append_nil, List.mem_append] at member
      rcases member with member | member
      · exact .inl (isCode.listed t member control)
      · obtain ⟨ts, among, inside⟩ := mem_groupTokens member control
        obtain ⟨a, argument, rfl⟩ := List.mem_map.1 among
        exact ih a argument t inside control
  | @link target shown isTarget flows ih =>
      intro t member control
      rw [tokens_link isTarget flows, List.mem_cons] at member
      rcases member with rfl | member
      · exact .inr (.inr rfl)
      · obtain ⟨ts, among, here⟩ := mem_groupTokens member control
        simp only [List.mem_cons, List.not_mem_nil, or_false] at among
        rcases among with rfl | rfl
        · rcases (tokens_targets isTarget).2 t here with ⟨c, rfl⟩ | ⟨c, known, rfl⟩
          · simp [Token.isControl] at control
          · exact .inr (.inl (by simpa [isEscape] using known))
        · exact ih t here control
  | @frame name opening closing arguments body opens nonempty last closes flows inside ihs ih =>
      intro t member control
      rw [tokens_frame opens.ends flows inside] at member
      simp only [List.mem_append] at member
      rcases member with member | member | member | member
      · exact .inl (opens.listed t member control)
      · obtain ⟨ts, among, here⟩ := mem_groupTokens member control
        obtain ⟨a, argument, rfl⟩ := List.mem_map.1 among
        exact ihs a argument t here control
      · exact ih t member control
      · exact .inl (closes.listed t member control)
  | append first second ha hb =>
      intro t member control
      rw [first.tokens_append, List.mem_append] at member
      exact member.elim (fun member => ha t member control) fun member => hb t member control
  | follow first second detached nonempty ha hb =>
      intro t member control
      rw [first.tokens_follow detached nonempty, List.mem_append] at member
      exact member.elim (fun member => ha t member control) fun member => hb t member control
  | loosen _ ih => exact ih
  | cut _ ih =>
      rw [render_cut]
      exact ih

/-! ### Putting source together -/

/-- Source that may end in a control word. -/
theorem toLoose (h : Flow controls e s) : Flow controls .loose s := by
  cases e with
  | tight => exact .loosen h
  | loose => exact h

/-- Code that is written out. -/
theorem literal {l : List Char} (h : Tex.isCode controls e [] l = true) :
    Flow controls e (Tex.code (String.ofList l)) := by
  refine .code ?_
  rw [String.toList_ofList]
  exact .of_check h

/-- Code that means nothing but itself. -/
theorem ink {t : String} (h : Inked t.toList) : Flow controls .tight (Tex.code t) :=
  .code (.ink h)

/-- Text of the user. -/
theorem ofText (raw : String) : Flow controls .tight (Tex.text raw) := by
  unfold Tex.text
  split
  · exact .text _
  · exact .nil

/-- Tight source with a tight separator between. -/
theorem join {separator : Source} {parts : List Source}
    (between : Flow controls .tight separator) (flows : ∀ p ∈ parts, Flow controls .tight p) :
    Flow controls .tight (Tex.join separator parts) := by
  induction parts with
  | nil => exact .nil
  | cons p rest ih =>
      have first := flows p List.mem_cons_self
      have others := ih fun q member => flows q (List.mem_cons_of_mem p member)
      cases rest with
      | nil => simpa using first
      | cons q rest =>
          rw [join_cons_cons]
          exact first.append (between.append others)

/-- The same where the parts that have no characters are left out. -/
theorem joinNonEmpty {separator : Source} {parts : List Source}
    (between : Flow controls .tight separator) (flows : ∀ p ∈ parts, Flow controls .tight p) :
    Flow controls .tight (Tex.joinNonEmpty separator parts) :=
  join between fun p member => flows p (List.mem_filter.1 member).1

/-- A command of the library with its arguments. -/
theorem command {control : Token} {name : String} {arguments : List Source}
    (checked : isCommand control name = true) (listed : control ∈ controls)
    (called : arguments ≠ []) (flows : ∀ a ∈ arguments, Flow controls .loose a) :
    Flow controls .tight (Tex.command name arguments) := by
  rw [isCommand, Bool.and_eq_true, bne_iff_ne] at checked
  obtain ⟨written, last⟩ := checked
  have isCode : Code controls .loose [] ("\\" ++ name).toList :=
    (Code.of_check written).mono (by simpa using listed)
  exact .call isCode (by simp) last called flows

end Flow

end Vitae.Tex
