/-
Module: Vitae.Proofs.Service.TemplateNames
Layer: Proofs
Purpose: Which names are those of a design. The letters of the design's own name may stand in any case, with joiners
  anywhere and with space around the whole. All other names are reported and taken for the classic design.
Imports: Vitae.Proofs.Text.Letters, Vitae.Proofs.Text.Lines, Vitae.Service.Router
Main exports: Joined, lower_filter_of_joined, joined_of_lower_filter, TemplateKey.IsSpelledBy,
  TemplateKey.ofName?_eq_some, TemplateKey.IsSpelledBy.unique, Service.publishedNames
-/
import Vitae.Proofs.Text.Letters
import Vitae.Proofs.Text.Lines
import Vitae.Service.Router

namespace Vitae

open Text

/-! ### Spellings -/

/-- The letters of a word, each in one of its cases, with joiners before, between and after them. -/
inductive Joined : List Char → List Char → Prop where
  | nil : Joined [] []
  | joiner {c : Char} {word text : List Char} (joins : c ∈ ['-', '_', ' ']) (rest : Joined word text) :
      Joined word (c :: text)
  | letter {c d : Char} {word text : List Char} (case : c = d.toLower ∨ c = d.toUpper) (rest : Joined word text) :
      Joined (d :: word) (c :: text)

namespace TemplateKey

/-- A name spells a design: its letters are joined, with space around them. -/
def IsSpelledBy (key : TemplateKey) (name : String) : Prop :=
  ∃ before middle after, name.toList = before ++ (middle ++ after) ∧ before.all isSpace = true ∧
    after.all isSpace = true ∧ Joined key.name.toList middle

theorem isJoiner_iff {c : Char} : isJoiner c = true ↔ c ∈ ['-', '_', ' '] := by
  simp [isJoiner, or_assoc]

/-- Case makes no joiner. -/
theorem isJoiner_of_case {c d : Char} (case : c = d.toLower ∨ c = d.toUpper) : isJoiner c = isJoiner d := by
  rw [← apply_toLower isJoiner (by decide) c, toLower_eq_iff.2 case, apply_toLower isJoiner (by decide) d]

/-- Case makes no space. -/
theorem isSpace_of_case {c d : Char} (case : c = d.toLower ∨ c = d.toUpper) : isSpace c = isSpace d := by
  rw [← isSpace_toLower c, toLower_eq_iff.2 case, isSpace_toLower d]

/-- A word is one that the joiners can be told from: none of its letters is a joiner or space. -/
def IsWord (word : List Char) : Prop :=
  ∀ d ∈ word, isJoiner d = false ∧ isSpace d = false

theorem isWord_name (key : TemplateKey) : IsWord key.name.toList := by
  have letters : key.name.toList.all (fun d => !isJoiner d && !isSpace d) = true := by
    cases key <;> decide
  intro d member
  simpa using List.all_eq_true.1 letters d member

variable {word text : List Char}

theorem IsWord.tail {d : Char} (plain : IsWord (d :: word)) : IsWord word :=
  fun e member => plain e (List.mem_cons_of_mem d member)

/-- Without its joiners a joined text has the letters of the word. -/
theorem lower_filter_of_joined (plain : IsWord word) (joined : Joined word text) :
    lower (text.filter fun c => !isJoiner c) = lower word := by
  induction joined with
  | nil => rfl
  | joiner joins rest ih =>
      rw [List.filter_cons_of_neg (by simp [isJoiner_iff.2 joins])]
      exact ih plain
  | @letter c d word text case rest ih =>
      have kept : (!isJoiner c) = true := by
        rw [isJoiner_of_case case, (plain d List.mem_cons_self).1]
        rfl
      rw [List.filter_cons_of_pos (p := fun c => !isJoiner c) kept, lower, List.map_cons, toLower_eq_iff.2 case,
        lower, List.map_cons]
      exact congrArg _ (ih plain.tail)

/-- A text joins the letters of a word where it has them once the joiners are taken away. -/
theorem joined_of_lower_filter (same : lower (text.filter fun c => !isJoiner c) = lower word) :
    Joined word text := by
  induction text generalizing word with
  | nil =>
      cases word with
      | nil => exact .nil
      | cons => cases same
  | cons c text ih =>
      cases joins : isJoiner c with
      | true =>
          rw [List.filter_cons_of_neg (by simp [joins])] at same
          exact .joiner (isJoiner_iff.1 joins) (ih same)
      | false =>
          rw [List.filter_cons_of_pos (by simp [joins])] at same
          cases word with
          | nil => cases same
          | cons d word =>
              obtain ⟨first, others⟩ := List.cons.inj same
              exact .letter (toLower_eq_iff.1 first) (ih others)

/-- Space at the ends of a joined text is joiners. -/
theorem isJoiner_of_isSpace (plain : IsWord word) (joined : Joined word text) :
    ∀ c ∈ text, isSpace c = true → isJoiner c = true := by
  induction joined with
  | nil => simp
  | joiner joins rest ih =>
      intro c member blank
      rcases List.mem_cons.1 member with rfl | later
      · exact isJoiner_iff.2 joins
      · exact ih plain c later blank
  | @letter e d word text case rest ih =>
      intro c member blank
      rcases List.mem_cons.1 member with rfl | later
      · rw [isSpace_of_case case, (plain d List.mem_cons_self).2] at blank
        cases blank
      · exact ih plain.tail c later blank

/-- Trimming takes nothing but joiners from a joined text. -/
theorem filter_trimChars (plain : IsWord word) (joined : Joined word text) :
    (trimChars text).filter (fun c => !isJoiner c) = text.filter (fun c => !isJoiner c) := by
  obtain ⟨before, after, left, right, whole⟩ := trimChars_split text
  have dropped : ∀ blank ⊆ text, blank.all isSpace = true → blank.filter (fun c => !isJoiner c) = [] := by
    intro blank inside space
    rw [List.filter_eq_nil_iff]
    intro c member
    simp [isJoiner_of_isSpace plain joined c (inside member) (List.all_eq_true.1 space c member)]
  have front : before ⊆ text := by
    rw [whole]
    exact List.subset_append_left _ _
  have back : after ⊆ text := by
    rw [whole]
    exact List.subset_append_of_subset_right _ (List.subset_append_right _ _)
  calc (trimChars text).filter (fun c => !isJoiner c)
      = (before ++ (trimChars text ++ after)).filter (fun c => !isJoiner c) := by
        rw [List.filter_append, List.filter_append, dropped before front left, dropped after back right,
          List.nil_append, List.append_nil]
    _ = text.filter (fun c => !isJoiner c) := by rw [← whole]

/-- The letters of a name are those of a design exactly where the name spells the design. -/
theorem letters_eq_iff {key : TemplateKey} {name : String} :
    letters name = lower key.name.toList ↔ key.IsSpelledBy name := by
  constructor
  · intro same
    obtain ⟨before, after, left, right, whole⟩ := trimChars_split name.toList
    exact ⟨before, _, after, whole, left, right, joined_of_lower_filter same⟩
  · rintro ⟨before, middle, after, whole, left, right, joined⟩
    rw [letters, whole, trimChars_blank_append left, trimChars_append_blank right,
      filter_trimChars key.isWord_name joined]
    exact lower_filter_of_joined key.isWord_name joined

/-- Different designs have different letters. -/
theorem lower_name_injective {j k : TemplateKey} (same : lower j.name.toList = lower k.name.toList) : j = k := by
  revert same
  cases j <;> cases k <;> decide

theorem mem_all (key : TemplateKey) : key ∈ all := by
  cases key <;> decide

/-- A name is resolved to the design that it spells. -/
theorem ofName?_eq_some {name : String} {key : TemplateKey} : ofName? name = some key ↔ key.IsSpelledBy name := by
  have sound : ∀ k, ofName? name = some k → letters name = lower k.name.toList := fun k found => eq_of_beq
    (List.find?_some (p := fun key : TemplateKey => letters name == lower key.name.toList) found)
  rw [← letters_eq_iff]
  constructor
  · exact sound key
  · intro same
    cases found : ofName? name with
    | none =>
        have missed := List.find?_eq_none.1 found key key.mem_all
        rw [same] at missed
        exact absurd BEq.rfl missed
    | some other =>
        rw [lower_name_injective ((sound other found).symm.trans same)]

/-- No name spells two designs. -/
theorem IsSpelledBy.unique {name : String} {j k : TemplateKey} (left : j.IsSpelledBy name)
    (right : k.IsSpelledBy name) : j = k :=
  Option.some.inj ((ofName?_eq_some.2 left).symm.trans (ofName?_eq_some.2 right))

/-- A name that spells a design is that design, and there is nothing to report. -/
theorem ofName_eq_silent {name : String} {key : TemplateKey} : ofName name = ⟨[], key⟩ ↔ key.IsSpelledBy name := by
  rw [← ofName?_eq_some, ofName]
  cases found : ofName? name with
  | some other =>
      constructor
      · rintro ⟨⟩
        rfl
      · rintro ⟨⟩
        rfl
  | none =>
      constructor
      · rintro ⟨⟩
      · rintro ⟨⟩

/-- Every other name is reported as it is given, and stands for the classic design. -/
theorem ofName_eq_reported {name : String} (h : ∀ key : TemplateKey, ¬ key.IsSpelledBy name) :
    ofName name = ⟨[.unknownTemplate name], .classic⟩ := by
  rw [ofName]
  cases found : ofName? name with
  | some key => exact absurd (ofName?_eq_some.1 found) (h key)
  | none => rfl

/-- A word is one of the texts that join its letters. -/
theorem joined_self (word : List Char) : Joined word word := by
  induction word with
  | nil => exact .nil
  | cons d word ih => exact .letter (toLower_eq_iff.1 rfl) ih

theorem isSpelledBy_name (key : TemplateKey) : key.IsSpelledBy key.name :=
  ⟨[], key.name.toList, [], (List.append_nil _).symm, rfl, rfl, joined_self _⟩

end TemplateKey

/-! ### The list of designs -/

namespace Service

open Json (Member)

/-- The name in an entry of an object, where the entry is that of a name. -/
def keyOf? : Member Json → Option String
  | .pair (.plain "key") (.string (.plain name)) => some name
  | _ => none

/-- The names that a list of designs gives to them. -/
def publishedNames : Json → List String
  | .array items => items.flatMap fun
      | .object members => members.filterMap keyOf?
      | _ => []
  | _ => []

theorem publishedNames_templatesBody : publishedNames templatesBody = TemplateKey.all.map TemplateKey.name := by
  rfl

end Service

/-- Names are resolved to the designs that they spell. A name that spells one is that design without a report, and
each other name, the empty one included, is reported once, as it is given, and is the classic design. No name spells
two designs, and the list that the service publishes names each design by a name that is resolved to it. -/
theorem TemplateKey.ofName_exact :
    (∀ (name : String) (key : TemplateKey), ofName name = ⟨[], key⟩ ↔ key.IsSpelledBy name) ∧
    (∀ name : String, (∀ key : TemplateKey, ¬ key.IsSpelledBy name) →
      ∃ report : Event, ofName name = ⟨[report], .classic⟩ ∧ report.isWarning = true ∧
        report.line = "WARN Unknown template '" ++ name ++ "', falling back to classic") ∧
    (∀ (name : String) (j k : TemplateKey), j.IsSpelledBy name → k.IsSpelledBy name → j = k) ∧
    (∀ (s : Service.Settings) (q : Service.Request), Service.pathOf q.target = "/api/v1/latex/templates" →
      q.method = "GET" → ∃ body, (Service.handle s q).value.body = some body ∧
        Service.publishedNames body = all.map TemplateKey.name) ∧
    (∀ key : TemplateKey, key ∈ all ∧ ofName key.name = ⟨[], key⟩) := by
  refine ⟨fun name key => ofName_eq_silent, ?others, fun name j k => IsSpelledBy.unique, ?published, ?own⟩
  case others =>
    intro name none
    exact ⟨.unknownTemplate name, ofName_eq_reported none, rfl, rfl⟩
  case published =>
    intro s q path method
    refine ⟨Service.templatesBody, ?_, Service.publishedNames_templatesBody⟩
    have route : Service.Route.ofPath? (Service.pathOf q.target) = some .templates := by
      rw [path]
      rfl
    rw [Service.handle, route]
    simp only [Service.replyWithBody, method]
    rfl
  case own =>
    intro key
    exact ⟨key.mem_all, ofName_eq_silent.2 key.isSpelledBy_name⟩

/-- Joiners and case count for nothing, unlike a tab between the letters or a letter that is not ASCII. -/
theorem TemplateKey.ofName_exact_joined :
    ofName "\u00a0_Two - Column\t" = ⟨[], .twoColumn⟩ ∧
    ∀ name ∈ ["two\tcolumn", "m\u043edern", ""], ∃ report : Event, ofName name = ⟨[report], .classic⟩ ∧
      report.isWarning = true ∧ report.line = "WARN Unknown template '" ++ name ++ "', falling back to classic" := by
  obtain ⟨silent, reported, -, -, -⟩ := TemplateKey.ofName_exact
  constructor
  · have found : ofName? "\u00a0_Two - Column\t" = some .twoColumn := by decide
    exact (silent _ _).2 (ofName?_eq_some.1 found)
  · intro name member
    apply reported
    intro key spelled
    have missed : ∀ n ∈ ["two\tcolumn", "m\u043edern", ""], ofName? n = none := by decide
    cases (missed name member).symm.trans (ofName?_eq_some.2 spelled)

end Vitae
