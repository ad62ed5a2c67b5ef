/-
Module: Vitae.Proofs.Service.Reply
Layer: Proofs
Purpose: Replies to requests for documents. Which design is used, whether there is a document and what the
  reply holds is told by what the body gives for its members and by what the generator makes of it.
Imports: Vitae.Proofs.Resume.Encoding, Vitae.Proofs.Style.Encoding, Vitae.Service.Router
Main exports: AsksForDocument, chosen, DocumentRequest.template_given, reply_agrees
-/
import Vitae.Proofs.Resume.Encoding
import Vitae.Proofs.Style.Encoding
import Vitae.Service.Router

namespace Vitae.Service

open Json (Codec Encodes Field Record entry given ofString)

/-- A request for a document whose body is JSON. -/
structure AsksForDocument (q : Request) : Prop where
  method : q.method = "POST"
  path : pathOf q.target = "/api/v1/latex"
  json : q.isJson = true

theorem AsksForDocument.handle_eq {q : Request} (h : AsksForDocument q) (s : Settings) :
    handle s q = replyWithDocument s q := by
  have route : Route.ofPath? (pathOf q.target) = some .document := by
    rw [h.path]
    decide
  simp [handle, route, h.method]

/-- A body that is too long is refused, whatever it says. -/
theorem handle_tooLong {q : Request} (h : AsksForDocument q) {s : Settings}
    (long : s.bodyLimit < q.body.utf8ByteSize) : handle s q = pure { status := 413 } := by
  rw [h.handle_eq, replyWithDocument]
  simp [h.json, long]

/-- A body that is read is replied to by what it says. -/
theorem handle_read {q : Request} (h : AsksForDocument q) {s : Settings}
    (fits : q.body.utf8ByteSize ≤ s.bodyLimit) {content : DocumentRequest}
    (read : DocumentRequest.codec.ofTextStart q.body = .ok content) :
    handle s q = makeDocument s content := by
  rw [h.handle_eq, replyWithDocument]
  simp [h.json, Nat.not_lt.2 fits, read]

/-! ### The design that is used -/

/-- The design for a name, or the one of the settings where there is no name. -/
def chosen (s : Settings) : Option String → TemplateKey
  | some name => (TemplateKey.ofName name).value
  | none => s.defaultTemplate

theorem value_chooseTemplate (s : Settings) (name : Option String) :
    (chooseTemplate s name).value = chosen s name := by
  cases name <;> rfl

/-- A name that no design has chooses what the name of the classic design chooses. -/
theorem chosen_unknown {name : String} (unknown : TemplateKey.ofName? name = none)
    (s s' : Settings) : chosen s (some name) = chosen s' (some "classic") := by
  have classic : TemplateKey.ofName? "classic" = some .classic := by
    decide
  simp [chosen, TemplateKey.ofName, unknown, classic]

/-- The design is named by the member `template`, and by nothing else: it is absent where the member is
missing or null, and a text where the member is that text. -/
theorem template_given {entries : List (String × Json)} {content : DocumentRequest}
    (takes : ∀ f ∈ DocumentRequest.record.fields,
      f.Takes DocumentRequest.record.blank content (given f.name entries)) :
    (content.template = none ↔ given "template" entries = [] ∨ given "template" entries = [.null]) ∧
      ∀ name, content.template = some name ↔ given "template" entries = [ofString name] := by
  have field := takes (.of "template" (.optional .text) (·.template)
    fun x q => { q with template := x }) (by simp [DocumentRequest.record])
  change Field.Takes _ _ _ (given "template" entries) at field
  generalize given "template" entries = values at field
  cases field with
  | absent _ kept =>
      have none : content.template = none := kept
      simp [none]
  | @present v read =>
      have read : Codec.readOptional .text v = .ok content.template := read
      cases v with
      | null =>
          have none : content.template = none := (Except.ok.inj read).symm
          simp [none, ofString]
      | string t =>
          cases t with
          | plain name =>
              have named : content.template = some name := (Except.ok.inj read).symm
              simp [named, ofString]
          | unpaired => cases read
      | _ => cases read

/-! ### The reply -/

/-- The reply to what a request holds is the document of the generator for the design that is used, or the
generator's error. -/
theorem value_makeDocument (s : Settings) (content : DocumentRequest) :
    (makeDocument s content).value =
      match (generate content.data (chosen s content.template) (content.options.getD {})).value with
      | .ok tex => { status := 200, body := some (documentBody (chosen s content.template) tex) }
      | .error e => { status := 400, body := some (errorBody e) } := by
  unfold makeDocument
  rw [Logged.value_bind, value_chooseTemplate, Logged.value_bind]
  cases (generate content.data (chosen s content.template) (content.options.getD {})).value <;> rfl

theorem generate_blank {r : Resume} (blank : Text.hasText r.name = false) (key : TemplateKey)
    (o : StyleOptions) : (generate r key o).value = .error .missingName := by
  simp [generate, blank]

theorem generate_named {r : Resume} (named : Text.hasText r.name = true) (key : TemplateKey)
    (o : StyleOptions) : ∃ tex, (generate r key o).value = .ok tex := by
  simp [generate, named]

/-- The service agrees with the generator. A body that is too long is refused, whatever it says. For one
that is read, the design is the one its name stands for, or that of the settings exactly where no name is
given; a blank name is an error without a document, and otherwise the reply names the design and holds the
document of the generator for it. A name that no design has gives what the classic design gives. -/
theorem reply_agrees (s : Settings) {q : Request} (asks : AsksForDocument q) :
    (s.bodyLimit < q.body.utf8ByteSize → handle s q = pure { status := 413 }) ∧
    (∀ content, q.body.utf8ByteSize ≤ s.bodyLimit →
      DocumentRequest.codec.ofTextStart q.body = .ok content →
      (∃ entries, DocumentRequest.record.Gives (Json.ofText q.body).1 entries ∧
        (content.template = none ↔
          given "template" entries = [] ∨ given "template" entries = [.null]) ∧
        ∀ name, content.template = some name ↔ given "template" entries = [ofString name]) ∧
      (Text.hasText content.data.name = false → (handle s q).value =
        { status := 400
          body := some (.object [entry "error" (.object
            [entry "code" (ofString "VALIDATION_ERROR"),
              entry "message" (ofString "resume name is required")])]) }) ∧
      (Text.hasText content.data.name = true → ∃ tex,
        (generate content.data (chosen s content.template) (content.options.getD {})).value = .ok tex ∧
        (handle s q).value =
          { status := 200
            body := some (.object
              [entry "template" (TemplateKey.codec.write (chosen s content.template)),
                entry "tex" (ofString tex)]) })) ∧
    ∀ s' q' content content' name, AsksForDocument q' →
      q.body.utf8ByteSize ≤ s.bodyLimit → q'.body.utf8ByteSize ≤ s'.bodyLimit →
      DocumentRequest.codec.ofTextStart q.body = .ok content →
      DocumentRequest.codec.ofTextStart q'.body = .ok content' →
      content.template = some name → TemplateKey.ofName? name = none →
      content'.template = some "classic" → content'.data = content.data →
      content'.options = content.options → (handle s q).value = (handle s' q').value := by
  refine ⟨handle_tooLong asks, fun content fits read => ⟨?_, fun blank => ?_, fun named => ?_⟩, ?_⟩
  · obtain ⟨entries, gives, takes⟩ := (DocumentRequest.record.read_iff _ content).1 read
    exact ⟨entries, gives, template_given takes⟩
  · rw [handle_read asks fits read, value_makeDocument, generate_blank blank]
    rfl
  · obtain ⟨tex, made⟩ := generate_named named (chosen s content.template) (content.options.getD {})
    refine ⟨tex, made, ?_⟩
    rw [handle_read asks fits read, value_makeDocument, made]
    rfl
  · intro s' q' content content' name asks' fits fits' read read' named unknown classic data options
    rw [handle_read asks fits read, handle_read asks' fits' read', value_makeDocument,
      value_makeDocument, named, classic, data, options, chosen_unknown unknown s s']

theorem DocumentRequest.encodes {content : DocumentRequest}
    (exact : ∀ o, content.options = some o → o.Exact) :
    Encodes DocumentRequest.codec content := by
  have template : Encodes (.optional .text) content.template :=
    .optional fun y _ => ⟨by simp [Codec.text, ofString], .text y⟩
  have options : Encodes (.optional StyleOptions.codec) content.options :=
    .optional fun o held =>
      ⟨by simp [StyleOptions.codec, Record.codec, Record.write], StyleOptions.encodes (exact o held)⟩
  apply Encodes.record
  simp [DocumentRequest.record, Field.of, Field.needed, content.data.encodes, template, options]

/-- The request for a document with the given body. -/
def documentRequest (body : String) : Request :=
  ⟨"POST", "/api/v1/latex", some "application/json", body⟩

theorem asks_documentRequest (body : String) : AsksForDocument (documentRequest body) where
  method := rfl
  path := by
    have path : pathOf "/api/v1/latex" = "/api/v1/latex" := by decide
    exact path
  json := by
    have json : (MediaType.read? "application/json").any MediaType.isJson = true := by decide
    exact json

theorem read_toText {content : DocumentRequest} (plain : content.options = none) :
    DocumentRequest.codec.ofTextStart (DocumentRequest.codec.toText content) = .ok content := by
  have written : Encodes DocumentRequest.codec content := DocumentRequest.encodes (by simp [plain])
  rw [Codec.ofTextStart, Codec.toText, written.printable.ofText_text]
  exact written.shows.read_eq_ok

/-- Settings that allow a body of the given length. -/
def settingsFor (bodyLimit : Nat) : Settings :=
  ⟨8080, "info", bodyLimit, .modern⟩

/-- The reply to a request with the given content, where the body just fits. -/
def fittingReply (content : DocumentRequest) : Logged Reply :=
  let body := DocumentRequest.codec.toText content
  handle (settingsFor body.utf8ByteSize) (documentRequest body)

/-- A body is refused for its length, an empty resume for the name it lacks, and Ada's resume in a design
that nobody knows is her resume in the classic design. -/
theorem reply_agrees_ada :
    handle (settingsFor 1) (documentRequest "\x7b\x7d") = pure { status := 413 } ∧
    (fittingReply {}).value.status = 400 ∧
    (fittingReply { data := { name := "Ada" }, template := some "gothic" }).value.status = 200 ∧
    (fittingReply { data := { name := "Ada" }, template := some "gothic" }).value =
      (fittingReply { data := { name := "Ada" }, template := some "classic" }).value := by
  have fits (body : String) : (documentRequest body).body.utf8ByteSize ≤
      (settingsFor body.utf8ByteSize).bodyLimit := Nat.le_refl _
  have agrees (content : DocumentRequest) (plain : content.options = none) :=
    (reply_agrees _ (asks_documentRequest (DocumentRequest.codec.toText content))).2.1 content
      (fits _) (read_toText plain)
  have nameless (content : DocumentRequest) (plain : content.options = none)
      (blank : Text.hasText content.data.name = false) :
      (fittingReply content).value.status = 400 :=
    congrArg Reply.status ((agrees content plain).2.1 blank)
  have named (content : DocumentRequest) (plain : content.options = none)
      (some : Text.hasText content.data.name = true) :
      (fittingReply content).value.status = 200 := by
    obtain ⟨tex, -, made⟩ := (agrees content plain).2.2 some
    rw [fittingReply, made]
  have same (data : Resume) (name : String) (unknown : TemplateKey.ofName? name = none) :
      (fittingReply { data, template := some name }).value =
        (fittingReply { data, template := some "classic" }).value :=
    (reply_agrees _ (asks_documentRequest _)).2.2 _ _ _ _ name (asks_documentRequest _)
      (fits (DocumentRequest.codec.toText { data, template := some name }))
      (fits (DocumentRequest.codec.toText { data, template := some "classic" }))
      (read_toText rfl) (read_toText rfl) rfl unknown rfl rfl rfl
  have refused := (reply_agrees (settingsFor 1) (asks_documentRequest "\x7b\x7d")).1 (by decide)
  exact ⟨refused, nameless {} rfl (by decide),
    named { data := { name := "Ada" }, template := some "gothic" } rfl (by decide),
    same { name := "Ada" } "gothic" (by decide)⟩

end Vitae.Service
