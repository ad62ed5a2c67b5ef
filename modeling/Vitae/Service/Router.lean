/-
Module: Vitae.Service.Router
Layer: Service
Purpose: The replies of the service.
Imports: Vitae.Document, Vitae.Service.Request, Vitae.Service.Settings
Main exports: Reply, Route, handle
-/
import Vitae.Document
import Vitae.Service.Request
import Vitae.Service.Settings

namespace Vitae.Service

open Json (entry ofString Fault)

/-- A reply: its status, the methods that would have been allowed, and its body. -/
structure Reply where
  status : Nat
  allow : Option String := none
  body : Option Json := none
deriving Repr

/-- What the service offers. -/
inductive Route where
  | health
  | templates
  | document
deriving Repr, DecidableEq

/-- The route of a path. Paths are exact. -/
def Route.ofPath? (path : String) : Option Route :=
  if path = "/health" then some .health
  else if path = "/api/v1/latex/templates" then some .templates
  else if path = "/api/v1/latex" then some .document
  else none

/-- The state of the service. -/
def healthBody : Json :=
  .object
    [entry "status" (ofString "ok"), entry "version" (ofString "0.1.0"),
     entry "service" (ofString "resumetex")]

/-- A design in the list of designs. -/
def templateEntry (key : TemplateKey) : Json :=
  .object
    [entry "key" (ofString key.name),
     entry "layout" (ofString (Template.Design.ofKey key).layout.name)]

/-- The list of designs. -/
def templatesBody : Json :=
  .array (TemplateKey.all.map templateEntry)

/-- The body of a reply to a request that cannot be met. -/
def errorBody (e : DocumentError) : Json :=
  .object
    [entry "error" (.object
      [entry "code" (ofString "VALIDATION_ERROR"), entry "message" (ofString e.message)])]

/-- The body of a reply that carries a document. -/
def documentBody (key : TemplateKey) (tex : String) : Json :=
  .object [entry "template" (ofString key.name), entry "tex" (ofString tex)]

/-- The design that a request asks for, or the one of the settings where it names none. -/
def chooseTemplate (s : Settings) : Option String → Logged TemplateKey
  | some name => TemplateKey.ofName name
  | none => pure s.defaultTemplate

/-- Make the document that a request asks for. -/
def makeDocument (s : Settings) (q : DocumentRequest) : Logged Reply := do
  let key ← chooseTemplate s q.template
  let result ← generate q.data key (q.options.getD {})
  match result with
  | .ok tex => pure { status := 200, body := some (documentBody key tex) }
  | .error e => pure { status := 400, body := some (errorBody e) }

/-- The status for a body that cannot be read. -/
def faultStatus : Fault → Nat
  | .malformed => 400
  | .mismatched => 422

/-- Reply to a request for a document. The kind of the body is checked first, then its length, then
what it says. What follows the first value of the body is not looked at. -/
def replyWithDocument (s : Settings) (q : Request) : Logged Reply :=
  if !q.isJson then pure { status := 415 }
  else if s.bodyLimit < q.body.utf8ByteSize then pure { status := 413 }
  else match DocumentRequest.codec.ofTextStart q.body with
    | .ok content => makeDocument s content
    | .error e => pure { status := faultStatus e }

/-- Reply where only reading is allowed. Whoever asks for the head gets no body. -/
def replyWithBody (method : String) (body : Json) : Reply :=
  if method = "GET" then { status := 200, body := some body }
  else if method = "HEAD" then { status := 200 }
  else { status := 405, allow := some "GET,HEAD" }

/-- Reply to a request. -/
def handle (s : Settings) (q : Request) : Logged Reply :=
  match Route.ofPath? (pathOf q.target) with
  | none => pure { status := 404 }
  | some .health => pure (replyWithBody q.method healthBody)
  | some .templates => pure (replyWithBody q.method templatesBody)
  | some .document =>
      if q.method = "POST" then replyWithDocument s q
      else pure { status := 405, allow := some "POST" }

end Vitae.Service
