/-
Module: Vitae.Document
Layer: Document
Purpose: A resume as a complete document.
Imports: Vitae.Template.Catalogue
Main exports: DocumentError, generate
-/
import Vitae.Template.Catalogue

namespace Vitae

open Template

/-- Why there is no document for a resume. -/
inductive DocumentError where
  | missingName
deriving Repr, DecidableEq

/-- The wording of the error. -/
def DocumentError.message : DocumentError → String
  | .missingName => "resume name is required"

/-- The wording of the error where it is not clear what was being done. -/
def DocumentError.report (e : DocumentError) : String :=
  "Generation error: " ++ e.message

/-- The document for a resume in a design. There is none without a name; whatever else is odd about a
resume or its options is put right on the way. -/
def generate (r : Resume) (key : TemplateKey) (o : StyleOptions) :
    Logged (Except DocumentError String) :=
  if Text.hasText r.name then do
    let m ← Manuscript.ofResume r o
    Logged.report (.generating key m.look.pageSize m.look.fontFamily m.look.spacing)
    pure (.ok ((Design.ofKey key).render m))
  else pure (.error .missingName)

end Vitae
