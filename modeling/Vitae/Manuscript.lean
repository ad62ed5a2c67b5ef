/-
Module: Vitae.Manuscript
Layer: Manuscript
Purpose: A resume made ready for layout. A design only arranges what stands here.
Imports: Vitae.Content, Vitae.Look
Main exports: Manuscript, Manuscript.ofResume
-/
import Vitae.Content
import Vitae.Look

namespace Vitae

/-- A resume made ready for layout. -/
structure Manuscript where
  content : Content
  look : Look
deriving Repr, DecidableEq

/-- Make a resume ready for layout. -/
def Manuscript.ofResume (r : Resume) (o : StyleOptions) : Logged Manuscript := do
  let look ← Look.ofOptions o
  pure ⟨Content.ofResume r look.spacing, look⟩

end Vitae
