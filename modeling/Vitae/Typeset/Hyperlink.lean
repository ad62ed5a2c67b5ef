/-
Module: Vitae.Typeset.Hyperlink
Layer: Typeset
Purpose: Addresses as link targets, and the links of a resume.
Imports: Vitae.Resume.Basic, Vitae.Tex.Source, Vitae.Text.Search
Main exports: hrefTarget, linkTo, Link.source?, linkItems
-/
import Vitae.Resume.Basic
import Vitae.Tex.Source
import Vitae.Text.Search

namespace Vitae

open Tex Text

/-- Does an address say how it is to be reached? -/
def hasScheme (address : List Char) : Bool :=
  occursIn "://".toList address || startsWith "mailto:" address

/-- The target that an address stands for, as a user types it. -/
def hrefTarget (address : String) : String :=
  let address := trim address
  if hasScheme address.toList then address else "https://" ++ address

/-- A link to an address that shows the given source. -/
def linkTo (address : String) (shown : Source) : Source :=
  href [.url (hrefTarget address)] shown

/-- A link as it is typeset. Its address is shown where it has no label, and its label stands alone
where it has no address. -/
def Link.source? (l : Link) : Option Source :=
  match hasText l.label, hasText l.url with
  | true, true => some (linkTo l.url (text l.label))
  | false, true => some (linkTo l.url (text l.url))
  | true, false => some (text l.label)
  | false, false => none

/-- The links that say anything. -/
def linkItems (links : List Link) : List Source :=
  (links.filter Link.isMeaningful).filterMap Link.source?

end Vitae
