/-
Module: Vitae.Typeset.Contact
Layer: Typeset
Purpose: How to reach the owner of a resume: the items in their fixed order, and the line they make.
Imports: Vitae.Typeset.Hyperlink
Main exports: contactItems, contactLine
-/
import Vitae.Typeset.Hyperlink

namespace Vitae

open Tex Text

/-- The item of a field, unless the field is blank. -/
def itemOf (field : String) (item : Source) : List Source :=
  if hasText field then [item] else []

/-- E-mail, phone, location and website. A blank field makes no item. -/
def contactItems (r : Resume) : List Source :=
  itemOf r.email (href (code "mailto:" ++ [.url (trim r.email)]) (text r.email)) ++
    itemOf r.phone (text r.phone) ++
    itemOf r.location (text r.location) ++
    itemOf r.website (linkTo r.website (text r.website))

/-- What stands between two contact items. -/
def contactSeparator : Source :=
  code " \\textbullet{} "

/-- The items in one line. Empty ones are left out. -/
def contactLine (items : List Source) : Source :=
  joinNonEmpty contactSeparator items

end Vitae
