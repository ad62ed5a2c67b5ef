/-
Module: Vitae.Proofs.Typeset.Contact
Layer: Proofs
Purpose: Contact items and links read back from the line or the block that they are joined in. No item holds a
  separator or the beginning of one, so a line is split into the items it was made of.
Imports: Vitae.Proofs.Section.Presence, Vitae.Proofs.Tex.Separator
Main exports: itemsOf, absent_contactItems, absent_linkItems, itemsOf_join, itemsOf_contactLine
-/
import Vitae.Proofs.Section.Presence
import Vitae.Proofs.Tex.Separator

namespace Vitae

open Tex Text

/-! ### Separators -/

/-- The separators of contact items and of lines, without the blank before them. -/
def separatorTails : List (List Char) :=
  ["\\textbullet\x7b\x7d ".toList, "\\\\\n".toList]

variable {pattern : List Char}

/-- A separator goes on behind its blank with a backslash. -/
theorem separatorTail_cons (h : pattern ∈ separatorTails) : ∃ rest, pattern = '\\' :: rest := by
  simp only [separatorTails, List.mem_cons, List.not_mem_nil, or_false] at h
  rcases h with rfl | rfl <;> exact ⟨_, rfl⟩

theorem absent_plain (h : pattern ∈ separatorTails) {s : List Char} (plain : '\\' ∉ s) : Absent pattern s := by
  obtain ⟨rest, rfl⟩ := separatorTail_cons h
  exact absent_of_not_mem plain

theorem absent_escapeUrlChar (h : pattern ∈ separatorTails) (c : Char) : Absent pattern (escapeUrlChar c) := by
  have checked : ∀ s ∈ urlSpellings, separatorTails.all (isAbsent · s) = true := by decide
  refine forall_escapeUrlChar (fun s member => ?_) (fun c slash _ _ _ => ?_) c
  · exact .of_check (List.all_eq_true.1 (checked s member) pattern h)
  · exact absent_plain h (by simpa using slash.symm)

/-- Text of the user holds no separator. -/
theorem absent_shown (h : pattern ∈ separatorTails) (raw : String) : Absent pattern (text raw).render := by
  have forms : separatorTails.all (fun pattern => spellings.all (isAbsent pattern)) = true := by decide
  obtain ⟨rest, rfl⟩ := separatorTail_cons h
  exact absent_text (List.all_eq_true.1 forms _ h) raw

/-- Neither does a link to any address. -/
theorem absent_href (h : pattern ∈ separatorTails) {lead address : String} {shown : Source}
    (plain : '\\' ∉ lead.toList) (absent : Absent pattern shown.render) :
    Absent pattern (Source.render (href (code lead ++ [.url address]) shown)) := by
  have word : Absent pattern ("\\" ++ "href" : String).toList := by
    have checked : separatorTails.all (isAbsent · ("\\" ++ "href" : String).toList) = true := by decide
    exact .of_check (List.all_eq_true.1 checked pattern h)
  have opening : Absent pattern ['\x7b'] := absent_plain h (by decide)
  have closing : Absent pattern ['\x7d'] := absent_plain h (by decide)
  have url : Absent pattern (Piece.render (.url address)) := .flatMap fun c _ => absent_escapeUrlChar h c
  have target := opening.append (((absent_plain h plain).append url).append closing)
  have whole := word.append (target.append (opening.append (absent.append closing)))
  simpa [href, command] using whole

theorem absent_linkTo (h : pattern ∈ separatorTails) (address shown : String) :
    Absent pattern (linkTo address (text shown)).render := by
  have found := @absent_href _ h "" (hrefTarget address) _ (by decide) (absent_shown h shown)
  have empty : ∀ rest : Source, Source.render (href (code "" ++ rest) (text shown)) =
      Source.render (href rest (text shown)) := by
    intro rest
    simp [href, command]
  rw [empty] at found
  exact found

theorem absent_itemOf {field : String} {item : Source} (absent : Absent pattern item.render) :
    ∀ p ∈ itemOf field item, Absent pattern p.render := by
  intro p member
  unfold itemOf at member
  split at member
  · rw [List.mem_singleton.1 member]
    exact absent
  · cases member

/-- No contact item holds a separator. -/
theorem absent_contactItems (h : pattern ∈ separatorTails) (r : Resume) :
    ∀ p ∈ contactItems r, Absent pattern p.render := by
  intro p member
  simp only [contactItems, List.mem_append] at member
  rcases member with ((email | phone) | location) | website
  · exact absent_itemOf (absent_href h (by decide) (absent_shown h r.email)) p email
  · exact absent_itemOf (absent_shown h r.phone) p phone
  · exact absent_itemOf (absent_shown h r.location) p location
  · exact absent_itemOf (absent_linkTo h r.website r.website) p website

/-- Neither does a link. -/
theorem absent_linkItems (h : pattern ∈ separatorTails) (links : List Link) :
    ∀ p ∈ linkItems links, Absent pattern p.render := by
  intro p member
  obtain ⟨l, -, source⟩ := List.mem_filterMap.1 member
  unfold Link.source? at source
  split at source <;> simp only [Option.some.injEq, reduceCtorEq] at source <;> subst source
  · exact absent_linkTo h l.url l.label
  · exact absent_linkTo h l.url l.url
  · exact absent_shown h l.label

/-! ### Reading items -/

/-- The items of a line, where a separator stands between two of them. There are none in an empty line. -/
def itemsOf (separator line : List Char) : List (List Char) :=
  if line.isEmpty then [] else splitOn separator line

/-- Items that are joined by a separator are read back. -/
theorem itemsOf_join {separator : String} (shape : separator.toList = ' ' :: pattern)
    (listed : pattern ∈ separatorTails) {items : List Source} (visible : ∀ p ∈ items, p.isBlank = false)
    (absent : ∀ p ∈ items, Absent pattern p.render) :
    itemsOf separator.toList (Source.render (join (code separator) items)) = items.map Source.render := by
  obtain ⟨rest, rfl⟩ := separatorTail_cons listed
  have blank : (Source.render (join (code separator) items)).isEmpty = items.isEmpty := by
    rw [← isBlank_join visible, Bool.eq_iff_iff, List.isEmpty_iff, Source.isBlank_iff]
  unfold itemsOf
  rw [blank]
  cases items with
  | nil => rfl
  | cons p others =>
      rw [List.isEmpty_cons, if_neg Bool.false_ne_true, render_join, render_code, shape]
      refine splitOn_intercalate (by simp) ?_
      intro s member
      obtain ⟨q, among, rfl⟩ := List.mem_map.1 member
      exact (absent q among).isPart_cons (by decide)

/-- The items of a contact line are read back. -/
theorem itemsOf_contactLine {items : List Source} (visible : ∀ p ∈ items, p.isBlank = false)
    (absent : ∀ p ∈ items, Absent "\\textbullet\x7b\x7d ".toList p.render) :
    itemsOf " \\textbullet\x7b\x7d ".toList (contactLine items).render = items.map Source.render := by
  rw [contactLine, joinNonEmpty_visible _ visible]
  exact itemsOf_join (by decide) (by decide) visible absent

/-- The lines of a block are read back. -/
theorem itemsOf_lines {items : List Source} (visible : ∀ p ∈ items, p.isBlank = false)
    (absent : ∀ p ∈ items, Absent "\\\\\n".toList p.render) :
    itemsOf " \\\\\n".toList (Source.render (join lineBreak items)) = items.map Source.render :=
  itemsOf_join (by decide) (by decide) visible absent

end Vitae
