/-
Module: Vitae.Proofs.Section.Listing
Layer: Proofs
Purpose: Lists of items read back. Every item of a list is found again, in its order and as it was typed.
Imports: Vitae.Proofs.Section.Composition, Vitae.Proofs.Tex.Argument
Main exports: Listing, readList, tokens_itemize, readList_itemize
-/
import Vitae.Proofs.Section.Composition
import Vitae.Proofs.Tex.Argument

namespace Vitae

open Tex Text

/-! ### The tokens of a list -/

/-- The beginning of a list, up to its options. -/
def listOpening : List Token :=
  tokens "\\begin\x7bitemize\x7d".toList

/-- The end of a list. -/
def listClosing : List Token :=
  tokens "\\end\x7bitemize\x7d".toList

/-- An item on a line of its own. -/
def itemTokens (item : List Token) : List Token :=
  word "item" :: .char ' ' :: (item ++ [.char '\n'])

/-- What stands between the beginning and the end of a list. -/
def listBody (options : String) (items : List (List Token)) : List Token :=
  options.toList.map .char ++ .char '\n' :: items.flatMap itemTokens

/-- The items of a list, with the end of the line after the last of them. -/
theorem tokens_items {items : List Source} (some : items ≠ [])
    (ends : ∀ p ∈ items, Ends .tight p.render) (rest : List Char) :
    tokens (Source.render (join (code "\n") (items.map fun item => code "\\item " ++ item)) ++
        '\n' :: rest) =
      (items.map fun item => tokens item.render).flatMap itemTokens ++ tokens rest := by
  have command : ∀ s : List Char, tokens ("\\item ".toList ++ s) = word "item" :: .char ' ' :: tokens s := by
    intro s
    rw [tokens_append (by decide)]
    rfl
  have newline : ∀ s : List Char, tokens ("\n".toList ++ s) = .char '\n' :: tokens s := fun _ => rfl
  have lineEnd : tokens ('\n' :: rest) = .char '\n' :: tokens rest := rfl
  induction items with
  | nil => exact absurd rfl some
  | cons item others ih =>
      have first := ends item List.mem_cons_self
      cases others with
      | nil =>
          simp only [List.map_cons, List.map_nil, join_singleton, Source.render_append, render_code,
            List.append_assoc, command, tokens_append first, lineEnd, List.flatMap_cons,
            List.flatMap_nil, itemTokens]
          simp
      | cons next others =>
          have later := ih (by simp) fun p member => ends p (List.mem_cons_of_mem item member)
          rw [List.map_cons, List.map_cons, join_cons_cons, ← List.map_cons, Source.render_append,
            Source.render_append, Source.render_append, render_code, render_code, List.append_assoc,
            List.append_assoc, List.append_assoc, command, tokens_append first, newline, later]
          simp [itemTokens]

/-- A list as it is read. -/
theorem tokens_itemize {options : String} {items : List Source} (ink : Ink options)
    (some : items ≠ []) (ends : ∀ p ∈ items, Ends .tight p.render) :
    tokens (itemize options items).render =
      listOpening ++ (listBody options (items.map fun item => tokens item.render) ++
        listClosing) := by
  have opens : Ends .tight "\\begin\x7bitemize\x7d".toList := by decide
  have closing : "\n\\end\x7bitemize\x7d".toList = '\n' :: "\\end\x7bitemize\x7d".toList := by decide
  have inked : Ends .tight options.toList := (calm_ink ink).ends
  have newline : ∀ s : List Char, tokens ("\n".toList ++ s) = .char '\n' :: tokens s := fun _ => rfl
  have shape : Source.render (itemize options items) =
      "\\begin\x7bitemize\x7d".toList ++ (options.toList ++ ("\n".toList ++
        (Source.render (join (code "\n") (items.map fun item => code "\\item " ++ item)) ++
          '\n' :: "\\end\x7bitemize\x7d".toList))) := by
    have nonempty : items.isEmpty = false := by simpa using some
    rw [itemize, nonempty, if_neg (by simp), environment]
    have front : ("\\begin\x7b" ++ "itemize" ++ "\x7d" ++ options ++ "\n").toList =
        "\\begin\x7bitemize\x7d".toList ++ (options.toList ++ "\n".toList) := by
      simp only [String.toList_append]
      rfl
    have back : ("\n\\end\x7b" ++ "itemize" ++ "\x7d").toList = '\n' :: "\\end\x7bitemize\x7d".toList := by
      decide
    simp only [Source.render_append, render_code, front, back, List.append_assoc]
  rw [shape, tokens_append opens, tokens_append inked, newline, tokens_items some ends,
    tokens_ink ink]
  simp [listOpening, listClosing, listBody]

/-! ### Lists read back -/

/-- What stands in the place of a list: nothing, a list with its items, or something else. -/
inductive Listing where
  | nothing
  | items (texts : List (List Char))
  | other
deriving Repr, DecidableEq

/-- What stands before the first item, and what follows each command of an item up to the next. -/
def splitItems : List Token → List Token × List (List Token)
  | [] => ([], [])
  | t :: rest =>
      let (front, items) := splitItems rest
      if t = word "item" then ([], front :: items) else (t :: front, items)

/-- The text of an item, which stands between a blank and the end of its line. -/
def readItem : List Token → Option (List Char)
  | .char ' ' :: rest =>
      if rest.getLast? = some (.char '\n') then some (unescape rest.dropLast) else none
  | _ => none

/-- Read a list. -/
def readList (ts : List Token) : Listing :=
  let inside := (ts.drop listOpening.length).takeWhile fun t => t != word "end"
  if ts.isEmpty then .nothing
  else if ts = listOpening ++ (inside ++ listClosing) then
    match (splitItems inside).2.mapM readItem with
    | some texts => .items texts
    | none => .other
  else .other

theorem splitItems_front {front : List Token} (h : word "item" ∉ front) (rest : List Token) :
    splitItems (front ++ rest) = (front ++ (splitItems rest).1, (splitItems rest).2) := by
  induction front with
  | nil => rfl
  | cons t front ih =>
      rw [List.mem_cons, not_or] at h
      rw [List.cons_append, splitItems, ih h.2]
      simp [Ne.symm h.1]

theorem splitItems_flatMap {items : List (List Token)} (h : ∀ i ∈ items, word "item" ∉ i) :
    splitItems (items.flatMap itemTokens) =
      ([], items.map fun item => .char ' ' :: (item ++ [.char '\n'])) := by
  induction items with
  | nil => rfl
  | cons item others ih =>
      have later := ih fun i member => h i (List.mem_cons_of_mem item member)
      have own : word "item" ∉ Token.char ' ' :: (item ++ [.char '\n']) := by
        simpa [word] using h item List.mem_cons_self
      rw [List.flatMap_cons, itemTokens, List.cons_append, splitItems, splitItems_front own, later]
      simp

theorem readItem_eq (item : List Token) :
    readItem (.char ' ' :: (item ++ [.char '\n'])) = some (unescape item) := by
  simp [readItem]

theorem readItems_eq (items : List (List Token)) :
    (items.map fun item => .char ' ' :: (item ++ [.char '\n'])).mapM readItem =
      some (items.map unescape) := by
  induction items with
  | nil => rfl
  | cons item others ih =>
      rw [List.map_cons, List.mapM_cons, readItem_eq, ih]
      rfl

/-- No control word of a list stands in text of the user. -/
theorem not_mem_textItems {raw : List String} {t : Token} (foreign : isForeign [] t = true) :
    ∀ item ∈ (textItems raw).map fun p => tokens p.render, t ∉ item := by
  intro item member
  obtain ⟨p, among, rfl⟩ := List.mem_map.1 member
  exact (flow_textItems raw p among).not_mem foreign

theorem not_mem_listBody {options : String} {items : List (List Token)} {t : Token}
    (control : t.isControl = true) (other : t ≠ word "item") (h : ∀ item ∈ items, t ∉ item) :
    t ∉ listBody options items := by
  have plain : ∀ c, t ≠ .char c := by
    rintro c rfl
    simp [Token.isControl] at control
  simp only [listBody, itemTokens, List.mem_append, List.mem_cons, List.mem_map, List.mem_flatMap,
    List.not_mem_nil, or_false, plain, other, false_or]
  rintro (⟨c, -, rfl⟩ | ⟨item, member, here⟩)
  · exact plain c rfl
  · exact h item member here

/-- A list is read back as the texts of its items. -/
theorem readList_of_items {options : String} {items : List (List Token)}
    (item : ∀ i ∈ items, word "item" ∉ i) (ending : ∀ i ∈ items, word "end" ∉ i) :
    readList (listOpening ++ (listBody options items ++ listClosing)) =
      .items (items.map unescape) := by
  have inside : ((listOpening ++ (listBody options items ++ listClosing)).drop
      listOpening.length).takeWhile (fun t => t != word "end") = listBody options items := by
    have closing : listClosing = word "end" :: listClosing.tail := by decide
    have through : ∀ t ∈ listBody options items, (t != word "end") = true := by
      intro t member
      rw [bne_iff_ne]
      rintro rfl
      exact not_mem_listBody rfl (by decide) ending member
    rw [List.drop_left, List.takeWhile_append_of_pos through, closing, List.takeWhile_cons,
      if_neg (by simp), List.append_nil]
  have front : word "item" ∉ options.toList.map Token.char ++ [.char '\n'] := by
    simp [word]
  have shape : listBody options items =
      (options.toList.map Token.char ++ [.char '\n']) ++ items.flatMap itemTokens := by
    simp [listBody]
  have split : (splitItems (listBody options items)).2 =
      items.map fun i => .char ' ' :: (i ++ [.char '\n']) := by
    rw [shape, splitItems_front front, splitItems_flatMap item]
  have nonempty : (listOpening ++ (listBody options items ++ listClosing)).isEmpty = false := by
    simp [listBody]
  rw [readList]
  simp only [inside, split, readItems_eq, nonempty, if_pos]
  simp

/-- A list of texts is read back as its texts, and no text as no list. -/
theorem readList_itemize {options : String} (ink : Ink options) (raw : List String) :
    readList (tokens (itemize options (textItems raw)).render) =
      if raw.filter hasText = [] then .nothing
      else .items ((raw.filter hasText).map fun t => trimChars t.toList) := by
  split
  case isTrue none =>
    have empty : itemize options (textItems raw) = [] := by
      simp [itemize, textItems, none]
    rw [empty]
    rfl
  case isFalse some =>
    have ends : ∀ p ∈ textItems raw, Ends .tight p.render :=
      fun p member => (@flow_textItems [] raw p member).inert.ends
    rw [tokens_itemize ink (by simpa [textItems] using some) ends,
      readList_of_items (not_mem_textItems (by decide)) (not_mem_textItems (by decide)), textItems,
      List.map_map, List.map_map]
    exact congrArg Listing.items (List.map_congr_left fun t _ => unescape_text t)

end Vitae
