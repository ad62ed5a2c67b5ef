/-
Module: Vitae.Proofs.Json.Presentation
Layer: Proofs
Purpose: The trees that show a value. What a codec writes is one of them, and so is every tree that tells the
  same in another way: with the entries of an object in another order, with entries that no field is named
  for, without what is as if nothing was read, or with an array in the place of an object. The reader takes
  all of them for the value.
Imports: Vitae.Proofs.Json.Record, Vitae.Proofs.Json.Tree
Main exports: Omission, Shows, Shows.ofText_eq_ok, Shows.exists_ofText, Encodes, Encodes.ofText_toText
-/
import Vitae.Proofs.Json.Record
import Vitae.Proofs.Json.Tree

namespace Vitae.Json

open Json (entry ofString Printable)
open Token (Spells)

/-- What a tree may leave out of a record: the fields that hold what they hold where nothing was read, or
any fields. -/
inductive Omission where
  | blank
  | any
deriving DecidableEq

/-- May the field be left out where the record is `r`? -/
def Omission.Allows {ρ : Type} (o : Omission) (f : Field ρ) (blank r : ρ) : Prop :=
  f.required = false ∧ (o = .blank → f.get r = f.get blank)

/-- The trees that show a value. In the entries of a record each field is given once, by a tree that shows
its value, or is left out. The entries may come in any order, with any others between them. -/
inductive Shows (o : Omission) : {α : Type} → Codec α → α → Json → Prop
  | text (s : String) : Shows o .text s (ofString s)
  | number {n : Numeral} {x : Number.Binary64} (stands : n.value? = some x) :
      Shows o .number x (.number n)
  | oneOf {α : Type} {name : α → String} {all : List α} {x : α}
      (stands : (all.map fun y => (name y, y)).lookup (name x) = some x) :
      Shows o (.oneOf name all) x (ofString (name x))
  | absent {α : Type} {inner : Codec α} : Shows o (.optional inner) none .null
  | present {α : Type} {inner : Codec α} {x : α} {v : Json} (solid : v ≠ .null)
      (shown : Shows o inner x v) : Shows o (.optional inner) (some x) v
  | list {α : Type} {item : Codec α} {xs : List α} {vs : List Json} (length : xs.length = vs.length)
      (shown : ∀ p ∈ xs.zip vs, Shows o item p.1 p.2) : Shows o (.list item) xs (.array vs)
  | record {ρ : Type} {record : Record ρ} {r : ρ} {v : Json} {entries : List (String × Json)}
      (gives : record.Gives v entries)
      (once : ∀ f ∈ record.fields, (given f.name entries).length ≤ 1)
      (omitted : ∀ f ∈ record.fields, given f.name entries = [] → o.Allows f record.blank r)
      (shown : ∀ f ∈ record.fields, ∀ w ∈ given f.name entries, Shows o f.inner (f.get r) w) :
      Shows o record.codec r v

/-! ### Reading -/

namespace Codec

variable {α : Type}

theorem readItems_eq_ok {item : Codec α} {vs : List Json} {xs : List α}
    (length : xs.length = vs.length) (read : ∀ p ∈ xs.zip vs, item.read p.2 = .ok p.1)
    (done : List α) : readItems item done vs = .ok (done.reverse ++ xs) := by
  induction vs generalizing xs done with
  | nil =>
      obtain rfl := List.eq_nil_of_length_eq_zero length
      simp [readItems]
  | cons v vs ih =>
      cases xs with
      | nil => cases length
      | cons x xs =>
          have first : item.read v = .ok x := read (x, v) List.mem_cons_self
          have others : ∀ p ∈ xs.zip vs, item.read p.2 = .ok p.1 := fun p inside =>
            read p (List.mem_cons_of_mem _ inside)
          rw [readItems, first]
          simpa using ih (Nat.succ.inj length) others (x :: done)

theorem readOptional_eq_ok {inner : Codec α} {v : Json} {x : α} (solid : v ≠ .null)
    (read : inner.read v = .ok x) : readOptional inner v = .ok (some x) := by
  cases v with
  | null => exact absurd rfl solid
  | _ => simp [readOptional, read]

theorem readOptional_some {inner : Codec α} {v : Json} {x : α}
    (read : readOptional inner v = .ok (some x)) : inner.read v = .ok x := by
  unfold readOptional at read
  split at read
  · cases read
  · split at read
    · next ok =>
        obtain rfl := Option.some.inj (Except.ok.inj read)
        exact ok
    · cases read

end Codec

/-- A tree that shows a value is read as that value. -/
theorem Shows.read_eq_ok {α : Type} {c : Codec α} {x : α} {v : Json} (h : Shows .blank c x v) :
    c.read v = .ok x := by
  induction h with
  | text s => rfl
  | number stands => simp [Codec.number, Codec.readNumber, stands]
  | oneOf stands => simp [Codec.oneOf, Codec.readOneOf, Codec.readName, ofString, stands]
  | absent => rfl
  | present solid _ ih => exact Codec.readOptional_eq_ok solid ih
  | list length _ ih => exact Codec.readItems_eq_ok length ih []
  | @record ρ record r v entries gives once omitted _ ih =>
      apply (record.read_iff v r).2 ⟨entries, gives, ?_⟩
      intro f member
      match values : given f.name entries with
      | [] =>
          obtain ⟨optional, kept⟩ := omitted f member values
          exact .absent optional (kept rfl)
      | [w] => exact .present (ih f member w (by simp [values]))
      | _ :: _ :: _ =>
          have single := once f member
          simp [values] at single

/-- A text that spells a tree that shows a value is read as that value. -/
theorem Shows.ofText_eq_ok {α : Type} {c : Codec α} {x : α} {v : Json} {s : String}
    (h : Shows .blank c x v) (spells : Spells v.lexemes s.toList) : c.ofText s = .ok x := by
  rw [Codec.ofText, Json.ofText_of_spells spells]
  simp [h.read_eq_ok]

/-! ### Leaving things out

Whatever fields a tree leaves out, at whatever depth, it still shows some value. -/

/-- There is a record with any given values in its fields. -/
theorem Record.exists_get_eq {ρ : Type} (record : Record ρ) (value : (f : Field ρ) → f.α) :
    ∃ r, ∀ f ∈ record.fields, f.get r = value f := by
  have fill : ∀ fields : List (Field ρ), fields.Pairwise Field.Apart →
      ∃ r, ∀ f ∈ fields, f.get r = value f := by
    intro fields apart
    induction apart with
    | nil => exact ⟨record.blank, by simp⟩
    | @cons f fields others _ ih =>
        obtain ⟨r, filled⟩ := ih
        refine ⟨f.set (value f) r, fun g member => ?_⟩
        obtain rfl | later := List.mem_cons.1 member
        · exact g.get_set _ r
        · rw [(others g later).right, filled g later]
  exact fill record.fields record.apart

theorem Shows.exists_list {α : Type} {item : Codec α} {xs : List α} {vs : List Json}
    (length : xs.length = vs.length)
    (h : ∀ p ∈ xs.zip vs, ∃ y, Shows .blank item y p.2) :
    ∃ ys : List α, ys.length = vs.length ∧ ∀ p ∈ ys.zip vs, Shows .blank item p.1 p.2 := by
  induction vs generalizing xs with
  | nil => exact ⟨[], rfl, by simp⟩
  | cons v vs ih =>
      cases xs with
      | nil => cases length
      | cons x xs =>
          obtain ⟨y, first⟩ := h (x, v) List.mem_cons_self
          obtain ⟨ys, count, others⟩ := ih (Nat.succ.inj length) fun p inside =>
            h p (List.mem_cons_of_mem _ inside)
          exact ⟨y :: ys, congrArg Nat.succ count, List.forall_mem_cons.2 ⟨first, others⟩⟩

theorem Shows.exists_blank {α : Type} {c : Codec α} {x : α} {v : Json} (h : Shows .any c x v) :
    ∃ y, Shows .blank c y v := by
  induction h with
  | text s => exact ⟨s, .text s⟩
  | number stands => exact ⟨_, .number stands⟩
  | oneOf stands => exact ⟨_, .oneOf stands⟩
  | absent => exact ⟨none, .absent⟩
  | present solid _ ih =>
      obtain ⟨y, shown⟩ := ih
      exact ⟨some y, .present solid shown⟩
  | list length _ ih =>
      obtain ⟨ys, count, shown⟩ := exists_list length ih
      exact ⟨ys, .list count shown⟩
  | @record ρ record r v entries gives once omitted _ ih =>
      have field (f : Field ρ) : ∃ y : f.α, f ∈ record.fields →
          (given f.name entries = [] → y = f.get record.blank) ∧
            ∀ w ∈ given f.name entries, Shows .blank f.inner y w := by
        by_cases member : f ∈ record.fields
        · match values : given f.name entries with
          | [] => exact ⟨f.get record.blank, by simp⟩
          | [w] =>
              obtain ⟨y, shown⟩ := ih f member w (by simp [values])
              exact ⟨y, by simpa using fun _ => shown⟩
          | _ :: _ :: _ =>
              have single := once f member
              simp [values] at single
        · exact ⟨f.get record.blank, fun inside => absurd inside member⟩
      choose value filled using field
      obtain ⟨s, holds⟩ := record.exists_get_eq value
      refine ⟨s, .record gives once (fun f member none => ?_) fun f member w inside => ?_⟩
      · exact ⟨(omitted f member none).1, fun _ => (holds f member).trans ((filled f member).1 none)⟩
      · rw [holds f member]
        exact (filled f member).2 w inside

/-- A text that spells such a tree is read. -/
theorem Shows.exists_ofText {α : Type} {c : Codec α} {x : α} {v : Json} {s : String}
    (h : Shows .any c x v) (spells : Spells v.lexemes s.toList) : ∃ y, c.ofText s = .ok y := by
  obtain ⟨y, shown⟩ := h.exists_blank
  exact ⟨y, shown.ofText_eq_ok spells⟩

/-! ### Writing -/

/-- What the codec writes for a value shows it, and has a text. -/
structure Encodes {α : Type} (c : Codec α) (x : α) : Prop where
  shows : Shows .blank c x (c.write x)
  printable : (c.write x).Printable

namespace Encodes

variable {α : Type}

/-- Reading the text of a value gives it back. -/
theorem ofText_toText {c : Codec α} {x : α} (h : Encodes c x) : c.ofText (c.toText x) = .ok x :=
  h.shows.ofText_eq_ok h.printable.spells

theorem text (s : String) : Encodes .text s where
  shows := .text s
  printable := Printable.string s

theorem oneOf {name : α → String} {all : List α} {x : α}
    (stands : (all.map fun y => (name y, y)).lookup (name x) = some x) :
    Encodes (.oneOf name all) x where
  shows := .oneOf stands
  printable := Printable.string (name x)

theorem number {x : Number.Finite} (exact : (Numeral.ofFinite x).value? = some (.finite x)) :
    Encodes .number (.finite x) where
  shows := .number exact
  printable := Printable.number (Numeral.ofFinite_text x)

theorem absent {inner : Codec α} : Encodes (.optional inner) none where
  shows := .absent
  printable := Printable.null

theorem present {inner : Codec α} {x : α} (solid : inner.write x ≠ .null) (h : Encodes inner x) :
    Encodes (.optional inner) (some x) where
  shows := .present solid h.shows
  printable := h.printable

theorem optional {inner : Codec α} {x : Option α}
    (h : ∀ y, x = some y → inner.write y ≠ .null ∧ Encodes inner y) :
    Encodes (.optional inner) x := by
  cases x with
  | none => exact .absent
  | some y => exact .present (h y rfl).1 (h y rfl).2

theorem list {item : Codec α} {xs : List α} (h : ∀ x ∈ xs, Encodes item x) :
    Encodes (.list item) xs where
  shows := by
    apply Shows.list (by simp)
    intro p inside
    rw [← List.map_prod_left_eq_zip] at inside
    obtain ⟨x, member, rfl⟩ := List.mem_map.1 inside
    exact (h x member).shows
  printable := Printable.array fun v inside => by
    obtain ⟨x, member, rfl⟩ := List.mem_map.1 inside
    exact (h x member).printable

end Encodes

/-! Records -/

section

variable {ρ : Type}

theorem given_eq_nil {name : String} {entries : List (String × Json)}
    (other : ∀ e ∈ entries, e.1 ≠ name) : given name entries = [] := by
  simpa [given] using other

/-- Where every field is written, each is given its own value and no other. -/
theorem given_fields {fields : List (Field ρ)} (apart : fields.Pairwise Field.Apart) {f : Field ρ}
    (member : f ∈ fields) (r : ρ) :
    given f.name (fields.map fun g => (g.name, g.write r)) = [f.write r] := by
  induction apart with
  | nil => cases member
  | @cons g fields others _ ih =>
      rw [List.map_cons]
      obtain rfl | later := List.mem_cons.1 member
      · have silent : given f.name (fields.map fun g => (g.name, g.write r)) = [] :=
          given_eq_nil fun e inside => by
            obtain ⟨g, later, rfl⟩ := List.mem_map.1 inside
            exact (others g later).name.symm
        rw [given_cons_same, silent]
      · rw [given_cons_other (others f later).name, ih later]

theorem Encodes.record {record : Record ρ} {r : ρ}
    (h : ∀ f ∈ record.fields, Encodes f.inner (f.get r)) : Encodes record.codec r := by
  let entries := record.fields.map fun f => (f.name, f.write r)
  have tree : record.write r = .object (entries.map fun e => entry e.1 e.2) := by
    simp [Record.write, entries, Function.comp_def]
  have values (f : Field ρ) (member : f ∈ record.fields) : given f.name entries = [f.write r] :=
    given_fields record.apart member r
  constructor
  · have gives : record.Gives (record.write r) entries := tree ▸ .object entries
    apply Shows.record gives
    · intro f member
      simp [values f member]
    · intro f member silent
      simp [values f member] at silent
    · intro f member w inside
      obtain rfl : w = f.write r := by simpa [values f member] using inside
      exact (h f member).shows
  · have printable : ∀ e ∈ entries, e.2.Printable := by
      intro e inside
      obtain ⟨f, member, rfl⟩ := List.mem_map.1 inside
      exact (h f member).printable
    change (record.write r).Printable
    rw [tree]
    exact Printable.object printable

end

end Vitae.Json
