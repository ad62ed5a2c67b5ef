/-
Module: Vitae.Proofs.Json.Record
Layer: Proofs
Purpose: What reading a record comes to. An object and an array both give the fields values, by their names
  and by their order. A record can be read from them exactly where each field is given one value that it
  can be read from, or none if it may be left out. Nothing else about the tree matters.
Imports: Mathlib.Data.List.Pairwise, Vitae.Json.Codec
Main exports: given, Field.Takes, Record.Gives, Record.read_iff
-/
import Mathlib.Data.List.Pairwise
import Vitae.Json.Codec

namespace Vitae.Json

open Json (entry)

/-- The values that entries give for a name, in their order. -/
def given (name : String) (entries : List (String × Json)) : List Json :=
  (entries.filter (·.1 == name)).map Prod.snd

@[simp] theorem given_nil (name : String) : given name [] = [] := rfl

theorem given_cons_same (name : String) (v : Json) (entries : List (String × Json)) :
    given name ((name, v) :: entries) = v :: given name entries := by
  simp [given]

theorem given_cons_other {name other : String} (differ : other ≠ name) (v : Json)
    (entries : List (String × Json)) :
    given name ((other, v) :: entries) = given name entries := by
  simp [given, differ]

variable {ρ : Type}

namespace Field

/-- The field goes from what it holds in `before` to what it holds in `r` by the values it is given. -/
inductive Takes (f : Field ρ) (before r : ρ) : List Json → Prop
  | absent (optional : f.required = false) (kept : f.get r = f.get before) : f.Takes before r []
  | present {v : Json} (read : f.inner.read v = .ok (f.get r)) : f.Takes before r [v]

instance : Std.Symm (Apart : Field ρ → Field ρ → Prop) :=
  ⟨fun _ _ h => ⟨h.name.symm, h.right, h.left⟩⟩

end Field

namespace Record

variable (record : Record ρ)

/-- The entries that a tree gives a record: those of an object, or the items of an array with the names
of the fields in their order. -/
inductive Gives : Json → List (String × Json) → Prop
  | object (entries : List (String × Json)) :
      Gives (.object (entries.map fun e => entry e.1 e.2)) entries
  | array (items : List Json) (fits : items.length ≤ record.fields.length) :
      Gives (.array items) ((record.fields.map Field.name).zip items)

variable {record}

theorem eq_of_name {f g : Field ρ} (hf : f ∈ record.fields) (hg : g ∈ record.fields)
    (same : f.name = g.name) : f = g := by
  by_contra differ
  exact (record.apart.forall hf hg differ).name same

theorem apart_of_name {f g : Field ρ} (hf : f ∈ record.fields) (hg : g ∈ record.fields)
    (differ : f.name ≠ g.name) : f.Apart g :=
  record.apart.forall hf hg fun same => differ (congrArg Field.name same)

theorem find?_eq_some {name : String} {f : Field ρ}
    (h : (record.fields.find? fun f => f.name == name) = some f) :
    f ∈ record.fields ∧ f.name = name :=
  ⟨List.mem_of_find?_eq_some h, by simpa using List.find?_some h⟩

/-! ### Objects -/

/-- What a field needs of the values after the names that were seen: a value for a name that was not, or
none. -/
def Needs (seen : List String) (before r : ρ) (f : Field ρ) (values : List Json) : Prop :=
  (values = [] ∧ f.get r = f.get before ∧ (f.required = true → f.name ∈ seen)) ∨
    (f.name ∉ seen ∧ ∃ v, values = [v] ∧ f.inner.read v = .ok (f.get r))

theorem finish_eq_ok_iff {fields : List (Field ρ)} {seen : List String} {before r : ρ} :
    finish fields seen before = .ok r ↔
      before = r ∧ ∀ f ∈ fields, f.required = true → f.name ∈ seen := by
  have complete : (fields.any fun f => f.required && !seen.contains f.name) = false ↔
      ∀ f ∈ fields, f.required = true → f.name ∈ seen := by
    simp
  unfold finish
  cases missing : fields.any fun f => f.required && !seen.contains f.name with
  | false => simpa using fun _ => complete.1 missing
  | true =>
      have lacks : ¬∀ f ∈ fields, f.required = true → f.name ∈ seen := fun all =>
        absurd (missing.symm.trans (complete.2 all)) (by decide)
      simp [lacks]

theorem readMembers_nil_eq_ok_iff {seen : List String} {before r : ρ} :
    readMembers record.fields seen before [] = .ok r ↔
      ∀ f ∈ record.fields, Needs seen before r f [] := by
  rw [readMembers, finish_eq_ok_iff]
  constructor
  · rintro ⟨rfl, complete⟩ f member
    exact .inl ⟨rfl, rfl, complete f member⟩
  · intro h
    have needs : ∀ f ∈ record.fields, f.get r = f.get before ∧ (f.required = true → f.name ∈ seen) :=
      fun f member => by simpa [Needs] using h f member
    exact ⟨record.ext before r fun f member => (needs f member).1.symm,
      fun f member => (needs f member).2⟩

/-- A value that a field was read from is all that the field may be given. -/
theorem needs_set_iff {f g : Field ρ} (hf : f ∈ record.fields) (hg : g ∈ record.fields)
    {seen : List String} (unseen : g.name ∉ seen) {v : Json} {x : g.α}
    (read : g.inner.read v = .ok x) (before r : ρ) (entries : List (String × Json)) :
    Needs (g.name :: seen) (g.set x before) r f (given f.name entries) ↔
      Needs seen before r f (given f.name ((g.name, v) :: entries)) := by
  by_cases same : f.name = g.name
  · obtain rfl := eq_of_name hf hg same
    have taken : (∃ w, v :: given f.name entries = [w] ∧ f.inner.read w = .ok (f.get r)) ↔
        given f.name entries = [] ∧ f.get r = x := by
      constructor
      · rintro ⟨w, only, ok⟩
        obtain ⟨rfl, none⟩ := List.cons.inj only
        exact ⟨none, Except.ok.inj (ok.symm.trans read)⟩
      · rintro ⟨none, rfl⟩
        exact ⟨v, by rw [none], read⟩
    rw [given_cons_same, Needs, Needs, taken]
    simp [unseen, f.get_set]
  · have kept : f.get (g.set x before) = f.get before := (apart_of_name hf hg same).left x before
    simp [Needs, given_cons_other (Ne.symm same), kept, same]

/-- Reading entries succeeds where every field has what it needs, and then what was read is told by that. -/
theorem readMembers_eq_ok_iff (entries : List (String × Json)) (seen : List String)
    (before r : ρ) :
    readMembers record.fields seen before (entries.map fun e => entry e.1 e.2) = .ok r ↔
      ∀ f ∈ record.fields, Needs seen before r f (given f.name entries) := by
  induction entries generalizing seen before with
  | nil => exact readMembers_nil_eq_ok_iff
  | cons e entries ih =>
      obtain ⟨name, v⟩ := e
      rw [List.map_cons, entry, readMembers]
      cases found : record.fields.find? fun f => f.name == name with
      | none =>
          have unknown : ∀ f ∈ record.fields, name ≠ f.name := fun f member same =>
            List.find?_eq_none.1 found f member (by simp [same])
          rw [ih]
          exact forall₂_congr fun f member => by rw [given_cons_other (unknown f member)]
      | some g =>
          obtain ⟨hg, rfl⟩ := find?_eq_some found
          by_cases again : g.name ∈ seen
          · have lacks : ¬Needs seen before r g (given g.name ((g.name, v) :: entries)) := by
              simp [Needs, given_cons_same, again]
            simpa [again] using ⟨g, hg, lacks⟩
          · cases read : g.inner.read v with
            | error e =>
                have lacks : ¬Needs seen before r g (given g.name ((g.name, v) :: entries)) := by
                  simp [Needs, given_cons_same, read]
                simpa [again, Field.read, read] using ⟨g, hg, lacks⟩
            | ok x =>
                simp only [again, Field.read, read, List.contains_eq_mem, decide_false,
                  Bool.false_eq_true, if_false, ih]
                exact forall₂_congr fun f member => needs_set_iff member hg again read ..

/-- Entries that can be read have plain names. -/
theorem named_of_readMembers {seen : List String} {before r : ρ} {members : List (Json.Member Json)}
    (h : readMembers record.fields seen before members = .ok r) :
    ∃ entries : List (String × Json), members = entries.map fun e => entry e.1 e.2 := by
  induction members generalizing seen before with
  | nil => exact ⟨[], rfl⟩
  | cons m members ih =>
      match m with
      | .fault => simp [readMembers] at h
      | .pair .unpaired _ => simp [readMembers] at h
      | .pair (.plain name) v =>
          have others : ∃ seen before, readMembers record.fields seen before members = .ok r := by
            rw [readMembers] at h
            split at h
            · exact ⟨_, _, h⟩
            · split at h
              · cases h
              · split at h
                · exact ⟨_, _, h⟩
                · cases h
          obtain ⟨seen, before, read⟩ := others
          obtain ⟨entries, rfl⟩ := ih read
          exact ⟨(name, v) :: entries, rfl⟩

theorem needs_iff_takes {before r : ρ} {f : Field ρ} {values : List Json} :
    Needs [] before r f values ↔ f.Takes before r values := by
  constructor
  · rintro (⟨rfl, kept, complete⟩ | ⟨-, v, rfl, read⟩)
    · exact .absent (by simpa using complete) kept
    · exact .present read
  · intro h
    cases h with
    | absent optional kept => exact .inl ⟨rfl, kept, by simp [optional]⟩
    | present read => exact .inr ⟨by simp, _, rfl, read⟩

/-! ### Arrays -/

/-- An array is read as the object that gives its items to the fields in their order. -/
theorem readItems_eq_ok_iff (items : List Json) {front fields : List (Field ρ)}
    (split : record.fields = front ++ fields) {seen : List String}
    (done : ∀ f ∈ record.fields, f.name ∈ seen ↔ f ∈ front) (before r : ρ) :
    readItems before fields items = .ok r ↔ items.length ≤ fields.length ∧
      readMembers record.fields seen before
        (((fields.map Field.name).zip items).map fun e => entry e.1 e.2) = .ok r := by
  induction fields generalizing items front seen before with
  | nil =>
      cases items with
      | cons v items => simp [readItems]
      | nil =>
          have complete : ∀ f ∈ record.fields, f.required = true → f.name ∈ seen :=
            fun f member _ => (done f member).2 (by simpa [split] using member)
          simpa [readItems, readMembers, finish_eq_ok_iff] using fun _ => complete
  | cons f fields ih =>
      have hf : f ∈ record.fields := by simp [split]
      have apart : ∀ g ∈ front, ∀ h ∈ f :: fields, g.Apart h := by
        have apart := record.apart
        rw [split] at apart
        exact (List.pairwise_append.1 apart).2.2
      have ahead : ∀ g ∈ f :: fields, g.name ∉ seen := fun g now again => by
        have member : g ∈ record.fields := by
          rw [split]
          exact List.mem_append_right front now
        exact (apart g ((done g member).1 again) g now).name rfl
      cases items with
      | nil =>
          have rest : (∀ g ∈ f :: fields, g.required = true → g.name ∈ ([] : List String)) ↔
              ∀ g ∈ record.fields, g.required = true → g.name ∈ seen := by
            constructor
            · intro h g member required
              have place := member
              rw [split] at place
              obtain earlier | now := List.mem_append.1 place
              · exact (done g member).2 earlier
              · exact absurd (h g now required) (by simp)
            · intro h g now required
              have member : g ∈ record.fields := by
                rw [split]
                exact List.mem_append_right front now
              exact absurd (h g member required) (ahead g now)
          simp only [readItems, readMembers, finish_eq_ok_iff, rest, List.zip_nil_right, List.map_nil,
            List.length_nil, Nat.zero_le, true_and]
      | cons v items =>
          have found : (record.fields.find? fun g => g.name == f.name) = some f := by
            cases h : record.fields.find? fun g => g.name == f.name with
            | none => exact absurd (List.find?_eq_none.1 h f hf) (by simp)
            | some g =>
                obtain ⟨hg, same⟩ := find?_eq_some h
                rw [eq_of_name hg hf same]
          have unseen : f.name ∉ seen := ahead f List.mem_cons_self
          have next : ∀ g ∈ record.fields, g.name ∈ f.name :: seen ↔ g ∈ front ++ [f] := by
            intro g hg
            have same : g.name = f.name ↔ g = f := ⟨eq_of_name hg hf, congrArg Field.name⟩
            simp [done g hg, same, or_comm]
          simp only [List.map_cons, List.zip_cons_cons, entry, readItems, readMembers, found,
            List.contains_eq_mem, unseen, decide_false, Bool.false_eq_true, if_false]
          cases f.read v before with
          | error e => simp
          | ok r' =>
              have split' : record.fields = (front ++ [f]) ++ fields := by simp [split]
              simpa [entry] using ih items split' next r'

/-- A record is read from a tree that gives every field what the field takes, and from no other. -/
theorem read_iff (v : Json) (r : ρ) :
    record.read v = .ok r ↔ ∃ entries, record.Gives v entries ∧
      ∀ f ∈ record.fields, f.Takes record.blank r (given f.name entries) := by
  have object (entries : List (String × Json)) :
      readMembers record.fields [] record.blank (entries.map fun e => entry e.1 e.2) = .ok r ↔
        ∀ f ∈ record.fields, f.Takes record.blank r (given f.name entries) := by
    rw [readMembers_eq_ok_iff]
    exact forall₂_congr fun f _ => needs_iff_takes
  have array (items : List Json) :
      readItems record.blank record.fields items = .ok r ↔
        items.length ≤ record.fields.length ∧ readMembers record.fields [] record.blank
          (((record.fields.map Field.name).zip items).map fun e => entry e.1 e.2) = .ok r :=
    readItems_eq_ok_iff items (List.nil_append record.fields).symm (by simp) record.blank r
  constructor
  · intro h
    cases v with
    | object members =>
        obtain ⟨entries, rfl⟩ := named_of_readMembers h
        exact ⟨entries, .object entries, (object entries).1 h⟩
    | array items =>
        obtain ⟨fits, read⟩ := (array items).1 h
        exact ⟨_, .array items fits, (object _).1 read⟩
    | _ => cases h
  · rintro ⟨entries, gives, takes⟩
    cases gives with
    | object entries => exact (object entries).2 takes
    | array items fits => exact (array items).2 ⟨fits, (object _).2 takes⟩

end Record

end Vitae.Json
