/-
Module: Vitae.Proofs.Document.Order
Layer: Proofs
Purpose: Which sections a document shows, and how often. A design hosts each section whose order the caller
  may choose in one place, and an order names none twice, so no section is shown twice.
Imports: Mathlib.Data.List.Count, Vitae.Proofs.Document.Scan
Main exports: resolveOrder_nodup, Look.shows, Look.IsOrdered, hostsInFull, count_blocks
-/
import Mathlib.Data.List.Count
import Vitae.Proofs.Document.Scan

namespace Vitae

/-! ### Orders -/

/-- A list of names is an order: it names no section twice. -/
theorem resolveOrder_nodup (names : List String) : (resolveOrder names).Nodup := by
  have step : ∀ (found keys : List SectionKey), keys.Nodup →
      (found.foldl (fun keys key => if keys.contains key then keys else keys ++ [key]) keys).Nodup := by
    intro found
    induction found with
    | nil => exact fun keys nodup => nodup
    | cons key found ih =>
        intro keys nodup
        refine ih _ ?_
        dsimp only
        split
        case isTrue => exact nodup
        case isFalse absent =>
          have new : key ∉ keys := by simpa using absent
          rw [List.nodup_append]
          refine ⟨nodup, by simp, ?_⟩
          intro k member other single
          rw [List.mem_singleton.1 single]
          rintro rfl
          exact new member
  exact step _ [] List.nodup_nil

/-- Is a section shown? Where there is an order, only the sections that it names are. -/
def Look.shows (look : Look) (key : SectionKey) : Bool :=
  match look.sectionOrder with
  | some order => order.contains key
  | none => true

/-- The order of a look, if it has one, names no section twice. -/
def Look.IsOrdered (look : Look) : Prop :=
  ∀ order, look.sectionOrder = some order → order.Nodup

theorem isOrdered_ofOptions (o : StyleOptions) : (Look.ofOptions o).value.IsOrdered := by
  intro order asked
  have chosen : resolveSectionOrder o.sectionOrder = some order := asked
  unfold resolveSectionOrder at chosen
  cases names : o.sectionOrder with
  | none => simp [names] at chosen
  | some names' =>
      have nodup := resolveOrder_nodup names'
      rw [names, Option.map_some] at chosen
      cases resolved : resolveOrder names' with
      | nil => simp [resolved] at chosen
      | cons key keys =>
          simp only [resolved, Option.some.injEq] at chosen
          rwa [resolved, chosen] at nodup

/-- A region shows a section once where it hosts it and the section is asked for. -/
theorem count_arrange {look : Look} (ordered : look.IsOrdered) {region : List SectionKey}
    (nodup : region.Nodup) (key : SectionKey) :
    (look.arrange region).count key = if look.shows key && region.contains key then 1 else 0 := by
  unfold Look.arrange Look.shows
  cases asked : look.sectionOrder with
  | none => simp [nodup.count]
  | some order =>
      have unique : (order.filter region.contains).Nodup := (ordered order asked).filter _
      rw [unique.count]
      simp [List.mem_filter]

end Vitae

namespace Vitae.Template

/-! ### Places -/

/-- Does a slot host a section, in full? -/
def Slot.hosts (key : SectionKey) : Slot → Bool
  | .block _ => false
  | .hosted sections .full => sections.contains key
  | .hosted sections .short => key != .education && sections.contains key

/-- Decide whether a slot shows the sections that it hosts once, and no such section besides. -/
def Slot.isOrderly : Slot → Bool
  | .block b => SectionKey.all.all fun key => b != Block.ofKey key
  | .hosted sections _ => decide sections.Nodup

theorem count_slot {look : Look} (ordered : look.IsOrdered) {slot : Slot}
    (orderly : slot.isOrderly = true) (key : SectionKey) :
    (slot.blocks look).count (Block.ofKey key) =
      if look.shows key && slot.hosts key then 1 else 0 := by
  have injective : Function.Injective Block.ofKey := by
    intro a b same
    cases a <;> cases b <;> simp_all [Block.ofKey]
  cases slot with
  | block b =>
      have other : b ≠ Block.ofKey key := by
        have all := List.all_eq_true.1 orderly key (by cases key <;> decide)
        simpa using all
      simp [Slot.blocks, Slot.hosts, other]
  | hosted sections form =>
      have nodup : sections.Nodup := of_decide_eq_true orderly
      cases form with
      | full =>
          rw [Slot.blocks, List.count_map_of_injective _ _ injective, count_arrange ordered nodup]
          rfl
      | short =>
          -- education is shown by another block there
          by_cases education : key = .education
          · have absent : Block.education ∉ (look.arrange sections).map Block.ofKeyShort := by
              intro member
              obtain ⟨k, -, same⟩ := List.mem_map.1 member
              cases k <;> simp [Block.ofKeyShort, Block.ofKey] at same
            rw [education, Slot.blocks]
            simpa [Slot.hosts, Block.ofKey] using List.count_eq_zero.2 absent
          · have same : ∀ k, (Block.ofKeyShort k == Block.ofKey key) = (k == key) := by
              intro k
              cases k <;> cases key <;> first | rfl | exact absurd rfl education
            have counted : ((look.arrange sections).map Block.ofKeyShort).count (Block.ofKey key) =
                (look.arrange sections).count key := by
              rw [List.count, List.count, List.countP_map]
              exact List.countP_congr fun k _ => by rw [Function.comp, same]
            rw [Slot.blocks, counted, count_arrange ordered nodup]
            simp [Slot.hosts, education]

/-- The slots of a part. -/
def Part.slots : Part → List Slot
  | .region r => r.slots
  | _ => []

/-- The slots of a design. -/
def Design.slots (d : Design) : List Slot :=
  d.parts.flatMap Part.slots

theorem blocks_eq_slots (d : Design) (look : Look) :
    d.blocks look = d.slots.flatMap (Slot.blocks look) := by
  have part : ∀ p : Part, p.blocks look = p.slots.flatMap (Slot.blocks look) := by
    intro p
    cases p <;> rfl
  rw [Design.blocks, Design.slots, List.flatMap_assoc]
  exact congrArg d.parts.flatMap (funext part)

/-- Does a design show a section in full, where it is asked for? -/
def hostsInFull (key : TemplateKey) : SectionKey → Bool
  | .education => key ∈ [.classic, .creative, .professional]
  | _ => true

/-- The slots of a design are orderly, and one of them hosts each section that the design shows in full. -/
theorem slots_ofKey (key : TemplateKey) :
    (Design.ofKey key).slots.all Slot.isOrderly = true ∧
      ∀ k, (Design.ofKey key).slots.countP (Slot.hosts k) = if hostsInFull key k then 1 else 0 := by
  constructor
  · cases key <;> decide
  · intro k
    cases key <;> cases k <;> decide

/-- A document shows a section once where it is asked for and the design shows it in full, and nowhere
otherwise. -/
theorem count_blocks {look : Look} (ordered : look.IsOrdered) (key : TemplateKey) (k : SectionKey) :
    ((Design.ofKey key).blocks look).count (Block.ofKey k) =
      if look.shows k && hostsInFull key k then 1 else 0 := by
  obtain ⟨orderly, hosted⟩ := slots_ofKey key
  have counted : ∀ slots : List Slot, slots.all Slot.isOrderly = true →
      (slots.flatMap (Slot.blocks look)).count (Block.ofKey k) =
        if look.shows k then slots.countP (Slot.hosts k) else 0 := by
    intro slots orderly
    induction slots with
    | nil => simp
    | cons slot rest ih =>
        rw [List.all_cons, Bool.and_eq_true] at orderly
        rw [List.flatMap_cons, List.count_append, ih orderly.2, count_slot ordered orderly.1,
          List.countP_cons]
        cases look.shows k <;> cases slot.hosts k <;> simp [Nat.add_comm]
  rw [blocks_eq_slots, counted _ orderly, hosted k]
  cases look.shows k <;> simp

end Vitae.Template
