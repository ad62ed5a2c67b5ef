/-
Module: Vitae.Event
Layer: Event
Purpose: What the library reports while it works, and results that carry such reports with them.
Imports: Vitae.Style.Options, Vitae.Style.Spacing
Main exports: Event, Event.line, Logged
-/
import Vitae.Style.Options
import Vitae.Style.Spacing

namespace Vitae

open Number

/-- A report. -/
inductive Event where
  | unknownTemplate (name : String)
  | nonFiniteSpacing (value : Binary64)
  | invalidColor (text : String)
  | generating (template : TemplateKey) (page : PageSize) (font : FontFamily) (spacing : Spacing)
deriving Repr, DecidableEq

namespace Event

/-- Does the report say that something asked for was replaced? -/
def isWarning : Event → Bool
  | .generating .. => false
  | _ => true

/-- The report in one line, with its level first and its fields last. -/
def line : Event → String
  | .unknownTemplate name =>
      "WARN Unknown template '" ++ name ++ "', falling back to classic"
  | .nonFiniteSpacing value =>
      "WARN Non-finite section spacing " ++ value.text ++ ", using default"
  | .invalidColor text => "WARN Invalid colour '" ++ text ++ "', using black"
  | .generating template page font spacing =>
      "DEBUG Generating LaTeX template=" ++ template.name ++ " page=" ++ page.paper ++
        " font=" ++ font.label ++ " spacing_mm=" ++ spacing.precise

end Event

/-- A result with the reports made on the way to it, earliest first. -/
structure Logged (α : Type) where
  events : List Event
  value : α
deriving Repr, DecidableEq

namespace Logged

variable {α β : Type}

/-- A result without reports. -/
def silent (x : α) : Logged α :=
  ⟨[], x⟩

/-- A single report. -/
def report (e : Event) : Logged Unit :=
  ⟨[e], ()⟩

/-- Go on from a result. The reports follow each other. -/
def andThen (x : Logged α) (f : α → Logged β) : Logged β :=
  ⟨x.events ++ (f x.value).events, (f x.value).value⟩

instance : Monad Logged where
  pure := silent
  bind := andThen

@[simp] theorem events_pure (x : α) : (pure x : Logged α).events = [] := rfl

@[simp] theorem value_pure (x : α) : (pure x : Logged α).value = x := rfl

@[simp] theorem events_bind (x : Logged α) (f : α → Logged β) :
    (x >>= f).events = x.events ++ (f x.value).events := rfl

@[simp] theorem value_bind (x : Logged α) (f : α → Logged β) :
    (x >>= f).value = (f x.value).value := rfl

end Logged

/-- The design that a name stands for. A name that stands for none is reported, and is that of the
classic design. -/
def TemplateKey.ofName (name : String) : Logged TemplateKey :=
  match TemplateKey.ofName? name with
  | some key => pure key
  | none => do
      Logged.report (.unknownTemplate name)
      pure .classic

end Vitae
