/-
Module: Vitae.Service.Settings
Layer: Service
Purpose: The settings of the service, read from named variables.
Imports: Vitae.Event, Vitae.Number.Power
Main exports: NumberError, SettingsError, Settings, Settings.load
-/
import Vitae.Event
import Vitae.Number.Power

namespace Vitae.Service

open Number (twoTo)

/-- Why a text is not a number below a bound. -/
inductive NumberError where
  | empty
  | invalidDigit
  | tooLarge
deriving Repr, DecidableEq

/-- The wording of the error. -/
def NumberError.message : NumberError → String
  | .empty => "cannot parse integer from empty string"
  | .invalidDigit => "invalid digit found in string"
  | .tooLarge => "number too large to fit in target type"

/-- Read digits after the number `n`. The first thing wrong from the left is the error. -/
def readDigits (bound n : Nat) : List Char → Except NumberError Nat
  | [] => .ok n
  | c :: rest =>
      if c.isDigit then
        let longer := n * 10 + (c.toNat - '0'.toNat)
        if longer < bound then readDigits bound longer rest else .error .tooLarge
      else .error .invalidDigit

/-- Read a number below a bound, with a plus sign before it or without. -/
def readNumber (bound : Nat) (s : String) : Except NumberError Nat :=
  match s.toList with
  | [] => .error .empty
  | ['+'] => .error .invalidDigit
  | '+' :: digits => readDigits bound 0 digits
  | digits => readDigits bound 0 digits

/-- Why there are no settings. -/
inductive SettingsError where
  | tcpPort (cause : NumberError)
  | bodyLimit (raw : String) (cause : NumberError)
deriving Repr, DecidableEq

namespace SettingsError

/-- The wording of the error. -/
def message : SettingsError → String
  | .tcpPort _ => "PORT must be a valid port number"
  | .bodyLimit raw _ => "BODY_LIMIT_BYTES must be a byte count, got '" ++ raw ++ "'"

/-- What is wrong with the number. -/
def cause : SettingsError → NumberError
  | .tcpPort e => e
  | .bodyLimit _ e => e

end SettingsError

/-- The settings of the service. -/
structure Settings where
  tcpPort : Nat
  logFilter : String
  bodyLimit : Nat
  defaultTemplate : TemplateKey
deriving Repr, DecidableEq

namespace Settings

/-- The number on which the service listens, if it has at most 16 bits. -/
def readTcpPort : Option String → Except SettingsError Nat
  | none => .ok 8080
  | some raw => (readNumber (twoTo 16) raw).mapError .tcpPort

/-- The greatest length of a request body in bytes, if it has at most 64 bits. -/
def readBodyLimit : Option String → Except SettingsError Nat
  | none => .ok (1024 * 1024)
  | some raw => (readNumber (twoTo 64) raw).mapError (.bodyLimit raw)

/-- The design for requests that name none. -/
def readTemplate : Option String → Logged TemplateKey
  | none => pure .classic
  | some name => TemplateKey.ofName name

/-- Read the settings. Each variable may be missing. The name of the design is looked at last, so it
is not reported when a number is bad. -/
def load (lookup : String → Option String) : Logged (Except SettingsError Settings) :=
  match readTcpPort (lookup "PORT") with
  | .error e => pure (.error e)
  | .ok tcpPort => match readBodyLimit (lookup "BODY_LIMIT_BYTES") with
      | .error e => pure (.error e)
      | .ok bodyLimit => do
          let defaultTemplate ← readTemplate (lookup "DEFAULT_TEMPLATE")
          pure (.ok
            { tcpPort
              logFilter := (lookup "RUST_LOG").getD "info"
              bodyLimit
              defaultTemplate })

end Settings

end Vitae.Service
