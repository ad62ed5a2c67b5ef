/-
Module: Vitae.Proofs.Service.Settings
Layer: Proofs
Purpose: Which variables make settings. A number is read as it is written in decimal digits, whatever their number,
  and is taken if it is in range. Settings are made where both numbers are; otherwise the first that is not decides
  the error, and the name of the design is not looked at.
Imports: Mathlib.Data.Nat.Digits.Defs, Vitae.Service.Settings
Main exports: decimal, Writes, readNumber_eq_ok_iff, Gives, Settings.ReadsNumber, Settings.LoadsExactly,
  Settings.load_exact
-/
import Mathlib.Data.Nat.Digits.Defs
import Vitae.Service.Settings

namespace Vitae.Service

open Number (twoTo twoTo_pos)

/-! ### Numbers -/

/-- The number that decimal digits write. The last of them counts the ones. -/
def decimal (digits : List Char) : Nat :=
  Nat.ofDigits 10 (digits.reverse.map fun c => c.toNat - '0'.toNat)

/-- A text writes a number: by one or more decimal digits, with a plus sign before them or without. -/
def Writes (raw : String) (n : Nat) : Prop :=
  ∃ digits, digits ≠ [] ∧ digits.all Char.isDigit = true ∧ decimal digits = n ∧
    (raw.toList = digits ∨ raw.toList = '+' :: digits)

@[simp] theorem decimal_nil : decimal [] = 0 := rfl

theorem decimal_cons (c : Char) (rest : List Char) :
    decimal (c :: rest) = (c.toNat - '0'.toNat) * 10 ^ rest.length + decimal rest := by
  rw [decimal, List.reverse_cons, List.map_append, Nat.ofDigits_append, List.length_map, List.length_reverse,
    List.map_cons, List.map_nil, Nat.ofDigits_singleton, ← decimal, Nat.mul_comm, Nat.add_comm]

/-- Digits are read to the number that they go on to write, which must stay below the bound. -/
theorem readDigits_eq_ok_iff {bound n m : Nat} {s : List Char} (below : n < bound) :
    readDigits bound n s = .ok m ↔
      s.all Char.isDigit = true ∧ n * 10 ^ s.length + decimal s = m ∧ m < bound := by
  induction s generalizing n with
  | nil =>
      simp only [readDigits, Except.ok.injEq, List.all_nil, List.length_nil, Nat.pow_zero, Nat.mul_one, decimal_nil,
        Nat.add_zero, true_and]
      constructor
      · rintro rfl
        exact ⟨rfl, below⟩
      · exact And.left
  | cons c rest ih =>
      have longer : n * 10 ^ (c :: rest).length + decimal (c :: rest) =
          (n * 10 + (c.toNat - '0'.toNat)) * 10 ^ rest.length + decimal rest := by
        rw [decimal_cons, List.length_cons, Nat.pow_succ', Nat.add_mul, Nat.mul_assoc, Nat.add_assoc]
      rw [readDigits, List.all_cons, longer]
      cases digit : c.isDigit with
      | false => simp
      | true =>
          simp only [if_true, Bool.true_and]
          by_cases fits : n * 10 + (c.toNat - '0'.toNat) < bound
          · rw [if_pos fits, ih fits]
          · -- a number that is too large stays so, whatever digits follow
            have positive : 0 < 10 ^ rest.length := Nat.pow_pos (by decide)
            have grows := Nat.le_mul_of_pos_right (n * 10 + (c.toNat - '0'.toNat)) positive
            rw [if_neg fits]
            constructor
            · nofun
            · rintro ⟨-, rfl, small⟩
              omega

/-- A text is read as the number that it writes, if that is below the bound. -/
theorem readNumber_eq_ok_iff {bound n : Nat} {raw : String} (positive : 0 < bound) :
    readNumber bound raw = .ok n ↔ Writes raw n ∧ n < bound := by
  have value : ∀ digits m, readDigits bound 0 digits = .ok m ↔
      digits.all Char.isDigit = true ∧ decimal digits = m ∧ m < bound := by
    intro digits m
    rw [readDigits_eq_ok_iff positive, Nat.zero_mul, Nat.zero_add]
  -- a sign is no digit, so the text has its digits from the beginning or behind one sign
  have unsigned : ∀ rest digits : List Char, digits.all Char.isDigit = true → '+' :: rest ≠ digits := by
    rintro rest _ decimals rfl
    exact absurd decimals (by simp)
  unfold readNumber Writes
  split
  case h_1 chars =>
    rw [chars]
    constructor
    · nofun
    · rintro ⟨⟨digits, some, -, -, rfl | signed⟩, -⟩
      · exact absurd rfl some
      · cases signed
  case h_2 chars =>
    rw [chars]
    constructor
    · nofun
    · rintro ⟨⟨digits, some, decimals, -, bare | signed⟩, -⟩
      · exact absurd bare (unsigned _ _ decimals)
      · exact absurd (List.cons.inj signed).2.symm some
  case h_3 digits other chars =>
    rw [chars, value]
    constructor
    · rintro ⟨decimals, same, small⟩
      exact ⟨⟨digits, fun none => other (none ▸ rfl), decimals, same, .inr rfl⟩, small⟩
    · rintro ⟨⟨written, -, decimals, same, bare | signed⟩, small⟩
      · exact absurd bare (unsigned _ _ decimals)
      · rw [(List.cons.inj signed).2]
        exact ⟨decimals, same, small⟩
  case h_4 filled _ other =>
    rw [value]
    constructor
    · rintro ⟨decimals, same, small⟩
      exact ⟨⟨raw.toList, filled, decimals, same, .inl rfl⟩, small⟩
    · rintro ⟨⟨written, -, decimals, same, bare | signed⟩, small⟩
      · rw [bare]
        exact ⟨decimals, same, small⟩
      · exact absurd signed (other written)

/-! ### Variables -/

/-- A variable gives a number: the one that is written in it, if that is below the bound, or the standard one where
the variable is missing. -/
def Gives (bound standard : Nat) : Option String → Nat → Prop
  | none, n => n = standard
  | some raw, n => Writes raw n ∧ n < bound

/-- The numbers that the variable for the port gives. -/
abbrev GivesTcpPort : Option String → Nat → Prop :=
  Gives 65536 8080

/-- The numbers that the variable for the greatest length of a body gives. -/
abbrev GivesBodyLimit : Option String → Nat → Prop :=
  Gives 18446744073709551616 1048576

/-- The design that a variable names, or the classic one where the variable is missing, which is nothing to report. -/
def namedTemplate (given : Option String) : Logged TemplateKey :=
  (given.map TemplateKey.ofName).getD (pure .classic)

namespace Settings

/-- A bad result stays bad when its error is put into other words. -/
theorem mapError_eq_ok_iff {ε δ α : Type} {f : ε → δ} {x : Except ε α} {a : α} :
    x.mapError f = .ok a ↔ x = .ok a := by
  cases x with
  | ok b => simp [Except.mapError]
  | error e => simp [Except.mapError]

/-- A reader of a variable that holds a number: it gives the standard one where the variable is missing, and puts what
is wrong with any other into words of its own. -/
structure ReadsNumber (bound standard : Nat) (wording : String → NumberError → SettingsError)
    (read : Option String → Except SettingsError Nat) : Prop where
  positive : 0 < bound
  missing : read none = .ok standard
  given : ∀ raw, read (some raw) = (readNumber bound raw).mapError (wording raw)

namespace ReadsNumber

variable {bound standard : Nat} {wording : String → NumberError → SettingsError}
  {read : Option String → Except SettingsError Nat} {given : Option String}

theorem eq_ok_iff (h : ReadsNumber bound standard wording read) {n : Nat} :
    read given = .ok n ↔ Gives bound standard given n := by
  cases given with
  | none =>
      rw [h.missing, Except.ok.injEq]
      exact eq_comm
  | some raw =>
      rw [h.given, mapError_eq_ok_iff]
      exact readNumber_eq_ok_iff h.positive

/-- What is not a number in range is an error. -/
theorem eq_error (h : ReadsNumber bound standard wording read) (bad : ∀ n, ¬ Gives bound standard given n) :
    ∃ raw cause, given = some raw ∧ read given = .error (wording raw cause) := by
  cases given with
  | none => exact absurd rfl (bad standard)
  | some raw =>
      cases result : readNumber bound raw with
      | ok n => exact absurd ((readNumber_eq_ok_iff h.positive).1 result) (bad n)
      | error cause =>
          refine ⟨raw, cause, rfl, ?_⟩
          rw [h.given, result]
          rfl

end ReadsNumber

theorem readsNumber_tcpPort : ReadsNumber 65536 8080 (fun _ => .tcpPort) readTcpPort where
  positive := by decide
  missing := rfl
  given _ := rfl

theorem readsNumber_bodyLimit : ReadsNumber 18446744073709551616 1048576 .bodyLimit readBodyLimit where
  positive := by decide
  missing := rfl
  given _ := rfl

/-- What comes of loading settings from named variables. -/
structure LoadsExactly (lookup : String → Option String) : Prop where
  /-- There are settings exactly where both numbers are in range. -/
  accepted : (∃ settings, (load lookup).value = .ok settings) ↔
    (∃ n, GivesTcpPort (lookup "PORT") n) ∧ ∃ n, GivesBodyLimit (lookup "BODY_LIMIT_BYTES") n
  /-- They hold the numbers that are given and the design that is named, and a name that stands for none is all that
  is reported. -/
  loaded : ∀ tcpPort bodyLimit, GivesTcpPort (lookup "PORT") tcpPort →
    GivesBodyLimit (lookup "BODY_LIMIT_BYTES") bodyLimit →
      load lookup = ⟨(namedTemplate (lookup "DEFAULT_TEMPLATE")).events, .ok
        { tcpPort, bodyLimit
          logFilter := (lookup "RUST_LOG").getD "info"
          defaultTemplate := (namedTemplate (lookup "DEFAULT_TEMPLATE")).value }⟩
  /-- A bad port is the error whatever else is bad, and nothing is reported. -/
  tcpPort : (∀ n, ¬ GivesTcpPort (lookup "PORT") n) → ∃ cause, load lookup = ⟨[], .error (.tcpPort cause)⟩
  /-- With a good port a bad length is the error, and nothing is reported. -/
  bodyLimit : (∃ n, GivesTcpPort (lookup "PORT") n) →
    (∀ n, ¬ GivesBodyLimit (lookup "BODY_LIMIT_BYTES") n) →
      ∃ raw cause, lookup "BODY_LIMIT_BYTES" = some raw ∧ load lookup = ⟨[], .error (.bodyLimit raw cause)⟩

theorem readTemplate_eq (given : Option String) : readTemplate given = namedTemplate given := by
  cases given <;> rfl

theorem load_of_gives {lookup : String → Option String} {tcpPort bodyLimit : Nat}
    (one : GivesTcpPort (lookup "PORT") tcpPort) (two : GivesBodyLimit (lookup "BODY_LIMIT_BYTES") bodyLimit) :
    load lookup = ⟨(namedTemplate (lookup "DEFAULT_TEMPLATE")).events, .ok
      { tcpPort, bodyLimit
        logFilter := (lookup "RUST_LOG").getD "info"
        defaultTemplate := (namedTemplate (lookup "DEFAULT_TEMPLATE")).value }⟩ := by
  unfold load
  rw [readsNumber_tcpPort.eq_ok_iff.2 one, readsNumber_bodyLimit.eq_ok_iff.2 two, ← readTemplate_eq]
  exact congrArg (Logged.mk · _) (List.append_nil _)

theorem load_of_bad_tcpPort {lookup : String → Option String} (bad : ∀ n, ¬ GivesTcpPort (lookup "PORT") n) :
    ∃ cause, load lookup = ⟨[], .error (.tcpPort cause)⟩ := by
  obtain ⟨-, cause, -, failed⟩ := readsNumber_tcpPort.eq_error bad
  refine ⟨cause, ?_⟩
  unfold load
  rw [failed]
  rfl

theorem load_of_bad_bodyLimit {lookup : String → Option String} {tcpPort : Nat}
    (good : GivesTcpPort (lookup "PORT") tcpPort) (bad : ∀ n, ¬ GivesBodyLimit (lookup "BODY_LIMIT_BYTES") n) :
    ∃ raw cause, lookup "BODY_LIMIT_BYTES" = some raw ∧ load lookup = ⟨[], .error (.bodyLimit raw cause)⟩ := by
  obtain ⟨raw, cause, given, failed⟩ := readsNumber_bodyLimit.eq_error bad
  refine ⟨raw, cause, given, ?_⟩
  unfold load
  rw [readsNumber_tcpPort.eq_ok_iff.2 good, failed]
  rfl

/-- Settings are loaded exactly where the numbers are in range, and hold what is given. -/
theorem load_exact (lookup : String → Option String) : LoadsExactly lookup where
  accepted := by
    constructor
    · rintro ⟨settings, success⟩
      by_contra outOfRange
      by_cases one : ∃ n, GivesTcpPort (lookup "PORT") n
      · obtain ⟨tcpPort, good⟩ := one
        have bad : ∀ n, ¬ GivesBodyLimit (lookup "BODY_LIMIT_BYTES") n :=
          fun n two => outOfRange ⟨⟨tcpPort, good⟩, n, two⟩
        obtain ⟨raw, cause, -, failed⟩ := load_of_bad_bodyLimit good bad
        rw [failed] at success
        cases success
      · obtain ⟨cause, failed⟩ := load_of_bad_tcpPort (not_exists.1 one)
        rw [failed] at success
        cases success
    · rintro ⟨⟨tcpPort, one⟩, bodyLimit, two⟩
      exact ⟨_, congrArg Logged.value (load_of_gives one two)⟩
  loaded _ _ := load_of_gives
  tcpPort := load_of_bad_tcpPort
  bodyLimit := by
    rintro ⟨tcpPort, good⟩
    exact load_of_bad_bodyLimit good

/-- Variables with the names and values of a list. -/
def listed (values : List (String × String)) (name : String) : Option String :=
  values.lookup name

/-- The greatest numbers are in range, however they are written, and an unknown design is reported then; the next
number is not in range, and nothing else is looked at. -/
theorem load_exact_extremes :
    load (listed [("PORT", "+0065535"), ("BODY_LIMIT_BYTES", "18446744073709551615"),
        ("DEFAULT_TEMPLATE", "poster")]) =
      ⟨[.unknownTemplate "poster"], .ok ⟨65535, "info", 18446744073709551615, .classic⟩⟩ ∧
    ∃ cause, load (listed [("PORT", "65536"), ("BODY_LIMIT_BYTES", "-1"), ("DEFAULT_TEMPLATE", "poster")]) =
      ⟨[], .error (.tcpPort cause)⟩ := by
  constructor
  · exact (load_exact _).loaded 65535 18446744073709551615 (readsNumber_tcpPort.eq_ok_iff.1 (by decide))
      (readsNumber_bodyLimit.eq_ok_iff.1 (by decide))
  · refine (load_exact _).tcpPort fun n inRange => ?_
    have failed : readTcpPort (some "65536") = .error (.tcpPort .tooLarge) := by decide
    cases failed.symm.trans (readsNumber_tcpPort.eq_ok_iff.2 inRange)

end Settings

end Vitae.Service
