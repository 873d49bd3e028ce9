import TrailingYear.Toml.Read
import TrailingYear.Toml.Basic

/-! # Settings

The settings are kept in a document of three tables. Whatever is missing there has its default, and
unknown keys are ignored. -/

namespace TrailingYear

structure Settings where
  marketingCode : Option String
  stateCode : Option String
  timeZone : String
  barWidth : Nat
  paymentsPath : String
  ratesPath : String
  currenciesPath : String
  deriving DecidableEq, Repr

namespace Settings

def default : Settings := ⟨none, none, "UTC", 30, "payments.csv", "rates.csv", "currencies.csv"⟩

/-- The values of a table by name, or those of an array in order. A date or time has none. -/
def sectionValues (names : List String) : Option Toml → Option (List (Option Toml))
  | none | some .moment => some (names.map fun _ => none)
  | some (.table _ entries) => some (names.map fun name => Toml.find? name entries)
  | some (.array items) => some ((List.range names.length).map fun i => items[i]?)
  | some _ => none

def textOr (missing : String) : Option Toml → Option String
  | none => some missing
  | some (.string s) => some s
  | some _ => none

def optionalText : Option Toml → Option (Option String)
  | none => some none
  | some (.string s) => some (some s)
  | some _ => none

def naturalOr (missing : Nat) : Option Toml → Option Nat
  | none => some missing
  | some (.integer n) => if 0 ≤ n then some n.toNat else none
  | some _ => none

def currencyKeys : List String := ["marketing_currency_code", "state_currency_code"]
def reportKeys : List String := ["time_zone", "bar_width"]
def dataKeys : List String := ["payments", "rates", "currencies"]

def ofEntries? (entries : Toml.Entries) : Option Settings := do
  let currency ← sectionValues currencyKeys (Toml.find? "currency" entries)
  let report ← sectionValues reportKeys (Toml.find? "report" entries)
  let data ← sectionValues dataKeys (Toml.find? "data" entries)
  match currency, report, data with
  | [marketing, state], [timeZone, barWidth], [payments, rates, currencies] =>
    return ⟨← optionalText marketing, ← optionalText state, ← textOr default.timeZone timeZone,
      ← naturalOr default.barWidth barWidth, ← textOr default.paymentsPath payments,
      ← textOr default.ratesPath rates, ← textOr default.currenciesPath currencies⟩
  | _, _, _ => none

def ofText? (text : String) : Option Settings := do ofEntries? (← Toml.ofText? text)

def line (key value : String) : String := key ++ " = " ++ value ++ "\n"

def optionalLine (key : String) : Option String → String
  | none => ""
  | some text => line key (Toml.quote text)

def toText (s : Settings) : String :=
  "[currency]\n" ++ optionalLine "marketing_currency_code" s.marketingCode ++
    optionalLine "state_currency_code" s.stateCode ++
    "\n[report]\n" ++ line "time_zone" (Toml.quote s.timeZone) ++
    line "bar_width" (toString s.barWidth) ++
    "\n[data]\n" ++ line "payments" (Toml.quote s.paymentsPath) ++
    line "rates" (Toml.quote s.ratesPath) ++ line "currencies" (Toml.quote s.currenciesPath)

/-- The document of the settings, unless their number is too large for one. -/
def document? (s : Settings) : Option String :=
  if s.barWidth < Toml.integerLimit.toNat then some s.toText else none

end Settings
end TrailingYear
