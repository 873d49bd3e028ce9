import TrailingYear.Command.Arguments
import TrailingYear.Command.Files
import TrailingYear.Import
import TrailingYear.Report
import TrailingYear.Settings
import TrailingYear.TimeZone

/-! # Running a command

A command reads the settings and its files, and gives the whole text it prints or the reasons why
there is none. Only the command that writes the settings changes a file. -/

namespace TrailingYear

inductive CommandError where
  | homeUnset
  | settingsNotRead (path : String)
  | settingsNotText (path : String)
  | settingsRefused (path : String)
  | settingsTooLarge
  | fileMissing (path : String)
  | fileNotRead (path : String)
  | fileRefused (path : String) (cause : ImportError)
  | unknownTimeZone (name : String)
  | incomeFailed (cause : Failure)
  | countFailed (cause : Failure)
  | totalFailed (cause : Failure)
  deriving DecidableEq, Repr

namespace CommandError

def directoryMessage : String := "Is a directory (os error 21)"

/-- The reason and what caused it, outermost first. -/
def chain : CommandError → List String
  | .homeUnset => ["HOME is not set", "environment variable not found"]
  | .settingsNotRead path => ["read " ++ path, directoryMessage]
  | .settingsNotText path => ["read " ++ path, "stream did not contain valid UTF-8"]
  | .settingsRefused path => ["parse " ++ path, "TOML parse error"]
  | .settingsTooLarge => ["serialize config", "out-of-range value for u64 type"]
  | .fileMissing path =>
    ["CSV not found: " ++ path ++ " (pass the path explicitly or set it in config)"]
  | .fileNotRead path => ["parsing " ++ path, directoryMessage]
  | .fileRefused path cause => ("parsing " ++ path) :: cause.chain
  | .unknownTimeZone name => ["report.time_zone = " ++ name, TimeZone.unknownMessage name]
  | .incomeFailed cause => ["computing income series", cause.message]
  | .countFailed cause => [cause.message]
  | .totalFailed cause => ["computing total", cause.message]

def indent (margin text : String) : String :=
  String.ofList (text.toList.flatMap fun c => if c = '\n' then '\n' :: margin.toList else [c])

def numbered (n : Nat) (cause : String) : String :=
  "\n" ++ padBlanks 5 (toString n) ++ ": " ++ indent "       " cause

def causes : List String → String
  | [] => ""
  | [cause] => "\n\nCaused by:\n    " ++ indent "    " cause
  | several => "\n\nCaused by:" ++ String.join (several.mapIdx numbered)

def toText (e : CommandError) : String :=
  match e.chain with
  | [] => "Error: \n"
  | reason :: rest => "Error: " ++ reason ++ causes rest ++ "\n"

end CommandError

/-- What a command finds when it is run: the files, the directory of the user if one is set, and
the current day in the time zone of the settings. -/
structure Environment where
  files : Files
  home : Option String
  today : Date
  deriving DecidableEq, Repr

namespace Environment

def settingsPath (env : Environment) : Except CommandError String :=
  match env.home with
  | none => .error .homeUnset
  | some home => .ok (Files.join home ".crm/config.toml")

def configPath (env : Environment) (config : Option String) : Except CommandError String :=
  match config with
  | some path => .ok path
  | none => env.settingsPath

/-- The settings at a path, or the default ones if nothing is there. -/
def settingsAt (env : Environment) (path : String) : Except CommandError Settings :=
  match env.files.read? path with
  | none => if env.files.isTaken path then .error (.settingsNotRead path) else .ok .default
  | some bytes =>
    match Utf8.decode bytes with
    | .error _ => .error (.settingsNotText path)
    | .ok cs =>
      match Settings.ofText? (String.ofList cs) with
      | none => .error (.settingsRefused path)
      | some s => .ok s

def settings (env : Environment) (config : Option String) : Except CommandError Settings :=
  env.configPath config >>= env.settingsAt

def save (env : Environment) (s : Settings) (path : String) : Except CommandError Files :=
  match s.document? with
  | none => .error .settingsTooLarge
  | some text => .ok (env.files.write path (Utf8.encode text.toList))

def load {α : Type} (env : Environment) (read : List UInt8 → Except ImportError α) (path : String) :
    Logged CommandError α :=
  match env.files.read? path with
  | none =>
    .ofExcept (.error (if env.files.isTaken path then .fileNotRead path else .fileMissing path))
  | some bytes => .ofExcept ((read bytes).mapError (.fileRefused path))

def loadCurrencies (env : Environment) (path : String) : Logged CommandError (List Currency) := do
  let currencies ← env.load Import.currencies path
  .emit (.currenciesLoaded currencies.length)
  pure currencies

def loadPayments (env : Environment) (path : String) : Logged CommandError (List Payment) := do
  let payments ← env.load Import.payments path
  .emit (.paymentsLoaded payments.length)
  pure payments

def loadRateFile (env : Environment) (path : String) : Logged CommandError (List RateRow) := do
  let rates ← env.load Import.rates path
  .emit (.ratesLoaded rates.length)
  pure rates

/-- The file of dated rates may be missing if it is the one of the settings. -/
def loadRates (env : Environment) (given : Option String) (configured : String) :
    Logged CommandError (List RateRow) :=
  match given with
  | some path => env.loadRateFile path
  | none =>
    if env.files.isTaken configured then env.loadRateFile configured
    else do
      .emit (.noRatesFile configured)
      pure []

def reportingCurrency (s : Settings) (currencies : List Currency) : ReportingCurrency :=
  .ofCodes currencies s.marketingCode s.stateCode

def loadTable (env : Environment) (s : Settings) (sources : Sources) :
    Logged CommandError (ReportingCurrency × RateTable) := do
  let currencies ← env.loadCurrencies (sources.currencies.getD s.currenciesPath)
  let rows ← env.loadRates sources.rates s.ratesPath
  let currency := reportingCurrency s currencies
  let table := RateTable.ofParts currency.code currency.rateField
    (rows.map (·.toDatedRate currency.rateField)) currencies
  .emit (.rateTableLoaded currency.code currency.rateField.column table.datedCount)
  pure (currency, table)

/-- The day that is given, or else the current one in a time zone that must be known. -/
def anchor (env : Environment) (s : Settings) (given : Option Date) : Logged CommandError Date :=
  match given with
  | some day => pure day
  | none =>
    if TimeZone.isKnown s.timeZone then pure env.today
    else .ofExcept (.error (.unknownTimeZone s.timeZone))

def printReport (s : Settings) (json : Bool) (places : Nat) (r : Report) : String :=
  if json then r.toJson.toText ++ "\n" else r.toTable places s.barWidth

def income (env : Environment) (s : Settings) (sources : Sources) (display : Display) :
    Logged CommandError String := do
  let (currency, table) ← env.loadTable s sources
  let payments ← env.loadPayments (sources.payments.getD s.paymentsPath)
  let anchor ← env.anchor s display.anchor
  let series ← (MonthlySeries.income table anchor payments).mapError .incomeFailed
  .emit (.incomeReady payments.length anchor)
  pure (printReport s display.json 2 ⟨"Income", some currency, anchor, series⟩)

def count (env : Environment) (s : Settings) (dates column : String) (display : Display) :
    Logged CommandError String := do
  let days ← env.load (Import.dates · column) dates
  .emit (.datesLoaded days.length (Import.columnName column))
  let anchor ← env.anchor s display.anchor
  let series ← (MonthlySeries.counts anchor days).mapError .countFailed
  pure (printReport s display.json 0 ⟨"Records by " ++ column, none, anchor, series⟩)

def total (env : Environment) (s : Settings) (sources : Sources) (listed json : Bool) :
    Logged CommandError String := do
  let (currency, table) ← env.loadTable s sources
  let payments ← env.loadPayments (sources.payments.getD s.paymentsPath)
  let (conversions, total) ← (convertedTotal table payments).mapError .totalFailed
  let summary : Summary := ⟨currency, conversions, total⟩
  pure (if json then (summary.toJson listed).toText ++ "\n" else summary.toText listed)

def currency (env : Environment) (s : Settings) (currencies : Option String) :
    Logged CommandError String := do
  let known ← env.loadCurrencies (currencies.getD s.currenciesPath)
  let c := reportingCurrency s known
  pure ("Reporting currency: " ++ c.code ++ " (" ++ c.title ++ ")\nRate column: " ++
    c.rateField.column ++ "\n")

def execute (env : Environment) (s : Settings) : Command → Logged CommandError (String × Files)
  | .income sources display => do return (← env.income s sources display, env.files)
  | .count dates column display => do return (← env.count s dates column display, env.files)
  | .total sources listed json => do return (← env.total s sources listed json, env.files)
  | .currency currencies => do return (← env.currency s currencies, env.files)
  | .initConfig => do
    let path ← .ofExcept env.settingsPath
    if env.files.isTaken path then pure ("Config already exists: " ++ path ++ "\n", env.files)
    else do return ("Wrote " ++ path ++ "\n", ← .ofExcept (env.save .default path))

def inputs (s : Settings) : Command → List String
  | .income sources _ | .total sources _ _ =>
    [sources.currencies.getD s.currenciesPath, sources.rates.getD s.ratesPath,
      sources.payments.getD s.paymentsPath]
  | .count dates _ _ => [dates]
  | .currency currencies => [currencies.getD s.currenciesPath]
  | .initConfig => []

structure Outcome where
  exitCode : Nat
  output : String
  errors : String
  events : List Event
  files : Files
  deriving DecidableEq, Repr

def usage : String :=
  "Usage: crm [--config FILE] [--verbose] income|count|total|currency|init-config [OPTIONS]\n"

def stop (env : Environment) : Stop → Outcome
  | .help => ⟨0, usage, "", [], env.files⟩
  | .version => ⟨0, "crm 0.1.0\n", "", [], env.files⟩
  | .misuse => ⟨2, "", usage, [], env.files⟩

def invoke (env : Environment) (i : Invocation) : Outcome :=
  let run : Logged CommandError (String × Files) := do
    let s ← .ofExcept (env.settings i.config)
    env.execute s i.command
  let events := run.events.filter fun e => i.verbose || e.level = .info
  match run.result with
  | .ok (output, files) => ⟨0, output, "", events, files⟩
  | .error e => ⟨1, "", e.toText, events, env.files⟩

def run (env : Environment) (args : List String) : Outcome :=
  match Arguments.read args with
  | .error s => env.stop s
  | .ok i => env.invoke i

end Environment
end TrailingYear
