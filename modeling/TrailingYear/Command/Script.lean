import TrailingYear.Command.Run

/-! # Commands step by step

A script is what a command does in order: it logs events, prints and writes files. A failure ends
it, and what has been done up to there stays done. -/

namespace TrailingYear

inductive Effect where
  | log (e : Event)
  | print (text : String)
  | write (path : String) (content : List UInt8)
  deriving DecidableEq, Repr

namespace Effect

def event? : Effect → Option Event
  | .log e => some e
  | _ => none

def printed : Effect → String
  | .print text => text
  | _ => ""

def apply (files : Files) : Effect → Files
  | .write path content => files.write path content
  | _ => files

def IsLog (e : Effect) : Prop := ∃ event, e = .log event

end Effect

/-- A computation with its effects in order, up to its end or its failure. -/
structure Script (α : Type) where
  effects : List Effect
  result : Except CommandError α

namespace Script

def bind {α β : Type} (x : Script α) (f : α → Script β) : Script β :=
  match x.result with
  | .ok a => ⟨x.effects ++ (f a).effects, (f a).result⟩
  | .error e => ⟨x.effects, .error e⟩

instance : Monad Script where
  pure a := ⟨[], .ok a⟩
  bind := bind

def ofLogged {α : Type} (x : Logged CommandError α) : Script α := ⟨x.events.map .log, x.result⟩

def print (text : String) : Script Unit := ⟨[.print text], .ok ()⟩

def write (path : String) (content : List UInt8) : Script Unit := ⟨[.write path content], .ok ()⟩

def fail {α : Type} (e : CommandError) : Script α := ⟨[], .error e⟩

def events {α : Type} (x : Script α) : List Event := x.effects.filterMap (·.event?)

def output {α : Type} (x : Script α) : String := String.join (x.effects.map (·.printed))

def filesAfter {α : Type} (x : Script α) (files : Files) : Files :=
  x.effects.foldl Effect.apply files

section

variable {α β : Type} {x : Script α} {a : α} (f : α → Script β)

theorem bind_of_ok (h : x.result = .ok a) :
    x >>= f = ⟨x.effects ++ (f a).effects, (f a).result⟩ := by
  simp [Bind.bind, bind, h]

theorem bind_of_error {e : CommandError} (h : x.result = .error e) :
    x >>= f = ⟨x.effects, .error e⟩ := by
  simp [Bind.bind, bind, h]

theorem events_bind (h : x.result = .ok a) : (x >>= f).events = x.events ++ (f a).events := by
  rw [bind_of_ok f h, events, List.filterMap_append]
  rfl

theorem output_bind (h : x.result = .ok a) : (x >>= f).output = x.output ++ (f a).output := by
  rw [bind_of_ok f h, output, List.map_append, String.join_append]
  rfl

theorem filesAfter_bind (h : x.result = .ok a) (files : Files) :
    (x >>= f).filesAfter files = (f a).filesAfter (x.filesAfter files) := by
  rw [bind_of_ok f h, filesAfter, List.foldl_append]
  rfl

theorem events_ofLogged (x : Logged CommandError α) : (ofLogged x).events = x.events := by
  rw [events, ofLogged, List.filterMap_map]
  exact List.filterMap_some

theorem isLog_ofLogged {x : Logged CommandError α} {e : Effect} (h : e ∈ (ofLogged x).effects) :
    e.IsLog := by
  obtain ⟨event, _, rfl⟩ := List.mem_map.mp h
  exact ⟨event, rfl⟩

/-- What is only logged is neither printed nor written. -/
theorem output_of_logs {x : Script α} (h : ∀ e ∈ x.effects, e.IsLog) : x.output = "" := by
  rw [output]
  generalize x.effects = effects at h
  induction effects with
  | nil => rfl
  | cons e effects ih =>
    obtain ⟨⟨event, rfl⟩, hrest⟩ := List.forall_mem_cons.mp h
    rw [List.map_cons, String.join_cons, ih hrest]
    rfl

theorem filesAfter_of_logs {x : Script α} (h : ∀ e ∈ x.effects, e.IsLog) (files : Files) :
    x.filesAfter files = files := by
  rw [filesAfter]
  generalize x.effects = effects at h
  induction effects with
  | nil => rfl
  | cons e effects ih =>
    obtain ⟨⟨event, rfl⟩, hrest⟩ := List.forall_mem_cons.mp h
    exact ih hrest

end

end Script

namespace Environment

def listPayments (code : String) (conversions : List Conversion) : Script Unit := do
  conversions.forM fun c => .print (Summary.listLine code c)
  .print "\n"

def printTotal (summary : Summary) (listed json : Bool) : Script Unit := do
  if json then .print ((summary.toJson listed).toText ++ "\n")
  else
    if listed then listPayments summary.currency.code summary.conversions
    .print summary.totalLine

def totalScript (env : Environment) (s : Settings) (sources : Sources) (listed json : Bool) :
    Script Unit := do
  let (currency, table) ← .ofLogged (env.loadTable s sources)
  let payments ← .ofLogged (env.loadPayments (sources.payments.getD s.paymentsPath))
  let (conversions, total) ← .ofLogged ((convertedTotal table payments).mapError .totalFailed)
  printTotal ⟨currency, conversions, total⟩ listed json

def currencyScript (env : Environment) (s : Settings) (currencies : Option String) :
    Script Unit := do
  let known ← .ofLogged (env.loadCurrencies (currencies.getD s.currenciesPath))
  let c := reportingCurrency s known
  .print ("Reporting currency: " ++ c.code ++ " (" ++ c.title ++ ")\n")
  .print ("Rate column: " ++ c.rateField.column ++ "\n")

def saveScript (s : Settings) (path : String) : Script Unit :=
  match s.document? with
  | none => .fail .settingsTooLarge
  | some text => .write path (Utf8.encode text.toList)

def initScript (env : Environment) : Script Unit := do
  let path ← .ofLogged (.ofExcept env.settingsPath)
  if env.files.isTaken path then .print ("Config already exists: " ++ path ++ "\n")
  else
    saveScript .default path
    .print ("Wrote " ++ path ++ "\n")

/-- The steps of a command. Reports of series are printed at once, the others line by line. -/
def commandScript (env : Environment) (s : Settings) : Command → Script Unit
  | .income sources display => do .print (← .ofLogged (env.income s sources display))
  | .count dates column display => do .print (← .ofLogged (env.count s dates column display))
  | .total sources listed json => env.totalScript s sources listed json
  | .currency currencies => env.currencyScript s currencies
  | .initConfig => env.initScript

def script (env : Environment) (i : Invocation) : Script Unit := do
  let s ← .ofLogged (.ofExcept (env.settings i.config))
  env.commandScript s i.command

end Environment

def Script.outcome (x : Script Unit) (files : Files) (verbose : Bool) : Environment.Outcome :=
  let events := x.events.filter fun e => verbose || e.level = .info
  match x.result with
  | .ok () => ⟨0, x.output, "", events, x.filesAfter files⟩
  | .error e => ⟨1, x.output, e.toText, events, x.filesAfter files⟩

end TrailingYear
