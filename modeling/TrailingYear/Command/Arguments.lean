import TrailingYear.Date

/-! # Command lines

A command line names one command. Options stand before and after that name: those of the command
itself only after it, those of all commands at both places. The first argument that does not fit,
or that asks for help, decides. -/

namespace TrailingYear

structure Sources where
  payments : Option String
  rates : Option String
  currencies : Option String
  deriving DecidableEq, Repr

structure Display where
  anchor : Option Date
  json : Bool
  deriving DecidableEq, Repr

inductive Command where
  | income (sources : Sources) (display : Display)
  | count (dates column : String) (display : Display)
  | total (sources : Sources) (listed json : Bool)
  | currency (currencies : Option String)
  | initConfig
  deriving DecidableEq, Repr

structure Invocation where
  config : Option String
  verbose : Bool
  command : Command
  deriving DecidableEq, Repr

inductive Stop where
  | help
  | version
  | misuse
  deriving DecidableEq, Repr

namespace Arguments

inductive Token where
  | plain
  | separator
  | long (name : String) (value : Option String)
  | short (letters : List Char)
  deriving DecidableEq, Repr

def token (arg : String) : Token :=
  match arg.toList with
  | ['-', '-'] => .separator
  | '-' :: '-' :: cs =>
    let name := String.ofList (cs.takeWhile (· ≠ '='))
    match cs.dropWhile (· ≠ '=') with
    | [] => .long name none
    | _ :: value => .long name (some (String.ofList value))
  | '-' :: c :: cs => .short (c :: cs)
  | _ => .plain

structure Options where
  valued : List String
  flags : List String
  deriving DecidableEq, Repr

abbrev Given := List (String × String)

def value? (given : Given) (name : String) : Option String :=
  (given.find? fun option => option.1 = name).map (·.2)

def isGiven (given : Given) (name : String) : Bool := (value? given name).isSome

/-- A day must be readable, and a path must not be empty. -/
def isValue (name value : String) : Bool :=
  if name = "anchor" then (Date.ofSpacedText value).isOk
  else if name = "column" then true
  else value ≠ ""

/-- Each option is given once at each place. -/
def give (given : Given) (name value : String) : Except Stop Given :=
  if isGiven given name then .error .misuse else .ok ((name, value) :: given)

def giveValue (given : Given) (name value : String) : Except Stop Given :=
  if isValue name value then give given name value else .error .misuse

def giveFlag (options : Options) (given : Given) (name : String) : Except Stop Given :=
  if name = "help" then .error .help
  else if name = "version" ∧ name ∈ options.flags then .error .version
  else if name ∈ options.flags then give given name ""
  else .error .misuse

def longName (letter : Char) : String :=
  if letter = 'h' then "help"
  else if letter = 'V' then "version"
  else if letter = 'v' then "verbose"
  else ""

/-- The options of one place as far as they are read. A value that is an argument of its own is
looked at only when the next option is read. -/
structure Reading where
  given : Given
  pending : Option (String × String)
  deriving DecidableEq, Repr

def Reading.settle (r : Reading) : Except Stop Given :=
  match r.pending with
  | none => .ok r.given
  | some (name, value) => giveValue r.given name value

def readOptions (options : Options) (r : Reading) :
    List String → Except Stop (Reading × List String)
  | [] => .ok (r, [])
  | arg :: args =>
    match token arg with
    | .plain | .separator => .ok (r, arg :: args)
    | .short letters => do
      let given ← r.settle
      let given ← letters.foldlM (fun given c => giveFlag options given (longName c)) given
      readOptions options ⟨given, none⟩ args
    | .long name (some value) => do
      if name ∈ options.valued then
        readOptions options ⟨← giveValue (← r.settle) name value, none⟩ args
      else .error .misuse
    | .long name none => do
      let given ← r.settle
      if name ∈ options.valued then
        match args with
        | [] => .error .misuse
        | value :: args =>
          if token value = .plain then readOptions options ⟨given, some (name, value)⟩ args
          else .error .misuse
      else readOptions options ⟨← giveFlag options given name, none⟩ args

def commonOptions : Options := ⟨["config"], ["verbose", "version"]⟩

def commandOptions : List (String × Options) :=
  [("income", ⟨["config", "payments", "rates", "currencies", "anchor"], ["verbose", "json"]⟩),
   ("count", ⟨["config", "dates", "column", "anchor"], ["verbose", "json"]⟩),
   ("total", ⟨["config", "payments", "rates", "currencies"], ["verbose", "list", "json"]⟩),
   ("currency", ⟨["config", "currencies"], ["verbose"]⟩),
   ("init-config", ⟨["config"], ["verbose"]⟩)]

def defaultColumn : String := "creation_date"

def sources (given : Given) : Sources :=
  ⟨value? given "payments", value? given "rates", value? given "currencies"⟩

def display (given : Given) : Display :=
  ⟨(value? given "anchor").bind fun text => (Date.ofSpacedText text).toOption, isGiven given "json"⟩

/-- The command of that name; counting needs a file of dates. -/
def command? (name : String) (given : Given) : Option Command :=
  if name = "income" then some (.income (sources given) (display given))
  else if name = "count" then
    (value? given "dates").map fun dates =>
      .count dates ((value? given "column").getD defaultColumn) (display given)
  else if name = "total" then
    some (.total (sources given) (isGiven given "list") (isGiven given "json"))
  else if name = "currency" then some (.currency (value? given "currencies"))
  else if name = "init-config" then some .initConfig
  else none

/-- Help is given on the whole or on one command, itself included. -/
def readHelp (args : List String) : Stop :=
  match args with
  | [] => .help
  | [name] => if name = "help" ∨ name ∈ commandOptions.map (·.1) then .help else .misuse
  | _ => .misuse

/-- What comes after the name of a command. Options given there count more than
those `before` it. -/
def readCommand (before : Reading) (name : String) (options : Options) (args : List String) :
    Except Stop Invocation := do
  let (after, rest) ← readOptions options ⟨[], none⟩ args
  let given ← after.settle
  if rest ≠ [] ∧ rest ≠ ["--"] then .error .misuse
  let common ← before.settle
  match command? name given with
  | none => .error .misuse
  | some command =>
    return ⟨(value? given "config").orElse fun _ => value? common "config",
      isGiven common "verbose" || isGiven given "verbose", command⟩

def read (args : List String) : Except Stop Invocation := do
  let (before, rest) ← readOptions commonOptions ⟨[], none⟩ args
  match rest with
  | [] => .error .misuse
  | name :: args =>
    if name = "help" then .error (readHelp args)
    else match commandOptions.find? fun entry => entry.1 = name with
      | none => .error .misuse
      | some (_, options) => readCommand before name options args

end Arguments
end TrailingYear
