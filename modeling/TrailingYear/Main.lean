import Std.Time.Zoned
import TrailingYear.Command.Script

/-! # The program

The files that a command may read are read before it is run. Then its steps are taken
one after the other. -/

namespace TrailingYear

def readFile? (path : String) : IO (Option File) := do
  try
    let content ← IO.FS.readBinFile path
    return some ⟨path, content.toList⟩
  catch _ => return none

/-- Whether there is something at a path that cannot be read as a file. -/
def isUnreadable (path : String) : IO Bool := do
  if (← readFile? path).isSome then return false
  try
    discard <| IO.FS.realPath path
    return true
  catch _ => return false

def addFiles (files : Files) (paths : List String) : IO Files := do
  let found ← paths.filterMapM readFile?
  let unreadable ← paths.filterM isUnreadable
  return ⟨files.list ++ found, files.directories ++ unreadable⟩

/-- The current day in a time zone, or the epoch if the zone has no rules here. -/
def currentDay (zone : String) : IO Date := do
  try
    let now := (← Std.Time.DateTime.nowAt zone).toPlainDate
    return .ofParts now.year now.month.val.toNat now.day.val.toNat
  catch _ => return .epoch

def observe (home : Option String) (args : List String) : IO Environment := do
  let noFiles : Environment := ⟨⟨[], home.toList⟩, home, .epoch⟩
  match Arguments.read args with
  | .error _ => return noFiles
  | .ok i =>
    let files ← addFiles noFiles.files (noFiles.settingsPath.toOption.toList ++ i.config.toList)
    let env := { noFiles with files }
    match env.settings i.config with
    | .error _ => return env
    | .ok s =>
      return ⟨← addFiles files (Environment.inputs s i.command), home, ← currentDay s.timeZone⟩

def saveFile (f : File) : IO Unit := do
  let directory := "/".intercalate ((f.path.splitOn "/").dropLast)
  if directory ≠ "" then IO.FS.createDirAll directory
  IO.FS.writeBinFile f.path (ByteArray.mk f.content.toArray)

def perform (verbose : Bool) : Effect → IO Unit
  | .log e => if verbose || e.level = .info then IO.eprintln e.line else pure ()
  | .print text => IO.print text
  | .write path content => saveFile ⟨path, content⟩

def runProgram (args : List String) : IO UInt32 := do
  let env ← observe (← IO.getEnv "HOME") args
  match Arguments.read args with
  | .error s =>
    let outcome := env.stop s
    IO.print outcome.output
    IO.eprint outcome.errors
    return outcome.exitCode.toUInt32
  | .ok i =>
    let script := env.script i
    for e in script.effects do perform i.verbose e
    match script.result with
    | .ok () => return 0
    | .error e =>
      IO.eprint e.toText
      return 1

end TrailingYear

def main (args : List String) : IO UInt32 := TrailingYear.runProgram args
