/-! # Files by path

A path is a list of parts. A part that is empty or a single point leads nowhere else, and a double
point leads back out of a directory. -/

namespace TrailingYear

structure File where
  path : String
  content : List UInt8
  deriving DecidableEq, Repr

/-- Files, and directories that are there even while they hold none. -/
structure Files where
  list : List File
  directories : List String
  deriving DecidableEq, Repr

namespace Files

abbrev Part := List Char

def parts (path : String) : List Part := path.toList.splitOn '/'

def isIdle (part : Part) : Bool := part = [] || part = ['.']

def isParent (part : Part) : Bool := part = ['.', '.']

def steps (path : String) : List Part := (parts path).filter fun part => !isIdle part

def isRooted (path : String) : Bool := path.toList.head? = some '/'

/-- Whether the parts of `place`, last first, lead to a directory from the root of all files or
from where a command is run. Both are directories, and so is what is above them. -/
def isDirectory (files : Files) (rooted : Bool) (place : List Part) : Bool :=
  place.all isParent ||
    files.directories.any (fun d => isRooted d = rooted && place.reverse.isPrefixOf (steps d)) ||
      files.list.any fun f => isRooted f.path = rooted &&
        place.length < (steps f.path).length && place.reverse.isPrefixOf (steps f.path)

def follow (files : Files) (rooted : Bool) (place : List Part) : List Part → Option (List Part)
  | [] => some place
  | part :: rest =>
    if isIdle part then follow files rooted place rest
    else if isParent part && place.any fun step => !isParent step then
      if isDirectory files rooted place then follow files rooted place.tail rest else none
    else follow files rooted (part :: place) rest

def locate (files : Files) (path : String) : Option (Bool × List Part) :=
  (follow files (isRooted path) [] (parts path)).map fun place => (isRooted path, place)

def namesFile (path : String) : Bool :=
  match (parts path).getLast? with
  | some part => !isIdle part
  | none => false

def read? (files : Files) (path : String) : Option (List UInt8) :=
  match locate files path with
  | none => none
  | some place =>
    if namesFile path then
      (files.list.find? fun f => locate files f.path = some place).map (·.content)
    else none

/-- Whether a path leads to a file or a directory. An empty path leads nowhere. -/
def isTaken (files : Files) (path : String) : Bool :=
  (read? files path).isSome ||
    path ≠ "" && (locate files path).any fun (rooted, place) => isDirectory files rooted place

/-- The new content of a file stands before what it may have held. -/
def write (files : Files) (path : String) (content : List UInt8) : Files :=
  { files with list := ⟨path, content⟩ :: files.list }

def join (directory path : String) : String :=
  if directory = "" ∨ directory.toList.getLast? = some '/' then directory ++ path
  else directory ++ "/" ++ path

end Files
end TrailingYear
