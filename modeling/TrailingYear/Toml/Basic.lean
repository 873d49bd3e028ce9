import TrailingYear.Text

/-! # TOML documents

A document is a list of statements. They build up a tree of tables, and how a table came into being
decides what may still be added to it. Of floats, dates and times only the form is checked. -/

namespace TrailingYear

/-- A table has a header of its own, or is implied by the header of a table within it, or is made by
the dotted keys of its entries, or is written in one line between braces. -/
inductive TableOrigin where
  | header
  | implied
  | dotted
  | inline
  deriving DecidableEq, Repr

inductive Toml where
  | string (s : String)
  | integer (n : Int)
  | boolean (b : Bool)
  | float
  | moment
  | array (items : List Toml)
  | table (origin : TableOrigin) (entries : List (String × Toml))
  | tables (elements : List (List (String × Toml)))
  deriving Inhabited, Repr

namespace Toml

abbrev Entries := List (String × Toml)

/-- An entry, the header of a table, or the header of one more table of an array. Each is given by
a path and the key after it. -/
inductive Statement where
  | pair (path : List String) (key : String) (value : Toml)
  | table (path : List String) (key : String)
  | element (path : List String) (key : String)
  deriving Repr

end Toml

/-! ## Building the tree of tables

A statement changes the tree at one place, and only as far as the tables on the way there may
still be changed. Each key has one value. -/

namespace Toml

def alter (key : String) (f : Option Toml → Option Toml) : Entries → Option Entries
  | [] => do return [(key, ← f none)]
  | (name, held) :: entries =>
    if name = key then do return (name, ← f (some held)) :: entries
    else do return (name, held) :: (← alter key f entries)

def alterLast (f : Entries → Option Entries) : List Entries → Option (List Entries)
  | [] => none
  | [last] => do return [← f last]
  | element :: elements => do return element :: (← alterLast f elements)

/-- Adds an entry by a path of dotted keys. It makes the tables on the path that are new. Of
the others the last one must have been made in this way, and none may have a header or
braces of its own. -/
def put : List String → String → Toml → Entries → Option Entries
  | [], key, value => alter key fun
    | none => some value
    | some _ => none
  | step :: path, key, value => alter step fun
    | none => (put path key value []).map (.table .dotted)
    | some (.table .dotted inner) => (put path key value inner).map (.table .dotted)
    | some (.table .implied inner) =>
      if path = [] then none else (put path key value inner).map (.table .implied)
    | some (.tables elements) =>
      if path = [] then none else (alterLast (put path key value) elements).map .tables
    | some _ => none

/-- Changes the table that a header names. Tables on the way are implied, and of an array of
tables the last one is meant. -/
def within : List String → (Entries → Option Entries) → Entries → Option Entries
  | [], f => f
  | step :: path, f => alter step fun
    | none => (within path f []).map (.table .implied)
    | some (.table .inline _) => none
    | some (.table origin inner) => (within path f inner).map (.table origin)
    | some (.tables elements) => (alterLast (within path f) elements).map .tables
    | some _ => none

/-- The effect of a header. A table has one header, which may come after those of
tables within it. -/
def openTable (path : List String) (key : String) : Entries → Option Entries :=
  within path (alter key fun
    | none => some (.table .header [])
    | some (.table .implied inner) => some (.table .header inner)
    | some _ => none)

/-- The effect of a header for one more table of an array. -/
def openElement (path : List String) (key : String) : Entries → Option Entries :=
  within path (alter key fun
    | none => some (.tables [[]])
    | some (.tables elements) => some (.tables (elements ++ [[]]))
    | some _ => none)

structure Tree where
  current : List String
  root : Entries

def Tree.add (t : Tree) : Statement → Option Tree
  | .pair path key value => do
      return { t with root := ← within t.current (put path key value) t.root }
  | .table path key => do return ⟨path ++ [key], ← openTable path key t.root⟩
  | .element path key => do return ⟨path ++ [key], ← openElement path key t.root⟩

def build (statements : List Statement) : Option Entries :=
  (statements.foldlM Tree.add ⟨[], []⟩).map (·.root)

def find? (key : String) (entries : Entries) : Option Toml :=
  (entries.find? fun e => e.1 = key).map (·.2)

end Toml

/-! ## Reading TOML strings

A string is read piece by piece up to its closing delimiter. Basic strings stand between quotes
and have escapes; literal ones stand between apostrophes (`\x27`) and have none. Either may run
over several lines if its delimiter is tripled. -/

namespace Toml

inductive Piece where
  | last (text rest : List Char)
  | more (text rest : List Char)
  deriving DecidableEq, Repr

def collect (piece : List Char → Option Piece) : Nat → List Char → Option (List Char × List Char)
  | 0, _ => none
  | fuel + 1, cs =>
    match piece cs with
    | none => none
    | some (.last text rest) => some (text, rest)
    | some (.more text rest) =>
      (collect piece fuel rest).map fun (others, rest) => (text ++ others, rest)

def isGap (c : Char) : Bool := c = ' ' || c = '\t'

def skipGap (cs : List Char) : List Char := cs.dropWhile isGap

def isControl (c : Char) : Bool := (c.toNat < 32 && c != '\t') || c.toNat = 127

def lineEnd? : List Char → Option (List Char)
  | '\n' :: cs => some cs
  | '\r' :: '\n' :: cs => some cs
  | _ => none

def escape? : List Char → Option (Char × List Char)
  | 'b' :: cs => some ('\x08', cs)
  | 't' :: cs => some ('\t', cs)
  | 'n' :: cs => some ('\n', cs)
  | 'f' :: cs => some ('\x0c', cs)
  | 'r' :: cs => some ('\r', cs)
  | '"' :: cs => some ('"', cs)
  | '\\' :: cs => some ('\\', cs)
  | 'u' :: a :: b :: c :: d :: cs => do return (← charOf? (← hexNumber? [a, b, c, d]), cs)
  | 'U' :: a :: b :: c :: d :: e :: f :: g :: h :: cs => do
    return (← charOf? (← hexNumber? [a, b, c, d, e, f, g, h]), cs)
  | _ => none

def escapePiece (cs : List Char) : Option Piece := (escape? cs).map fun (c, rest) => .more [c] rest

def plainPiece (c : Char) (rest : List Char) : Option Piece :=
  if isControl c then none else some (.more [c] rest)

def basicPiece : List Char → Option Piece
  | [] => none
  | '"' :: rest => some (.last [] rest)
  | '\\' :: rest => escapePiece rest
  | c :: rest => plainPiece c rest

def literalPiece : List Char → Option Piece
  | [] => none
  | '\x27' :: rest => some (.last [] rest)
  | c :: rest => plainPiece c rest

/-- Up to two more quotes before the closing three belong to the text. -/
def closing (q : Char) (rest : List Char) : Piece :=
  match rest with
  | a :: b :: cs =>
    if a = q then if b = q then .last [q, q] cs else .last [q] (b :: cs)
    else .last [] rest
  | [a] => if a = q then .last [q] [] else .last [] rest
  | [] => .last [] []

def skipSpace : List Char → List Char
  | [] => []
  | '\r' :: '\n' :: cs => skipSpace cs
  | c :: cs => if isGap c || c = '\n' then skipSpace cs else c :: cs

/-- A backslash at the end of a line joins it to what comes after all blank space. -/
def joinLines? (cs : List Char) : Option (List Char) := (lineEnd? (skipGap cs)).map skipSpace

def multiBasicPiece : List Char → Option Piece
  | [] => none
  | '"' :: '"' :: '"' :: rest => some (closing '"' rest)
  | '\\' :: rest =>
    match joinLines? rest with
    | some rest => some (.more [] rest)
    | none => escapePiece rest
  | c :: rest =>
    match lineEnd? (c :: rest) with
    | some rest => some (.more ['\n'] rest)
    | none => plainPiece c rest

def multiLiteralPiece : List Char → Option Piece
  | [] => none
  | '\x27' :: '\x27' :: '\x27' :: rest => some (closing '\x27' rest)
  | c :: rest =>
    match lineEnd? (c :: rest) with
    | some rest => some (.more ['\n'] rest)
    | none => plainPiece c rest

/-- A line end right after the opening quotes is no part of the text. -/
def skipLineEnd (cs : List Char) : List Char := (lineEnd? cs).getD cs

def collectAll (piece : List Char → Option Piece) (cs : List Char) :
    Option (List Char × List Char) :=
  collect piece (cs.length + 1) cs

def readBasic (cs : List Char) : Option (List Char × List Char) := collectAll basicPiece cs
def readLiteral (cs : List Char) : Option (List Char × List Char) := collectAll literalPiece cs

def readString : List Char → Option (List Char × List Char)
  | '"' :: '"' :: '"' :: cs => collectAll multiBasicPiece (skipLineEnd cs)
  | '"' :: cs => readBasic cs
  | '\x27' :: '\x27' :: '\x27' :: cs => collectAll multiLiteralPiece (skipLineEnd cs)
  | '\x27' :: cs => readLiteral cs
  | _ => none

end Toml

/-! ## The text of TOML strings

A string is written in the plainest form that can hold it without escapes: between quotes, between
apostrophes (`\x27`), or between three of either. If there is none, it is escaped. -/

namespace Toml

/-- The length of the longest run of `c`; `n` of them stand just before the text. -/
def longestRun (c : Char) (n : Nat) : List Char → Nat
  | [] => n
  | d :: cs => if d = c then longestRun c (n + 1) cs else max n (longestRun c 0 cs)

def needsEscape (cs : List Char) : Bool := cs.any fun c => isControl c && c != '\n'

inductive Form where
  | basic
  | literal
  | multiBasic
  | multiLiteral
  deriving DecidableEq, Repr

def Form.holdsPlainly (cs : List Char) : Form → Bool
  | .basic => !cs.contains '\\' && !needsEscape cs && !cs.contains '"' && !cs.contains '\n'
  | .literal => !needsEscape cs && !cs.contains '\x27' && !cs.contains '\n'
  | .multiBasic => !needsEscape cs && !cs.contains '\\' && longestRun '"' 0 cs ≤ 2
  | .multiLiteral => !needsEscape cs && longestRun '\x27' 0 cs ≤ 2

/-- The first form that holds the text plainly, or else a basic form for its number of lines. -/
def formOf (cs : List Char) : Form :=
  (([.basic, .literal, .multiBasic, .multiLiteral] : List Form).find? (·.holdsPlainly cs)).getD
    (if cs.contains '\n' then .multiBasic else .basic)

def upperHexDigit (n : Nat) : Char := (hexDigit n).toUpper

def escaped (c : Char) : List Char :=
  if c = '\\' then ['\\', '\\']
  else if c = '\t' then ['\\', 't']
  else if c = '\r' then ['\\', 'r']
  else if c.toNat = 8 then ['\\', 'b']
  else if c.toNat = 12 then ['\\', 'f']
  else if isControl c then
    ['\\', 'u', '0', '0', upperHexDigit (c.toNat / 16), upperHexDigit (c.toNat % 16)]
  else [c]

def basicBody (cs : List Char) : List Char :=
  cs.flatMap fun c => if c = '"' then ['\\', '"'] else if c = '\n' then ['\\', 'n'] else escaped c

/-- The body of a basic string of several lines, after `n` quotes. Every third quote is escaped. -/
def multiBasicBody (n : Nat) : List Char → List Char
  | [] => []
  | c :: cs =>
    if c = '"' then
      if n < 2 then '"' :: multiBasicBody (n + 1) cs else '\\' :: '"' :: multiBasicBody 0 cs
    else if c = '\n' then '\n' :: multiBasicBody 0 cs
    else escaped c ++ multiBasicBody 0 cs

/-- The body of a string of several lines starts with a line end of its own. -/
def ownLine (cs : List Char) : List Char := if cs.contains '\n' then ['\n'] else []

def quoteIn (cs : List Char) : Form → List Char
  | .basic => '"' :: basicBody cs ++ ['"']
  | .literal => '\x27' :: cs ++ ['\x27']
  | .multiBasic => '"' :: '"' :: '"' :: ownLine cs ++ multiBasicBody 0 cs ++ ['"', '"', '"']
  | .multiLiteral => '\x27' :: '\x27' :: '\x27' :: ownLine cs ++ cs ++ ['\x27', '\x27', '\x27']

def quote (text : String) : String := String.ofList (quoteIn text.toList (formOf text.toList))

end Toml

end TrailingYear
