import TrailingYear.Decimal.Text
import TrailingYear.Text

/-! # JSON values

A number is a mantissa times a power of ten, as it was written. The members of an
object stand in order. -/

namespace TrailingYear

inductive Json where
  | null
  | bool (value : Bool)
  | number (mantissa exponent : Int)
  | string (text : String)
  | array (items : List Json)
  | object (members : List (String × Json))
  deriving Inhabited, Repr

namespace Json

/-- The value of a name, if it has one. A name that occurs twice has no meaning. -/
def member? (members : List (String × Json)) (name : String) : Option (Option Json) :=
  match members.filter fun m => m.1 = name with
  | [] => some none
  | [m] => some (some m.2)
  | _ => none

/-- The values of a record's fields, from an object or from an array of just as many items. -/
def fields? (names : List String) : Json → Option (List (Option Json))
  | .object members => names.mapM (member? members)
  | .array items => if items.length = names.length then some (items.map some) else none
  | _ => none

end Json

/-! ## The text of JSON values

Each item and each member stands on a line of its own, two blanks deeper than what holds it. Quotes,
backslashes and control characters are escaped, and nothing else. -/

namespace Json

def escape (c : Char) : List Char :=
  if c = '"' then ['\\', '"']
  else if c = '\\' then ['\\', '\\']
  else if c = '\n' then ['\\', 'n']
  else if c = '\r' then ['\\', 'r']
  else if c = '\t' then ['\\', 't']
  else if c.toNat = 8 then ['\\', 'b']
  else if c.toNat = 12 then ['\\', 'f']
  else if c.toNat < 32 then ['\\', 'u', '0', '0', hexDigit (c.toNat / 16), hexDigit (c.toNat % 16)]
  else [c]

def quoted (text : String) : List Char := '"' :: text.toList.flatMap escape ++ ['"']

def intChars (n : Int) : List Char :=
  if n < 0 then '-' :: natDigits n.natAbs else natDigits n.natAbs

def newLine (depth : Nat) : List Char := '\n' :: List.replicate (2 * depth) ' '

mutual

def toChars (depth : Nat) : Json → List Char
  | .null => ['n', 'u', 'l', 'l']
  | .bool true => ['t', 'r', 'u', 'e']
  | .bool false => ['f', 'a', 'l', 's', 'e']
  | .number m e => if e = 0 then intChars m else intChars m ++ 'e' :: intChars e
  | .string text => quoted text
  | .array [] => ['[', ']']
  | .array (item :: items) =>
    '[' :: newLine (depth + 1) ++ toChars (depth + 1) item ++ itemsToChars depth items
  | .object [] => ['\x7b', '\x7d']
  | .object (member :: members) =>
    '\x7b' :: newLine (depth + 1) ++ memberToChars (depth + 1) member ++
      membersToChars depth members

def itemsToChars (depth : Nat) : List Json → List Char
  | [] => newLine depth ++ [']']
  | item :: items =>
    ',' :: newLine (depth + 1) ++ toChars (depth + 1) item ++ itemsToChars depth items

def memberToChars (depth : Nat) : String × Json → List Char
  | (name, value) => quoted name ++ ':' :: ' ' :: toChars depth value

def membersToChars (depth : Nat) : List (String × Json) → List Char
  | [] => newLine depth ++ ['\x7d']
  | member :: members =>
    ',' :: newLine (depth + 1) ++ memberToChars (depth + 1) member ++ membersToChars depth members

end

def toText (j : Json) : String := String.ofList (j.toChars 0)

end Json

/-! ## Reading JSON text

Each reader takes what it reads off the front and gives the rest. Values lie within one another at
most as deeply as the text is long, so its length is enough fuel. -/

namespace Json

def skipBlanks (cs : List Char) : List Char :=
  cs.dropWhile fun c => c = ' ' || c = '\n' || c = '\r' || c = '\t'

def escaped? (c : Char) : Option Char :=
  if c = '"' || c = '\\' || c = '/' then some c
  else if c = 'n' then some '\n'
  else if c = 'r' then some '\r'
  else if c = 't' then some '\t'
  else if c = 'b' then some '\x08'
  else if c = 'f' then some '\x0c'
  else none

/-- The text up to the closing quote. A character outside the first plane is
written as two units. -/
def readQuoted : List Char → Option (List Char × List Char)
  | [] => none
  | '"' :: cs => some ([], cs)
  | '\\' :: 'u' :: a :: b :: c :: d :: cs => do
    let unit ← hexNumber? [a, b, c, d]
    if 0xD800 ≤ unit ∧ unit < 0xDC00 then
      match cs with
      | '\\' :: 'u' :: a :: b :: c :: d :: cs => do
        let low ← hexNumber? [a, b, c, d]
        if 0xDC00 ≤ low ∧ low < 0xE000 then
          let (text, rest) ← readQuoted cs
          return ((← charOf? (0x10000 + (unit - 0xD800) * 0x400 + (low - 0xDC00))) :: text, rest)
        else none
      | _ => none
    else
      let (text, rest) ← readQuoted cs
      return ((← charOf? unit) :: text, rest)
  | '\\' :: c :: cs => do
    let (text, rest) ← readQuoted cs
    return ((← escaped? c) :: text, rest)
  | c :: cs => do
    if c.toNat < 32 ∨ c = '\\' then none
    let (text, rest) ← readQuoted cs
    return (c :: text, rest)

def spanDigits (cs : List Char) : List Char × List Char := cs.span Char.isDigit

def natOf (digits : List Char) : Nat := digits.foldl (fun n c => n * 10 + ((digit? c).getD 0)) 0

def readPlaces : List Char → Option (List Char × List Char)
  | '.' :: cs =>
    let (places, rest) := spanDigits cs
    if places = [] then none else some (places, rest)
  | cs => some ([], cs)

def readExponentDigits (cs : List Char) : Option (Nat × List Char) :=
  let (digits, rest) := spanDigits cs
  if digits = [] then none else some (natOf digits, rest)

def readExponent : List Char → Option (Int × List Char)
  | 'e' :: '-' :: cs | 'E' :: '-' :: cs =>
    (readExponentDigits cs).map fun (n, rest) => (-(n : Int), rest)
  | 'e' :: '+' :: cs | 'E' :: '+' :: cs =>
    (readExponentDigits cs).map fun (n, rest) => ((n : Int), rest)
  | 'e' :: cs | 'E' :: cs => (readExponentDigits cs).map fun (n, rest) => ((n : Int), rest)
  | cs => some (0, cs)

def readUnsigned (cs : List Char) : Option (Nat × Int × List Char) := do
  let (whole, rest) := spanDigits cs
  if whole = [] ∨ whole.head? = some '0' ∧ whole ≠ ['0'] then none
  let (places, rest) ← readPlaces rest
  let (exponent, rest) ← readExponent rest
  return (natOf (whole ++ places), exponent - places.length, rest)

def readNumber : List Char → Option (Json × List Char)
  | '-' :: cs => (readUnsigned cs).map fun (n, e, rest) => (.number (-(n : Int)) e, rest)
  | cs => (readUnsigned cs).map fun (n, e, rest) => (.number n e, rest)

def readScalar : List Char → Option (Json × List Char)
  | '"' :: cs => (readQuoted cs).map fun (text, rest) => (.string (String.ofList text), rest)
  | 'n' :: 'u' :: 'l' :: 'l' :: cs => some (.null, cs)
  | 't' :: 'r' :: 'u' :: 'e' :: cs => some (.bool true, cs)
  | 'f' :: 'a' :: 'l' :: 's' :: 'e' :: cs => some (.bool false, cs)
  | cs => readNumber cs

def readName (cs : List Char) : Option (String × List Char) :=
  match skipBlanks cs with
  | '"' :: cs => do
    let (name, rest) ← readQuoted cs
    match skipBlanks rest with
    | ':' :: rest => some (String.ofList name, rest)
    | _ => none
  | _ => none

mutual

def readValue : Nat → List Char → Option (Json × List Char)
  | 0, _ => none
  | fuel + 1, cs =>
    match skipBlanks cs with
    | '[' :: cs =>
      match skipBlanks cs with
      | ']' :: rest => some (.array [], rest)
      | cs => do
        let (item, rest) ← readValue fuel cs
        let (items, rest) ← readItems fuel rest
        return (.array (item :: items), rest)
    | '\x7b' :: cs =>
      match skipBlanks cs with
      | '\x7d' :: rest => some (.object [], rest)
      | cs => do
        let (name, rest) ← readName cs
        let (value, rest) ← readValue fuel rest
        let (members, rest) ← readMembers fuel rest
        return (.object ((name, value) :: members), rest)
    | cs => readScalar cs

def readItems : Nat → List Char → Option (List Json × List Char)
  | 0, _ => none
  | fuel + 1, cs =>
    match skipBlanks cs with
    | ']' :: rest => some ([], rest)
    | ',' :: cs => do
      let (item, rest) ← readValue fuel cs
      let (items, rest) ← readItems fuel rest
      return (item :: items, rest)
    | _ => none

def readMembers : Nat → List Char → Option (List (String × Json) × List Char)
  | 0, _ => none
  | fuel + 1, cs =>
    match skipBlanks cs with
    | '\x7d' :: rest => some ([], rest)
    | ',' :: cs => do
      let (name, rest) ← readName cs
      let (value, rest) ← readValue fuel rest
      let (members, rest) ← readMembers fuel rest
      return ((name, value) :: members, rest)
    | _ => none

end

def ofChars? (cs : List Char) : Option Json := do
  let (value, rest) ← readValue (cs.length + 1) cs
  if skipBlanks rest = [] then some value else none

def ofText? (text : String) : Option Json := ofChars? text.toList

end Json

end TrailingYear
