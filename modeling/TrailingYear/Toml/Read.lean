import TrailingYear.Date
import TrailingYear.Decimal.Text
import TrailingYear.Text
import TrailingYear.Toml.Basic

/-! # Reading TOML text

Each reader takes what it reads off the front and gives the rest. The length of the text is enough
fuel; how deeply values lie within one another is limited apart from that. -/

namespace TrailingYear

/-! ## Numbers, dates and times

Integers have 64 bits. Single underscores may stand between digits, and only the plain number zero
starts with a zero. -/

namespace Toml

def isSign (c : Char) : Bool := c = '+' || c = '-'

def splitSign : List Char → Option Char × List Char
  | [] => (none, [])
  | c :: cs => if isSign c then (some c, cs) else (none, c :: cs)

/-- One or more digits with single underscores between them. -/
def readRun (isDigit : Char → Bool) : List Char → Option (List Char × List Char)
  | [] => none
  | c :: cs =>
    if isDigit c then
      match cs with
      | [] => some ([c], [])
      | '_' :: cs => (readRun isDigit cs).map fun (digits, rest) => (c :: digits, rest)
      | d :: ds =>
        if isDigit d then (readRun isDigit (d :: ds)).map fun (digits, rest) => (c :: digits, rest)
        else some ([c], d :: ds)
    else none

def isDecimalDigit (c : Char) : Bool := '0' ≤ c && c ≤ '9'

def natIn (base : Nat) (digits : List Char) : Nat :=
  digits.foldl (fun n c => n * base + (hexValue? c).getD 0) 0

def readWhole : List Char → Option (List Char × List Char)
  | '0' :: cs => some (['0'], cs)
  | cs => readRun isDecimalDigit cs

abbrev integerLimit : Int := 9223372036854775808

def integer? (n : Int) (rest : List Char) : Option (Toml × List Char) :=
  if -integerLimit ≤ n ∧ n < integerLimit then some (.integer n, rest) else none

/-- Whether `m * 10 ^ e` is rounded to infinity as a double. Beyond 400 places no
computation is needed. -/
def overflowsDouble (m : Nat) (e : Int) : Bool :=
  let least := Nat.pow 2 1024 - Nat.pow 2 970
  if m = 0 then false
  else if 0 ≤ e then 400 < e || least ≤ m * tenTo e.toNat
  else if (natDigits m).length < (-e).toNat then false
  else least * tenTo (-e).toNat ≤ m

def readPlaces : List Char → Option (List Char × List Char)
  | '.' :: cs => readRun isDecimalDigit cs
  | cs => some ([], cs)

def readExponent : List Char → Option (Int × List Char)
  | [] => some (0, [])
  | c :: cs =>
    if c = 'e' ∨ c = 'E' then
      let (sign, cs) := splitSign cs
      (readRun isDecimalDigit cs).map fun (digits, rest) =>
        (if sign = some '-' then -(natIn 10 digits : Int) else natIn 10 digits, rest)
    else some (0, c :: cs)

/-- The places and the exponent that make a number a float. Only positive floats
may not overflow. -/
def readFloat (sign : Option Char) (whole cs : List Char) : Option (Toml × List Char) := do
  let (places, rest) ← readPlaces cs
  let (exponent, rest) ← readExponent rest
  let mantissa := natIn 10 (whole ++ places)
  if sign ≠ some '-' ∧ overflowsDouble mantissa (exponent - places.length) then none
  return (.float, rest)

def startsFloat : List Char → Bool
  | '.' :: _ | 'e' :: _ | 'E' :: _ => true
  | _ => false

def readSigned (cs : List Char) : Option (Toml × List Char) := do
  let (sign, unsigned) := splitSign cs
  match unsigned with
  | 'i' :: 'n' :: 'f' :: rest => return (.float, rest)
  | 'n' :: 'a' :: 'n' :: rest => return (.float, rest)
  | _ =>
    let (whole, rest) ← readWhole unsigned
    if startsFloat rest then readFloat sign whole rest
    else integer? (if sign = some '-' then -(natIn 10 whole : Int) else natIn 10 whole) rest

def readBased (base : Nat) (isDigit : Char → Bool) (cs : List Char) :
    Option (Toml × List Char) := do
  let (digits, rest) ← readRun isDigit cs
  integer? (natIn base digits) rest

def readNumber : List Char → Option (Toml × List Char)
  | '0' :: 'x' :: cs => readBased 16 (fun c => (hexValue? c).isSome) cs
  | '0' :: 'o' :: cs => readBased 8 (fun c => '0' ≤ c && c ≤ '7') cs
  | '0' :: 'b' :: cs => readBased 2 (fun c => c = '0' || c = '1') cs
  | cs => readSigned cs

def readFixed (width : Nat) (cs : List Char) : Option (Nat × List Char) :=
  let digits := cs.take width
  if digits.length = width ∧ digits.all isDecimalDigit then some (natIn 10 digits, cs.drop width)
  else none

def readPart (least most : Nat) (cs : List Char) : Option (Nat × List Char) := do
  let (n, rest) ← readFixed 2 cs
  if least ≤ n ∧ n ≤ most then some (n, rest) else none

def skipChar (c : Char) : List Char → Option (List Char)
  | [] => none
  | d :: cs => if d = c then some cs else none

def readDate (cs : List Char) : Option (List Char) := do
  let (year, cs) ← readFixed 4 cs
  let (month, cs) ← readPart 1 12 (← skipChar '-' cs)
  let (_, cs) ← readPart 1 (monthLength year month) (← skipChar '-' cs)
  return cs

/-- A time of day; a minute may have a leap second. -/
def readTime (cs : List Char) : Option (List Char) := do
  let (_, cs) ← readPart 0 23 cs
  let (_, cs) ← readPart 0 59 (← skipChar ':' cs)
  let (_, cs) ← readPart 0 60 (← skipChar ':' cs)
  match cs with
  | '.' :: places =>
    if (places.takeWhile isDecimalDigit).isEmpty then none
    else return places.dropWhile isDecimalDigit
  | _ => return cs

def skipOffset : List Char → Option (List Char)
  | [] => some []
  | c :: cs =>
    if c = 'Z' ∨ c = 'z' then some cs
    else if isSign c then do
      let (_, cs) ← readPart 0 23 cs
      let (_, cs) ← readPart 0 59 (← skipChar ':' cs)
      return cs
    else some (c :: cs)

def readMoment (cs : List Char) : Option (List Char) :=
  match readDate cs with
  | none => readTime cs
  | some rest =>
    match rest with
    | c :: time =>
      if c = 'T' ∨ c = 't' ∨ c = ' ' then
        match readTime time with
        | some rest => skipOffset rest
        | none => some rest
      else some rest
    | [] => some []

end Toml

/-! ## Values and statements -/

namespace Toml

/-- Values lie within fewer arrays and braces than this, and paths have fewer keys. -/
abbrev depthLimit : Nat := 80

def isBareKeyChar (c : Char) : Bool := c.isAlphanum || c = '_' || c = '-'

def readKey (cs : List Char) : Option (String × List Char) := do
  let (key, rest) ← match skipGap cs with
    | '"' :: cs => readBasic cs
    | '\x27' :: cs => readLiteral cs
    | cs =>
      if (cs.takeWhile isBareKeyChar).isEmpty then none
      else some (cs.takeWhile isBareKeyChar, cs.dropWhile isBareKeyChar)
  return (String.ofList key, skipGap rest)

def readKeys : Nat → List Char → Option (List String × List Char)
  | 0, _ => none
  | fuel + 1, cs => do
    let (key, rest) ← readKey cs
    match rest with
    | '.' :: rest =>
      let (keys, rest) ← readKeys fuel rest
      return (key :: keys, rest)
    | _ => return ([key], rest)

def readPath (cs : List Char) : Option (List String × String × List Char) := do
  let (keys, rest) ← readKeys (cs.length + 1) cs
  if keys.length < depthLimit then return (keys.dropLast, ← keys.getLast?, rest) else none

def readAssigned (cs : List Char) : Option (List String × String × List Char) := do
  match ← readPath cs with
  | (path, key, '=' :: rest) => return (path, key, skipGap rest)
  | _ => none

def skipFiller (inComment : Bool) : List Char → Option (List Char)
  | [] => if inComment then none else some []
  | '\n' :: cs => skipFiller false cs
  | '\r' :: '\n' :: cs => skipFiller false cs
  | c :: cs =>
    if inComment then if isControl c then none else skipFiller true cs
    else if isGap c then skipFiller false cs
    else if c = '#' then skipFiller true cs
    else some (c :: cs)

def readScalar (cs : List Char) : Option (Toml × List Char) :=
  match cs with
  | 't' :: 'r' :: 'u' :: 'e' :: rest => some (.boolean true, rest)
  | 'f' :: 'a' :: 'l' :: 's' :: 'e' :: rest => some (.boolean false, rest)
  | c :: _ =>
    if c = '"' ∨ c = '\x27' then
      (readString cs).map fun (s, rest) => (.string (String.ofList s), rest)
    else match readMoment cs with
      | some rest => some (.moment, rest)
      | none => readNumber cs
  | [] => none

def inlineTable (pairs : List (List String × String × Toml)) : Option Toml :=
  (pairs.foldlM (fun entries (path, key, value) => put path key value entries) []).map
    (.table .inline)

mutual

/-- Reads a value that may have `room` more values around one another within it. -/
def readValue : Nat → Nat → List Char → Option (Toml × List Char)
  | 0, _, _ => none
  | fuel + 1, room, cs =>
    match cs with
    | '[' :: cs => do
      if room = 0 then none
      match ← skipFiller false cs with
      | ']' :: rest => return (.array [], rest)
      | cs =>
        let (items, rest) ← readItems fuel (room - 1) cs
        return (.array items, rest)
    | '\x7b' :: cs => do
      if room = 0 then none
      match skipGap cs with
      | '\x7d' :: rest => return (← inlineTable [], rest)
      | cs =>
        let (pairs, rest) ← readPairs fuel (room - 1) cs
        return (← inlineTable pairs, rest)
    | cs => readScalar cs

def readItems : Nat → Nat → List Char → Option (List Toml × List Char)
  | 0, _, _ => none
  | fuel + 1, room, cs => do
    let (item, rest) ← readValue fuel room cs
    match ← skipFiller false rest with
    | ']' :: rest => return ([item], rest)
    | ',' :: rest =>
      match ← skipFiller false rest with
      | ']' :: rest => return ([item], rest)
      | cs =>
        let (items, rest) ← readItems fuel room cs
        return (item :: items, rest)
    | _ => none

def readPairs : Nat → Nat → List Char → Option (List (List String × String × Toml) × List Char)
  | 0, _, _ => none
  | fuel + 1, room, cs => do
    let (path, key, rest) ← readAssigned cs
    let (value, rest) ← readValue fuel room rest
    match skipGap rest with
    | '\x7d' :: rest => return ([(path, key, value)], rest)
    | ',' :: rest =>
      let (pairs, rest) ← readPairs fuel room rest
      return ((path, key, value) :: pairs, rest)
    | _ => none

end

def readLineEnd (cs : List Char) : Option (List Char) :=
  let rest := match skipGap cs with
    | '#' :: comment => comment.dropWhile fun c => !isControl c
    | rest => rest
  if rest = [] then some [] else lineEnd? rest

def readPair (cs : List Char) : Option (Statement × List Char) := do
  let (path, key, rest) ← readAssigned cs
  let (value, rest) ← readValue (rest.length + 1) (depthLimit - 1) rest
  return (.pair path key value, ← readLineEnd rest)

def readHeader (cs : List Char) : Option (Statement × List Char) := do
  match ← readPath cs with
  | (path, key, ']' :: rest) => return (.table path key, ← readLineEnd rest)
  | _ => none

def readElementHeader (cs : List Char) : Option (Statement × List Char) := do
  match ← readPath cs with
  | (path, key, ']' :: ']' :: rest) => return (.element path key, ← readLineEnd rest)
  | _ => none

def isLineStart (c : Char) : Bool := c = '#' || c = '\n' || c = '\r'

def readStatements : Nat → List Char → Option (List Statement)
  | 0, _ => none
  | fuel + 1, cs =>
    match skipGap cs with
    | [] => some []
    | c :: cs =>
      if isLineStart c then do readStatements fuel (← readLineEnd (c :: cs))
      else do
        let (statement, rest) ← match c, cs with
          | '[', '[' :: cs => readElementHeader cs
          | '[', cs => readHeader cs
          | c, cs => readPair (c :: cs)
        return statement :: (← readStatements fuel rest)

def skipMark : List Char → List Char
  | '\uFEFF' :: cs => cs
  | cs => cs

def ofChars? (cs : List Char) : Option Entries := do
  build (← readStatements (cs.length + 1) (skipMark cs))

def ofText? (text : String) : Option Entries := ofChars? text.toList

end Toml

end TrailingYear
