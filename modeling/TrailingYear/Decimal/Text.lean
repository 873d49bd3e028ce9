import TrailingYear.Decimal.Basic

/-! # The text of decimals

A decimal is written with all its places. Reading is more liberal: a sign, a point, and underscores
after digits. Digits that no longer fit are rounded away, half away from zero. -/

namespace TrailingYear

def padZeros (width : Nat) (digits : List Char) : List Char :=
  List.replicate (width - digits.length) '0' ++ digits

def padBlanks (width : Nat) (text : String) : String :=
  String.ofList (List.replicate (width - text.length) ' ' ++ text.toList)

def natDigits (n : Nat) : List Char := Nat.toDigits 10 n

def digit? (c : Char) : Option Nat :=
  if '0' ≤ c ∧ c ≤ '9' then some (c.toNat - '0'.toNat) else none

inductive DecimalError where
  | empty
  | noDigits
  | twoPoints
  | leadingSeparator
  | unknownCharacter
  | tooManyDigits
  | roundedTooFar
  deriving DecidableEq, Repr

def DecimalError.message : DecimalError → String
  | .empty => "Invalid decimal: empty"
  | .noDigits => "Invalid decimal: no digits found"
  | .twoPoints => "Invalid decimal: two decimal points"
  | .leadingSeparator => "Invalid decimal: must start lead with a number"
  | .unknownCharacter => "Invalid decimal: unknown character"
  | .tooManyDigits => "Invalid decimal: overflow from too many digits"
  | .roundedTooFar => "Invalid decimal: overflow from mantissa after rounding"

def DecimalError.ofCharacter (c : Char) : DecimalError :=
  if c = '.' then .twoPoints else if c = '_' then .leadingSeparator else .unknownCharacter

namespace Decimal

def toChars (d : Decimal) : List Char :=
  let digits := padZeros (d.scale + 1) (natDigits d.magnitude)
  let whole := digits.take (digits.length - d.scale)
  let places := digits.drop (digits.length - d.scale)
  (if d.negative then ['-'] else []) ++ whole ++ if d.scale = 0 then [] else '.' :: places

def toText (d : Decimal) : String := String.ofList d.toChars

def appendDigit? (d : Decimal) (digit : Nat) : Option Decimal :=
  ofParts? (d.mantissa * 10 + digit) d.scale

def appendPlace? (d : Decimal) (digit : Nat) : Option Decimal :=
  ofParts? (d.mantissa * 10 + digit) (d.scale + 1)

/-- One unit more in the last place. If it no longer fits there, the last place is given up. -/
def stepUp? (d : Decimal) : Option Decimal :=
  (ofParts? (d.mantissa + 1) d.scale).orElse fun _ =>
    if d.scale = 0 then none else ofParts? ((d.mantissa + 5) / 10) (d.scale - 1)

/-- After the digit that decides the rounding there may be more digits, which have no effect. -/
def ignoring (d : Decimal) (cs : List Char) : Except DecimalError Decimal :=
  match cs.find? fun c => (digit? c).isNone && c != '_' with
  | some c => .error (.ofCharacter c)
  | none => .ok d

def roundBy (d : Decimal) (cs : List Char) : Except DecimalError Decimal :=
  match cs.dropWhile (· = '_') with
  | [] => .ok d
  | c :: rest =>
    match digit? c with
    | none => .error (.ofCharacter c)
    | some n =>
      if n < 5 then d.ignoring rest
      else match d.stepUp? with
        | some e => e.ignoring rest
        | none => .error .roundedTooFar

def readPlaces (d : Decimal) (seen : Bool) : List Char → Except DecimalError Decimal
  | [] => if seen then .ok d else .error .noDigits
  | c :: cs =>
    if d.scale = maxScale then d.roundBy (c :: cs)
    else match digit? c with
      | some n => match d.appendPlace? n with
        | some e => readPlaces e true cs
        | none => d.roundBy (c :: cs)
      | none => if c = '_' ∧ seen then readPlaces d seen cs else .error (.ofCharacter c)

def readWhole (d : Decimal) (seen : Bool) : List Char → Except DecimalError Decimal
  | [] => if seen then .ok d else .error .noDigits
  | c :: cs =>
    match digit? c with
    | some n => match d.appendDigit? n with
      | some e => readWhole e true cs
      | none => .error .tooManyDigits
    | none =>
      if c = '.' then readPlaces d seen cs
      else if c = '_' ∧ seen then readWhole d seen cs
      else .error (.ofCharacter c)

def ofChars : List Char → Except DecimalError Decimal
  | [] => .error .empty
  | '-' :: cs => (readWhole zero false cs).map neg
  | '+' :: cs => readWhole zero false cs
  | cs => readWhole zero false cs

def ofText (text : String) : Except DecimalError Decimal := ofChars text.toList

end Decimal

/-! ## Scientific notation

A decimal followed by `e` and the power of ten to multiply it by, from -28 to 28. Places that do
not fit are rounded away, half away from zero. -/

namespace Decimal

def exponentDigits? (cs : List Char) : Option Nat :=
  let digits := if cs.head? = some '+' then cs.tail else cs
  if digits = [] then none
  else digits.foldlM (fun n c => (digit? c).map fun k => n * 10 + k) 0

def scaledUp? (d : Decimal) (power : Nat) : Option Decimal :=
  if power ≤ d.scale then ofParts? d.mantissa (d.scale - power)
  else if power ≤ maxScale then ofParts? (d.mantissa * tenTo (power - d.scale)) 0
  else none

def roundUpDiv (n d : Nat) : Nat := (2 * n + d) / (2 * d)

/-- What is rounded to zero keeps its sign. -/
def scaledDown? (d : Decimal) (power : Nat) : Option Decimal :=
  if maxScale < power then none
  else if d.scale + power ≤ maxScale then ofParts? d.mantissa (d.scale + power)
  else
    (ofParts? (roundUpDiv d.magnitude (tenTo (d.scale + power - maxScale))) maxScale).map
      (withSign d.negative)

def isExponentMark (c : Char) : Bool := c = 'e' || c = 'E'

def ofScientific? (cs : List Char) : Option Decimal :=
  match cs.span (fun c => !isExponentMark c) with
  | (_, []) => none
  | (base, _ :: exponent) => do
    let d ← (ofChars base).toOption
    match exponent with
    | '-' :: digits => d.scaledDown? (← exponentDigits? digits)
    | digits => d.scaledUp? (← exponentDigits? digits)

def ofNotation? (text : String) : Option Decimal :=
  (ofText text).toOption.orElse fun _ => ofScientific? text.toList

end Decimal

/-! ## Decimals through doubles

A double is a mantissa of up to 53 bits times a power of two. It is written with the fewest digits
that are nearer to it than to any other double, and of those with the nearest. -/

structure Double where
  mantissa : Nat
  exponent : Int
  deriving DecidableEq, Repr

namespace Double

abbrev mantissaLimit : Nat := 9007199254740992
abbrev leastExponent : Int := -1074
abbrev greatestExponent : Int := 971

def factor (base : Nat) (e : Int) : Nat := Nat.pow base e.toNat
def divisor (base : Nat) (e : Int) : Nat := Nat.pow base (-e).toNat

def nearest? (n d : Nat) : Option Double :=
  let least := max ((n.log2 : Int) - d.log2 - 53) leastExponent
  let small := n * divisor 2 least < mantissaLimit * d * factor 2 least
  let exponent := if small then least else least + 1
  let mantissa := (roundDiv (n * divisor 2 exponent) (d * factor 2 exponent)).toNat
  let rounded : Double :=
    if mantissa = mantissaLimit then ⟨mantissaLimit / 2, exponent + 1⟩ else ⟨mantissa, exponent⟩
  if rounded.exponent ≤ greatestExponent then some rounded else none

def numerator (x : Double) : Nat := x.mantissa * factor 2 x.exponent
def denominator (x : Double) : Nat := divisor 2 x.exponent

def mul? (x y : Double) : Option Double :=
  nearest? (x.numerator * y.numerator) (x.denominator * y.denominator)

def div? (x y : Double) : Option Double :=
  nearest? (x.numerator * y.denominator) (x.denominator * y.numerator)

abbrev wordLimit : Nat := 18446744073709551616

/-- The first digits of `m` that make a number of 64 bits, and the power of ten
that they stand for. -/
def leading (m : Nat) (e : Int) : Nat × Int :=
  if m < wordLimit then (m, e) else leading (m / 10) (e + 1)
termination_by m
decreasing_by unfold wordLimit at *; omega

abbrev greatestTen : Nat := 308

def timesTen? (x : Double) (e : Int) : Option Double :=
  if e.natAbs ≤ greatestTen then do
    let ten ← nearest? (tenTo e.natAbs) 1
    if 0 ≤ e then x.mul? ten else x.div? ten
  else if x.mantissa = 0 then some x
  else if 0 ≤ e then none
  else do timesTen? (← x.div? (← nearest? (tenTo greatestTen) 1)) (e + greatestTen)
termination_by (-e).toNat
decreasing_by unfold greatestTen at *; omega

/-- The double of `m` tens to the power `e`. It comes from the first digits alone, which are rounded
before they are multiplied, so it may be a neighbour of the nearest one. -/
def ofScaled? (m : Nat) (e : Int) : Option Double := do
  let (digits, e) := leading m e
  (← nearest? digits 1).timesTen? e

/-- Whether `c` tens to the power `e` lie nearer to the double than to its neighbours. Below a
power of two the neighbour is at half the distance. -/
def isNearTo (x : Double) (c : Nat) (e : Int) : Bool :=
  let unit := x.exponent - 2
  let point := c * factor 10 e * divisor 2 unit
  let scale := factor 2 unit * divisor 10 e
  let atPowerOfTwo := x.mantissa = mantissaLimit / 2 ∧ x.exponent ≠ leastExponent
  let low := (4 * x.mantissa - if atPowerOfTwo then 1 else 2) * scale
  let high := (4 * x.mantissa + 2) * scale
  if x.mantissa % 2 = 0 then low ≤ point && point ≤ high else low < point && point < high

def nearestAt (x : Double) (e : Int) : Nat :=
  (roundDiv (x.numerator * divisor 10 e) (factor 10 e * x.denominator)).toNat

/-- The digits for the double that end at a power of ten. Where the nearest are too far on one side,
those next to them may do on the other. -/
def digitsAt? (x : Double) (e : Int) : Option Nat :=
  let c := x.nearestAt e
  [c, c + 1, c - 1].find? fun c => 0 < c && x.isNearTo c e

def shortestFrom (x : Double) (e : Int) : Nat → Option (Nat × Int)
  | 0 => none
  | fuel + 1 =>
    match x.digitsAt? e with
    | some c => some (c, e)
    | none => shortestFrom x (e - 1) fuel

/-- No double has a digit above the power 308, or needs one below the power -324. -/
def shortest (x : Double) : Nat × Int :=
  if x.mantissa = 0 then (0, 0) else (x.shortestFrom 308 633).getD (0, 0)

def positional (c : Nat) (e : Int) : List Char :=
  if 0 ≤ e then natDigits c ++ List.replicate e.toNat '0'
  else
    let places := (-e).toNat
    let digits := padZeros (places + 1) (natDigits c)
    digits.take (digits.length - places) ++ '.' :: digits.drop (digits.length - places)

def toChars (x : Double) : List Char :=
  let (c, e) := x.shortest
  positional c e

end Double

namespace Decimal

def ofDouble? (m e : Int) : Option Decimal := do
  let x ← Double.ofScaled? m.natAbs e
  let d ← (ofChars x.toChars).toOption
  return if m < 0 then d.neg else d

end Decimal

end TrailingYear
