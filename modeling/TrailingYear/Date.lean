import TrailingYear.Decimal.Text
import TrailingYear.Text

/-! # Days of the calendar

A date is a day of the Gregorian calendar, extended to both sides, in the years
-262143 to 262142. -/

namespace TrailingYear

def isLeapYear (year : Int) : Bool := year % 4 = 0 && (year % 100 ≠ 0 || year % 400 = 0)

def monthLength (year : Int) (month : Nat) : Nat :=
  if month = 2 then if isLeapYear year then 29 else 28
  else if month = 4 ∨ month = 6 ∨ month = 9 ∨ month = 11 then 30
  else 31

abbrev firstYear : Int := -262143
abbrev lastYear : Int := 262142

def IsCalendarDay (year : Int) (month day : Nat) : Prop :=
  (firstYear ≤ year ∧ year ≤ lastYear) ∧ (1 ≤ month ∧ month ≤ 12) ∧
    1 ≤ day ∧ day ≤ monthLength year month

instance (year : Int) (month day : Nat) : Decidable (IsCalendarDay year month day) :=
  inferInstanceAs (Decidable (_ ∧ _))

structure Date where
  year : Int
  month : Nat
  day : Nat
  valid : IsCalendarDay year month day
  deriving DecidableEq, Repr

theorem monthLength_bounds (year : Int) (month : Nat) :
    28 ≤ monthLength year month ∧ monthLength year month ≤ 31 := by
  unfold monthLength
  split
  · split <;> decide
  · split <;> decide

namespace Date

def ofParts? (year : Int) (month day : Nat) : Option Date :=
  if h : IsCalendarDay year month day then some ⟨year, month, day, h⟩ else none

def epoch : Date := ⟨1970, 1, 1, by decide⟩

/-- The day with these parts, or the epoch if there is none. -/
def ofParts (year : Int) (month day : Nat) : Date := (ofParts? year month day).getD epoch

def monthIndex (d : Date) : Int := 12 * d.year + d.month - 1

/-- A place in the order of days that leaves room for thirty-one days in every month. -/
def rank (d : Date) : Int := 31 * d.monthIndex + d.day

instance : LE Date := ⟨fun a b => a.rank ≤ b.rank⟩
instance : LT Date := ⟨fun a b => a.rank < b.rank⟩
instance (a b : Date) : Decidable (a ≤ b) := inferInstanceAs (Decidable (a.rank ≤ b.rank))
instance (a b : Date) : Decidable (a < b) := inferInstanceAs (Decidable (a.rank < b.rank))

def firstOfMonth (d : Date) : Date :=
  { d with
    day := 1
    valid :=
      ⟨d.valid.1, d.valid.2.1, by decide, by have := monthLength_bounds d.year d.month; omega⟩ }

/-- The same day in the month numbered `index`, or that month's last day if it is shorter. -/
def inMonth? (d : Date) (index : Int) : Option Date :=
  if h : firstYear ≤ index / 12 ∧ index / 12 ≤ lastYear then
    let month := (index % 12).toNat + 1
    some ⟨index / 12, month, min d.day (monthLength (index / 12) month), h, by omega, by
      have := monthLength_bounds (index / 12) month
      have := d.valid.2.2.1
      omega⟩
  else
    none

end Date

/-! ## The text of dates

A date is written as year, month and day with hyphens between them. A year has at least four digits,
and a sign outside 0 to 9999. Reading takes the three numbers one after the other: blanks may stand
before each, a year with a sign may have any number of digits, and a month or a day may have one. -/

inductive DateError where
  | outOfRange
  | invalidCharacter
  | endOfInput
  | trailingInput
  deriving DecidableEq, Repr

def DateError.message : DateError → String
  | .outOfRange => "input is out of range"
  | .invalidCharacter => "input contains invalid characters"
  | .endOfInput => "premature end of input"
  | .trailingInput => "trailing input"

namespace Date

def yearChars (year : Int) : List Char :=
  let digits := padZeros 4 (natDigits year.natAbs)
  if year < 0 then '-' :: digits else if 9999 < year then '+' :: digits else digits

def twoDigits (n : Nat) : List Char := padZeros 2 (natDigits n)

def toChars (d : Date) : List Char :=
  yearChars d.year ++ '-' :: twoDigits d.month ++ '-' :: twoDigits d.day

def toText (d : Date) : String := String.ofList d.toChars

def monthText (d : Date) : String := String.ofList (yearChars d.year ++ '-' :: twoDigits d.month)

/-- Two to the power 63. Numbers from here on are refused while they are read. -/
abbrev numberLimit : Nat := 9223372036854775808

/-- Up to `width` digits after the value `n`, which has digits already if `seen`,
and what follows. -/
def readNumber (n : Nat) (seen : Bool) : Nat → List Char → Except DateError (Nat × List Char)
  | _, [] => if seen then .ok (n, []) else .error .endOfInput
  | 0, cs => .ok (n, cs)
  | width + 1, c :: cs =>
    match digit? c with
    | some k =>
      if n * 10 + k < numberLimit then readNumber (n * 10 + k) true width cs else .error .outOfRange
    | none => if seen then .ok (n, c :: cs) else .error .invalidCharacter

abbrev yearLimit : Int := 2147483648

/-- A year with a sign ends where the digits do, one without after four digits. -/
def readYear (cs : List Char) : Except DateError (Int × List Char) := do
  let (year, rest) ← match dropBlanks cs with
    | '-' :: cs => (readNumber 0 false cs.length cs).map fun (n, rest) => (-(n : Int), rest)
    | '+' :: cs => (readNumber 0 false cs.length cs).map fun (n, rest) => ((n : Int), rest)
    | cs => (readNumber 0 false 4 cs).map fun (n, rest) => ((n : Int), rest)
  if -yearLimit ≤ year ∧ year < yearLimit then .ok (year, rest) else .error .outOfRange

def readPart (most : Nat) (cs : List Char) : Except DateError (Nat × List Char) := do
  let (n, rest) ← readNumber 0 false 2 (dropBlanks cs)
  if 1 ≤ n ∧ n ≤ most then .ok (n, rest) else .error .outOfRange

def readHyphen : List Char → Except DateError (List Char)
  | [] => .error .endOfInput
  | c :: cs => if c = '-' then .ok cs else .error .invalidCharacter

def readWith (gap : List Char → List Char) (cs : List Char) : Except DateError Date := do
  let (year, cs) ← readYear cs
  let cs ← readHyphen (gap cs)
  let (month, cs) ← readPart 12 cs
  let cs ← readHyphen (gap cs)
  let (day, cs) ← readPart 31 cs
  if gap cs ≠ [] then .error .trailingInput
  else (ofParts? year month day).elim (.error .outOfRange) .ok

def ofChars (cs : List Char) : Except DateError Date := readWith id cs

def ofText (text : String) : Except DateError Date := ofChars text.toList

/-- Reads a date that may also have blanks before its hyphens and at its end. -/
def ofSpacedText (text : String) : Except DateError Date := readWith dropBlanks text.toList

end Date

end TrailingYear
