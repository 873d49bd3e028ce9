import TrailingYear.Conversion
import TrailingYear.Date
import TrailingYear.Decimal.Text
import TrailingYear.Rates
import TrailingYear.Table

/-! # The files that are read

The cells of a table are checked one by one, and the four kinds of files differ in their columns
and in the checks of their rows. -/

namespace TrailingYear

/-! ## Checked fields

The cells of a table are texts. Each kind of cell has its own check, which gives a value or the
reason for refusing the text. Numbers may have commas between groups of three digits. -/

inductive FieldError where
  | invalidDate (text : String) (cause : DateError)
  | invalidForm (text : String)
  | invalidNumber (text : String) (cause : DecimalError)
  | rateNotPositive (rate : Decimal)
  | negativeAmount (text : String)
  | emptyCurrency
  | invalidCurrencyCode (text : String)
  deriving DecidableEq, Repr

def FieldError.chain : FieldError → List String
  | .invalidDate text cause => ["invalid date '" ++ text ++ "'", cause.message]
  | .invalidForm text => ["invalid number '" ++ text ++ "'"]
  | .invalidNumber text cause => ["invalid number '" ++ text ++ "'", cause.message]
  | .rateNotPositive rate => ["rate must be positive, got " ++ rate.toText]
  | .negativeAmount text => ["negative amount '" ++ text ++ "'"]
  | .emptyCurrency => ["empty currency"]
  | .invalidCurrencyCode text => ["invalid currency code '" ++ text ++ "'"]

namespace Field

def date (text : String) : Except FieldError Date :=
  (Date.ofText text).mapError (.invalidDate text)

def areDigits (cs : List Char) : Bool := !cs.isEmpty && cs.all isDigit

def areGroupedDigits (cs : List Char) : Bool :=
  match cs.splitOn ',' with
  | [] => false
  | first :: groups =>
    areDigits first && first.length ≤ 3 && groups.all fun group =>
      areDigits group && group.length = 3

/-- A minus sign, the integer part in one of two forms, and places after a point. The sign and the
places may be missing. -/
def isNumberForm (cs : List Char) : Bool :=
  let unsigned := if cs.head? = some '-' then cs.tail else cs
  let whole := unsigned.takeWhile (· ≠ '.')
  let places := unsigned.dropWhile (· ≠ '.')
  (areDigits whole || areGroupedDigits whole) && (places.isEmpty || areDigits places.tail)

def number (text : String) : Except FieldError Decimal :=
  if isNumberForm text.toList then
    (Decimal.ofChars (text.toList.filter (· ≠ ','))).mapError (.invalidNumber text)
  else
    .error (.invalidForm text)

def rate (text : String) : Except FieldError Decimal := do
  let rate ← number text
  if rate.IsPositive then .ok rate else .error (.rateNotPositive rate)

/-- An empty cell is no rate. -/
def optionalRate (text : String) : Except FieldError (Option Decimal) :=
  if text = "" then .ok none else (rate text).map some

def amount (text : String) : Except FieldError Decimal := do
  let amount ← number text
  if amount.IsNegative then .error (.negativeAmount text) else .ok amount

def isCurrencyCode (cs : List Char) : Bool := cs.length = 3 && cs.all Char.isUpper

def currencyCode (text : String) : Except FieldError String :=
  if text = "" then .error .emptyCurrency
  else if isCurrencyCode text.toList then .ok text
  else .error (.invalidCurrencyCode text)

end Field

/-! ## Reading tables

A file is read row by row. The first row that fails fails the whole file, and rows without content
are left out. Errors name the line of their row. -/

inductive ImportError where
  | encoding (error : EncodingError)
  | missingColumns (names : List String)
  | field (line : Nat) (column : String) (cause : FieldError)
  | duplicateCurrency (line : Nat) (code : String)
  deriving DecidableEq, Repr

def lineLabel (line : Nat) : String := "line " ++ toString line ++ ": "

def ImportError.chain : ImportError → List String
  | .encoding e => [e.message]
  | .missingColumns names => ["missing required column(s): " ++ ", ".intercalate names]
  | .field line column cause => (lineLabel line ++ column) :: cause.chain
  | .duplicateCurrency line code => [lineLabel line ++ "duplicate currency " ++ code]

namespace Import

def require (c : Columns) (required : List String) : Except ImportError Columns :=
  if c.missing required = [] then .ok c else .error (.missingColumns (c.missing required))

def columns (t : Table) (required : List String) : Except ImportError Columns := do
  require (Columns.ofHeader (← t.header.mapError .encoding)) required

def check {α : Type} (c : Columns) (r : Row) (column : String) (f : String → Except FieldError α) :
    Except ImportError α :=
  (f (c.cell r.cells column)).mapError (.field r.line column)

def collect {α : Type} (read : Row → Except ImportError (Option α)) :
    List (Except EncodingError Row) → Except ImportError (List α)
  | [] => .ok []
  | row :: rows => do
    let value ← read (← row.mapError .encoding)
    let values ← collect read rows
    return value.toList ++ values

def unlessBlank {α : Type} (read : Row → Except ImportError α) (r : Row) :
    Except ImportError (Option α) :=
  if r.IsBlank then .ok none else (read r).map some

end Import

/-! ## The payments file -/

namespace Import

def paymentColumns : List String := ["amount", "currency", "payment_date"]

def payment (c : Columns) (r : Row) : Except ImportError Payment := do
  let amount ← check c r "amount" Field.amount
  let currency ← check c r "currency" Field.currencyCode
  let date ← check c r "payment_date" Field.date
  return ⟨amount, currency, date⟩

def payments (bytes : List UInt8) : Except ImportError (List Payment) := do
  let t := Table.ofBytes bytes
  let c ← columns t paymentColumns
  collect (unlessBlank (payment c)) t.rows

end Import

/-! ## The file of dated rates -/

namespace Import

def rateColumns : List String :=
  ["currency", "payment_date", RateField.state.column, RateField.marketing.column]

def rateRow (c : Columns) (r : Row) : Except ImportError RateRow := do
  let currency ← check c r "currency" Field.currencyCode
  let date ← check c r "payment_date" Field.date
  let state ← check c r RateField.state.column Field.rate
  let marketing ← check c r RateField.marketing.column Field.rate
  return ⟨currency, date, state, marketing⟩

def rates (bytes : List UInt8) : Except ImportError (List RateRow) := do
  let t := Table.ofBytes bytes
  let c ← columns t rateColumns
  collect (unlessBlank (rateRow c)) t.rows

end Import

/-! ## The file of currencies

Each code occurs once. A currency without a name has its code for one, and its
rates may be absent. -/

namespace Import

def currencyColumns : List String := ["code", "name"]

def currency (c : Columns) (seen : List String) (r : Row) : Except ImportError Currency := do
  let code ← check c r "code" Field.currencyCode
  if code ∈ seen then .error (.duplicateCurrency r.line code)
  let name := c.cell r.cells "name"
  let state ← check c r RateField.state.column Field.optionalRate
  let marketing ← check c r RateField.marketing.column Field.optionalRate
  return ⟨code, if name = "" then code else name, state, marketing⟩

def currenciesAfter (c : Columns) (seen : List String) :
    List (Except EncodingError Row) → Except ImportError (List Currency)
  | [] => .ok []
  | row :: rows => do
    let r ← row.mapError .encoding
    if r.IsBlank then currenciesAfter c seen rows
    else
      let first ← currency c seen r
      let others ← currenciesAfter c (first.code :: seen) rows
      return first :: others

def currencies (bytes : List UInt8) : Except ImportError (List Currency) := do
  let t := Table.ofBytes bytes
  let c ← columns t currencyColumns
  currenciesAfter c [] t.rows

end Import

/-! ## A column of dates

A cell may hold a time after its date, with a `T` or a space between them; only the date is read.
Rows without a cell in the column are left out. -/

namespace Import

def datePart (text : String) : String :=
  match text.toList[10]? with
  | some 'T' | some ' ' => String.ofList (text.toList.take 10)
  | _ => text

def dateIn (c : Columns) (column : String) (r : Row) : Except ImportError (Option Date) :=
  let cell := c.cell r.cells column
  if cell = "" then .ok none
  else (check c r column fun text => Field.date (datePart text)).map some

/-- The name by which a column is looked up. -/
def columnName (column : String) : String := lowerCase (trim column)

def dates (bytes : List UInt8) (column : String) : Except ImportError (List Date) := do
  let t := Table.ofBytes bytes
  let c ← columns t [columnName column]
  collect (dateIn c (columnName column)) t.rows

end Import

end TrailingYear
