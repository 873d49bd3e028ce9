import TrailingYear.Text

/-! # Tables of text

From the bytes of a file to cells that are found by the name of their column, and back to bytes. -/

namespace TrailingYear

/-! ## Records of a delimited file

Fields are divided by commas and records by line ends, which are carriage returns, line feeds or
both. A field that starts with a quote runs to the next single quote; a doubled quote stands for
one. Lines without any content between records are passed over.

A record is placed where the one before it ended, so the lines passed over, and a line
feed that follows a carriage return, belong to the record after them. Lines are counted by
their line feeds. -/

structure Position where
  record : Nat
  line : Nat
  byte : Nat
  deriving DecidableEq, Repr

structure Record where
  position : Position
  fields : List (List UInt8)
  deriving DecidableEq, Repr

namespace Record

abbrev comma : UInt8 := 44
abbrev quote : UInt8 := 34
abbrev lineFeed : UInt8 := 10
abbrev carriageReturn : UInt8 := 13

def isLineEnd (b : UInt8) : Bool := b = lineFeed || b = carriageReturn

/-- Before a record, at the start of a field, inside a plain or a quoted field, or after a quote
inside a quoted field, which may be the first of two. -/
inductive Phase where
  | between
  | start
  | plain
  | quoted
  | afterQuote
  deriving DecidableEq, Repr

/-- The field in progress, the fields and the records before it are held in reverse. -/
structure Scanner where
  phase : Phase
  field : List UInt8
  fields : List (List UInt8)
  position : Position
  line : Nat
  byte : Nat
  records : List Record
  deriving DecidableEq, Repr

namespace Scanner

def init (skipped : Nat) : Scanner := ⟨.between, [], [], ⟨0, 1, 0⟩, 1, skipped, []⟩

def keep (s : Scanner) (phase : Phase) (b : UInt8) : Scanner :=
  { s with phase := phase, field := b :: s.field }

def endField (s : Scanner) : Scanner :=
  { s with phase := .start, field := [], fields := s.field.reverse :: s.fields }

def endRecord (s : Scanner) : Scanner :=
  { s with
    phase := .between
    field := []
    fields := []
    position := ⟨s.position.record + 1, s.line, s.byte⟩
    records := ⟨s.position, (s.field.reverse :: s.fields).reverse⟩ :: s.records }

def plainByte (s : Scanner) (b : UInt8) : Scanner :=
  if b = comma then s.endField
  else if isLineEnd b then s.endRecord
  else s.keep .plain b

def firstByte (s : Scanner) (b : UInt8) : Scanner :=
  if b = quote then { s with phase := .quoted } else s.plainByte b

def count (s : Scanner) (b : UInt8) : Scanner :=
  { s with byte := s.byte + 1, line := if b = lineFeed then s.line + 1 else s.line }

def advance (s : Scanner) (b : UInt8) : Scanner :=
  match s.phase with
  | .between => if isLineEnd b then s else s.firstByte b
  | .start => s.firstByte b
  | .plain => s.plainByte b
  | .quoted => if b = quote then { s with phase := .afterQuote } else s.keep .quoted b
  | .afterQuote => if b = quote then s.keep .quoted b else s.plainByte b

def step (s : Scanner) (b : UInt8) : Scanner := (s.count b).advance b

/-- The end of the file ends the record in progress, even inside quotes. -/
def finish (s : Scanner) : List Record :=
  match s.phase with
  | .between => s.records.reverse
  | _ => s.endRecord.records.reverse

end Scanner

def byteOrderMark : List UInt8 := [0xEF, 0xBB, 0xBF]

def ofBytes (bytes : List UInt8) : List Record :=
  if byteOrderMark.isPrefixOf bytes then
    ((bytes.drop 3).foldl Scanner.step (.init 3)).finish
  else
    (bytes.foldl Scanner.step (.init 0)).finish

end Record

/-! ## Tables

The first record of a file is its header, each other one a row of cells without blanks at their
ends. A record with a field that is not text is an error in its own place. -/

structure EncodingError where
  position : Position
  field : Nat
  validBytes : Nat
  deriving DecidableEq, Repr

def EncodingError.message (e : EncodingError) : String :=
  "CSV parse error: record " ++ toString e.position.record ++ " (line " ++
    toString e.position.line ++
    ", field: " ++ toString e.field ++ ", byte: " ++ toString e.position.byte ++
    "): invalid utf-8: invalid UTF-8 in field " ++ toString e.field ++ " near byte index " ++
    toString e.validBytes

def isBlankByte (b : UInt8) : Bool := b = 32 || b = 9 || b = 10 || b = 12 || b = 13

def trimBytes (bytes : List UInt8) : List UInt8 :=
  ((bytes.dropWhile isBlankByte).reverse.dropWhile isBlankByte).reverse

/-- The texts of the fields, the first of which is number `n`. -/
def decodeFields (position : Position) (n : Nat) :
    List (List UInt8) → Except EncodingError (List String)
  | [] => .ok []
  | field :: fields =>
    match Utf8.decode field with
    | .error valid => .error ⟨position, n, valid⟩
    | .ok cs => (decodeFields position (n + 1) fields).map (String.ofList cs :: ·)

structure Row where
  line : Nat
  cells : List String
  deriving DecidableEq, Repr

def Row.IsBlank (r : Row) : Prop := ∀ cell ∈ r.cells, cell = ""

instance (r : Row) : Decidable r.IsBlank :=
  inferInstanceAs (Decidable (∀ cell ∈ r.cells, cell = ""))

def Row.ofRecord (r : Record) : Except EncodingError Row := do
  let cells ← decodeFields r.position 0 (r.fields.map trimBytes)
  return ⟨r.position.line, cells.map trim⟩

structure Table where
  header : Except EncodingError (List String)
  rows : List (Except EncodingError Row)

def Table.ofBytes (bytes : List UInt8) : Table :=
  match Record.ofBytes bytes with
  | [] => ⟨.ok [], []⟩
  | header :: records => ⟨decodeFields header.position 0 header.fields, records.map Row.ofRecord⟩

/-! ## Columns by name

A column is found by its name in the header, without blanks at the ends and in lower case. Of
columns with one name the last counts. -/

structure Columns where
  names : List String
  deriving DecidableEq, Repr

namespace Columns

def ofHeader (header : List String) : Columns := ⟨header.map fun name => lowerCase (trim name)⟩

/-- The required names that no column has, in the order in which they are required. -/
def missing (c : Columns) (required : List String) : List String :=
  required.filter fun name => name ∉ c.names

def indexIn (name : String) : List String → Option Nat
  | [] => none
  | n :: names =>
    ((indexIn name names).map (· + 1)).orElse fun _ => if n = name then some 0 else none

def index? (c : Columns) (name : String) : Option Nat := indexIn name c.names

def cell (c : Columns) (cells : List String) (name : String) : String :=
  trim (((c.index? name).bind fun i => cells[i]?).getD "")

end Columns

/-! ## The text of tables

Every cell is written in quotes, so that it may hold commas, line ends and doubled quotes. Each
row ends with a line feed. -/

namespace Table

def cellBytes (cell : String) : List UInt8 :=
  Record.quote :: (Utf8.encode cell.toList).flatMap (fun b =>
    if b = Record.quote then [Record.quote, Record.quote] else [b]) ++ [Record.quote]

def cellsBytes : List String → List UInt8
  | [] => [Record.lineFeed]
  | cell :: cells => Record.comma :: cellBytes cell ++ cellsBytes cells

def rowBytes : List String → List UInt8
  | [] => [Record.lineFeed]
  | cell :: cells => cellBytes cell ++ cellsBytes cells

def toBytes (rows : List (List String)) : List UInt8 := rows.flatMap rowBytes

end Table

end TrailingYear
