import TrailingYear.Json.Codec
import TrailingYear.Json.Text

/-! # Reports

A series under its title, as a table with a bar for each month or as a JSON document. -/

namespace TrailingYear

structure Report where
  title : String
  currency : Option ReportingCurrency
  anchor : Date
  series : MonthlySeries
  deriving DecidableEq, Repr

/-- The length of the bar for `total` if `maximum` takes the whole width. Nothing is shown for a
total that is not positive, and no bar is longer than the width. -/
def barLength (total maximum : Decimal) (width : Nat) : Nat :=
  if total.IsPositive ∧ maximum.IsPositive then
    let share := min ((total.div? maximum).getD .one) .one
    match Decimal.ofNat? width with
    | some w => ((share.mul? w).getD .zero).toInt.toNat
    | none => 0
  else 0

namespace Report

def heading (r : Report) : String :=
  let subject := match r.currency with
    | some c => r.title ++ " in " ++ c.code ++ " (" ++ c.title ++ ")"
    | none => r.title
  subject ++ ", anchor " ++ r.anchor.toText

/-- A month, its total in fourteen places at least, and its bar. -/
def tableLine (maximum : Decimal) (places width : Nat) (b : Bucket) : String :=
  b.period.monthText ++ "  " ++ padBlanks 14 (b.total.round places).toText ++ "  " ++
    String.ofList (List.replicate (barLength b.total maximum width) '#') ++ "\n"

def summary (r : Report) (places : Nat) : String :=
  let total := match r.series.total with
    | .ok total => (total.round places).toText
    | .error e => e.message
  "max " ++ (r.series.maximum.round places).toText ++ "  total " ++ total

def toTable (r : Report) (places width : Nat) : String :=
  r.heading ++ "\n\n" ++
    String.join (r.series.buckets.map (tableLine r.series.maximum places width)) ++
    "\n" ++ r.summary places ++ "\n"

def toJson (r : Report) : Json :=
  .object ([("title", .string r.title), ("currency", .ofOption ReportingCurrency.toJson r.currency),
    ("anchor", r.anchor.toJson)] ++ r.series.members)

end Report

structure Summary where
  currency : ReportingCurrency
  conversions : List Conversion
  total : Decimal
  deriving DecidableEq, Repr

namespace Summary

def listLine (code : String) (c : Conversion) : String :=
  c.payment.date.toText ++ "  " ++ padBlanks 12 c.payment.amount.toText ++ " " ++
    c.payment.currency ++
    "  ->  " ++ padBlanks 14 (c.value.round totalPlaces).toText ++ " " ++ code ++ "\n"

def totalLine (s : Summary) : String :=
  "Total: " ++ s.total.toText ++ " " ++ s.currency.code ++ " across " ++
    toString s.conversions.length ++
    " payments\n"

def toText (s : Summary) (listed : Bool) : String :=
  let lines := if listed then
      String.join (s.conversions.map (listLine s.currency.code)) ++ "\n"
    else ""
  lines ++ s.totalLine

/-- The members of each object are in the order of their names. -/
def toJson (s : Summary) (listed : Bool) : Json :=
  .object [
    ("currency", .object [("button_title", .string s.currency.title),
      ("code", .string s.currency.code), ("rate_field", s.currency.rateField.toJson)]),
    ("payments", if listed then .array (s.conversions.map Conversion.toJson) else .null),
    ("total", s.total.toJson)]

end Summary
end TrailingYear
