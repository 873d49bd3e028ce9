import TrailingYear.Decimal.Text
import TrailingYear.Json.Text
import TrailingYear.MonthlySeries
import TrailingYear.Rates

/-! # Records as JSON

Each record is an object of its fields. Reading also takes an array of them in order, except where
one record lies within another. Unknown members are ignored. -/

namespace TrailingYear

namespace Json

def required? {α : Type} (read : Json → Option α) (j : Option Json) : Option α := j.bind read

def optional? {α : Type} (read : Json → Option α) : Option Json → Option (Option α)
  | none | some .null => some none
  | some j => (read j).map some

def ofOption {α : Type} (write : α → Json) : Option α → Json
  | none => .null
  | some a => write a

def text? : Json → Option String
  | .string text => some text
  | _ => none

def listOf? {α : Type} (read : Json → Option α) : Json → Option (List α)
  | .array items => items.mapM read
  | _ => none

end Json

namespace Date

def toJson (d : Date) : Json := .string d.toText

def ofJson? : Json → Option Date
  | .string text => (ofSpacedText text).toOption
  | _ => none

end Date

namespace Decimal

def toJson (d : Decimal) : Json := .string d.toText

abbrev wordRange : Int := 9223372036854775808

/-- A text, or a number. Numbers other than integers of 64 bits count as doubles. -/
def ofJson? : Json → Option Decimal
  | .string text => ofNotation? text
  | .number m e =>
    if e = 0 ∧ -wordRange ≤ m ∧ m < 2 * wordRange then ofParts? m 0 else ofDouble? m e
  | _ => none

end Decimal

namespace Payment

def members (p : Payment) : List (String × Json) :=
  [("amount", p.amount.toJson), ("currency_code", .string p.currency),
    ("occurred_on", p.date.toJson)]

def toJson (p : Payment) : Json := .object p.members

def ofJson? (j : Json) : Option Payment := do
  match ← j.fields? ["amount", "currency_code", "occurred_on"] with
  | [amount, currency, date] =>
    return ⟨← Json.required? Decimal.ofJson? amount, ← Json.required? Json.text? currency,
      ← Json.required? Date.ofJson? date⟩
  | _ => none

end Payment

namespace Conversion

def toJson (c : Conversion) : Json := .object (c.payment.members ++ [("value", c.value.toJson)])

def ofJson? (j : Json) : Option Conversion := do
  match j with
  | .object members =>
    let payment ← Payment.ofJson? (.object members)
    return ⟨payment, ← Json.required? Decimal.ofJson? (← Json.member? members "value")⟩
  | _ => none

end Conversion

namespace Bucket

def toJson (b : Bucket) : Json :=
  .object [("period", b.period.toJson), ("total", b.total.toJson)]

def ofJson? (j : Json) : Option Bucket := do
  match ← j.fields? ["period", "total"] with
  | [period, total] =>
    return ⟨← Json.required? Date.ofJson? period, ← Json.required? Decimal.ofJson? total⟩
  | _ => none

end Bucket

namespace MonthlySeries

def members (s : MonthlySeries) : List (String × Json) :=
  [("buckets", .array (s.buckets.map Bucket.toJson)), ("maximum", s.maximum.toJson)]

def toJson (s : MonthlySeries) : Json := .object s.members

def ofJson? (j : Json) : Option MonthlySeries := do
  match ← j.fields? ["buckets", "maximum"] with
  | [buckets, maximum] =>
    return ⟨← Json.required? (Json.listOf? Bucket.ofJson?) buckets,
      ← Json.required? Decimal.ofJson? maximum⟩
  | _ => none

end MonthlySeries

namespace RateField

def toJson (f : RateField) : Json := .string f.column

def ofColumn? (column : String) : Option RateField :=
  if column = RateField.state.column then some .state
  else if column = RateField.marketing.column then some .marketing
  else none

/-- The name of the column, alone or as the one member of an object, with null for its value. -/
def ofJson? : Json → Option RateField
  | .string column => ofColumn? column
  | .object [(column, .null)] => ofColumn? column
  | _ => none

end RateField

namespace Currency

def toJson (c : Currency) : Json :=
  .object [("code", .string c.code), ("name", .string c.name),
    (RateField.state.column, .ofOption Decimal.toJson c.stateRate),
    (RateField.marketing.column, .ofOption Decimal.toJson c.marketingRate)]

def ofJson? (j : Json) : Option Currency := do
  match ← j.fields? ["code", "name", RateField.state.column, RateField.marketing.column] with
  | [code, name, state, marketing] =>
    return ⟨← Json.required? Json.text? code, ← Json.required? Json.text? name,
      ← Json.optional? Decimal.ofJson? state, ← Json.optional? Decimal.ofJson? marketing⟩
  | _ => none

end Currency

namespace DatedRate

def toJson (r : DatedRate) : Json :=
  .object [("currency_code", .string r.currency), ("effective_date", r.date.toJson),
    ("rate_to_target", r.rate.toJson)]

def ofJson? (j : Json) : Option DatedRate := do
  match ← j.fields? ["currency_code", "effective_date", "rate_to_target"] with
  | [currency, date, rate] =>
    return ⟨← Json.required? Json.text? currency, ← Json.required? Date.ofJson? date,
      ← Json.required? Decimal.ofJson? rate⟩
  | _ => none

end DatedRate

namespace RateRow

def toJson (r : RateRow) : Json :=
  .object [("currency_code", .string r.currency), ("effective_date", r.date.toJson),
    (RateField.state.column, r.stateRate.toJson),
      (RateField.marketing.column, r.marketingRate.toJson)]

def ofJson? (j : Json) : Option RateRow := do
  match ← j.fields? ["currency_code", "effective_date", RateField.state.column,
      RateField.marketing.column] with
  | [currency, date, state, marketing] =>
    return ⟨← Json.required? Json.text? currency, ← Json.required? Date.ofJson? date,
      ← Json.required? Decimal.ofJson? state, ← Json.required? Decimal.ofJson? marketing⟩
  | _ => none

end RateRow

namespace ReportingCurrency

def toJson (r : ReportingCurrency) : Json :=
  .object [("code", .string r.code), ("rate_field", r.rateField.toJson),
    ("button_title", .string r.title)]

def ofJson? (j : Json) : Option ReportingCurrency := do
  match ← j.fields? ["code", "rate_field", "button_title"] with
  | [code, rateField, title] =>
    return ⟨← Json.required? Json.text? code, ← Json.required? RateField.ofJson? rateField,
      ← Json.required? Json.text? title⟩
  | _ => none

end ReportingCurrency
end TrailingYear
