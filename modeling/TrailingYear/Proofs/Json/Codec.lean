import TrailingYear.Json.Codec
import TrailingYear.Proofs.Date.Text
import TrailingYear.Proofs.Json.Text
import TrailingYear.Report

/-! # Reading back records

A record is read back from any text of its object: no two of its members share a name. Only the
sign of a zero is lost, which makes no difference to its value or its places. -/

namespace TrailingYear

/-- The value that is read from each text of what is written for `a`. -/
structure KeptAs {α : Type} (write : α → Json) (read : Json → Option α) (a kept : α) : Prop where
  printed : (Json.ofText? (write a).toText).bind read = some kept
  any : ∀ text, Json.IsText (write a) text → (Json.ofText? text).bind read = some kept

theorem keptAs_of_read {α : Type} {write : α → Json} {read : Json → Option α} {a kept : α}
    (h : read (write a) = some kept) : KeptAs write read a kept := by
  have hany : ∀ text, Json.IsText (write a) text → (Json.ofText? text).bind read = some kept := by
    intro text htext
    rw [htext.read, Option.bind_some, h]
  exact ⟨hany _ (Json.isText_toText _), hany⟩

namespace Date

theorem ofJson?_toJson (d : Date) : ofJson? d.toJson = some d := by
  rw [toJson, ofJson?, ofSpacedText_toText]
  rfl

end Date

namespace Decimal

def plain (d : Decimal) : Decimal := d.withSign (decide (d.mantissa < 0))

@[simp] theorem scale_plain (d : Decimal) : d.plain.scale = d.scale := rfl

@[simp] theorem mantissa_plain (d : Decimal) : d.plain.mantissa = d.mantissa := by
  rw [plain, mantissa_withSign]
  unfold mantissa
  cases d.negative <;> simp

theorem plain_of_ne_zero {d : Decimal} (h : d.mantissa ≠ 0) : d.plain = d := by
  have hsign : decide (d.mantissa < 0) = d.negative := by
    unfold mantissa at h ⊢
    cases hn : d.negative
    · simp
    · have hpos : 0 < d.magnitude := by
        rw [hn, if_pos rfl] at h
        omega
      simpa using hpos
  rw [plain, hsign]
  rfl

theorem ofJson?_toJson (d : Decimal) : ofJson? d.toJson = some d.plain := by
  rw [toJson, ofJson?, ofNotation?, ofText, toText, String.toList_ofList, ofChars_toChars]
  rfl

theorem optional?_toJson (d : Option Decimal) :
    Json.optional? ofJson? (some (.ofOption toJson d)) = some (d.map plain) := by
  cases d with
  | none => rfl
  | some d =>
    show (ofJson? d.toJson).map some = _
    rw [ofJson?_toJson]
    rfl

end Decimal

namespace Payment

def plain (p : Payment) : Payment := ⟨p.amount.plain, p.currency, p.date⟩

/-- A payment is found among other members. -/
theorem ofJson?_of_fields {j : Json} {p : Payment}
    (h : j.fields? ["amount", "currency_code", "occurred_on"] =
      some [some p.amount.toJson, some (.string p.currency), some p.date.toJson]) :
    ofJson? j = some p.plain := by
  rw [ofJson?, h]
  simp only [Option.bind_eq_bind, Option.bind_some, Json.required?, Json.text?,
    Decimal.ofJson?_toJson, Date.ofJson?_toJson]
  rfl

theorem ofJson?_toJson (p : Payment) : ofJson? p.toJson = some p.plain := ofJson?_of_fields rfl

end Payment

namespace Conversion

def plain (c : Conversion) : Conversion := ⟨c.payment.plain, c.value.plain⟩

theorem ofJson?_toJson (c : Conversion) : ofJson? c.toJson = some c.plain := by
  have hpayment : Payment.ofJson? c.toJson = some c.payment.plain := Payment.ofJson?_of_fields rfl
  have hvalue : Json.member? (c.payment.members ++ [("value", c.value.toJson)]) "value" =
      some (some c.value.toJson) := rfl
  rw [toJson] at hpayment ⊢
  rw [ofJson?, hpayment, hvalue]
  simp only [Option.bind_eq_bind, Option.bind_some, Json.required?, Decimal.ofJson?_toJson]
  rfl

end Conversion

namespace Bucket

def plain (b : Bucket) : Bucket := ⟨b.period, b.total.plain⟩

theorem ofJson?_toJson (b : Bucket) : ofJson? b.toJson = some b.plain := by
  have h :
      Json.fields? ["period", "total"] b.toJson =
        some [some b.period.toJson, some b.total.toJson] := rfl
  rw [ofJson?, h]
  simp only [Option.bind_eq_bind, Option.bind_some, Json.required?, Decimal.ofJson?_toJson,
    Date.ofJson?_toJson]
  rfl

end Bucket

theorem listOf?_map {α : Type} {write : α → Json} {read : Json → Option α} {kept : α → α}
    (h : ∀ a, read (write a) = some (kept a)) (l : List α) :
    Json.listOf? read (.array (l.map write)) = some (l.map kept) := by
  induction l with
  | nil => rfl
  | cons a l ih =>
    rw [Json.listOf?] at ih ⊢
    rw [List.map_cons, List.mapM_cons, h, ih]
    rfl

namespace MonthlySeries

def plain (s : MonthlySeries) : MonthlySeries := ⟨s.buckets.map Bucket.plain, s.maximum.plain⟩

/-- A series is found among other members. -/
theorem ofJson?_of_fields {j : Json} {s : MonthlySeries}
    (h : j.fields? ["buckets", "maximum"] =
      some [some (.array (s.buckets.map Bucket.toJson)), some s.maximum.toJson]) :
    ofJson? j = some s.plain := by
  rw [ofJson?, h]
  simp only [Option.bind_eq_bind, Option.bind_some, Json.required?, Decimal.ofJson?_toJson,
    listOf?_map Bucket.ofJson?_toJson]
  rfl

theorem ofJson?_toJson (s : MonthlySeries) : ofJson? s.toJson = some s.plain :=
  ofJson?_of_fields rfl

end MonthlySeries

namespace RateField

theorem ofJson?_toJson (f : RateField) : ofJson? f.toJson = some f := by
  cases f <;> rfl

end RateField

namespace Currency

def plain (c : Currency) : Currency :=
  ⟨c.code, c.name, c.stateRate.map Decimal.plain, c.marketingRate.map Decimal.plain⟩

theorem ofJson?_toJson (c : Currency) : ofJson? c.toJson = some c.plain := by
  have h :
      Json.fields? ["code", "name", RateField.state.column, RateField.marketing.column] c.toJson =
      some
        [some (.string c.code), some (.string c.name), some (.ofOption Decimal.toJson c.stateRate),
        some (.ofOption Decimal.toJson c.marketingRate)] := rfl
  rw [ofJson?, h]
  simp only [Option.bind_eq_bind, Option.bind_some, Json.required?, Json.text?,
    Decimal.optional?_toJson]
  rfl

end Currency

namespace DatedRate

def plain (r : DatedRate) : DatedRate := ⟨r.currency, r.date, r.rate.plain⟩

theorem ofJson?_toJson (r : DatedRate) : ofJson? r.toJson = some r.plain := by
  have h : Json.fields? ["currency_code", "effective_date", "rate_to_target"] r.toJson =
      some [some (.string r.currency), some r.date.toJson, some r.rate.toJson] := rfl
  rw [ofJson?, h]
  simp only [Option.bind_eq_bind, Option.bind_some, Json.required?, Json.text?,
    Decimal.ofJson?_toJson, Date.ofJson?_toJson]
  rfl

end DatedRate

namespace RateRow

def plain (r : RateRow) : RateRow := ⟨r.currency, r.date, r.stateRate.plain, r.marketingRate.plain⟩

theorem ofJson?_toJson (r : RateRow) : ofJson? r.toJson = some r.plain := by
  have h : Json.fields? ["currency_code", "effective_date", RateField.state.column,
      RateField.marketing.column] r.toJson =
      some [some (.string r.currency), some r.date.toJson, some r.stateRate.toJson,
        some r.marketingRate.toJson] := rfl
  rw [ofJson?, h]
  simp only [Option.bind_eq_bind, Option.bind_some, Json.required?, Json.text?,
    Decimal.ofJson?_toJson, Date.ofJson?_toJson]
  rfl

end RateRow

namespace ReportingCurrency

theorem ofJson?_toJson (r : ReportingCurrency) : ofJson? r.toJson = some r := by
  have h : Json.fields? ["code", "rate_field", "button_title"] r.toJson =
      some [some (.string r.code), some r.rateField.toJson, some (.string r.title)] := rfl
  rw [ofJson?, h]
  simp only [Option.bind_eq_bind, Option.bind_some, Json.required?, Json.text?,
    RateField.ofJson?_toJson]
  rfl

end ReportingCurrency
structure Report.ReadFrom (r : Report) (text : String) (members : List (String × Json)) : Prop where
  parsed : Json.ofText? text = some (.object members)
  title : (Json.member? members "title").bind (Json.required? Json.text?) = some r.title
  currency : (Json.member? members "currency").bind (Json.optional? ReportingCurrency.ofJson?) =
    some r.currency
  anchor : (Json.member? members "anchor").bind (Json.required? Date.ofJson?) = some r.anchor
  series : MonthlySeries.ofJson? (.object members) = some r.series.plain

theorem ReportingCurrency.optional?_toJson (c : Option ReportingCurrency) :
    Json.optional? ofJson? (some (.ofOption toJson c)) = some c := by
  cases c with
  | none => rfl
  | some c =>
    show (ofJson? c.toJson).map some = _
    rw [ofJson?_toJson]
    rfl

theorem Report.readFrom_text {r : Report} {text : String} (h : Json.IsText r.toJson text) :
    ∃ members, r.ReadFrom text members :=
  ⟨_, {
    parsed := h.read
    title := rfl
    currency := ReportingCurrency.optional?_toJson r.currency
    anchor := Date.ofJson?_toJson r.anchor
    series := MonthlySeries.ofJson?_of_fields rfl }⟩

/-- Every record is read back from each of its texts, the printed one among them, and every report
from the text that is printed for it. Decimals keep their value and their places, and all but
zeros their sign. -/
theorem records_are_kept :
    (∀ p, KeptAs Payment.toJson Payment.ofJson? p p.plain) ∧
    (∀ b, KeptAs Bucket.toJson Bucket.ofJson? b b.plain) ∧
    (∀ c, KeptAs Currency.toJson Currency.ofJson? c c.plain) ∧
    (∀ r, KeptAs DatedRate.toJson DatedRate.ofJson? r r.plain) ∧
    (∀ r, KeptAs RateRow.toJson RateRow.ofJson? r r.plain) ∧
    (∀ f, KeptAs RateField.toJson RateField.ofJson? f f) ∧
    (∀ c, KeptAs ReportingCurrency.toJson ReportingCurrency.ofJson? c c) ∧
    (∀ c, KeptAs Conversion.toJson Conversion.ofJson? c c.plain) ∧
    (∀ s, KeptAs MonthlySeries.toJson MonthlySeries.ofJson? s s.plain) ∧
    (∀ r : Report, ∃ members, r.ReadFrom r.toJson.toText members) ∧
    ∀ d : Decimal, d.plain.mantissa = d.mantissa ∧ d.plain.scale = d.scale ∧
      (d.mantissa ≠ 0 → d.plain = d) :=
  ⟨fun p => keptAs_of_read p.ofJson?_toJson, fun b => keptAs_of_read b.ofJson?_toJson,
    fun c => keptAs_of_read c.ofJson?_toJson, fun r => keptAs_of_read r.ofJson?_toJson,
    fun r => keptAs_of_read r.ofJson?_toJson, fun f => keptAs_of_read f.ofJson?_toJson,
    fun c => keptAs_of_read c.ofJson?_toJson, fun c => keptAs_of_read c.ofJson?_toJson,
    fun s => keptAs_of_read s.ofJson?_toJson,
    fun r => Report.readFrom_text (Json.isText_toText r.toJson),
    fun d => ⟨d.mantissa_plain, d.scale_plain, Decimal.plain_of_ne_zero⟩⟩

end TrailingYear
