import TrailingYear.Date
import TrailingYear.Decimal.Basic

/-! # Rates into one currency

Currencies carry rates of their own. A table answers with one rate for each currency and day, and
the codes that are configured choose the currency of a report. -/

namespace TrailingYear

/-! ## Keyed lists

Lists of pairs in which a key has one value. A later value for a key takes the
place of the earlier. -/

def put {κ ν : Type} [DecidableEq κ] (k : κ) (v : ν) : List (κ × ν) → List (κ × ν)
  | [] => [(k, v)]
  | (k', v') :: rest => if k' = k then (k, v) :: rest else (k', v') :: put k v rest

def get? {κ ν : Type} [DecidableEq κ] (k : κ) : List (κ × ν) → Option ν
  | [] => none
  | (k', v') :: rest => if k' = k then some v' else get? k rest

@[simp] theorem get?_put {κ ν : Type} [DecidableEq κ] (k k' : κ) (v : ν) (l : List (κ × ν)) :
    get? k' (put k v l) = if k = k' then some v else get? k' l := by
  induction l with
  | nil => simp [put, get?]
  | cons p rest ih =>
    obtain ⟨j, w⟩ := p
    by_cases hj : j = k
    · subst hj
      by_cases hk : j = k' <;> simp [put, get?, hk]
    · by_cases hk : j = k'
      · subst hk
        simp [put, get?, hj, Ne.symm hj]
      · simp [put, get?, hj, hk, ih]

/-! ## Currencies and their rates

A currency may carry an undated rate into each of two reporting currencies, that of the state and
that of marketing. Dated rates come in rows with one rate for each. -/

inductive RateField where
  | state
  | marketing
  deriving DecidableEq, Repr

def RateField.column : RateField → String
  | .state => "rate_to_state_currency"
  | .marketing => "rate_to_marketing_currency"

structure Currency where
  code : String
  name : String
  stateRate : Option Decimal
  marketingRate : Option Decimal
  deriving DecidableEq, Repr

def Currency.fallbackRate (c : Currency) : RateField → Option Decimal
  | .state => c.stateRate
  | .marketing => c.marketingRate

structure DatedRate where
  currency : String
  date : Date
  rate : Decimal
  deriving DecidableEq, Repr

structure RateRow where
  currency : String
  date : Date
  stateRate : Decimal
  marketingRate : Decimal
  deriving DecidableEq, Repr

def RateRow.rate (r : RateRow) : RateField → Decimal
  | .state => r.stateRate
  | .marketing => r.marketingRate

def RateRow.toDatedRate (r : RateRow) (field : RateField) : DatedRate :=
  ⟨r.currency, r.date, r.rate field⟩

/-! ## Rates into one currency

A table gives the rate from any currency on any day into its target. The target itself has the rate
one; then a rate of that very day counts, and after it the currency's fallback rate. -/

inductive RateSource where
  | identity
  | dated
  | fallback
  deriving DecidableEq, Repr

structure RateTable where
  target : String
  dated : List ((String × Date) × Decimal)
  fallback : List (String × Decimal)
  deriving DecidableEq, Repr

namespace RateTable

def empty (target : String) : RateTable := ⟨target, [], []⟩

def insertRate (t : RateTable) (r : DatedRate) : RateTable :=
  { t with dated := put (r.currency, r.date) r.rate t.dated }

def insertFallback (t : RateTable) (currency : String) (rate : Decimal) : RateTable :=
  { t with fallback := put currency rate t.fallback }

def insertCurrency (field : RateField) (t : RateTable) (c : Currency) : RateTable :=
  match c.fallbackRate field with
  | some rate => t.insertFallback c.code rate
  | none => t

def ofParts (target : String) (field : RateField) (rates : List DatedRate)
    (currencies : List Currency) : RateTable :=
  currencies.foldl (insertCurrency field) (rates.foldl insertRate (empty target))

def lookup (t : RateTable) (currency : String) (date : Date) : Option (Decimal × RateSource) :=
  if currency = t.target then some (.one, .identity)
  else match get? (currency, date) t.dated with
    | some rate => some (rate, .dated)
    | none => (get? currency t.fallback).map fun rate => (rate, .fallback)

/-- The number of currencies and days that have a rate of their own. -/
def datedCount (t : RateTable) : Nat := t.dated.length

end RateTable

/-! ## The currency of a report

The marketing currency is used if it is configured, then the currency of the state, then the dollar.
A code is found whatever the case of its ASCII letters; an unknown code counts as not configured. -/

structure ReportingCurrency where
  code : String
  rateField : RateField
  title : String
  deriving DecidableEq, Repr

namespace ReportingCurrency

def choose : Option Currency → Option Currency → ReportingCurrency
  | some m, some s => ⟨m.code, .marketing, m.name ++ " > " ++ s.name⟩
  | some m, none => ⟨m.code, .marketing, m.name⟩
  | none, some s => ⟨s.code, .state, s.name⟩
  | none, none => ⟨"USD", .state, "Default Currency"⟩

/-- Equal but for the case of ASCII letters. -/
def sameCode (a b : String) : Bool := a.toList.map Char.toLower = b.toList.map Char.toLower

def find? (currencies : List Currency) (code : Option String) : Option Currency :=
  code.bind fun code => currencies.find? fun c => sameCode c.code code

def ofCodes (currencies : List Currency) (marketing state : Option String) : ReportingCurrency :=
  choose (find? currencies marketing) (find? currencies state)

end ReportingCurrency

end TrailingYear
