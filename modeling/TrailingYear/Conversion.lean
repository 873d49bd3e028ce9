import TrailingYear.Date
import TrailingYear.Decimal.Basic
import TrailingYear.Event
import TrailingYear.Rates

/-! # Payments and their values

What a payment is worth in the currency of a report, or why there is no report. -/

namespace TrailingYear

/-! ## What can stop a report

Amounts cannot be converted without a rate, results can leave the range of decimals, and months can
leave the calendar. -/

inductive Operation where
  | converting
  | summing
  deriving DecidableEq, Repr

def Operation.description : Operation → String
  | .converting => "converting an amount"
  | .summing => "summing amounts"

inductive Failure where
  | missingRate (currency target : String) (date : Date)
  | overflow (operation : Operation)
  | monthOutOfRange (date : Date) (months : Int)
  deriving DecidableEq, Repr

def Failure.message : Failure → String
  | .missingRate currency target date =>
    "no rate to " ++ target ++ " for currency " ++ currency ++ " on " ++ date.toText ++
      ", and no fallback rate is configured"
  | .overflow operation => "decimal overflow while " ++ operation.description
  | .monthOutOfRange date months =>
    "month arithmetic out of range: " ++ date.toText ++ " shifted by " ++ toString months ++
      " months"

/-! ## Payments in one currency

A payment is converted by the rate that the table has for its currency and day. The use of a
fallback rate is reported when it is chosen, and counted when all payments have been converted. -/

structure Payment where
  amount : Decimal
  currency : String
  date : Date
  deriving DecidableEq, Repr

structure Conversion where
  payment : Payment
  value : Decimal
  deriving DecidableEq, Repr

/-- Converts a payment, and tells which kind of rate gave its value. -/
def convert (table : RateTable) (p : Payment) : Logged Failure (Conversion × RateSource) := do
  match table.lookup p.currency p.date with
  | none => .ofExcept (.error (.missingRate p.currency table.target p.date))
  | some (rate, source) =>
    if source = .fallback then .emit (.fallbackUsed p.currency p.date rate)
    match p.amount.mul? rate with
    | none => .ofExcept (.error (.overflow .converting))
    | some value => pure (⟨p, value⟩, source)

def normalize (table : RateTable) (p : Payment) : Except Failure Decimal :=
  (convert table p).result.map (·.1.value)

def convertEach (table : RateTable) :
    List Payment → Logged Failure (List (Conversion × RateSource))
  | [] => pure []
  | p :: ps => do
    let c ← convert table p
    let cs ← convertEach table ps
    pure (c :: cs)

def countFallbacks (cs : List (Conversion × RateSource)) : Nat := cs.countP fun c => c.2 = .fallback

def convertAll (table : RateTable) (ps : List Payment) : Logged Failure (List Conversion) := do
  let cs ← convertEach table ps
  if 0 < countFallbacks cs then
    .emit (.fallbacksCounted (countFallbacks cs) ps.length table.target)
  pure (cs.map (·.1))

end TrailingYear
