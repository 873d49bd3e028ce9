import TrailingYear.Conversion
import TrailingYear.Decimal.Basic

/-! # Months and their totals

The window of a report, the totals that are added up by month, and the twelve
buckets of a series. -/

namespace TrailingYear

/-! ## Months before a date

A report covers the twelve months that end with the month of its anchor. -/

abbrev windowMonths : Nat := 12

namespace Date

/-- Moves by whole months; the day becomes the last of a month that is too short for it. -/
def shiftMonths (d : Date) (months : Int) : Except Failure Date :=
  match d.inMonth? (d.monthIndex + months) with
  | some e => .ok e
  | none => .error (.monthOutOfRange d months)

def windowStart (anchor : Date) : Except Failure Date := anchor.firstOfMonth.shiftMonths (-11)

def windowPeriods (anchor : Date) : Except Failure (List Date) := do
  let start ← anchor.windowStart
  (List.range windowMonths).mapM fun (i : Nat) => start.shiftMonths i

end Date

/-! ## Totals by month

Amounts are added up by calendar month. Each month is held once, by its first day, and the months
stand in order. -/

structure Bucket where
  period : Date
  total : Decimal
  deriving DecidableEq, Repr

namespace Bucket

def zero (period : Date) : Bucket := ⟨period, .zero⟩

def Same (a b : Bucket) : Prop := a.period = b.period ∧ a.total.Same b.total

instance (a b : Bucket) : Decidable (a.Same b) := inferInstanceAs (Decidable (_ ∧ _))

def Le (a b : Bucket) : Prop := a.period < b.period ∨ a.period = b.period ∧ a.total ≤ b.total

instance (a b : Bucket) : Decidable (a.Le b) := inferInstanceAs (Decidable (_ ∨ _))

def sort (bs : List Bucket) : List Bucket := bs.mergeSort fun a b => decide (a.Le b)

end Bucket

def checkedSum (a b : Decimal) : Except Failure Decimal :=
  match a.add? b with
  | some c => .ok c
  | none => .error (.overflow .summing)

def sumAll (values : List Decimal) : Except Failure Decimal := values.foldlM checkedSum .zero

/-- The greatest total, the last one of those that are equal, or zero if there is none. -/
def maximum : List Bucket → Decimal
  | [] => .zero
  | b :: bs => bs.foldl (fun m c => max m c.total) b.total

structure MonthlyTotals where
  buckets : List Bucket
  deriving DecidableEq, Repr

namespace MonthlyTotals

def empty : MonthlyTotals := ⟨[]⟩

/-- The buckets with one for `period`, which is put in its place as a plain zero if it is new. -/
def enter (period : Date) : List Bucket → List Bucket
  | [] => [.zero period]
  | b :: bs =>
    if period < b.period then .zero period :: b :: bs
    else if period = b.period then b :: bs
    else b :: enter period bs

def setTotal (period : Date) (total : Decimal) (bs : List Bucket) : List Bucket :=
  bs.map fun b => if b.period = period then ⟨period, total⟩ else b

def get? (t : MonthlyTotals) (date : Date) : Option Decimal :=
  (t.buckets.find? fun b => b.period = date.firstOfMonth).map (·.total)

/-- Adds in place. The month has its bucket before the sum is checked, and a sum that overflows
does not take it away. -/
def record (t : MonthlyTotals) (date : Date) (amount : Decimal) :
    MonthlyTotals × Except Failure Unit :=
  let entered : MonthlyTotals := ⟨enter date.firstOfMonth t.buckets⟩
  match checkedSum ((entered.get? date).getD .zero) amount with
  | .ok total => (⟨setTotal date.firstOfMonth total entered.buckets⟩, .ok ())
  | .error e => (entered, .error e)

def add (t : MonthlyTotals) (date : Date) (amount : Decimal) : Except Failure MonthlyTotals :=
  match t.record date amount with
  | (after, .ok _) => .ok after
  | (_, .error e) => .error e

def ofEntries (entries : List (Date × Decimal)) : Except Failure MonthlyTotals :=
  entries.foldlM (fun t (date, amount) => t.add date amount) empty

def size (t : MonthlyTotals) : Nat := t.buckets.length

def isEmpty (t : MonthlyTotals) : Bool := t.buckets.isEmpty

inductive Step where
  | add (date : Date) (amount : Decimal)
  | group (entries : List (Date × Decimal))
  deriving DecidableEq, Repr

/-- The totals after a step, and how it ended. New totals take the place of the
old ones as a whole. -/
def perform (t : MonthlyTotals) : Step → MonthlyTotals × Except Failure Unit
  | .add date amount => t.record date amount
  | .group entries =>
    match ofEntries entries with
    | .ok grouped => (grouped, .ok ())
    | .error e => (t, .error e)

def run (t : MonthlyTotals) : List Step → MonthlyTotals
  | [] => t
  | s :: ss => run (t.perform s).1 ss

def withinWindow (t : MonthlyTotals) (anchor : Date) : Except Failure (List Bucket) := do
  let start ← anchor.windowStart
  return t.buckets.filter fun b => start ≤ b.period ∧ b.period ≤ anchor.firstOfMonth

end MonthlyTotals

/-! ## Twelve-month series

A series has a bucket for each month of the window of its anchor, a plain zero where nothing was
added. Its maximum is taken over the months that have a bucket of their own. -/

structure MonthlySeries where
  buckets : List Bucket
  maximum : Decimal
  deriving DecidableEq, Repr

namespace MonthlySeries

def total (s : MonthlySeries) : Except Failure Decimal := sumAll (s.buckets.map (·.total))

end MonthlySeries

/-- The buckets without the first one if that is older than `start`. It is then reported as
dropped; those that are older too and follow it stay. -/
def Bucket.dropOlder (start : Date) : List Bucket → Logged Failure (List Bucket)
  | [] => pure []
  | first :: rest =>
    if first.period < start then do
      .emit (.periodDropped first.period start)
      pure rest
    else pure (first :: rest)

/-- The window of `anchor`, where a month without a bucket of its own gets a plain zero. -/
def MonthlyTotals.fillWindow (t : MonthlyTotals) (anchor : Date) :
    Logged Failure (List Bucket) := do
  let start ← .ofExcept anchor.windowStart
  let items ← Bucket.dropOlder start t.buckets
  let periods ← .ofExcept anchor.windowPeriods
  let filled := periods.map fun period =>
    (items.find? fun b => b.period = period).getD (.zero period)
  .emit (.windowFilled anchor t.size (filled.countP fun b : Bucket => b.total.IsZero))
  pure filled

namespace MonthlySeries

def ofTotals (t : MonthlyTotals) (anchor : Date) : Logged Failure MonthlySeries := do
  let held ← .ofExcept (t.withinWindow anchor)
  let buckets ← t.fillWindow anchor
  pure ⟨buckets, TrailingYear.maximum held⟩

def income (table : RateTable) (anchor : Date) (ps : List Payment) :
    Logged Failure MonthlySeries := do
  let cs ← convertAll table ps
  let t ← .ofExcept (MonthlyTotals.ofEntries (cs.map fun c => (c.payment.date, c.value)))
  .emit (.incomeGrouped ps.length t.size table.target)
  ofTotals t anchor

def counts (anchor : Date) (dates : List Date) : Logged Failure MonthlySeries := do
  let t ← .ofExcept (MonthlyTotals.ofEntries (dates.map fun date => (date, .one)))
  .emit (.countsGrouped dates.length t.size)
  ofTotals t anchor

end MonthlySeries

abbrev totalPlaces : Nat := 2

/-- Every payment with its value, and the sum of the values rounded half to even to cents. -/
def convertedTotal (table : RateTable) (ps : List Payment) :
    Logged Failure (List Conversion × Decimal) := do
  let cs ← convertAll table ps
  let total ← .ofExcept (sumAll (cs.map (·.value)))
  pure (cs, total.round totalPlaces)

end TrailingYear
