import TrailingYear.Date
import TrailingYear.Decimal.Text

/-! # Events

What a computation reports while it runs. A `Logged` result carries its events in order, those
before a failure included. -/

namespace TrailingYear

inductive Level where
  | debug
  | info
  deriving DecidableEq, Repr

inductive Event where
  | paymentsLoaded (count : Nat)
  | ratesLoaded (count : Nat)
  | currenciesLoaded (count : Nat)
  | datesLoaded (count : Nat) (column : String)
  | noRatesFile (path : String)
  | rateTableLoaded (currency column : String) (dated : Nat)
  | fallbackUsed (currency : String) (date : Date) (rate : Decimal)
  | fallbacksCounted (fallbacks records : Nat) (target : String)
  | incomeGrouped (records months : Nat) (target : String)
  | countsGrouped (records months : Nat)
  | periodDropped (period windowStart : Date)
  | windowFilled (anchor : Date) (grouped zeroMonths : Nat)
  | incomeReady (payments : Nat) (anchor : Date)
  deriving DecidableEq, Repr

namespace Event

def level : Event → Level
  | .noRatesFile .. | .rateTableLoaded .. | .fallbacksCounted .. | .incomeReady .. => .info
  | _ => .debug

def message : Event → String
  | .paymentsLoaded _ => "loaded payments"
  | .ratesLoaded _ => "loaded dated rates"
  | .currenciesLoaded _ => "loaded currencies"
  | .datesLoaded .. => "loaded dates"
  | .noRatesFile _ => "no dated rates file, using fallback rates only"
  | .rateTableLoaded .. => "rate table loaded"
  | .fallbackUsed .. => "no dated rate, using currency fallback rate"
  | .fallbacksCounted .. => "records converted with currency fallback rates"
  | .incomeGrouped .. => "grouped income by month"
  | .countsGrouped .. => "grouped counts by month"
  | .periodDropped .. => "dropping period before window"
  | .windowFilled .. => "filled twelve-month series"
  | .incomeReady .. => "income series ready"

/-- The values of an event by name. A column name is given in quotes where it is one of two. -/
def fields : Event → List (String × String)
  | .paymentsLoaded count | .ratesLoaded count | .currenciesLoaded count =>
    [("count", toString count)]
  | .datesLoaded count column => [("count", toString count), ("column", column)]
  | .noRatesFile path => [("path", path)]
  | .rateTableLoaded currency column dated =>
    [("currency", currency), ("rate_column", "\"" ++ column ++ "\""),
      ("dated_rates", toString dated)]
  | .fallbackUsed currency date rate =>
    [("currency", currency), ("date", date.toText), ("rate", rate.toText)]
  | .fallbacksCounted fallbacks records target =>
    [("fallbacks", toString fallbacks), ("records", toString records), ("target", target)]
  | .incomeGrouped records months target =>
    [("records", toString records), ("months", toString months), ("target", target)]
  | .countsGrouped records months => [("records", toString records), ("months", toString months)]
  | .periodDropped period start => [("period", period.toText), ("window_start", start.toText)]
  | .windowFilled anchor grouped zeroMonths =>
    [("anchor", anchor.toText), ("grouped", toString grouped), ("zero_months", toString zeroMonths)]
  | .incomeReady payments anchor => [("payments", toString payments), ("anchor", anchor.toText)]

def line (e : Event) : String :=
  let level := match e.level with
    | .debug => "DEBUG"
    | .info => "INFO"
  " ".intercalate (level :: e.message :: e.fields.map fun (name, value) => name ++ "=" ++ value)

end Event

structure Logged (ε α : Type) where
  events : List Event
  result : Except ε α

namespace Logged

def bind {ε α β : Type} (x : Logged ε α) (f : α → Logged ε β) : Logged ε β :=
  match x.result with
  | .ok a => ⟨x.events ++ (f a).events, (f a).result⟩
  | .error e => ⟨x.events, .error e⟩

instance {ε : Type} : Monad (Logged ε) where
  pure a := ⟨[], .ok a⟩
  bind := bind

def emit {ε : Type} (e : Event) : Logged ε Unit := ⟨[e], .ok ()⟩

def ofExcept {ε α : Type} (x : Except ε α) : Logged ε α := ⟨[], x⟩

def mapError {ε ε' α : Type} (f : ε → ε') (x : Logged ε α) : Logged ε' α :=
  ⟨x.events, x.result.mapError f⟩

section

variable {ε ε' α β γ : Type}

@[simp] theorem events_pure (a : α) : (pure a : Logged ε α).events = [] := rfl
@[simp] theorem result_pure (a : α) : (pure a : Logged ε α).result = .ok a := rfl

@[simp] theorem events_emit (e : Event) : (emit e : Logged ε Unit).events = [e] := rfl
@[simp] theorem result_emit (e : Event) : (emit e : Logged ε Unit).result = .ok () := rfl

@[simp] theorem result_ofExcept (x : Except ε α) : (ofExcept x).result = x := rfl

@[simp] theorem result_mapError (f : ε → ε') (x : Logged ε α) :
    (x.mapError f).result = x.result.mapError f := rfl

theorem bind_of_ok {x : Logged ε α} {a : α} (f : α → Logged ε β) (h : x.result = .ok a) :
    x >>= f = ⟨x.events ++ (f a).events, (f a).result⟩ := by
  simp [Bind.bind, bind, h]

theorem bind_of_error {x : Logged ε α} {e : ε} (f : α → Logged ε β) (h : x.result = .error e) :
    x >>= f = ⟨x.events, .error e⟩ := by
  simp [Bind.bind, bind, h]

theorem result_bind_of_ok {x : Logged ε α} {a : α} (f : α → Logged ε β) (h : x.result = .ok a) :
    (x >>= f).result = (f a).result := by
  rw [bind_of_ok f h]

/-- The result of a sequence does not depend on the events. -/
theorem result_bind (x : Logged ε α) (f : α → Logged ε β) :
    (x >>= f).result = x.result >>= fun a => (f a).result := by
  cases h : x.result with
  | ok a => rw [bind_of_ok f h]; rfl
  | error e => rw [bind_of_error f h]; rfl

/-- What is made of a result reports nothing. -/
@[simp] theorem events_bind_pure (x : Logged ε α) (f : α → β) :
    (x >>= fun a => pure (f a)).events = x.events := by
  cases h : x.result with
  | ok a => simp [bind_of_ok _ h]
  | error e => simp [bind_of_error _ h]

theorem bind_assoc (x : Logged ε α) (f : α → Logged ε β) (g : β → Logged ε γ) :
    x >>= f >>= g = x >>= fun a => f a >>= g := by
  obtain ⟨events, result⟩ := x
  cases result with
  | error e => rfl
  | ok a =>
    simp only [Bind.bind, bind]
    cases (f a).result with
    | error e => rfl
    | ok b =>
      dsimp only
      rw [List.append_assoc]

end

end Logged
end TrailingYear
