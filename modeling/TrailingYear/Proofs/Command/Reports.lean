import TrailingYear.Proofs.Command.Files
import TrailingYear.Proofs.RatesUsed

/-! # Reports from files

The two commands that convert payments print what follows from the rates used, and nothing else in
the files of currencies and rates has a part in it. -/

namespace TrailingYear
namespace Environment

/-- The lists that come from the files. That of the dated rates is empty if the settings name a file
that is not there. -/
structure Loads (env : Environment) (s : Settings) (sources : Sources) (currencies : List Currency)
    (rows : List RateRow) (ps : List Payment) : Prop where
  currencies : ∃ bytes, env.files.read? (sources.currencies.getD s.currenciesPath) = some bytes ∧
    Import.currencies bytes = .ok currencies
  rates : (sources.rates = none ∧ env.files.isTaken s.ratesPath = false ∧ rows = []) ∨
    ∃ bytes, env.files.read? (sources.rates.getD s.ratesPath) = some bytes ∧
      Import.rates bytes = .ok rows
  payments : ∃ bytes, env.files.read? (sources.payments.getD s.paymentsPath) = some bytes ∧
    Import.payments bytes = .ok ps

theorem load_ok {α : Type} {env : Environment} {read : List UInt8 → Except ImportError α}
    {path : String} {bytes : List UInt8} {a : α} (hr : env.files.read? path = some bytes)
    (ha : read bytes = .ok a) : (env.load read path).result = .ok a := by
  rw [load, hr]
  change (read bytes).mapError _ = _
  rw [ha]
  rfl

theorem loadRateFile_ok {env : Environment} {path : String} {bytes : List UInt8}
    {rows : List RateRow} (hr : env.files.read? path = some bytes)
    (ha : Import.rates bytes = .ok rows) :
    (env.loadRateFile path).result = .ok rows := by
  rw [loadRateFile, Logged.result_bind_of_ok _ (load_ok hr ha)]
  rfl

namespace Loads

variable {env : Environment} {s : Settings} {sources : Sources} {currencies : List Currency}
  {rows : List RateRow} {ps : List Payment}

theorem codes (h : env.Loads s sources currencies rows ps) : CodesChecked currencies := by
  obtain ⟨bytes, _, hc⟩ := h.currencies
  exact Import.currencies_codes hc

theorem loadCurrencies (h : env.Loads s sources currencies rows ps) :
    (env.loadCurrencies (sources.currencies.getD s.currenciesPath)).result = .ok currencies := by
  obtain ⟨bytes, hr, hc⟩ := h.currencies
  rw [Environment.loadCurrencies, Logged.result_bind_of_ok _ (load_ok hr hc)]
  rfl

theorem loadPayments (h : env.Loads s sources currencies rows ps) :
    (env.loadPayments (sources.payments.getD s.paymentsPath)).result = .ok ps := by
  obtain ⟨bytes, hr, hp⟩ := h.payments
  rw [Environment.loadPayments, Logged.result_bind_of_ok _ (load_ok hr hp)]
  rfl

theorem loadRates (h : env.Loads s sources currencies rows ps) :
    (env.loadRates sources.rates s.ratesPath).result = .ok rows := by
  rcases h.rates with ⟨hg, habsent, rfl⟩ | ⟨bytes, hr, ha⟩
  · rw [hg, Environment.loadRates, habsent]
    rfl
  · cases hg : sources.rates with
    | some path =>
      rw [hg] at hr
      exact loadRateFile_ok hr ha
    | none =>
      rw [hg, Option.getD_none] at hr
      rw [Environment.loadRates, if_pos (Files.isTaken_of_read? hr)]
      exact loadRateFile_ok hr ha

end Loads

def tableOf (rc : ReportingCurrency) (rows : List RateRow) (currencies : List Currency) :
    RateTable :=
  .ofParts rc.code rc.rateField (rows.map (·.toDatedRate rc.rateField)) currencies

def valueOf (rc : ReportingCurrency) (rows : List RateRow) (currencies : List Currency)
    (p : Payment) :
    Except Failure Decimal :=
  valueAt rc.code p (rateUsed rc.code rc.rateField rows currencies p.currency p.date)

def conversions (rc : ReportingCurrency) (rows : List RateRow) (currencies : List Currency)
    (ps : List Payment) : Except Failure (List Conversion) :=
  ps.mapM fun p => (valueOf rc rows currencies p).map (Conversion.mk p)

def totalOf (rc : ReportingCurrency) (listed json : Bool)
    (converted : Except Failure (List Conversion)) : Except CommandError String := do
  let (cs, total) ← (converted >>= fun cs =>
    (sumAll (cs.map (·.value))).map fun total =>
      (cs, total.round totalPlaces)).mapError .totalFailed
  let summary : Summary := ⟨rc, cs, total⟩
  return if json then (summary.toJson listed).toText ++ "\n" else summary.toText listed

def incomeOf (env : Environment) (s : Settings) (display : Display) (rc : ReportingCurrency)
    (converted : Except Failure (List Conversion)) : Except CommandError String := do
  let anchor ← (env.anchor s display.anchor).result
  let series ← (converted >>= fun cs =>
    MonthlyTotals.ofEntries (cs.map fun c => (c.payment.date, c.value)) >>= fun t =>
      (MonthlySeries.ofTotals t anchor).result).mapError .incomeFailed
  return printReport s display.json 2 ⟨"Income", some rc, anchor, series⟩

theorem target_tableOf (rc : ReportingCurrency) (rows : List RateRow) (currencies : List Currency) :
    (tableOf rc rows currencies).target = rc.code := by
  rw [tableOf, RateTable.ofParts, (RateTable.foldl_insertCurrency_keeps ..).1,
    RateTable.target_foldl_insertRate]
  rfl

theorem result_convertAll_tableOf (rc : ReportingCurrency) (rows : List RateRow)
    {currencies : List Currency} (h : CodesChecked currencies) (ps : List Payment) :
    (convertAll (tableOf rc rows currencies) ps).result = conversions rc rows currencies ps := by
  rw [result_convertAll, conversions]
  congr 1
  funext p
  rw [normalize_eq_valueAt, target_tableOf, tableOf, RateTable.lookup_ofParts _ _ _ h.distinct]
  rfl

namespace Loads

variable {env : Environment} {s : Settings} {sources : Sources} {currencies : List Currency}
  {rows : List RateRow} {ps : List Payment}

theorem loadTable (h : env.Loads s sources currencies rows ps) :
    (env.loadTable s sources).result = .ok (reportingCurrency s currencies,
      tableOf (reportingCurrency s currencies) rows currencies) := by
  rw [Environment.loadTable, Logged.result_bind_of_ok _ h.loadCurrencies,
    Logged.result_bind_of_ok _ h.loadRates]
  rfl

theorem result_total (h : env.Loads s sources currencies rows ps) (listed json : Bool) :
    (env.total s sources listed json).result =
      totalOf (reportingCurrency s currencies) listed json
        (conversions (reportingCurrency s currencies) rows currencies ps) := by
  rw [Environment.total, Logged.result_bind_of_ok _ h.loadTable]
  dsimp only
  rw [Logged.result_bind_of_ok _ h.loadPayments, Logged.result_bind, Logged.result_mapError,
    result_convertedTotal, result_convertAll_tableOf _ _ h.codes]
  rfl

theorem result_income (h : env.Loads s sources currencies rows ps) (display : Display) :
    (env.income s sources display).result =
      env.incomeOf s display (reportingCurrency s currencies)
        (conversions (reportingCurrency s currencies) rows currencies ps) := by
  rw [Environment.income, Logged.result_bind_of_ok _ h.loadTable]
  dsimp only
  rw [Logged.result_bind_of_ok _ h.loadPayments, Logged.result_bind, incomeOf]
  congr 1
  funext anchor
  rw [Logged.result_bind, Logged.result_mapError, TrailingYear.result_income,
    result_convertAll_tableOf _ _ h.codes]
  rfl

end Loads

theorem conversions_error {rc : ReportingCurrency} {rows : List RateRow}
    {currencies : List Currency} {ps before after : List Payment} {p : Payment} {e : Failure}
    (hl : ps = before ++ p :: after) (hb : ∀ q ∈ before, ∃ v, valueOf rc rows currencies q = .ok v)
    (hp : valueOf rc rows currencies p = .error e) :
    conversions rc rows currencies ps = .error e := by
  rw [conversions, mapM_eq_error_iff]
  refine ⟨before, p, after, hl, ?_, by rw [hp]; rfl⟩
  intro q hq
  obtain ⟨v, hv⟩ := hb q hq
  exact ⟨⟨q, v⟩, by rw [hv]; rfl⟩

theorem conversions_congr {rc : ReportingCurrency} {rows rows' : List RateRow}
    {currencies currencies' : List Currency} (ps : List Payment)
    (h : ∀ currency date, rateUsed rc.code rc.rateField rows currencies currency date =
      rateUsed rc.code rc.rateField rows' currencies' currency date) :
    conversions rc rows currencies ps = conversions rc rows' currencies' ps := by
  simp only [conversions, valueOf, h]

def SameReports (env env' : Environment) (s : Settings) (sources : Sources) : Prop :=
  (∀ listed json, (env.total s sources listed json).result =
    (env'.total s sources listed json).result) ∧
    ∀ display, (env.income s sources display).result = (env'.income s sources display).result

theorem incomeOf_congr {env env' : Environment} (h : env.today = env'.today) (s : Settings)
    (display : Display) (rc : ReportingCurrency) (converted : Except Failure (List Conversion)) :
    env.incomeOf s display rc converted = env'.incomeOf s display rc converted := by
  have hanchor : env.anchor s display.anchor = env'.anchor s display.anchor := by
    unfold anchor
    rw [h]
  rw [incomeOf, incomeOf, hanchor]

theorem sameReports_of_unseen {env env' : Environment} {s : Settings} {sources : Sources}
    {currencies currencies' : List Currency} {rows rows' : List RateRow} {ps : List Payment}
    (ht : env.today = env'.today) (h : env.Loads s sources currencies rows ps)
    (h' : env'.Loads s sources currencies' rows' ps)
    (hu : Relation.EqvGen (Unseen (reportingCurrency s currencies).code
      (reportingCurrency s currencies).rateField) (rows, currencies) (rows', currencies')) :
    SameReports env env' s sources := by
  have hagree := Agree.of_eqvGen hu
  have hrc : reportingCurrency s currencies = reportingCurrency s currencies' :=
    hagree.currency h.codes s.marketingCode s.stateCode
  have hconversions := conversions_congr ps (hagree.rate h.codes)
  constructor
  · intro listed json
    rw [h.result_total, h'.result_total, ← hrc, hconversions]
  · intro display
    rw [h.result_income, h'.result_income, ← hrc, hconversions, incomeOf_congr ht]

theorem rates_of_header {bytes : List UInt8} {c : Columns}
    (hc : Import.columns (Table.ofBytes bytes) Import.rateColumns = .ok c)
    (hrows : (Table.ofBytes bytes).rows = []) : Import.rates bytes = .ok [] := by
  rw [Import.rates, hc, hrows]
  rfl

/-- Every payment is converted by the rate used; the first payment that has none, or whose value
leaves the range of decimals, is what both commands fail with. Unseen changes, and a file of dated
rates that holds no more than its header where there was none, leave both reports as they are. -/
theorem reports_by_rates_used {env : Environment} {s : Settings} {sources : Sources}
    {currencies : List Currency} {rows : List RateRow} {ps : List Payment}
    (h : env.Loads s sources currencies rows ps) {rc : ReportingCurrency}
    (hrc : rc = .ofCodes currencies s.marketingCode s.stateCode) :
    (∀ listed json, (env.total s sources listed json).result =
      totalOf rc listed json (conversions rc rows currencies ps)) ∧
    (∀ display, (env.income s sources display).result =
      env.incomeOf s display rc (conversions rc rows currencies ps)) ∧
    (∀ before p after e, ps = before ++ p :: after →
      (∀ q ∈ before, ∃ v, valueOf rc rows currencies q = .ok v) →
      valueOf rc rows currencies p = .error e →
      (∀ listed json, (env.total s sources listed json).result = .error (.totalFailed e)) ∧
      ∀ display anchor, (env.anchor s display.anchor).result = .ok anchor →
        (env.income s sources display).result = .error (.incomeFailed e)) ∧
    (∀ env' currencies' rows', env.today = env'.today →
      env'.Loads s sources currencies' rows' ps →
      Relation.EqvGen (Unseen rc.code rc.rateField) (rows, currencies) (rows', currencies') →
      SameReports env env' s sources) ∧
    (∀ (env' : Environment) bytes c, env.today = env'.today →
      env.files.read? (sources.currencies.getD s.currenciesPath) =
        env'.files.read? (sources.currencies.getD s.currenciesPath) →
      env.files.read? (sources.payments.getD s.paymentsPath) =
        env'.files.read? (sources.payments.getD s.paymentsPath) →
      sources.rates = none → env.files.read? s.ratesPath = none →
      env'.files.read? s.ratesPath = some bytes →
      Import.columns (Table.ofBytes bytes) Import.rateColumns = .ok c →
      (Table.ofBytes bytes).rows = [] → SameReports env env' s sources) := by
  have hchosen : rc = reportingCurrency s currencies := hrc
  subst hchosen
  refine ⟨h.result_total, h.result_income, ?_, ?_, ?_⟩
  · intro before p after e hl hb hp
    have herror := conversions_error hl hb hp
    constructor
    · intro listed json
      rw [h.result_total, herror]
      rfl
    · intro display anchor ha
      rw [h.result_income, herror, incomeOf, ha]
      rfl
  · intro env' currencies' rows' ht h' hu
    exact sameReports_of_unseen ht h h' hu
  · intro env' bytes c ht hcurrencies hpayments hg hnone hsome hc hrows
    have hempty : rows = [] := by
      rcases h.rates with ⟨_, _, he⟩ | ⟨bytes', hr, _⟩
      · exact he
      · rw [hg, Option.getD_none, hnone] at hr
        cases hr
    subst hempty
    have h' : env'.Loads s sources currencies [] ps := by
      refine ⟨hcurrencies ▸ h.currencies, Or.inr ⟨bytes, ?_, rates_of_header hc hrows⟩,
        hpayments ▸ h.payments⟩
      rw [hg]
      exact hsome
    exact sameReports_of_unseen ht h h' (.refl _)

def twoCurrencies : List UInt8 := Utf8.encode "code,name\nUSD,Dollar\nEUR,Euro\n".toList

def sameCurrencies : List UInt8 := Utf8.encode "code,name\nEUR,Euro\nUSD,Dollar\n".toList

def euroPayment : List UInt8 :=
  Utf8.encode "amount,currency,payment_date\n10,EUR,2024-03-09\n".toList

def ratesHeader : List UInt8 :=
  Utf8.encode "currency,payment_date,rate_to_state_currency,rate_to_marketing_currency\n".toList

def withCurrencies (currencies : List UInt8) : Environment :=
  ⟨⟨[⟨"currencies.csv", currencies⟩, ⟨"payments.csv", euroPayment⟩], []⟩, none,
    ⟨2024, 3, 10, by decide⟩⟩

def withRatesHeader : Environment :=
  { withCurrencies twoCurrencies with
    files := (withCurrencies twoCurrencies).files.write "rates.csv" ratesHeader }

theorem reports_by_rates_used_unrated :
    (∀ listed json,
      ((withCurrencies twoCurrencies).total .default ⟨none, none, none⟩ listed json).result =
        .error (.totalFailed (.missingRate "EUR" "USD" ⟨2024, 3, 9, by decide⟩))) ∧
    SameReports (withCurrencies twoCurrencies) (withCurrencies sameCurrencies) .default
      ⟨none, none, none⟩ ∧
    SameReports (withCurrencies twoCurrencies) withRatesHeader .default ⟨none, none, none⟩ := by
  have h : (withCurrencies twoCurrencies).Loads .default ⟨none, none, none⟩
      [⟨"USD", "Dollar", none, none⟩, ⟨"EUR", "Euro", none, none⟩] []
      [⟨⟨false, 10, 0, by decide, by decide⟩, "EUR", ⟨2024, 3, 9, by decide⟩⟩] :=
    ⟨⟨twoCurrencies, by decide +kernel, by decide +kernel⟩, Or.inl ⟨rfl, by decide +kernel, rfl⟩,
      ⟨euroPayment, by decide +kernel, by decide +kernel⟩⟩
  have h' : (withCurrencies sameCurrencies).Loads .default ⟨none, none, none⟩
      [⟨"EUR", "Euro", none, none⟩, ⟨"USD", "Dollar", none, none⟩] []
      [⟨⟨false, 10, 0, by decide, by decide⟩, "EUR", ⟨2024, 3, 9, by decide⟩⟩] :=
    ⟨⟨sameCurrencies, by decide +kernel, by decide +kernel⟩, Or.inl ⟨rfl, by decide +kernel, rfl⟩,
      ⟨euroPayment, by decide +kernel, by decide +kernel⟩⟩
  have hrc : (⟨"USD", .state, "Default Currency"⟩ : ReportingCurrency) =
      .ofCodes [⟨"USD", "Dollar", none, none⟩, ⟨"EUR", "Euro", none, none⟩] none none := rfl
  obtain ⟨_, _, hfails, hsame, hheader⟩ := reports_by_rates_used h hrc
  refine ⟨(hfails [] _ [] _ rfl (by simp) rfl).1, ?_, ?_⟩
  · exact hsame (withCurrencies sameCurrencies) _ _ (by decide +kernel) h'
      (.rel _ _ (.currencyOrder (.swap ..)))
  · exact hheader withRatesHeader ratesHeader ⟨Import.rateColumns⟩ (by decide +kernel)
      (by decide +kernel) (by decide +kernel) rfl (by decide +kernel) (by decide +kernel)
      (by decide +kernel) (by decide +kernel)

end Environment
end TrailingYear
