import TrailingYear.Proofs.Bars
import TrailingYear.Proofs.Command.Reports
import TrailingYear.Proofs.Conservation
import TrailingYear.Proofs.Date.Text
import TrailingYear.Proofs.Field
import TrailingYear.Proofs.Import.Readers
import Mathlib.Order.Bounds.Defs

/-! # The chart of a series

Amounts that were read are not negative and rates are positive, so no value and no total is
negative. The months without payments then cannot exceed the maximum over those with, and each bar
shows its part of the greatest total of all. -/

namespace TrailingYear

theorem mul?_nonneg {a b c : Decimal} (h : a.mul? b = some c) (ha : 0 ≤ a.toRat)
    (hb : 0 ≤ b.toRat) :
    0 ≤ c.toRat :=
  (Decimal.mul?_roundsTo h).nonneg (mul_nonneg ha hb)

theorem checkedSum_nonneg {a b c : Decimal} (h : checkedSum a b = .ok c) (ha : 0 ≤ a.toRat)
    (hb : 0 ≤ b.toRat) : 0 ≤ c.toRat := by
  unfold checkedSum at h
  cases hc : a.add? b with
  | none =>
    rw [hc] at h
    cases h
  | some d =>
    rw [hc] at h
    cases h
    exact (Decimal.add?_roundsTo hc).nonneg (add_nonneg ha hb)

theorem sumAll_nonneg {values : List Decimal} (hv : ∀ v ∈ values, 0 ≤ v.toRat) {total : Decimal}
    (h : sumAll values = .ok total) : 0 ≤ total.toRat := by
  induction values using List.reverseRecOn generalizing total with
  | nil =>
    cases h
    rw [Decimal.toRat_zero]
  | append_singleton values v ih =>
    rw [sumAll_concat] at h
    obtain ⟨before, hbefore, h⟩ := bind_eq_ok_iff.mp h
    apply checkedSum_nonneg h
    · exact ih (fun w hw => hv w (List.mem_append_left _ hw)) hbefore
    · exact hv v (by simp)

/-- A rate that is used is one that was read, or one. -/
theorem rateUsed_pos {target : String} {field : RateField} {rows : List RateRow}
    {currencies : List Currency} (hr : ∀ r ∈ rows, r.Checked) (hc : CurrenciesChecked currencies)
    {currency : String} {date : Date} {rate : Decimal}
    (h : rateUsed target field rows currencies currency date = some rate) : 0 < rate.toRat := by
  unfold rateUsed at h
  split at h
  · cases h
    rw [Decimal.toRat_one]
    exact one_pos
  rcases Option.or_eq_some_iff.mp h with hlast | ⟨_, hfallback⟩
  · have hmem := List.mem_of_getLast? hlast
    obtain ⟨r, hrow, rfl⟩ := List.mem_map.mp hmem
    exact (hr r (List.mem_filter.mp hrow).1).rate field
  · obtain ⟨c, hfind, hrate⟩ := Option.bind_eq_some_iff.mp hfallback
    exact hc.rate c (List.mem_of_find?_eq_some hfind) field rate hrate

theorem normalize_nonneg {rc : ReportingCurrency} {rows : List RateRow} {currencies : List Currency}
    (hr : ∀ r ∈ rows, r.Checked) (hc : CurrenciesChecked currencies) {p : Payment} (hp : p.Checked)
    {v : Decimal} (h : normalize (Environment.tableOf rc rows currencies) p = .ok v) :
    0 ≤ v.toRat := by
  rw [normalize_eq_valueAt, Environment.tableOf, RateTable.lookup_ofParts _ _ _ hc.distinct] at h
  unfold valueAt at h
  split at h
  · cases h
  · rename_i rate hrate
    split at h
    · cases h
    · rename_i value hvalue
      cases h
      exact mul?_nonneg hvalue hp.amount (rateUsed_pos hr hc hrate).le

namespace MonthlySeries

def bar (s : MonthlySeries) (places width : ℕ) (b : Bucket) : ℕ :=
  (Report.tableLine s.maximum places width b).toList.count '#'

/-- What the chart of a series without negative totals shows. The bar of the maximum takes any
width that a decimal can hold, which every machine word is. -/
structure Charted (s : MonthlySeries) : Prop where
  twelve : s.buckets.length = windowMonths
  nonneg : ∀ b ∈ s.buckets, 0 ≤ b.total.toRat
  maximum_nonneg : 0 ≤ s.maximum.toRat
  greatest : IsGreatest {x | ∃ b ∈ s.buckets, b.total.toRat = x} s.maximum.toRat
  zero : s.maximum.toRat = 0 → ∀ b ∈ s.buckets, b.total.toRat = 0
  bar_le : ∀ places width, ∀ b ∈ s.buckets, s.bar places width b ≤ width
  bar_mono : ∀ places width, ∀ b ∈ s.buckets, ∀ c ∈ s.buckets, b.total.toRat ≤ c.total.toRat →
    s.bar places width b ≤ s.bar places width c
  bar_maximum : ∀ places width, width < Decimal.capacity → 0 < s.maximum.toRat →
    ∀ b ∈ s.buckets, b.total.toRat = s.maximum.toRat → s.bar places width b = width

theorem hash_not_mem_toText (d : Decimal) : '#' ∉ d.toText.toList := by
  intro h
  have hchars := Decimal.IsWritten.mem_chars (.inl rfl) h
  revert hchars
  decide

theorem hash_not_mem_monthText (d : Date) : '#' ∉ d.monthText.toList := by
  intro h
  have hchars := Date.mem_monthText h
  revert hchars
  decide

/-- There are no other marks in a line of a table. -/
theorem bar_eq (s : MonthlySeries) (places width : ℕ) (b : Bucket) :
    s.bar places width b = barLength b.total s.maximum width := by
  have hmonth := List.count_eq_zero.mpr (hash_not_mem_monthText b.period)
  have htotal := List.count_eq_zero.mpr (hash_not_mem_toText (b.total.round places))
  unfold bar Report.tableLine padBlanks
  simp [hmonth, htotal, List.count_replicate]

end MonthlySeries

namespace SeriesOf

variable {anchor : Date} {entries : List (Date × Decimal)} {s : MonthlySeries}

theorem total_nonneg (h : SeriesOf anchor entries s) (hv : ∀ entry ∈ entries, 0 ≤ entry.2.toRat)
    {b : Bucket} (hb : b ∈ s.buckets) : 0 ≤ b.total.toRat := by
  apply sumAll_nonneg _ (h.total b hb)
  intro v hmem
  obtain ⟨entry, hentry, rfl⟩ := List.mem_map.mp hmem
  exact hv entry (List.mem_filter.mp hentry).1

/-- Filled months have plain zeros, which cannot exceed a maximum that is not negative. -/
theorem isGreatest_maximum (h : SeriesOf anchor entries s)
    (hv : ∀ entry ∈ entries, 0 ≤ entry.2.toRat) :
    IsGreatest {x | ∃ b ∈ s.buckets, b.total.toRat = x} s.maximum.toRat := by
  have hfilled : ∀ b ∈ s.buckets, MonthlyTotals.amountsIn b.period entries = [] →
      b.total = .zero := by
    intro b hb hnil
    have ht := h.total b hb
    rw [hnil] at ht
    exact (Except.ok.inj ht).symm
  have htwelve : s.buckets ≠ [] := by
    have hlength := h.window.length
    rw [List.length_map] at hlength
    apply List.ne_nil_of_length_pos
    rw [hlength]
    decide
  constructor
  · rcases h.maximum.mem with hmem | ⟨hnil, hzero⟩
    · obtain ⟨b, hb, heq⟩ := List.mem_map.mp hmem
      exact ⟨b, (List.mem_filter.mp hb).1, congrArg Decimal.toRat heq⟩
    · obtain ⟨b, hb⟩ := List.exists_mem_of_ne_nil _ htwelve
      refine ⟨b, hb, ?_⟩
      rw [List.map_eq_nil_iff, List.filter_eq_nil_iff] at hnil
      rw [hzero, hfilled b hb (by simpa using hnil b hb)]
  · rintro x ⟨b, hb, rfl⟩
    by_cases hnil : MonthlyTotals.amountsIn b.period entries = []
    · rw [hfilled b hb hnil, Decimal.toRat_zero]
      rcases h.maximum.mem with hmem | ⟨_, hzero⟩
      · obtain ⟨c, hc, heq⟩ := List.mem_map.mp hmem
        rw [← heq]
        exact h.total_nonneg hv (List.mem_filter.mp hc).1
      · rw [hzero, Decimal.toRat_zero]
    · apply Decimal.le_iff_toRat.mp
      apply h.maximum.greatest
      exact List.mem_map_of_mem (List.mem_filter.mpr ⟨hb, decide_eq_true hnil⟩)

theorem charted (h : SeriesOf anchor entries s) (hv : ∀ entry ∈ entries, 0 ≤ entry.2.toRat) :
    s.Charted := by
  have hnonneg : ∀ b ∈ s.buckets, 0 ≤ b.total.toRat := fun b hb => h.total_nonneg hv hb
  have hgreatest := h.isGreatest_maximum hv
  have hmaximum : 0 ≤ s.maximum.toRat := by
    obtain ⟨b, hb, heq⟩ := hgreatest.1
    rw [← heq]
    exact hnonneg b hb
  refine ⟨?_, hnonneg, hmaximum, hgreatest, ?_, ?_, ?_, ?_⟩
  · rw [← h.window.length, List.length_map]
  · intro hzero b hb
    have hle := hgreatest.2 ⟨b, hb, rfl⟩
    exact le_antisymm (hzero ▸ hle) (hnonneg b hb)
  · intro places width b _
    rw [MonthlySeries.bar_eq]
    exact Report.barLength_le_width ..
  · intro places width b _ c _ hle
    rw [MonthlySeries.bar_eq, MonthlySeries.bar_eq]
    exact Report.barLength_mono _ _ hle
  · intro places width hw hpos b _ heq
    rw [MonthlySeries.bar_eq]
    exact Report.barLength_eq_width hpos heq.ge hw

end SeriesOf

/-- Whatever the readers accept, the chart shows each month's part of the greatest total. -/
theorem income_is_charted {paymentBytes rateBytes currencyBytes : List UInt8} {ps : List Payment}
    {rows : List RateRow} {currencies : List Currency} (hp : Import.payments paymentBytes = .ok ps)
    (hr : Import.rates rateBytes = .ok rows ∨ rows = [])
    (hc : Import.currencies currencyBytes = .ok currencies) (rc : ReportingCurrency) (anchor : Date)
    {s : MonthlySeries}
    (hs : (MonthlySeries.income (Environment.tableOf rc rows currencies) anchor ps).result =
      .ok s) :
    s.Charted := by
  have hrows : ∀ r ∈ rows, r.Checked := by
    rcases hr with hr | rfl
    · exact Import.rates_checked hr
    · simp
  have hcurrencies := Import.currencies_checked hc
  cases result_income_iff.mp hs with
  | series _ _ _ hseries =>
    apply hseries.charted
    intro entry hentry
    obtain ⟨p, hmem, hvalue⟩ := List.mem_filterMap.mp hentry
    cases hv : normalize (Environment.tableOf rc rows currencies) p with
    | error e =>
      rw [hv] at hvalue
      cases hvalue
    | ok v =>
      rw [hv] at hvalue
      cases hvalue
      exact normalize_nonneg hrows hcurrencies (Import.payments_checked hp p hmem) hv

def twoPayments : List UInt8 := Utf8.encode
  "amount,currency,payment_date\n\"1,000\",EUR,2024-03-09\n0.05,USD,2024-04-01\n".toList

def oneRate : List UInt8 := Utf8.encode
  ("currency,payment_date,rate_to_state_currency,rate_to_marketing_currency\n" ++
    "EUR,2024-03-09,1.1,2\n").toList

def readPayments : List Payment :=
  [⟨.ofParts 1000 0, "EUR", .ofParts 2024 3 9⟩, ⟨.ofParts 5 2, "USD", .ofParts 2024 4 1⟩]

def readRates : List RateRow := [⟨"EUR", .ofParts 2024 3 9, .ofParts 11 1, .ofParts 2 0⟩]

theorem income_is_charted_two_months :
    ∃ s, (MonthlySeries.income (Environment.tableOf ⟨"USD", .state, "Dollar"⟩ readRates
      [⟨"USD", "Dollar", none, none⟩, ⟨"EUR", "Euro", none, none⟩])
      ⟨2024, 6, 15, by decide⟩ readPayments).result = .ok s ∧ s.Charted := by
  have hp : Import.payments twoPayments = .ok readPayments := by decide +kernel
  have hr : Import.rates oneRate = .ok readRates := by decide +kernel
  have hc : Import.currencies Environment.twoCurrencies =
      .ok [⟨"USD", "Dollar", none, none⟩, ⟨"EUR", "Euro", none, none⟩] := by
    decide +kernel
  have hok : (MonthlySeries.income (Environment.tableOf ⟨"USD", .state, "Dollar"⟩ readRates
      [⟨"USD", "Dollar", none, none⟩, ⟨"EUR", "Euro", none, none⟩])
      ⟨2024, 6, 15, by decide⟩ readPayments).result.isOk = true := by
    decide +kernel
  cases hs : (MonthlySeries.income (Environment.tableOf ⟨"USD", .state, "Dollar"⟩ readRates
      [⟨"USD", "Dollar", none, none⟩, ⟨"EUR", "Euro", none, none⟩])
      ⟨2024, 6, 15, by decide⟩ readPayments).result with
  | ok s => exact ⟨s, rfl, income_is_charted hp (.inl hr) hc _ _ hs⟩
  | error e =>
    rw [hs] at hok
    cases hok

end TrailingYear
