import TrailingYear.Proofs.Conversion
import TrailingYear.Proofs.Series

/-! # Income by month

The payments are converted, grouped by month, cut to the window and filled up. Together
these steps give each month of the window the sum of its own payments, and the first of them
that fails decides. -/

namespace TrailingYear

theorem result_income (table : RateTable) (anchor : Date) (ps : List Payment) :
    (MonthlySeries.income table anchor ps).result = (convertAll table ps).result >>= fun cs =>
      MonthlyTotals.ofEntries (cs.map fun c => (c.payment.date, c.value)) >>= fun t =>
        (MonthlySeries.ofTotals t anchor).result := by
  unfold MonthlySeries.income
  simp only [Logged.result_bind, Logged.result_ofExcept, Logged.result_emit]
  rfl

theorem result_convertedTotal (table : RateTable) (ps : List Payment) :
    (convertedTotal table ps).result = (convertAll table ps).result >>= fun cs =>
      (sumAll (cs.map (·.value))).map fun total => (cs, total.round totalPlaces) := by
  unfold convertedTotal
  simp only [Logged.result_bind, Logged.result_ofExcept, Logged.result_pure]
  rfl

/-- Of the days and values alone. -/
theorem result_income_of_ok {table : RateTable} {ps : List Payment} {cs : List Conversion}
    (anchor : Date) (h : (convertAll table ps).result = .ok cs) :
    (MonthlySeries.income table anchor ps).result =
      MonthlyTotals.ofEntries (cs.map fun c => (c.payment.date, c.value)) >>= fun t =>
        (MonthlySeries.ofTotals t anchor).result := by
  rw [result_income, h]
  rfl

open MonthlyTotals (amountsIn)

/-- The four ways in which the computation of a series ends. Each rules out those before it. -/
inductive IncomeEnds (table : RateTable) (anchor : Date) (ps : List Payment) :
    Except Failure MonthlySeries → Prop where
  | unconverted {before p after e} : ps = before ++ p :: after →
      (∀ q ∈ before, Converts table q) → normalize table p = .error e →
      IncomeEnds table anchor ps (.error e)
  | overflow {day e} : (∀ p ∈ ps, Converts table p) →
      sumAll (amountsIn day (valued table ps)) = .error e →
      IncomeEnds table anchor ps (.error (.overflow .summing))
  | outOfCalendar : (∀ p ∈ ps, Converts table p) →
      (∀ day, ∃ total, sumAll (amountsIn day (valued table ps)) = .ok total) →
      ¬ anchor.HasWindow →
      IncomeEnds table anchor ps (.error (.monthOutOfRange anchor.firstOfMonth (-11)))
  | series {s} : (∀ p ∈ ps, Converts table p) →
      (∀ day, ∃ total, sumAll (amountsIn day (valued table ps)) = .ok total) →
      anchor.HasWindow → SeriesOf anchor (valued table ps) s →
      IncomeEnds table anchor ps (.ok s)

theorem ofEntries_of_sums {entries : List (Date × Decimal)}
    (h : ∀ day, ∃ total, sumAll (amountsIn day entries) = .ok total) :
    ∃ t, MonthlyTotals.ofEntries entries = .ok t ∧ t.Holds entries := by
  rcases MonthlyTotals.ofEntries_eq entries with ht | ⟨_, day, e, he⟩
  · exact ht
  · obtain ⟨total, ht⟩ := h day
    rw [he] at ht
    cases ht

theorem ofEntries_of_overflow {entries : List (Date × Decimal)} {day : Date} {e : Failure}
    (h : sumAll (amountsIn day entries) = .error e) :
    MonthlyTotals.ofEntries entries = .error (.overflow .summing) := by
  rcases MonthlyTotals.ofEntries_eq entries with ⟨t, _, ht⟩ | ⟨he, _⟩
  · rw [ht.sum_eq day] at h
    cases h
  · exact he

variable {table : RateTable} {anchor : Date} {ps : List Payment}

theorem IncomeEnds.result_eq {r : Except Failure MonthlySeries} (h : IncomeEnds table anchor ps r) :
    (MonthlySeries.income table anchor ps).result = r := by
  cases h with
  | unconverted hl hb hp =>
    rw [result_income, hl, convertAll_error hb hp]
    rfl
  | overflow hc ho =>
    obtain ⟨cs, hcs, hv⟩ := convertAll_ok hc
    rw [result_income_of_ok anchor hcs, hv, ofEntries_of_overflow ho]
    rfl
  | outOfCalendar hc hs hw =>
    obtain ⟨cs, hcs, hv⟩ := convertAll_ok hc
    obtain ⟨t, ht, _⟩ := ofEntries_of_sums hs
    rw [result_income_of_ok anchor hcs, hv, ht]
    exact MonthlyTotals.ofTotals_error t hw
  | @series s hc hs hw hser =>
    obtain ⟨cs, hcs, hv⟩ := convertAll_ok hc
    obtain ⟨t, ht, hheld⟩ := ofEntries_of_sums hs
    obtain ⟨s', hs', hser'⟩ := hheld.ofTotals_ok hw
    rw [result_income_of_ok anchor hcs, hv, ht, hser.unique hser']
    exact hs'

theorem income_ends (table : RateTable) (anchor : Date) (ps : List Payment) :
    ∃ r, IncomeEnds table anchor ps r := by
  cases hm : ps.mapM (normalize table) with
  | error e =>
    obtain ⟨before, p, after, hl, hb, hp⟩ := mapM_eq_error_iff.mp hm
    exact ⟨_, .unconverted hl hb hp⟩
  | ok vs =>
    have hall : ∀ p ∈ ps, Converts table p := ok_of_mapM hm
    by_cases hs : ∀ day, ∃ total, sumAll (amountsIn day (valued table ps)) = .ok total
    · by_cases hw : anchor.HasWindow
      · obtain ⟨t, _, hheld⟩ := ofEntries_of_sums hs
        obtain ⟨s, _, hser⟩ := hheld.ofTotals_ok hw
        exact ⟨_, .series hall hs hw hser⟩
      · exact ⟨_, .outOfCalendar hall hs hw⟩
    · obtain ⟨day, hday⟩ := not_forall.mp hs
      cases he : sumAll (amountsIn day (valued table ps)) with
      | ok total => exact absurd ⟨total, he⟩ hday
      | error e => exact ⟨_, .overflow hall he⟩

theorem result_income_iff {r : Except Failure MonthlySeries} :
    (MonthlySeries.income table anchor ps).result = r ↔ IncomeEnds table anchor ps r := by
  constructor
  · rintro rfl
    obtain ⟨r, hr⟩ := income_ends table anchor ps
    rw [hr.result_eq]
    exact hr
  · exact IncomeEnds.result_eq

theorem valued_inWindow (table : RateTable) (anchor : Date) (ps : List Payment) :
    valued table (ps.filter fun p => anchor.InWindow p.date) =
      (valued table ps).filter fun entry => anchor.InWindow entry.1 := by
  rw [valued, valued, List.filterMap_filter, List.filter_filterMap]
  congr 1
  funext p
  cases normalize table p with
  | error e => simp [Except.toOption]
  | ok v => by_cases hin : anchor.InWindow p.date <;> simp [Except.toOption, Option.filter, hin]

theorem amountsIn_filter (anchor day : Date) (entries : List (Date × Decimal)) :
    amountsIn day (entries.filter fun entry => anchor.InWindow entry.1) =
      if anchor.InWindow day then amountsIn day entries else [] := by
  unfold amountsIn
  rw [List.filter_filter]
  split_ifs with hday
  · congr 1
    apply List.filter_congr
    intro entry _
    rw [Bool.and_eq_left_iff_imp, decide_eq_true_eq, decide_eq_true_eq]
    intro h
    exact (Date.inWindow_congr h).mpr hday
  · rw [List.map_eq_nil_iff, List.filter_eq_nil_iff]
    intro entry _
    simp only [Bool.and_eq_true, decide_eq_true_eq, not_and]
    intro h k
    exact hday ((Date.inWindow_congr h).mp k)

theorem SeriesOf.inWindow {entries : List (Date × Decimal)} {s : MonthlySeries}
    (h : SeriesOf anchor entries s) {b : Bucket} (hb : b ∈ s.buckets) :
    anchor.InWindow b.period := by
  have hp : b.period ∈ s.buckets.map (·.period) := List.mem_map_of_mem hb
  rw [← h.window.mem_iff, h.window.begins hp]
  exact hp

/-- A series does not depend on entries outside its window. -/
theorem SeriesOf.filter {entries : List (Date × Decimal)} {s : MonthlySeries}
    (h : SeriesOf anchor entries s) :
    SeriesOf anchor (entries.filter fun entry => anchor.InWindow entry.1) s := by
  refine ⟨h.window, ?_, ?_⟩
  · intro b hb
    rw [amountsIn_filter, if_pos (h.inWindow hb)]
    exact h.total b hb
  · have hsame : (s.buckets.filter fun b => amountsIn b.period
          (entries.filter fun entry => anchor.InWindow entry.1) ≠ []) =
        s.buckets.filter fun b => amountsIn b.period entries ≠ [] := by
      apply List.filter_congr
      intro b hb
      rw [amountsIn_filter, if_pos (h.inWindow hb)]
    rw [hsame]
    exact h.maximum

/-- How the computation of a series ends is told from the values of the payments alone, month by
month. Payments outside the window leave no trace in a series. -/
theorem income_by_month (table : RateTable) (anchor : Date) (ps : List Payment) :
    (∀ r, (MonthlySeries.income table anchor ps).result = r ↔ IncomeEnds table anchor ps r) ∧
    ∀ s, (MonthlySeries.income table anchor ps).result = .ok s →
      (MonthlySeries.income table anchor (ps.filter fun p => anchor.InWindow p.date)).result =
        .ok s := by
  refine ⟨fun r => result_income_iff, ?_⟩
  intro s hs
  cases result_income_iff.mp hs with
  | series hc hsum hw hser =>
    apply IncomeEnds.result_eq
    refine .series (fun p hp => hc p (List.mem_filter.mp hp).1) ?_ hw ?_
    · intro day
      rw [valued_inWindow, amountsIn_filter]
      split
      · exact hsum day
      · exact ⟨.zero, rfl⟩
    · rw [valued_inWindow]
      exact hser.filter

end TrailingYear
