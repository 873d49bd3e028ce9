import TrailingYear.Proofs.Income
import Mathlib.Algebra.BigOperators.Group.List.Lemmas

/-! # Conservation of income

Where the absolute values have room together, no sum in any order is rounded. The months then
share out the exact sum of the values, and both ways to add them up agree. -/

namespace TrailingYear

open MonthlyTotals (amountsIn)

/-- What is added up by month is added up once. -/
theorem sum_by_month (f : Decimal → ℚ) {periods : List Date} (hn : periods.Nodup)
    (hb : ∀ p ∈ periods, p.firstOfMonth = p) (entries : List (Date × Decimal)) :
    (periods.map fun p => ((amountsIn p entries).map f).sum).sum =
      ((entries.filter fun entry => entry.1.firstOfMonth ∈ periods).map fun entry =>
        f entry.2).sum := by
  induction periods with
  | nil => simp
  | cons p periods ih =>
    obtain ⟨hp, hn⟩ := List.nodup_cons.mp hn
    have hmonth : p.firstOfMonth = p := hb p (List.mem_cons_self ..)
    have hsplit := List.sum_map_filter_add_sum_map_filter_not (fun entry : Date × Decimal =>
      entry.1.firstOfMonth = p) (fun entry => f entry.2)
      (entries.filter fun entry => entry.1.firstOfMonth ∈ p :: periods)
    rw [List.filter_filter, List.filter_filter] at hsplit
    rw [List.map_cons, List.sum_cons, ih hn fun q hq => hb q (List.mem_cons_of_mem _ hq), ← hsplit]
    congr 2
    · rw [amountsIn, hmonth, List.map_map]
      congr 1
      apply List.filter_congr
      intro entry _
      by_cases h : entry.1.firstOfMonth = p <;> simp [h]
    · congr 1
      apply List.filter_congr
      intro entry _
      by_cases h : entry.1.firstOfMonth = p <;> simp [h, hp]

theorem valued_perm {table : RateTable} {ps qs : List Payment} (h : qs.Perm ps) :
    (valued table qs).Perm (valued table ps) := h.filterMap _

theorem amountsIn_perm {xs ys : List (Date × Decimal)} (h : xs.Perm ys) (day : Date) :
    (amountsIn day xs).Perm (amountsIn day ys) := (h.filter _).map _

theorem exactSum_perm {xs ys : List Decimal} (h : xs.Perm ys) : exactSum xs = exactSum ys :=
  (h.map _).sum_eq

theorem absoluteSum_perm {xs ys : List Decimal} (h : xs.Perm ys) :
    absoluteSum xs = absoluteSum ys :=
  (h.map _).sum_eq

structure MonthlySeries.Same (s s' : MonthlySeries) : Prop where
  buckets : List.Forall₂ Bucket.Same s.buckets s'.buckets
  maximum : s.maximum.Same s'.maximum

theorem IsMaximum.mem {values : List Decimal} {m : Decimal} (h : IsMaximum values m) :
    m ∈ values ∨ values = [] ∧ m = .zero := by
  rcases h with h | ⟨before, after, rfl, _⟩
  · exact Or.inr h
  · exact Or.inl (by simp)

theorem IsMaximum.toRat_le {xs ys : List Decimal} {m n : Decimal}
    (h : List.Forall₂ Decimal.Same xs ys) (hm : IsMaximum xs m) (hn : IsMaximum ys n) :
    m.toRat ≤ n.toRat := by
  rcases hm.mem with hmem | ⟨rfl, rfl⟩
  · obtain ⟨i, hi, rfl⟩ := List.getElem_of_mem hmem
    have hj : i < ys.length := h.length_eq ▸ hi
    have hsame := Decimal.same_iff_toRat.mp (h.get hi hj)
    rw [List.get_eq_getElem, List.get_eq_getElem] at hsame
    rw [hsame]
    exact Decimal.le_iff_toRat.mp (hn.greatest _ (List.getElem_mem hj))
  · cases h
    rcases hn.mem with hmem | ⟨_, rfl⟩
    · simp at hmem
    · exact le_rfl

theorem IsMaximum.same {xs ys : List Decimal} {m n : Decimal}
    (h : List.Forall₂ Decimal.Same xs ys) (hm : IsMaximum xs m) (hn : IsMaximum ys n) :
    m.Same n := by
  have hflip : List.Forall₂ Decimal.Same ys xs :=
    List.Forall₂.flip (h.imp fun _ _ hab => hab.symm)
  exact Decimal.same_iff_toRat.mpr (le_antisymm (hm.toRat_le h hn) (hn.toRat_le hflip hm))

/-- All values fit in at most `s` places, and all of them together do. -/
structure HasRoom (s : ℕ) (values : List Decimal) : Prop where
  places : s ≤ Decimal.maxScale
  scale : ∀ v ∈ values, v.scale ≤ s
  room : absoluteSum values ≤ Decimal.greatest s

namespace HasRoom

variable {s : ℕ} {values : List Decimal}

theorem sumAll_exact (h : HasRoom s values) :
    ∃ total, sumAll values = .ok total ∧ total.toRat = exactSum values ∧ total.scale ≤ s :=
  TrailingYear.sumAll_exact h.places h.scale h.room

theorem sublist {part : List Decimal} (h : HasRoom s values) (hp : part.Sublist values) :
    HasRoom s part :=
  ⟨h.places, fun v hv => h.scale v (hp.subset hv), (absoluteSum_sublist hp).trans h.room⟩

theorem perm {values' : List Decimal} (h : HasRoom s values) (hp : values'.Perm values) :
    HasRoom s values' :=
  ⟨h.places, fun v hv => h.scale v (hp.mem_iff.mp hv), (absoluteSum_perm hp).trans_le h.room⟩

theorem amountsIn {entries : List (Date × Decimal)} (h : HasRoom s (entries.map (·.2)))
    (day : Date) :
    HasRoom s (MonthlyTotals.amountsIn day entries) := h.sublist (List.filter_sublist.map _)

end HasRoom

namespace SeriesOf

variable {anchor : Date} {entries : List (Date × Decimal)} {series : MonthlySeries} {s : ℕ}

/-- Every bucket has the exact sum of its month, in no more places than the values have. -/
theorem bucket_exact (h : SeriesOf anchor entries series) (hr : HasRoom s (entries.map (·.2)))
    {b : Bucket} (hb : b ∈ series.buckets) :
    b.total.toRat = exactSum (amountsIn b.period entries) ∧ b.total.scale ≤ s := by
  obtain ⟨total, ht, hexact, hscale⟩ := (hr.amountsIn b.period).sumAll_exact
  rw [h.total b hb] at ht
  cases ht
  exact ⟨hexact, hscale⟩

theorem filter_periods (h : SeriesOf anchor entries series) :
    (entries.filter fun entry => entry.1.firstOfMonth ∈ series.buckets.map (·.period)) =
      entries.filter fun entry => anchor.InWindow entry.1 := by
  apply List.filter_congr
  intro entry _
  rw [decide_eq_decide]
  exact h.window.mem_iff entry.1

theorem nodup_periods (h : SeriesOf anchor entries series) :
    (series.buckets.map (·.period)).Nodup :=
  Date.nodup_of_ordered h.window.ordered

theorem sum_buckets (h : SeriesOf anchor entries series) (f : Decimal → ℚ) :
    (series.buckets.map fun b => ((amountsIn b.period entries).map f).sum).sum =
      ((entries.filter fun entry => anchor.InWindow entry.1).map fun entry => f entry.2).sum := by
  have hmonth := sum_by_month f h.nodup_periods (fun p hp => h.window.begins hp) entries
  rw [h.filter_periods, List.map_map] at hmonth
  exact hmonth

/-- The months of the window share out the exact sum of what is in it. -/
theorem total_exact (h : SeriesOf anchor entries series) (hr : HasRoom s (entries.map (·.2))) :
    ∃ total, series.total = .ok total ∧
      total.toRat = exactSum ((entries.filter fun entry => anchor.InWindow entry.1).map (·.2)) := by
  have hroom : absoluteSum (series.buckets.map (·.total)) ≤ Decimal.greatest s := by
    calc absoluteSum (series.buckets.map (·.total))
        = (series.buckets.map fun b => |b.total.toRat|).sum := by
          rw [absoluteSum, List.map_map]
          rfl
      _ ≤ (series.buckets.map fun b => absoluteSum (amountsIn b.period entries)).sum := by
          apply List.sum_le_sum
          intro b hb
          rw [(h.bucket_exact hr hb).1]
          exact abs_exactSum_le _
      _ = absoluteSum ((entries.filter fun entry => anchor.InWindow entry.1).map (·.2)) := by
          rw [absoluteSum, List.map_map]
          exact h.sum_buckets fun v => |v.toRat|
      _ ≤ absoluteSum (entries.map (·.2)) := absoluteSum_sublist (List.filter_sublist.map _)
      _ ≤ Decimal.greatest s := hr.room
  have hbuckets : HasRoom s (series.buckets.map (·.total)) := by
    refine ⟨hr.places, ?_, hroom⟩
    intro v hv
    obtain ⟨b, hb, rfl⟩ := List.mem_map.mp hv
    exact (h.bucket_exact hr hb).2
  obtain ⟨total, ht, hexact, _⟩ := hbuckets.sumAll_exact
  refine ⟨total, ht, ?_⟩
  calc total.toRat
      = (series.buckets.map fun b => b.total.toRat).sum := by
        rw [hexact, exactSum, List.map_map]
        rfl
    _ = (series.buckets.map fun b => exactSum (amountsIn b.period entries)).sum := by
        congr 1
        apply List.map_congr_left
        intro b hb
        exact (h.bucket_exact hr hb).1
    _ = exactSum ((entries.filter fun entry => anchor.InWindow entry.1).map (·.2)) := by
        rw [exactSum, List.map_map]
        exact h.sum_buckets Decimal.toRat

/-- Where nothing is rounded the order of the entries does not matter. -/
theorem same_of_perm {entries' : List (Date × Decimal)} {series' : MonthlySeries}
    (h : SeriesOf anchor entries series) (h' : SeriesOf anchor entries' series')
    (hr : HasRoom s (entries.map (·.2))) (hp : entries'.Perm entries) : series'.Same series := by
  have hr' : HasRoom s (entries'.map (·.2)) := hr.perm (hp.map _)
  have hall : List.Forall₂ Bucket.Same series'.buckets series.buckets := by
    apply h'.forall₂_buckets h
    intro b hb c hc hbc
    refine ⟨hbc, Decimal.same_iff_toRat.mpr ?_⟩
    rw [(h'.bucket_exact hr' hb).1, (h.bucket_exact hr hc).1, hbc]
    exact exactSum_perm (amountsIn_perm hp c.period)
  refine ⟨hall, h'.maximum.same ?_ h.maximum⟩
  have hheld : List.Forall₂ Bucket.Same
      (series'.buckets.filter fun b => amountsIn b.period entries' ≠ [])
      (series.buckets.filter fun b => amountsIn b.period entries ≠ []) := by
    refine List.rel_filter ?_ hall
    intro b c hbc
    have hnil : amountsIn c.period entries' = [] ↔ amountsIn c.period entries = [] := by
      rw [← List.length_eq_zero_iff, (amountsIn_perm hp c.period).length_eq,
        List.length_eq_zero_iff]
    simp [hbc.1, hnil]
  exact List.forall₂_map_left_iff.mpr
    (List.forall₂_map_right_iff.mpr (hheld.imp fun b c hbc => hbc.2))

end SeriesOf

theorem sums_of_room {s : ℕ} {entries : List (Date × Decimal)} (hr : HasRoom s (entries.map (·.2)))
    (day : Date) : ∃ total, sumAll (amountsIn day entries) = .ok total := by
  obtain ⟨total, ht, _⟩ := (hr.amountsIn day).sumAll_exact
  exact ⟨total, ht⟩

theorem income_of_room {table : RateTable} {anchor : Date} {ps : List Payment} {s : ℕ}
    (hw : anchor.HasWindow) (hc : ∀ p ∈ ps, Converts table p)
    (hr : HasRoom s ((valued table ps).map (·.2))) :
    ∃ series, (MonthlySeries.income table anchor ps).result = .ok series ∧
      SeriesOf anchor (valued table ps) series := by
  obtain ⟨t, _, hheld⟩ := ofEntries_of_sums (sums_of_room hr)
  obtain ⟨series, _, hser⟩ := hheld.ofTotals_ok hw
  exact ⟨series, (IncomeEnds.series hc (sums_of_room hr) hw hser).result_eq, hser⟩

theorem convertedTotal_of_room {table : RateTable} {ps : List Payment} {s : ℕ}
    (hc : ∀ p ∈ ps, Converts table p) (hr : HasRoom s ((valued table ps).map (·.2))) :
    ∃ cs grand, (convertedTotal table ps).result = .ok (cs, grand) ∧
      Decimal.IsRoundedTo totalPlaces (exactSum ((valued table ps).map (·.2))) grand := by
  obtain ⟨cs, hcs, hv⟩ := convertAll_ok hc
  have hvalues : cs.map (·.value) = (valued table ps).map (·.2) := by
    rw [← hv, List.map_map]
    rfl
  obtain ⟨total, ht, hexact, _⟩ := hr.sumAll_exact
  refine ⟨cs, total.round totalPlaces, ?_, ?_⟩
  · rw [result_convertedTotal, hcs]
    change (sumAll (cs.map (·.value))).map _ = _
    rw [hvalues, ht]
    rfl
  · rw [← hexact]
    exact Decimal.isRoundedTo_round total totalPlaces

/-- Payments are conserved by the two ways to add them up, to the last place: month by
month, where the order of the payments does not matter, and all at once, where the sum is
rounded at the end. -/
theorem income_is_conserved {table : RateTable} {anchor : Date} {ps : List Payment} {s : ℕ}
    (hw : anchor.HasWindow) (hc : ∀ p ∈ ps, Converts table p) (hs : s ≤ Decimal.maxScale)
    (hscale : ∀ v ∈ (valued table ps).map (·.2), v.scale ≤ s)
    (hroom : absoluteSum ((valued table ps).map (·.2)) ≤ Decimal.greatest s) :
    ∃ series total cs grand,
      (MonthlySeries.income table anchor ps).result = .ok series ∧
      series.total = .ok total ∧
      (convertedTotal table ps).result = .ok (cs, grand) ∧
      anchor.IsWindow (series.buckets.map (·.period)) ∧
      (∀ b ∈ series.buckets, b.total.toRat = exactSum (amountsIn b.period (valued table ps))) ∧
      total.toRat =
        exactSum ((valued table (ps.filter fun p => anchor.InWindow p.date)).map (·.2)) ∧
      (∀ qs, qs.Perm ps → ∃ series',
        (MonthlySeries.income table anchor qs).result = .ok series' ∧ series'.Same series) ∧
      Decimal.IsRoundedTo totalPlaces (exactSum ((valued table ps).map (·.2))) grand ∧
      ((∀ p ∈ ps, anchor.InWindow p.date) → grand.Same (total.round totalPlaces)) := by
  have hr : HasRoom s ((valued table ps).map (·.2)) := ⟨hs, hscale, hroom⟩
  obtain ⟨series, hi, hser⟩ := income_of_room hw hc hr
  obtain ⟨total, ht, htotal⟩ := hser.total_exact hr
  obtain ⟨cs, grand, hg, hgrand⟩ := convertedTotal_of_room hc hr
  refine ⟨series, total, cs, grand, hi, ht, hg, hser.window, ?_, ?_, ?_, hgrand, ?_⟩
  · intro b hb
    exact (hser.bucket_exact hr hb).1
  · rw [valued_inWindow]
    exact htotal
  · intro qs hq
    have hcq : ∀ p ∈ qs, Converts table p := fun p hp => hc p (hq.mem_iff.mp hp)
    have hrq := hr.perm ((valued_perm hq).map (·.2))
    obtain ⟨series', hi', hser'⟩ := income_of_room hw hcq hrq
    exact ⟨series', hi', hser.same_of_perm hser' hr (valued_perm hq)⟩
  · intro hin
    -- nothing is left out of the window, so both sums are of all values
    have hall : ps.filter (fun p => anchor.InWindow p.date) = ps :=
      List.filter_eq_self.mpr fun p hp => decide_eq_true (hin p hp)
    rw [← valued_inWindow, hall] at htotal
    have hround := Decimal.isRoundedTo_round total totalPlaces
    rw [htotal] at hround
    exact Decimal.same_iff_toRat.mpr (hgrand.unique hround)

def refunded : List Payment :=
  [⟨⟨false, 1050, 2, by decide, by decide⟩, "USD", ⟨2024, 3, 9, by decide⟩⟩,
    ⟨⟨true, 25, 1, by decide, by decide⟩, "EUR", ⟨2024, 4, 1, by decide⟩⟩]

def dollarRates : RateTable :=
  ⟨"USD", [(("EUR", ⟨2024, 4, 1, by decide⟩), ⟨false, 11, 1, by decide, by decide⟩)], []⟩

theorem income_is_conserved_refunded :
    ∃ series total cs grand,
      (MonthlySeries.income dollarRates ⟨2024, 6, 15, by decide⟩ refunded).result = .ok series ∧
      series.total = .ok total ∧
      (convertedTotal dollarRates refunded).result = .ok (cs, grand) ∧
      grand.Same (total.round totalPlaces) := by
  have hc : ∀ p ∈ refunded, Converts dollarRates p := by
    intro p hp
    rcases List.mem_cons.mp hp with rfl | hp
    · exact ⟨_, rfl⟩
    · rw [List.mem_singleton.mp hp]
      exact ⟨_, rfl⟩
  have hroom : absoluteSum ((valued dollarRates refunded).map (·.2)) ≤ Decimal.greatest 2 := by
    decide +kernel
  have hw : Date.HasWindow ⟨2024, 6, 15, by decide⟩ := by decide
  obtain ⟨series, total, cs, grand, hi, ht, hg, _, _, _, _, _, hsame⟩ :=
    income_is_conserved hw hc (by decide) (by decide +kernel) hroom
  exact ⟨series, total, cs, grand, hi, ht, hg, hsame (by decide)⟩

end TrailingYear
