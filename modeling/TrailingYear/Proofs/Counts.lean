import TrailingYear.Proofs.Chart
import Mathlib.Algebra.BigOperators.Ring.Finset

/-! # Dates by month

Dates are counted by adding up ones. A sum of natural numbers has no places and needs no rounding,
so the totals are the numbers of dates themselves, month by month and all together. -/

namespace TrailingYear

open Decimal (capacity)
open MonthlyTotals (amountsIn)

theorem Decimal.add?_ofNat? {m n : ℕ} {a b : Decimal} (ha : Decimal.ofNat? m = some a)
    (hb : Decimal.ofNat? n = some b) : a.add? b = Decimal.ofNat? (m + n) := by
  obtain ⟨ham, has, _⟩ := ofParts?_eq_some.mp ha
  obtain ⟨hbm, hbs, _⟩ := ofParts?_eq_some.mp hb
  by_cases haz : a.IsZero
  · have hm : m = 0 := by
      have hzero : a.mantissa = 0 := haz
      omega
    rw [add?_of_isZero haz, hm, Nat.zero_add, hb]
  by_cases hbz : b.IsZero
  · have hn : n = 0 := by
      have hzero : b.mantissa = 0 := hbz
      omega
    rw [add?, if_neg haz, if_pos hbz, hn, Nat.add_zero, ha]
  · have hwide : a.widened b.scale + b.widened a.scale = ((m + n : ℕ) : ℤ) * (1 : ℕ) := by
      simp [widened, ham, has, hbm, hbs, tenTo]
    have hone : tenTo (a.scale + b.scale) = 1 := by
      rw [has, hbs]
      rfl
    have hplaces : max a.scale b.scale = 0 := by rw [has, hbs, max_self]
    rw [add?, if_neg haz, if_neg hbz, hplaces, nearest?, hwide, hone, roundDiv_mul _ Nat.one_pos]
    rfl

theorem Decimal.toRat_ofNat? {n : ℕ} {d : Decimal} (h : Decimal.ofNat? n = some d) :
    d.toRat = n := by
  obtain ⟨hm, hs, _⟩ := ofParts?_eq_some.mp h
  rw [toRat_eq, hm, hs]
  simp

def AreNaturals (ns : List ℕ) (values : List Decimal) : Prop :=
  List.Forall₂ (fun n v => Decimal.ofNat? n = some v) ns values

theorem areNaturals_ones (n : ℕ) : AreNaturals (List.replicate n 1) (List.replicate n .one) := by
  induction n with
  | zero => exact .nil
  | succ n ih => exact .cons rfl ih

theorem foldlM_checkedSum_naturals {ns : List ℕ} {values : List Decimal} (h : AreNaturals ns values)
    {n : ℕ} {start : Decimal} (hstart : Decimal.ofNat? n = some start)
    (hroom : n + ns.sum < capacity) :
    ∃ total, values.foldlM checkedSum start = .ok total ∧
      Decimal.ofNat? (n + ns.sum) = some total := by
  induction h generalizing n start with
  | nil => exact ⟨start, rfl, hstart⟩
  | @cons m v ns values hv _ ih =>
    rw [List.sum_cons, ← Nat.add_assoc] at hroom
    have hfits : n + m < capacity := Nat.lt_of_le_of_lt (Nat.le_add_right ..) hroom
    obtain ⟨next, hnext, _⟩ := Decimal.ofNat?_fits hfits
    have hsum : checkedSum start v = .ok next := by
      rw [checkedSum, Decimal.add?_ofNat? hstart hv, hnext]
    obtain ⟨total, htotal, heq⟩ := ih hnext hroom
    refine ⟨total, ?_, ?_⟩
    · rw [List.foldlM_cons, hsum]
      exact htotal
    · rw [List.sum_cons, ← Nat.add_assoc, heq]

/-- Natural numbers are added up exactly as long as there is room for their sum. -/
theorem sumAll_naturals {ns : List ℕ} {values : List Decimal} (h : AreNaturals ns values)
    (hroom : ns.sum < capacity) :
    ∃ total, sumAll values = .ok total ∧ Decimal.ofNat? ns.sum = some total := by
  have hzero : Decimal.ofNat? 0 = some .zero := rfl
  have hsum := foldlM_checkedSum_naturals h hzero (by rwa [Nat.zero_add])
  rwa [Nat.zero_add] at hsum

def datesIn (day : Date) (dates : List Date) : ℕ :=
  dates.countP fun d => d.firstOfMonth = day.firstOfMonth

def ones (dates : List Date) : List (Date × Decimal) := dates.map fun d => (d, .one)

theorem amountsIn_ones (day : Date) (dates : List Date) :
    amountsIn day (ones dates) = List.replicate (datesIn day dates) .one := by
  rw [amountsIn, ones, List.filter_map, List.map_map, datesIn, List.countP_eq_length_filter]
  exact List.map_const' ..

theorem sumAll_ones {dates : List Date} (h : dates.length < capacity) (day : Date) :
    ∃ total, sumAll (amountsIn day (ones dates)) = .ok total ∧
      Decimal.ofNat? (datesIn day dates) = some total := by
  have hle : datesIn day dates ≤ dates.length := List.countP_le_length
  have hsum := sumAll_naturals (areNaturals_ones (datesIn day dates))
    (by rw [List.sum_replicate_nat, Nat.mul_one]; exact hle.trans_lt h)
  rwa [← amountsIn_ones, List.sum_replicate_nat, Nat.mul_one] at hsum

namespace SeriesOf

variable {anchor : Date} {dates : List Date} {s : MonthlySeries}

/-- The months of the window share out the dates in it. -/
theorem sum_datesIn (h : SeriesOf anchor (ones dates) s) :
    (s.buckets.map fun b => datesIn b.period dates).sum =
      dates.countP fun d => anchor.InWindow d := by
  have hsum := h.sum_buckets fun _ => 1
  have hmonth : ∀ b : Bucket, ((amountsIn b.period (ones dates)).map fun _ => (1 : ℚ)).sum =
      (datesIn b.period dates : ℚ) := by
    intro b
    simp [amountsIn_ones]
  have hwindow :
      (((ones dates).filter fun entry => anchor.InWindow entry.1).map fun _ => (1 : ℚ)).sum =
      (dates.countP fun d => anchor.InWindow d : ℚ) := by
    rw [ones, List.filter_map, List.map_map, List.countP_eq_length_filter]
    simp [Function.comp_def]
  rw [hwindow] at hsum
  simp only [hmonth] at hsum
  have hcast : ((s.buckets.map fun b => datesIn b.period dates).sum : ℚ) =
      (s.buckets.map fun b => (datesIn b.period dates : ℚ)).sum := by
    rw [Nat.cast_list_sum, List.map_map]
    rfl
  rw [← hcast] at hsum
  exact_mod_cast hsum

theorem bucket_ofNat? (h : SeriesOf anchor (ones dates) s) (hl : dates.length < capacity)
    {b : Bucket} (hb : b ∈ s.buckets) : Decimal.ofNat? (datesIn b.period dates) = some b.total := by
  obtain ⟨total, hsum, htotal⟩ := sumAll_ones hl b.period
  rw [h.total b hb] at hsum
  cases hsum
  exact htotal

end SeriesOf

theorem result_counts (anchor : Date) (dates : List Date) :
    (MonthlySeries.counts anchor dates).result =
      MonthlyTotals.ofEntries (ones dates) >>= fun t =>
        (MonthlySeries.ofTotals t anchor).result := by
  unfold MonthlySeries.counts
  simp only [Logged.result_bind, Logged.result_ofExcept, Logged.result_emit]
  rfl

/-- Only the calendar can be left, not the range of decimals. -/
theorem counts_cases (anchor : Date) {dates : List Date} (h : dates.length < capacity) :
    (¬ anchor.HasWindow ∧
      (MonthlySeries.counts anchor dates).result =
        .error (.monthOutOfRange anchor.firstOfMonth (-11))) ∨
    anchor.HasWindow ∧ ∃ s, (MonthlySeries.counts anchor dates).result = .ok s ∧
      SeriesOf anchor (ones dates) s := by
  have hsums : ∀ day, ∃ total, sumAll (amountsIn day (ones dates)) = .ok total := by
    intro day
    obtain ⟨total, hsum, _⟩ := sumAll_ones h day
    exact ⟨total, hsum⟩
  obtain ⟨t, ht, hheld⟩ := ofEntries_of_sums hsums
  have hresult : (MonthlySeries.counts anchor dates).result =
      (MonthlySeries.ofTotals t anchor).result := by
    rw [result_counts, ht]
    rfl
  by_cases hw : anchor.HasWindow
  · obtain ⟨s, hs, hser⟩ := hheld.ofTotals_ok hw
    exact .inr ⟨hw, s, hresult.trans hs, hser⟩
  · exact .inl ⟨hw, hresult.trans (MonthlyTotals.ofTotals_error t hw)⟩

structure Counted (anchor : Date) (dates : List Date) (s : MonthlySeries) : Prop where
  window : anchor.IsWindow (s.buckets.map (·.period))
  count : ∀ b ∈ s.buckets, Decimal.ofNat? (datesIn b.period dates) = some b.total
  maximum : ∃ n, IsGreatest {k | ∃ b ∈ s.buckets, datesIn b.period dates = k} n ∧
    Decimal.ofNat? n = some s.maximum
  total : ∃ total, s.total = .ok total ∧
    Decimal.ofNat? (dates.countP fun d => anchor.InWindow d) = some total

namespace SeriesOf

variable {anchor : Date} {dates : List Date} {s : MonthlySeries}

theorem maximum_ofNat? (h : SeriesOf anchor (ones dates) s) (hl : dates.length < capacity) :
    ∃ n, Decimal.ofNat? n = some s.maximum := by
  rcases h.maximum.mem with hmem | ⟨_, hzero⟩
  · obtain ⟨b, hb, heq⟩ := List.mem_map.mp hmem
    exact ⟨_, heq ▸ h.bucket_ofNat? hl (List.mem_filter.mp hb).1⟩
  · exact ⟨0, by rw [hzero]; rfl⟩

theorem counted (h : SeriesOf anchor (ones dates) s) (hl : dates.length < capacity) :
    Counted anchor dates s := by
  have hcount : ∀ b ∈ s.buckets, Decimal.ofNat? (datesIn b.period dates) = some b.total :=
    fun b hb => h.bucket_ofNat? hl hb
  refine ⟨h.window, hcount, ?_, ?_⟩
  · have hones : ∀ entry ∈ ones dates, 0 ≤ entry.2.toRat := by
      intro entry hentry
      obtain ⟨d, _, rfl⟩ := List.mem_map.mp hentry
      rw [Decimal.toRat_one]
      exact zero_le_one
    obtain ⟨⟨b, hb, heq⟩, hgreatest⟩ := h.isGreatest_maximum hones
    obtain ⟨n, hn⟩ := h.maximum_ofNat? hl
    have hmaximum : s.maximum.toRat = n := Decimal.toRat_ofNat? hn
    refine ⟨n, ⟨⟨b, hb, ?_⟩, ?_⟩, hn⟩
    · rw [Decimal.toRat_ofNat? (hcount b hb), hmaximum] at heq
      exact_mod_cast heq
    · rintro k ⟨c, hc, rfl⟩
      have hle := hgreatest ⟨c, hc, rfl⟩
      rw [Decimal.toRat_ofNat? (hcount c hc), hmaximum] at hle
      exact_mod_cast hle
  · have hnaturals : AreNaturals (s.buckets.map fun b => datesIn b.period dates)
        (s.buckets.map (·.total)) := by
      rw [AreNaturals, List.forall₂_map_left_iff, List.forall₂_map_right_iff, List.forall₂_same]
      exact hcount
    rw [← h.sum_datesIn]
    apply sumAll_naturals hnaturals
    rw [h.sum_datesIn]
    exact List.countP_le_length.trans_lt hl

/-- Entries with the same amounts in every month have the same series. -/
theorem congr {entries entries' : List (Date × Decimal)}
    (hsame : ∀ day, amountsIn day entries = amountsIn day entries')
    (h : SeriesOf anchor entries s) :
    SeriesOf anchor entries' s := by
  refine ⟨h.window, ?_, ?_⟩
  · intro b hb
    rw [← hsame]
    exact h.total b hb
  · have hmaximum := h.maximum
    simp only [hsame] at hmaximum
    exact hmaximum

end SeriesOf

theorem counts_perm (anchor : Date) {dates dates' : List Date} (h : dates.length < capacity)
    (hp : dates'.Perm dates) :
    (MonthlySeries.counts anchor dates').result = (MonthlySeries.counts anchor dates).result := by
  have hsame : ∀ day, amountsIn day (ones dates') = amountsIn day (ones dates) := by
    intro day
    rw [amountsIn_ones, amountsIn_ones, datesIn, hp.countP_eq, ← datesIn]
  rcases counts_cases anchor h with ⟨hw, he⟩ | ⟨hw, s, hs, hser⟩
  · rcases counts_cases anchor (hp.length_eq.trans_lt h) with ⟨_, he'⟩ | ⟨hw', _⟩
    · rw [he, he']
    · exact absurd hw' hw
  · rcases counts_cases anchor (hp.length_eq.trans_lt h) with ⟨hw', _⟩ | ⟨_, s', hs', hser'⟩
    · exact absurd hw hw'
    · rw [hs, hs', (hser'.congr hsame).unique hser]

/-- Fewer dates than decimals have room for are counted month by month, in any order, wherever the
window is in the calendar. -/
theorem counts_by_month (anchor : Date) {dates : List Date} (h : dates.length < 2 ^ 96) :
    ((∃ e, (MonthlySeries.counts anchor dates).result = .error e) ↔ ¬ anchor.HasWindow) ∧
    (∀ e, (MonthlySeries.counts anchor dates).result = .error e →
      e = .monthOutOfRange anchor.firstOfMonth (-11)) ∧
    (anchor.HasWindow → ∃ s, (MonthlySeries.counts anchor dates).result = .ok s ∧
      Counted anchor dates s) ∧
    ∀ dates', dates'.Perm dates →
      (MonthlySeries.counts anchor dates').result = (MonthlySeries.counts anchor dates).result := by
  refine ⟨?_, ?_, ?_, fun dates' => counts_perm anchor h⟩
  · rcases counts_cases anchor h with ⟨hw, he⟩ | ⟨hw, s, hs, _⟩
    · exact iff_of_true ⟨_, he⟩ hw
    · simp [hs, hw]
  · intro e hresult
    rcases counts_cases anchor h with ⟨_, he⟩ | ⟨_, s, hs, _⟩
    · rw [he] at hresult
      cases hresult
      rfl
    · rw [hs] at hresult
      cases hresult
  · intro hw
    rcases counts_cases anchor h with ⟨hn, _⟩ | ⟨_, s, hs, hser⟩
    · exact absurd hw hn
    · exact ⟨s, hs, hser.counted h⟩

def fiveDates : List Date :=
  [.ofParts 2024 3 1, .ofParts 2023 12 25, .ofParts 2024 3 9, .ofParts 2023 12 25,
    .ofParts 2020 1 1]

theorem counts_by_month_repeated :
    fiveDates.length < 2 ^ 96 ∧
    ∃ s, (MonthlySeries.counts ⟨2024, 3, 15, by decide⟩ fiveDates).result = .ok s ∧
      Counted ⟨2024, 3, 15, by decide⟩ fiveDates s := by
  have hlength : fiveDates.length < 2 ^ 96 := by decide
  obtain ⟨_, _, hcounted, _⟩ := counts_by_month ⟨2024, 3, 15, by decide⟩ hlength
  exact ⟨hlength, hcounted (by decide)⟩

end TrailingYear
