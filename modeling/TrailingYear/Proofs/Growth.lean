import TrailingYear.Proofs.Chart

/-! # Growth of income

One more payment that is not negative makes no total smaller, wherever it stands in the list. Its
amount changes how every later sum of its month is rounded, but a sum is always the exact one
rounded by one and the same rule, which keeps the order of numbers. -/

namespace TrailingYear
namespace Decimal

/-- Places that `x` does not have are of no use to it. -/
theorem RoundsTo.widen {s : ℕ} {x v : ℚ} {m : ℤ} (h : RoundsTo s x v) (hs : s ≤ maxScale)
    (hm : (m : ℚ) = x * 10 ^ s) : RoundsTo maxScale x v := by
  obtain ⟨c, hc, rfl⟩ := h
  have hexact : IsRounded (x * 10 ^ s) m := hm ▸ IsRounded.intCast m
  rcases Nat.lt_or_eq_of_le hc.scale_le with hlt | heq
  · have hbig : capacity ≤ m.natAbs := hc.largest s hlt le_rfl m hexact
    refine ⟨c, ⟨hc.scale_le.trans hs, hc.rounded, ?_⟩, rfl⟩
    intro t ht _ n hn
    rcases Nat.le_total t s with hts | hts
    · exact hc.largest t ht hts n hn
    -- beyond `s` there are only zeros, and the digits before them do not fit
    · have hzeros : x * 10 ^ t = (m * 10 ^ (t - s) : ℤ) := by
        push_cast
        rw [hm, mul_assoc, ← pow_add, Nat.add_sub_cancel' hts]
      rw [hzeros] at hn
      have hn : n = m * 10 ^ (t - s) := hn.unique (IsRounded.intCast _)
      rw [hn, Int.natAbs_mul]
      exact hbig.trans (Nat.le_mul_of_pos_right _ (Int.natAbs_pos.mpr (by positivity)))
  · have hmantissa : c.mantissa = m := by
      have hround := hc.rounded
      rw [heq] at hround
      exact hround.unique hexact
    have hself : c.toRat = x := by
      rw [toRat_eq, heq, hmantissa, hm]
      field_simp
    have h := roundsTo_self c c.scale_le le_rfl
    rwa [hself] at h ⊢

/-- Whatever the scales of the two, their sum is the exact one rounded by the same rule. -/
theorem add?_rounds {a b c : Decimal} (h : a.add? b = some c) :
    RoundsTo maxScale (a.toRat + b.toRat) c.toRat := by
  obtain ⟨m, hm⟩ := exists_sum_mantissa a b
  exact (add?_roundsTo h).widen (max_le a.scale_le b.scale_le) hm

end Decimal

theorem checkedSum_rounds {a b c : Decimal} (h : checkedSum a b = .ok c) :
    Decimal.RoundsTo Decimal.maxScale (a.toRat + b.toRat) c.toRat := by
  unfold checkedSum at h
  cases hc : a.add? b with
  | none =>
    rw [hc] at h
    cases h
  | some d =>
    rw [hc] at h
    cases h
    exact Decimal.add?_rounds hc

theorem checkedSum_mono {a b c a' b' c' : Decimal} (h : checkedSum a b = .ok c)
    (h' : checkedSum a' b' = .ok c') (ha : 0 ≤ a.toRat) (hb : 0 ≤ b.toRat)
    (haa : a.toRat ≤ a'.toRat) (hbb : b.toRat ≤ b'.toRat) : c.toRat ≤ c'.toRat :=
  (checkedSum_rounds h).mono (checkedSum_rounds h') (add_nonneg ha hb) (add_le_add haa hbb)

theorem le_checkedSum {a b c : Decimal} (h : checkedSum a b = .ok c) (ha : 0 ≤ a.toRat)
    (hb : 0 ≤ b.toRat) : a.toRat ≤ c.toRat :=
  (Decimal.roundsTo_self a a.scale_le le_rfl).mono (checkedSum_rounds h) ha (by linarith)

/-- Greater summands from a greater start come to a greater sum, however often it is rounded. -/
theorem foldlM_checkedSum_mono {vs ws : List Decimal}
    (hall : List.Forall₂ (fun v w => 0 ≤ v.toRat ∧ v.toRat ≤ w.toRat) vs ws) {a b c d : Decimal}
    (ha : 0 ≤ a.toRat) (hab : a.toRat ≤ b.toRat) (hc : vs.foldlM checkedSum a = .ok c)
    (hd : ws.foldlM checkedSum b = .ok d) : c.toRat ≤ d.toRat := by
  induction hall generalizing a b with
  | nil =>
    cases hc
    cases hd
    exact hab
  | @cons v w vs ws hvw _ ih =>
    rw [List.foldlM_cons] at hc hd
    obtain ⟨a', ha', hc⟩ := bind_eq_ok_iff.mp hc
    obtain ⟨b', hb', hd⟩ := bind_eq_ok_iff.mp hd
    exact ih (checkedSum_nonneg ha' ha hvw.1) (checkedSum_mono ha' hb' ha hvw.1 hab hvw.2) hc hd

theorem sumAll_mono {vs ws : List Decimal}
    (hall : List.Forall₂ (fun v w => 0 ≤ v.toRat ∧ v.toRat ≤ w.toRat) vs ws) {c d : Decimal}
    (hc : sumAll vs = .ok c) (hd : sumAll ws = .ok d) : c.toRat ≤ d.toRat :=
  foldlM_checkedSum_mono hall (by rw [Decimal.toRat_zero]) le_rfl hc hd

/-- A further summand in the middle does not make the sum smaller. -/
theorem sumAll_insert {vs ws : List Decimal} {v c d : Decimal}
    (hvs : ∀ w ∈ vs ++ v :: ws, 0 ≤ w.toRat)
    (hc : sumAll (vs ++ ws) = .ok c) (hd : sumAll (vs ++ v :: ws) = .ok d) : c.toRat ≤ d.toRat := by
  rw [sumAll, List.foldlM_append] at hc hd
  obtain ⟨before, hbefore, hc⟩ := bind_eq_ok_iff.mp hc
  obtain ⟨_, hbefore', hd⟩ := bind_eq_ok_iff.mp hd
  cases hbefore.symm.trans hbefore'
  rw [List.foldlM_cons] at hd
  obtain ⟨after, hafter, hd⟩ := bind_eq_ok_iff.mp hd
  have hpos : 0 ≤ before.toRat :=
    sumAll_nonneg (fun w hw => hvs w (List.mem_append_left _ hw)) hbefore
  have hsame : List.Forall₂ (fun v w : Decimal => 0 ≤ v.toRat ∧ v.toRat ≤ w.toRat) ws ws :=
    List.forall₂_same.mpr fun w hw => ⟨hvs w (by simp [hw]), le_rfl⟩
  exact foldlM_checkedSum_mono hsame hpos (le_checkedSum hafter hpos (hvs v (by simp))) hc hd

open MonthlyTotals (amountsIn)

theorem amountsIn_insert (day : Date) (before after : List (Date × Decimal)) (date : Date)
    (amount : Decimal) : amountsIn day (before ++ (date, amount) :: after) =
      amountsIn day before ++
        if date.firstOfMonth = day.firstOfMonth then amount :: amountsIn day after
        else amountsIn day after := by
  by_cases h : date.firstOfMonth = day.firstOfMonth <;> simp [amountsIn, h]

structure MonthlySeries.Grows (s s' : MonthlySeries) : Prop where
  buckets : List.Forall₂ (fun b c => b.period = c.period ∧ b.total ≤ c.total) s.buckets s'.buckets
  maximum : s.maximum ≤ s'.maximum
  total : ∀ t t', s.total = .ok t → s'.total = .ok t' → t ≤ t'

namespace SeriesOf

variable {anchor : Date} {before after : List (Date × Decimal)} {date : Date} {amount : Decimal}
  {s s' : MonthlySeries}

theorem total_le (h : SeriesOf anchor (before ++ after) s)
    (h' : SeriesOf anchor (before ++ (date, amount) :: after) s')
    (hv : ∀ entry ∈ before ++ (date, amount) :: after, 0 ≤ entry.2.toRat) {b c : Bucket}
    (hb : b ∈ s.buckets) (hc : c ∈ s'.buckets) (hp : b.period = c.period) :
    b.total.toRat ≤ c.total.toRat := by
  have hold := h.total b hb
  have hnew := h'.total c hc
  have happend : amountsIn b.period (before ++ after) =
      amountsIn b.period before ++ amountsIn b.period after := by simp [amountsIn]
  rw [happend] at hold
  rw [← hp, amountsIn_insert] at hnew
  by_cases hmonth : date.firstOfMonth = b.period.firstOfMonth
  · rw [if_pos hmonth] at hnew
    refine sumAll_insert ?_ hold hnew
    rw [← if_pos (c := date.firstOfMonth = b.period.firstOfMonth)
      (t := amount :: amountsIn b.period after) (e := amountsIn b.period after) hmonth,
      ← amountsIn_insert]
    intro w hw
    obtain ⟨entry, hentry, rfl⟩ := List.mem_map.mp hw
    exact hv entry (List.mem_filter.mp hentry).1
  · rw [if_neg hmonth, hold] at hnew
    rw [Except.ok.inj hnew]

theorem grows (h : SeriesOf anchor (before ++ after) s)
    (h' : SeriesOf anchor (before ++ (date, amount) :: after) s')
    (hv : ∀ entry ∈ before ++ (date, amount) :: after, 0 ≤ entry.2.toRat) : s.Grows s' := by
  have hv₀ : ∀ entry ∈ before ++ after, 0 ≤ entry.2.toRat := by
    intro entry hentry
    apply hv
    rw [List.mem_append, List.mem_cons]
    exact (List.mem_append.mp hentry).imp_right Or.inr
  have hall : List.Forall₂ (fun b c => (c ∈ s'.buckets ∧ b.period = c.period) ∧
      0 ≤ b.total.toRat ∧ b.total.toRat ≤ c.total.toRat) s.buckets s'.buckets :=
    h.forall₂_buckets h' fun b hb c hc hp =>
      ⟨⟨hc, hp⟩, h.total_nonneg hv₀ hb, h.total_le h' hv hb hc hp⟩
  refine ⟨hall.imp fun b c hbc => ⟨hbc.1.2, Decimal.le_iff_toRat.mpr hbc.2.2⟩, ?_, ?_⟩
  · -- the month that is the greatest before is no greater than the same month afterwards
    rw [Decimal.le_iff_toRat]
    obtain ⟨b, hb, hmax⟩ := (h.isGreatest_maximum hv₀).1
    obtain ⟨c, ⟨hc, _⟩, _, hle⟩ := exists_of_mem_right hall.flip hb
    rw [← hmax]
    exact hle.trans ((h'.isGreatest_maximum hv).2 ⟨c, hc, rfl⟩)
  · intro t t' ht ht'
    rw [Decimal.le_iff_toRat]
    refine sumAll_mono ?_ ht ht'
    exact List.forall₂_map_left_iff.mpr
      (List.forall₂_map_right_iff.mpr (hall.imp fun _ _ hbc => hbc.2))

end SeriesOf

/-- With one more payment no total of a month, no maximum and no sum of the months is smaller. -/
theorem income_grows {table : RateTable} {anchor : Date} {xs ys : List Payment} {r : Payment}
    {s s' : MonthlySeries}
    (hv : ∀ p ∈ xs ++ [r] ++ ys, ∀ v, normalize table p = .ok v → .zero ≤ v)
    (h : (MonthlySeries.income table anchor (xs ++ ys)).result = .ok s)
    (h' : (MonthlySeries.income table anchor (xs ++ [r] ++ ys)).result = .ok s') :
    List.Forall₂ (fun b c => b.period = c.period ∧ b.total ≤ c.total) s.buckets s'.buckets ∧
    s.maximum ≤ s'.maximum ∧
    ∀ t t', s.total = .ok t → s'.total = .ok t' → t ≤ t' := by
  cases result_income_iff.mp h with
  | series _ _ _ hseries =>
    cases result_income_iff.mp h' with
    | series hconverts _ _ hseries' =>
      obtain ⟨v, hr⟩ := hconverts r (by simp)
      have hold : valued table (xs ++ ys) = valued table xs ++ valued table ys :=
        List.filterMap_append ..
      have hnew : valued table (xs ++ [r] ++ ys) =
          valued table xs ++ (r.date, v) :: valued table ys := by
        simp [valued, hr, Except.toOption]
      have hnonneg : ∀ entry ∈ valued table xs ++ (r.date, v) :: valued table ys,
          0 ≤ entry.2.toRat := by
        intro entry hentry
        rw [← hnew] at hentry
        obtain ⟨p, hp, hvalue⟩ := exists_of_mem_valued hentry
        have hle := hv p hp _ hvalue
        rwa [Decimal.le_iff_toRat, Decimal.toRat_zero] at hle
      rw [hold] at hseries
      rw [hnew] at hseries'
      have hgrows := hseries.grows hseries' hnonneg
      exact ⟨hgrows.buckets, hgrows.maximum, hgrows.total⟩

def manyPlaces : Payment := ⟨.ofParts (Decimal.capacity - 1) 28, "USD", .ofParts 2024 3 9⟩

def halfDollar : Payment := ⟨.ofParts 5 1, "USD", .ofParts 2024 3 10⟩

def twoDollars : Payment := ⟨.ofParts 2 0, "USD", .ofParts 2024 3 30⟩

/-- The sums without and with half a dollar have both lost the last place. -/
theorem income_grows_by_half : ∃ s s',
    (MonthlySeries.income ⟨"USD", [], []⟩ ⟨2024, 6, 15, by decide⟩
      ([manyPlaces] ++ [twoDollars])).result =
      .ok s ∧
    (MonthlySeries.income ⟨"USD", [], []⟩ ⟨2024, 6, 15, by decide⟩
      ([manyPlaces] ++ [halfDollar] ++ [twoDollars])).result = .ok s' ∧
    s.maximum.scale = 27 ∧ s'.maximum.scale = 27 ∧ s.maximum ≤ s'.maximum := by
  have hv : ∀ p ∈ [manyPlaces] ++ [halfDollar] ++ [twoDollars], ∀ v,
      normalize ⟨"USD", [], []⟩ p = .ok v → .zero ≤ v := by
    intro p hp v h
    simp only [List.cons_append, List.nil_append, List.mem_cons, List.not_mem_nil, or_false] at hp
    rcases hp with rfl | rfl | rfl <;> cases h <;> decide +kernel
  have hscale : (MonthlySeries.income ⟨"USD", [], []⟩ ⟨2024, 6, 15, by decide⟩
      ([manyPlaces] ++ [twoDollars])).result.toOption.map (·.maximum.scale) = some 27 := by
    decide +kernel
  have hscale' : (MonthlySeries.income ⟨"USD", [], []⟩ ⟨2024, 6, 15, by decide⟩
      ([manyPlaces] ++ [halfDollar] ++ [twoDollars])).result.toOption.map (·.maximum.scale) =
        some 27 := by
    decide +kernel
  cases h : (MonthlySeries.income ⟨"USD", [], []⟩ ⟨2024, 6, 15, by decide⟩
      ([manyPlaces] ++ [twoDollars])).result with
  | error e =>
    rw [h] at hscale
    cases hscale
  | ok s =>
    cases h' : (MonthlySeries.income ⟨"USD", [], []⟩ ⟨2024, 6, 15, by decide⟩
        ([manyPlaces] ++ [halfDollar] ++ [twoDollars])).result with
    | error e =>
      rw [h'] at hscale'
      cases hscale'
    | ok s' =>
      rw [h] at hscale
      rw [h'] at hscale'
      obtain ⟨_, hmaximum, _⟩ := income_grows hv h h'
      exact ⟨s, s', rfl, rfl, Option.some.inj hscale, Option.some.inj hscale', hmaximum⟩

end TrailingYear
