import TrailingYear.MonthlySeries
import TrailingYear.Proofs.Ledger
import Mathlib.Data.List.Sort

/-! # A series from its entries

A series is determined by the entries that were grouped: each month of the window has the sum of
its own entries, and the maximum is taken over the months that have any. -/

namespace TrailingYear

/-- The last of the greatest values, or a plain zero if there are none. -/
def IsMaximum (values : List Decimal) (m : Decimal) : Prop :=
  (values = [] ∧ m = .zero) ∨
    ∃ before after, values = before ++ m :: after ∧ (∀ v ∈ before, v ≤ m) ∧ ∀ v ∈ after, v < m

theorem IsMaximum.greatest {values : List Decimal} {m : Decimal} (h : IsMaximum values m) :
    ∀ v ∈ values, v ≤ m := by
  rcases h with ⟨rfl, _⟩ | ⟨before, after, rfl, hb, ha⟩
  · simp
  · intro v hv
    rcases List.mem_append.mp hv with hv | hv
    · exact hb v hv
    rcases List.mem_cons.mp hv with rfl | hv
    · exact Decimal.le_iff_toRat.mpr le_rfl
    · exact Decimal.le_of_lt (ha v hv)

theorem IsMaximum.unique {values : List Decimal} {m n : Decimal} (hm : IsMaximum values m)
    (hn : IsMaximum values n) : m = n := by
  rcases hm with ⟨rfl, rfl⟩ | ⟨bm, am, rfl, hbm, ham⟩
  · rcases hn with ⟨_, rfl⟩ | ⟨bn, an, hl, _⟩
    · rfl
    · simp at hl
  rcases hn with ⟨hl, _⟩ | ⟨bn, an, hl, hbn, han⟩
  · simp at hl
  rcases List.append_eq_append_iff.mp hl with ⟨mid, rfl, hmid⟩ | ⟨mid, rfl, hmid⟩
  · cases mid with
    | nil => exact (List.cons.inj hmid).1
    | cons x mid =>
      obtain ⟨rfl, rfl⟩ := List.cons.inj hmid
      exact absurd (ham n (by simp)) (Decimal.not_lt_of_le (hbn m (by simp)))
  · cases mid with
    | nil => exact (List.cons.inj hmid).1.symm
    | cons x mid =>
      obtain ⟨rfl, rfl⟩ := List.cons.inj hmid
      exact absurd (han m (by simp)) (Decimal.not_lt_of_le (hbm n (by simp)))

theorem maximum_concat (b : Bucket) (bs : List Bucket) (c : Bucket) :
    maximum (b :: bs ++ [c]) =
      if maximum (b :: bs) ≤ c.total then c.total else maximum (b :: bs) := by
  simp only [maximum, List.cons_append, List.foldl_append, List.foldl_cons, List.foldl_nil]
  rfl

theorem isMaximum_maximum (bs : List Bucket) : IsMaximum (bs.map (·.total)) (maximum bs) := by
  induction bs using List.reverseRecOn with
  | nil => exact Or.inl ⟨rfl, rfl⟩
  | append_singleton bs c ih =>
    cases bs with
    | nil => exact Or.inr ⟨[], [], rfl, by simp, by simp⟩
    | cons b bs =>
      rw [maximum_concat, List.map_append]
      split_ifs with hle
      · refine Or.inr ⟨_, [], rfl, ?_, by simp⟩
        intro v hv
        exact Decimal.le_trans (ih.greatest v hv) hle
      · rcases ih with ⟨hl, _⟩ | ⟨before, after, hl, hb, ha⟩
        · simp at hl
        · refine Or.inr ⟨before, after ++ [c.total], by rw [hl]; simp, hb, ?_⟩
          intro v hv
          rcases List.mem_append.mp hv with hv | hv
          · exact ha v hv
          · rw [List.mem_singleton.mp hv]
            exact Decimal.lt_of_not_le hle

structure SeriesOf (anchor : Date) (entries : List (Date × Decimal)) (s : MonthlySeries) :
    Prop where
  window : anchor.IsWindow (s.buckets.map (·.period))
  total : ∀ b ∈ s.buckets, sumAll (MonthlyTotals.amountsIn b.period entries) = .ok b.total
  maximum : IsMaximum
    ((s.buckets.filter fun b => MonthlyTotals.amountsIn b.period entries ≠ []).map (·.total))
      s.maximum

namespace MonthlyTotals

theorem Ordered.eq_of_mem_iff {bs cs : List Bucket} (hb : Ordered bs) (hc : Ordered cs)
    (h : ∀ b, b ∈ bs ↔ b ∈ cs) : bs = cs := by
  have : Std.Irrefl fun a b : Bucket => a.period < b.period := ⟨fun b => Date.lt_irrefl b.period⟩
  have : Std.Antisymm fun a b : Bucket => a.period < b.period :=
    ⟨fun a _ hab hba => absurd (Date.lt_trans hab hba) (Date.lt_irrefl a.period)⟩
  exact List.Pairwise.eq_of_mem_iff hb hc h

def fill (t : MonthlyTotals) (periods : List Date) : List Bucket :=
  periods.map fun period => ⟨period, (t.get? period).getD .zero⟩

theorem periods_fill (t : MonthlyTotals) (periods : List Date) :
    (t.fill periods).map (·.period) = periods := by
  rw [fill, List.map_map]
  exact List.map_id periods

/-- With an older first bucket none is lost that is looked for from `start` on. -/
theorem exists_dropOlder (start : Date) (bs : List Bucket) :
    ∃ items, (Bucket.dropOlder start bs).result = .ok items ∧ ∀ period, start ≤ period →
      items.find? (fun b => b.period = period) = bs.find? fun b => b.period = period := by
  cases bs with
  | nil => exact ⟨[], rfl, fun _ _ => rfl⟩
  | cons first rest =>
    rw [Bucket.dropOlder]
    by_cases hold : first.period < start
    · refine ⟨rest, by rw [if_pos hold]; rfl, ?_⟩
      intro period hle
      have hne : first.period ≠ period := by
        rintro rfl
        exact absurd hold (Int.not_lt.mpr hle)
      rw [List.find?_cons_of_neg (by simpa using hne)]
    · exact ⟨first :: rest, by rw [if_neg hold]; rfl, fun _ _ => rfl⟩

theorem find?_getD (period : Date) (bs : List Bucket) :
    (bs.find? fun b => b.period = period).getD (.zero period) =
      ⟨period, ((bs.find? fun b => b.period = period).map (·.total)).getD .zero⟩ := by
  cases h : bs.find? fun b => b.period = period with
  | none => rfl
  | some b =>
    have hp : b.period = period := by simpa using List.find?_some h
    rw [← hp]
    rfl

theorem fillWindow_ok (t : MonthlyTotals) {anchor start : Date} {periods : List Date}
    (hs : anchor.windowStart = .ok start) (hd : start.day = 1)
    (hm : start.monthIndex = anchor.monthIndex - 11) (hp : anchor.windowPeriods = .ok periods)
    (hw : anchor.IsWindow periods) : (t.fillWindow anchor).result = .ok (t.fill periods) := by
  obtain ⟨items, hitems, hfind⟩ := exists_dropOlder start t.buckets
  have hstart : (Logged.ofExcept anchor.windowStart).result = .ok start := hs
  have hperiods : (Logged.ofExcept anchor.windowPeriods).result = .ok periods := hp
  have hfilled : (periods.map fun period =>
      (items.find? fun b => b.period = period).getD (.zero period)) = t.fill periods := by
    apply List.map_congr_left
    intro period hperiod
    rw [hfind period (hw.start_le hd hm hperiod), find?_getD, get?, hw.begins hperiod]
  rw [fillWindow, Logged.result_bind_of_ok _ hstart, Logged.result_bind_of_ok _ hitems,
    Logged.result_bind_of_ok _ hperiods]
  exact congrArg Except.ok hfilled

namespace Holds

variable {t : MonthlyTotals} {entries : List (Date × Decimal)} {anchor : Date}

/-- Filled by the sums of the entries, whether a month has any or not. -/
theorem sum_fill (h : Holds t entries) {periods : List Date} {b : Bucket}
    (hb : b ∈ t.fill periods) :
    sumAll (amountsIn b.period entries) = .ok b.total := by
  obtain ⟨p, _, rfl⟩ := List.mem_map.mp hb
  exact h.sum_eq p

theorem mem_fill_iff (h : Holds t entries) {periods : List Date} (hw : anchor.IsWindow periods)
    (b : Bucket) : (b ∈ t.fill periods ∧ amountsIn b.period entries ≠ []) ↔
      b ∈ t.buckets ∧ anchor.InWindow b.period := by
  constructor
  · rintro ⟨hb, hne⟩
    obtain ⟨p, hp, rfl⟩ := List.mem_map.mp hb
    obtain ⟨c, hc, hcp⟩ := (h.present p).mpr hne
    rw [hw.begins hp] at hcp
    have hg : t.get? p = some c.total :=
      (get?_eq_some_iff h.ordered).mpr ⟨c, hc, by rw [hw.begins hp, hcp], rfl⟩
    rw [hg, Option.getD_some, ← hcp]
    refine ⟨hc, ?_⟩
    rw [← hw.mem_iff, h.firstOfMonth hc, hcp]
    exact hp
  · rintro ⟨hb, hin⟩
    rw [← hw.mem_iff, h.firstOfMonth hb] at hin
    have hg : t.get? b.period = some b.total :=
      (get?_eq_some_iff h.ordered).mpr ⟨b, hb, (h.firstOfMonth hb).symm, rfl⟩
    refine ⟨List.mem_map.mpr ⟨b.period, hin, by rw [hg]; rfl⟩, ?_⟩
    exact (h.present b.period).mp ⟨b, hb, (h.firstOfMonth hb).symm⟩

/-- All that is stored for the months of the window is in range, and nothing else is. -/
theorem withinWindow_range (h : Holds t entries) {start : Date}
    (hs : anchor.windowStart = .ok start) (hd : start.day = 1)
    (hm : start.monthIndex = anchor.monthIndex - 11) :
    t.withinWindow anchor = .ok (t.buckets.filter fun b => anchor.InWindow b.period) := by
  have hrange : (t.buckets.filter fun b => start ≤ b.period ∧ b.period ≤ anchor.firstOfMonth) =
      t.buckets.filter fun b => anchor.InWindow b.period := by
    apply List.filter_congr
    intro b hb
    rw [decide_eq_decide, ← h.firstOfMonth hb, ← Date.firstOfMonth_of_day hd,
      Date.firstOfMonth_le_iff, Date.firstOfMonth_le_iff, hm]
    rfl
  rw [withinWindow, hs]
  exact congrArg Except.ok hrange

/-- The totals in the window are the filled ones of months that have entries. -/
theorem withinWindow_eq (h : Holds t entries) {start : Date} {periods : List Date}
    (hs : anchor.windowStart = .ok start) (hd : start.day = 1)
    (hm : start.monthIndex = anchor.monthIndex - 11) (hw : anchor.IsWindow periods) :
    t.withinWindow anchor =
      .ok ((t.fill periods).filter fun b => amountsIn b.period entries ≠ []) := by
  have hfill : Ordered (t.fill periods) := by
    rw [ordered_iff_periods, fill, List.map_map]
    simpa [Function.comp_def] using hw.ordered
  rw [h.withinWindow_range hs hd hm]
  apply congrArg Except.ok
  apply Ordered.eq_of_mem_iff (List.Pairwise.filter _ h.ordered) (List.Pairwise.filter _ hfill)
  intro b
  rw [List.mem_filter, List.mem_filter, decide_eq_true_eq, decide_eq_true_eq, h.mem_fill_iff hw]

theorem ofTotals_ok (h : Holds t entries) (hw : anchor.HasWindow) :
    ∃ s, (MonthlySeries.ofTotals t anchor).result = .ok s ∧ SeriesOf anchor entries s := by
  obtain ⟨start, hs, hd, hm⟩ := Date.windowStart_ok hw
  obtain ⟨periods, hp, hwin⟩ := Date.windowPeriods_ok hw
  refine
    ⟨⟨t.fill periods, maximum ((t.fill periods).filter fun b => amountsIn b.period entries ≠ [])⟩,
      ?_, ?_, fun b hb => h.sum_fill hb, isMaximum_maximum _⟩
  · unfold MonthlySeries.ofTotals
    have hheld : (Logged.ofExcept (t.withinWindow anchor)).result = .ok _ :=
      h.withinWindow_eq hs hd hm hwin
    rw [Logged.result_bind_of_ok _ hheld,
      Logged.result_bind_of_ok _ (fillWindow_ok t hs hd hm hp hwin)]
    rfl
  · change anchor.IsWindow ((t.fill periods).map (·.period))
    rw [periods_fill]
    exact hwin

end Holds

theorem withinWindow_error (t : MonthlyTotals) {anchor : Date} (hw : ¬ anchor.HasWindow) :
    t.withinWindow anchor = .error (.monthOutOfRange anchor.firstOfMonth (-11)) := by
  rw [withinWindow, Date.windowStart_error hw]
  rfl

theorem ofTotals_error (t : MonthlyTotals) {anchor : Date} (hw : ¬ anchor.HasWindow) :
    (MonthlySeries.ofTotals t anchor).result =
      .error (.monthOutOfRange anchor.firstOfMonth (-11)) := by
  rw [MonthlySeries.ofTotals, Logged.result_bind, Logged.result_ofExcept, withinWindow_error t hw]
  rfl

end MonthlyTotals

theorem forall₂_of_periods {R : Bucket → Bucket → Prop} {bs cs : List Bucket}
    (h : bs.map (·.period) = cs.map (·.period))
    (hR : ∀ b ∈ bs, ∀ c ∈ cs, b.period = c.period → R b c) : List.Forall₂ R bs cs := by
  induction bs generalizing cs with
  | nil =>
    cases List.map_eq_nil_iff.mp h.symm
    exact .nil
  | cons b bs ih =>
    cases cs with
    | nil => simp at h
    | cons c cs =>
      obtain ⟨hp, h⟩ := List.cons.inj h
      refine .cons (hR b (List.mem_cons_self ..) c (List.mem_cons_self ..) hp) (ih h ?_)
      intro d hd e he
      exact hR d (List.mem_cons_of_mem _ hd) e (List.mem_cons_of_mem _ he)

namespace SeriesOf

variable {anchor : Date} {entries entries' : List (Date × Decimal)} {s s' : MonthlySeries}

/-- Two series of one window can be compared month by month. -/
theorem forall₂_buckets {R : Bucket → Bucket → Prop} (h : SeriesOf anchor entries s)
    (h' : SeriesOf anchor entries' s')
    (hR : ∀ b ∈ s.buckets, ∀ c ∈ s'.buckets, b.period = c.period → R b c) :
    List.Forall₂ R s.buckets s'.buckets :=
  forall₂_of_periods (h.window.unique h'.window) hR

theorem unique (h : SeriesOf anchor entries s) (h' : SeriesOf anchor entries s') : s = s' := by
  have hall : List.Forall₂ (· = ·) s.buckets s'.buckets := by
    apply h.forall₂_buckets h'
    rintro ⟨p, x⟩ hb ⟨q, y⟩ hc hp
    cases hp
    cases (h.total _ hb).symm.trans (h'.total ⟨p, y⟩ hc)
    rfl
  rw [List.forall₂_eq_eq_eq] at hall
  obtain ⟨bs, m⟩ := s
  obtain ⟨cs, n⟩ := s'
  cases hall
  cases h.maximum.unique h'.maximum
  rfl

end SeriesOf

/-! ## Two views of a window

What is stored for a window is a range of the totals; its twelve buckets are looked for month by
month. Both fail for the same anchors, and both select the same months. Of the months that are too
old only the first is dropped before the search: the others are never looked for. -/

theorem Date.windowStart_le {anchor start : Date} (hd : start.day = 1)
    (hm : start.monthIndex = anchor.monthIndex - 11) : start ≤ anchor.firstOfMonth := by
  rw [← firstOfMonth_of_day hd, firstOfMonth_le_iff]
  omega

namespace MonthlyTotals

theorem fillWindow_error (t : MonthlyTotals) {anchor : Date} (hw : ¬ anchor.HasWindow) :
    (t.fillWindow anchor).result = .error (.monthOutOfRange anchor.firstOfMonth (-11)) := by
  rw [fillWindow, Logged.result_bind, Logged.result_ofExcept, Date.windowStart_error hw]
  rfl

/-- What the stored buckets of a window and the twelve that fill it have to do with the totals. -/
structure Selects (t : MonthlyTotals) (anchor : Date) (stored filled : List Bucket) : Prop where
  twelve : filled.length = windowMonths
  periods : anchor.windowPeriods = .ok (filled.map (·.period))
  total : ∀ b ∈ filled,
    b ∈ t.buckets ∨ b = .zero b.period ∧ b.period ∉ t.buckets.map (·.period)
  range : stored = t.buckets.filter fun b => anchor.InWindow b.period
  sublist : stored = filled.filter fun b => b.period ∈ t.buckets.map (·.period)
  outside : ∀ b ∈ t.buckets, ¬ anchor.InWindow b.period →
    b.period ∉ stored.map (·.period) ∧ b.period ∉ filled.map (·.period)

namespace Holds

variable {t : MonthlyTotals} {entries : List (Date × Decimal)} {anchor start : Date}
  {periods : List Date}

theorem mem_periods (h : Holds t entries) {p : Date} (hp : p.firstOfMonth = p) :
    p ∈ t.buckets.map (·.period) ↔ amountsIn p entries ≠ [] := by
  rw [← h.present p, hp, List.mem_map]

/-- A month that is looked for is found where it is stored. -/
theorem total_fill (h : Holds t entries) (hw : anchor.IsWindow periods) {b : Bucket}
    (hb : b ∈ t.fill periods) :
    b ∈ t.buckets ∨ b = .zero b.period ∧ b.period ∉ t.buckets.map (·.period) := by
  obtain ⟨p, hp, rfl⟩ := List.mem_map.mp hb
  have hfirst : p.firstOfMonth = p := hw.begins hp
  dsimp only
  cases hg : t.get? p with
  | some total =>
    obtain ⟨c, hc, hcp, rfl⟩ := (get?_eq_some_iff h.ordered).mp hg
    rw [hfirst] at hcp
    subst hcp
    exact Or.inl hc
  | none =>
    rw [get?_eq_none_iff, hfirst] at hg
    exact Or.inr ⟨rfl, by rwa [List.mem_map]⟩

/-- The range of the totals is what the search has found. -/
theorem range_eq_found (h : Holds t entries) (hs : anchor.windowStart = .ok start)
    (hd : start.day = 1) (hm : start.monthIndex = anchor.monthIndex - 11)
    (hw : anchor.IsWindow periods) :
    (t.buckets.filter fun b => anchor.InWindow b.period) =
      (t.fill periods).filter fun b => b.period ∈ t.buckets.map (·.period) := by
  have heq : t.withinWindow anchor =
      .ok ((t.fill periods).filter fun b => amountsIn b.period entries ≠ []) :=
    h.withinWindow_eq hs hd hm hw
  rw [h.withinWindow_range hs hd hm] at heq
  rw [Except.ok.inj heq]
  apply List.filter_congr
  intro b hb
  obtain ⟨p, hp, rfl⟩ := List.mem_map.mp hb
  rw [decide_eq_decide, h.mem_periods (hw.begins hp)]

theorem selects (h : Holds t entries) (hs : anchor.windowStart = .ok start) (hd : start.day = 1)
    (hm : start.monthIndex = anchor.monthIndex - 11) (hp : anchor.windowPeriods = .ok periods)
    (hw : anchor.IsWindow periods) :
    Selects t anchor (t.buckets.filter fun b => anchor.InWindow b.period) (t.fill periods) where
  twelve := by
    rw [fill, List.length_map]
    exact hw.length
  periods := by rw [periods_fill, hp]
  total := fun b hb => h.total_fill hw hb
  range := rfl
  sublist := h.range_eq_found hs hd hm hw
  outside := by
    intro b hb hout
    constructor
    · intro hmem
      obtain ⟨c, hc, hcp⟩ := List.mem_map.mp hmem
      have hin : anchor.InWindow c.period := by simpa using (List.mem_filter.mp hc).2
      exact hout (hcp ▸ hin)
    · rw [periods_fill, ← h.firstOfMonth hb, hw.mem_iff]
      exact hout

end Holds

/-- For totals that come from any steps, the stored buckets of a window and the twelve that fill
it either both fail, or are selected from the same months. The two ends of the range that the
stored ones are taken from never change places. -/
theorem windows_select_alike (steps : List Step) (anchor : Date) :
    (¬ anchor.HasWindow ∧
      (empty.run steps).withinWindow anchor = .error (.monthOutOfRange anchor.firstOfMonth (-11)) ∧
      ((empty.run steps).fillWindow anchor).result =
        .error (.monthOutOfRange anchor.firstOfMonth (-11))) ∨
    ∃ start stored filled, anchor.windowStart = .ok start ∧ start ≤ anchor.firstOfMonth ∧
      (empty.run steps).withinWindow anchor = .ok stored ∧
      ((empty.run steps).fillWindow anchor).result = .ok filled ∧
      Selects (empty.run steps) anchor stored filled := by
  have h := run_holds holds_empty steps
  by_cases hw : anchor.HasWindow
  · obtain ⟨start, hs, hd, hm⟩ := Date.windowStart_ok hw
    obtain ⟨periods, hp, hwin⟩ := Date.windowPeriods_ok hw
    exact Or.inr ⟨start, _, _, hs, Date.windowStart_le hd hm, h.withinWindow_range hs hd hm,
      fillWindow_ok _ hs hd hm hp hwin, h.selects hs hd hm hp hwin⟩
  · exact Or.inl ⟨hw, withinWindow_error _ hw, fillWindow_error _ hw⟩

end MonthlyTotals

end TrailingYear
