import TrailingYear.Proofs.Conversion
import TrailingYear.Proofs.Decimal.Nearest
import TrailingYear.Proofs.Months
import TrailingYear.Proofs.Sums
import Mathlib.Data.List.Dedup

/-! # The ledger behind monthly totals

Totals are explained by the entries that were added to them. Steps that fail are no part of this
ledger, and leave the totals as they were; a new month cannot be what fails, for its first sum is
the amount itself. -/

namespace TrailingYear

namespace MonthlyTotals

def amountsIn (day : Date) (entries : List (Date × Decimal)) : List Decimal :=
  (entries.filter fun entry => entry.1.firstOfMonth = day.firstOfMonth).map (·.2)

theorem amountsIn_concat (day : Date) (entries : List (Date × Decimal)) (date : Date)
    (amount : Decimal) :
    amountsIn day (entries ++ [(date, amount)]) =
      amountsIn day entries ++ if date.firstOfMonth = day.firstOfMonth then [amount] else [] := by
  by_cases h : date.firstOfMonth = day.firstOfMonth <;> simp [amountsIn, h]

theorem amountsIn_congr {a b : Date} (h : a.firstOfMonth = b.firstOfMonth)
    (entries : List (Date × Decimal)) : amountsIn a entries = amountsIn b entries := by
  simp only [amountsIn, h]

theorem amountsIn_ne_nil {day : Date} {entries : List (Date × Decimal)} :
    amountsIn day entries ≠ [] ↔ ∃ entry ∈ entries, entry.1.firstOfMonth = day.firstOfMonth := by
  simp [amountsIn]

def Ordered (bs : List Bucket) : Prop := bs.Pairwise fun a b => a.period < b.period

structure Holds (t : MonthlyTotals) (entries : List (Date × Decimal)) : Prop where
  ordered : Ordered t.buckets
  begins : ∀ b ∈ t.buckets, b.period.day = 1
  present : ∀ day : Date,
    (∃ b ∈ t.buckets, b.period = day.firstOfMonth) ↔ amountsIn day entries ≠ []
  total : ∀ b ∈ t.buckets, sumAll (amountsIn b.period entries) = .ok b.total

theorem holds_empty : Holds empty [] := by
  constructor <;> simp [empty, Ordered, amountsIn]

theorem mem_enter {period : Date} {bs : List Bucket} (ho : Ordered bs) (c : Bucket) :
    c ∈ enter period bs ↔ c ∈ bs ∨ c = .zero period ∧ ∀ b ∈ bs, b.period ≠ period := by
  induction bs with
  | nil => simp [enter]
  | cons b bs ih =>
    obtain ⟨hb, ho⟩ := List.pairwise_cons.mp ho
    unfold enter
    split_ifs with hbefore hsame
    · have hnew : ∀ d ∈ b :: bs, d.period ≠ period := by
        rintro d hd rfl
        rcases List.mem_cons.mp hd with rfl | hd
        · exact Date.lt_irrefl _ hbefore
        · exact Date.lt_irrefl _ (Date.lt_trans (hb d hd) hbefore)
      rw [List.mem_cons]
      tauto
    · have hold : ¬ ∀ d ∈ b :: bs, d.period ≠ period := by
        intro h
        exact h b (List.mem_cons_self ..) hsame.symm
      tauto
    · have hne : b.period ≠ period := fun h => hsame h.symm
      rw [List.mem_cons, List.mem_cons, List.forall_mem_cons, ih ho]
      tauto

theorem ordered_enter {period : Date} {bs : List Bucket} (ho : Ordered bs) :
    Ordered (enter period bs) := by
  induction bs with
  | nil => exact List.pairwise_singleton _ _
  | cons b bs ih =>
    obtain ⟨hb, hbs⟩ := List.pairwise_cons.mp ho
    unfold enter
    split_ifs with hbefore hsame
    · refine List.pairwise_cons.mpr ⟨?_, ho⟩
      intro c hc
      rcases List.mem_cons.mp hc with rfl | hc
      · exact hbefore
      · exact Date.lt_trans hbefore (hb c hc)
    · exact ho
    · refine List.pairwise_cons.mpr ⟨?_, ih hbs⟩
      intro c hc
      rcases (mem_enter hbs c).mp hc with hc | ⟨rfl, _⟩
      · exact hb c hc
      · rcases Date.lt_trichotomy period b.period with h | h | h
        · exact absurd h hbefore
        · exact absurd h hsame
        · exact h

/-- A month that is there already is not entered again. -/
theorem enter_of_mem {period : Date} {bs : List Bucket} (ho : Ordered bs)
    (h : ∃ b ∈ bs, b.period = period) : enter period bs = bs := by
  induction bs with
  | nil => simp at h
  | cons b bs ih =>
    obtain ⟨hb, hbs⟩ := List.pairwise_cons.mp ho
    obtain ⟨c, hc, rfl⟩ := h
    unfold enter
    split_ifs with hbefore hsame
    · rcases List.mem_cons.mp hc with rfl | hc
      · exact absurd hbefore (Date.lt_irrefl _)
      · exact absurd (Date.lt_trans hbefore (hb c hc)) (Date.lt_irrefl _)
    · rfl
    · rcases List.mem_cons.mp hc with rfl | hc
      · exact absurd rfl hsame
      · rw [ih hbs ⟨c, hc, rfl⟩]

theorem mem_periods_enter {period : Date} {bs : List Bucket} (ho : Ordered bs) (p : Date) :
    p ∈ (enter period bs).map (·.period) ↔ p ∈ bs.map (·.period) ∨ p = period := by
  simp only [List.mem_map, mem_enter ho]
  constructor
  · rintro ⟨b, hb | ⟨rfl, _⟩, rfl⟩
    · exact Or.inl ⟨b, hb, rfl⟩
    · exact Or.inr rfl
  · rintro (⟨b, hb, rfl⟩ | rfl)
    · exact ⟨b, Or.inl hb, rfl⟩
    · by_cases hm : ∃ b ∈ bs, b.period = p
      · obtain ⟨b, hb, hp⟩ := hm
        exact ⟨b, Or.inl hb, hp⟩
      · exact ⟨.zero p, Or.inr ⟨rfl, fun b hb hp => hm ⟨b, hb, hp⟩⟩, rfl⟩

theorem periods_setTotal (period : Date) (total : Decimal) (bs : List Bucket) :
    (setTotal period total bs).map (·.period) = bs.map (·.period) := by
  rw [setTotal, List.map_map]
  apply List.map_congr_left
  intro b _
  by_cases h : b.period = period <;> simp [h]

theorem ordered_iff_periods {bs : List Bucket} :
    Ordered bs ↔ (bs.map (·.period)).Pairwise (· < ·) := List.pairwise_map.symm

theorem get?_eq_some_iff {t : MonthlyTotals} (ho : Ordered t.buckets) {day : Date}
    {total : Decimal} :
    t.get? day = some total ↔ ∃ b ∈ t.buckets, b.period = day.firstOfMonth ∧ b.total = total := by
  obtain ⟨bs⟩ := t
  unfold get?
  induction bs with
  | nil => simp
  | cons b bs ih =>
    obtain ⟨hb, hbs⟩ := List.pairwise_cons.mp ho
    by_cases h : b.period = day.firstOfMonth
    · have hnot : ¬ ∃ c ∈ bs, c.period = day.firstOfMonth ∧ c.total = total := by
        rintro ⟨c, hc, hp, _⟩
        exact Date.lt_irrefl _ (h ▸ hp ▸ hb c hc)
      have hor : (∃ c ∈ b :: bs, c.period = day.firstOfMonth ∧ c.total = total) ↔
          b.total = total := by
        rw [List.exists_mem_cons_iff, or_iff_left hnot, and_iff_right h]
      rw [hor]
      simp [h]
    · simpa [h] using ih hbs

theorem get?_eq_none_iff {t : MonthlyTotals} {day : Date} :
    t.get? day = none ↔ ¬ ∃ b ∈ t.buckets, b.period = day.firstOfMonth := by
  simp [get?]

namespace Holds

variable {t : MonthlyTotals} {entries : List (Date × Decimal)}

theorem firstOfMonth (h : Holds t entries) {b : Bucket} (hb : b ∈ t.buckets) :
    b.period.firstOfMonth = b.period := Date.firstOfMonth_of_day (h.begins b hb)

theorem sum_eq (h : Holds t entries) (day : Date) :
    sumAll (amountsIn day entries) = .ok ((t.get? day).getD .zero) := by
  cases hg : t.get? day with
  | none =>
    have hn : amountsIn day entries = [] := by
      by_contra hne
      exact get?_eq_none_iff.mp hg ((h.present day).mpr hne)
    simp [hn]
  | some total =>
    obtain ⟨b, hb, hp, rfl⟩ := (get?_eq_some_iff h.ordered).mp hg
    rw [amountsIn_congr (b := b.period) (by rw [h.firstOfMonth hb, hp]), h.total b hb]
    rfl

/-- The bucket that a new month is given changes no sum. -/
theorem get?_enter (h : Holds t entries) (day : Date) :
    ((⟨enter day.firstOfMonth t.buckets⟩ : MonthlyTotals).get? day).getD .zero =
      (t.get? day).getD .zero := by
  by_cases hm : ∃ b ∈ t.buckets, b.period = day.firstOfMonth
  · rw [enter_of_mem h.ordered hm]
  · have hnew : (⟨enter day.firstOfMonth t.buckets⟩ : MonthlyTotals).get? day = some .zero := by
      apply (get?_eq_some_iff (ordered_enter h.ordered)).mpr
      refine ⟨.zero day.firstOfMonth, (mem_enter h.ordered _).mpr (Or.inr ⟨rfl, ?_⟩), rfl, rfl⟩
      intro b hb hp
      exact hm ⟨b, hb, hp⟩
    rw [hnew, get?_eq_none_iff.mpr hm]
    rfl

theorem setTotal_enter (h : Holds t entries) {date : Date} {amount total : Decimal}
    (hs : sumAll (amountsIn date entries ++ [amount]) = .ok total) :
    Holds ⟨setTotal date.firstOfMonth total (enter date.firstOfMonth t.buckets)⟩
      (entries ++ [(date, amount)]) := by
  have hmem : ∀ c, c ∈ setTotal date.firstOfMonth total (enter date.firstOfMonth t.buckets) →
      c = ⟨date.firstOfMonth, total⟩ ∨ c ∈ t.buckets ∧ c.period ≠ date.firstOfMonth := by
    intro c hc
    obtain ⟨b, hb, rfl⟩ := List.mem_map.mp hc
    by_cases hp : b.period = date.firstOfMonth
    · simp [hp]
    · rcases (mem_enter h.ordered b).mp hb with hb | ⟨rfl, _⟩
      · simp [hp, hb]
      · exact absurd rfl hp
  constructor
  · rw [ordered_iff_periods, periods_setTotal, ← ordered_iff_periods]
    exact ordered_enter h.ordered
  · intro c hc
    rcases hmem c hc with rfl | ⟨hc, _⟩
    · rfl
    · exact h.begins c hc
  · intro day
    have hp := h.present day
    rw [← List.mem_map] at hp ⊢
    rw [periods_setTotal, mem_periods_enter h.ordered, hp, amountsIn_concat]
    by_cases hd : date.firstOfMonth = day.firstOfMonth
    · simp [hd]
    · simp [hd, Ne.symm hd]
  · intro c hc
    rcases hmem c hc with rfl | ⟨hc, hp⟩
    · rw [amountsIn_concat, if_pos (Date.firstOfMonth_firstOfMonth date).symm]
      exact hs
    · have hp' : date.firstOfMonth ≠ c.period.firstOfMonth := by
        rw [h.firstOfMonth hc]
        exact Ne.symm hp
      rw [amountsIn_concat, if_neg hp', List.append_nil]
      exact h.total c hc

/-- Adding succeeds exactly if the sum of the month does, and else leaves the
totals as they were. -/
theorem record_eq (h : Holds t entries) (date : Date) (amount : Decimal) :
    (∃ t' total, sumAll (amountsIn date entries ++ [amount]) = .ok total ∧
      t.record date amount = (t', .ok ()) ∧ Holds t' (entries ++ [(date, amount)])) ∨
    (∃ e, sumAll (amountsIn date entries ++ [amount]) = .error e ∧
      t.record date amount = (t, .error e)) := by
  have hsum : sumAll (amountsIn date entries ++ [amount]) =
      checkedSum ((t.get? date).getD .zero) amount := by
    rw [sumAll_concat, h.sum_eq]
    rfl
  cases hc : checkedSum ((t.get? date).getD .zero) amount with
  | ok total =>
    refine Or.inl ⟨_, total, hsum.trans hc, ?_, h.setTotal_enter (hsum.trans hc)⟩
    simp only [record, h.get?_enter, hc]
  | error e =>
    refine Or.inr ⟨e, hsum.trans hc, ?_⟩
    -- the sum of a new month is its amount, so a month that fails was there before
    have hold : ∃ b ∈ t.buckets, b.period = date.firstOfMonth := by
      by_contra hn
      rw [get?_eq_none_iff.mpr hn, Option.getD_none, checkedSum_zero] at hc
      cases hc
    simp only [record, hc, enter_of_mem h.ordered hold]

end Holds

theorem ofEntries_concat (entries : List (Date × Decimal)) (date : Date) (amount : Decimal) :
    ofEntries (entries ++ [(date, amount)]) = ofEntries entries >>= fun t => t.add date amount := by
  simp [ofEntries, List.foldlM_append]

theorem sumAll_append_error {xs ys : List Decimal} {e : Failure} (h : sumAll xs = .error e) :
    sumAll (xs ++ ys) = .error e := by
  rw [sumAll, List.foldlM_append]
  rw [sumAll] at h
  rw [h]
  rfl

/-- Grouping succeeds exactly if the sum of every month does. -/
theorem ofEntries_eq (entries : List (Date × Decimal)) :
    (∃ t, ofEntries entries = .ok t ∧ Holds t entries) ∨
    (ofEntries entries = .error (.overflow .summing) ∧
      ∃ day e, sumAll (amountsIn day entries) = .error e) := by
  induction entries using List.reverseRecOn with
  | nil => exact Or.inl ⟨empty, rfl, holds_empty⟩
  | append_singleton entries entry ih =>
    obtain ⟨date, amount⟩ := entry
    rw [ofEntries_concat]
    rcases ih with ⟨t, ht, h⟩ | ⟨ht, day, e, hday⟩
    · rw [ht]
      rcases h.record_eq date amount with ⟨t', total, hs, hr, h'⟩ | ⟨e, hs, hr⟩
      · refine Or.inl ⟨t', ?_, h'⟩
        change t.add date amount = _
        rw [add, hr]
      · refine Or.inr ⟨?_, date, e, ?_⟩
        · change t.add date amount = _
          rw [add, hr, sumAll_error hs]
        · rw [amountsIn_concat, if_pos rfl]
          exact hs
    · refine Or.inr ⟨?_, day, e, ?_⟩
      · rw [ht]
        rfl
      · rw [amountsIn_concat]
        exact sumAll_append_error hday

/-- What the entries were from which the totals came, after a step from totals that
came from `entries`. -/
def ledgerAfter (t : MonthlyTotals) (entries : List (Date × Decimal)) (s : Step) :
    List (Date × Decimal) :=
  match (t.perform s).2, s with
  | .error _, _ => entries
  | .ok _, .add date amount => entries ++ [(date, amount)]
  | .ok _, .group grouped => grouped

/-- The successful additions since the last successful grouping, after the entries
of that grouping. -/
def ledger (t : MonthlyTotals) (entries : List (Date × Decimal)) : List Step → List (Date × Decimal)
  | [] => entries
  | s :: ss => ledger (t.perform s).1 (ledgerAfter t entries s) ss

theorem step_holds {t : MonthlyTotals} {entries : List (Date × Decimal)} (h : Holds t entries)
    (s : Step) : Holds (t.perform s).1 (ledgerAfter t entries s) := by
  cases s with
  | add date amount =>
    rcases h.record_eq date amount with ⟨t', total, _, hr, h'⟩ | ⟨e, _, hr⟩
    · simpa only [ledgerAfter, perform, hr] using h'
    · simpa only [ledgerAfter, perform, hr] using h
  | group grouped =>
    rcases ofEntries_eq grouped with ⟨t', ht, h'⟩ | ⟨ht, _⟩
    · simpa only [ledgerAfter, perform, ht] using h'
    · simpa only [ledgerAfter, perform, ht] using h

theorem failed_step_unchanged {t : MonthlyTotals} {entries : List (Date × Decimal)}
    (h : Holds t entries) {s : Step} {e : Failure} (hs : (t.perform s).2 = .error e) :
    (t.perform s).1 = t := by
  cases s with
  | add date amount =>
    rcases h.record_eq date amount with ⟨t', total, _, hr, _⟩ | ⟨e', _, hr⟩
    · simp [perform, hr] at hs
    · simp [perform, hr]
  | group grouped =>
    rcases ofEntries_eq grouped with ⟨t', ht, _⟩ | ⟨ht, _⟩
    · simp [perform, ht] at hs
    · simp [perform, ht]

theorem run_holds {t : MonthlyTotals} {entries : List (Date × Decimal)} (h : Holds t entries)
    (steps : List Step) : Holds (t.run steps) (ledger t entries steps) := by
  induction steps generalizing t entries with
  | nil => exact h
  | cons s ss ih => exact ih (step_holds h s)

structure Reports (t : MonthlyTotals) (entries : List (Date × Decimal)) : Prop where
  ascending : (t.buckets.map (·.period)).Pairwise (· < ·)
  distinct : (t.buckets.map (·.period)).Nodup
  begins : ∀ b ∈ t.buckets, b.period.day = 1
  present : ∀ day : Date, (∃ b ∈ t.buckets, b.period = day.firstOfMonth) ↔
    ∃ entry ∈ entries, entry.1.firstOfMonth = day.firstOfMonth
  total : ∀ b ∈ t.buckets, sumAll (amountsIn b.period entries) = .ok b.total
  held : ∀ day : Date, t.get? day =
    if amountsIn day entries = [] then none else (sumAll (amountsIn day entries)).toOption
  size : t.size = (entries.map (·.1.firstOfMonth)).dedup.length
  isEmpty : t.isEmpty = true ↔ entries = []

namespace Holds

variable {t : MonthlyTotals} {entries : List (Date × Decimal)}

theorem periods_nodup (h : Holds t entries) : (t.buckets.map (·.period)).Nodup :=
  Date.nodup_of_ordered (ordered_iff_periods.mp h.ordered)

theorem get?_eq (h : Holds t entries) (day : Date) : t.get? day =
    if amountsIn day entries = [] then none else (sumAll (amountsIn day entries)).toOption := by
  have hsum := h.sum_eq day
  split_ifs with hnone
  · rw [get?_eq_none_iff, h.present]
    exact not_not.mpr hnone
  · cases hg : t.get? day with
    | none => exact absurd ((h.present day).mpr hnone) (get?_eq_none_iff.mp hg)
    | some total =>
      rw [hsum, hg]
      rfl

theorem mem_periods_iff (h : Holds t entries) (p : Date) :
    p ∈ t.buckets.map (·.period) ↔ p ∈ entries.map (·.1.firstOfMonth) := by
  have hp := (h.present p).trans amountsIn_ne_nil
  constructor
  · intro hm
    obtain ⟨b, hb, rfl⟩ := List.mem_map.mp hm
    obtain ⟨entry, he, hf⟩ := hp.mp ⟨b, hb, (h.firstOfMonth hb).symm⟩
    exact List.mem_map.mpr ⟨entry, he, hf.trans (h.firstOfMonth hb)⟩
  · intro hm
    obtain ⟨entry, he, rfl⟩ := List.mem_map.mp hm
    exact List.mem_map.mpr (hp.mpr ⟨entry, he, rfl⟩)

theorem reports (h : Holds t entries) : Reports t entries where
  ascending := ordered_iff_periods.mp h.ordered
  distinct := h.periods_nodup
  begins := h.begins
  present := fun day => (h.present day).trans amountsIn_ne_nil
  total := h.total
  held := h.get?_eq
  size := by
    have hperm : (t.buckets.map (·.period)).Perm (entries.map (·.1.firstOfMonth)).dedup := by
      rw [List.perm_ext_iff_of_nodup h.periods_nodup (List.nodup_dedup _)]
      intro p
      rw [h.mem_periods_iff, List.mem_dedup]
    rw [← hperm.length_eq, List.length_map]
    rfl
  isEmpty := by
    have hnil : t.buckets = [] ↔ entries = [] := by
      rw [← List.map_eq_nil_iff (f := fun b : Bucket => b.period),
        ← List.map_eq_nil_iff (f := fun entry : Date × Decimal => entry.1.firstOfMonth),
        List.eq_nil_iff_forall_not_mem, List.eq_nil_iff_forall_not_mem]
      simp only [h.mem_periods_iff]
    rw [isEmpty, List.isEmpty_iff, hnil]

end Holds

/-- After any steps the totals are those of the ledger. A further step succeeds exactly if
the sums that it makes do, and otherwise leaves the totals as they are, the months that
they hold included. -/
theorem run_reports_ledger (steps : List Step) :
    Reports (empty.run steps) (ledger empty [] steps) ∧
    (∀ date amount, ((empty.run steps).perform (.add date amount)).2 =
      (sumAll (amountsIn date (ledger empty [] steps) ++ [amount])).map fun _ => ()) ∧
    (∀ grouped, ((empty.run steps).perform (.group grouped)).2 = .ok () ↔
      ∀ day, ∃ total, sumAll (amountsIn day grouped) = .ok total) ∧
    ∀ s, ((empty.run steps).perform s).2 = .ok () ∨
      ∃ e, (empty.run steps).perform s = (empty.run steps, .error e) := by
  have h := run_holds holds_empty steps
  refine ⟨h.reports, ?_, ?_, ?_⟩
  · intro date amount
    rcases h.record_eq date amount with ⟨t', total, hs, hr, _⟩ | ⟨e, hs, hr⟩ <;>
      simp [perform, hr, hs, Except.map]
  · intro grouped
    rcases ofEntries_eq grouped with ⟨t', ht, h'⟩ | ⟨ht, day, e, hday⟩
    · simp only [perform, ht, true_iff]
      intro day
      exact ⟨_, h'.sum_eq day⟩
    · simp only [perform, ht, reduceCtorEq, false_iff, not_forall]
      exact ⟨day, by simp [hday]⟩
  · intro s
    cases hs : ((empty.run steps).perform s).2 with
    | ok => exact Or.inl rfl
    | error e => exact Or.inr ⟨e, Prod.ext (failed_step_unchanged h hs) hs⟩

end MonthlyTotals

/-! ## Overflow

A conversion overflows exactly where its product is out of range, and a sum of many where one of
its steps is, from the decimal that is held there. -/

theorem checkedSum_eq_error_iff {a b : Decimal} :
    checkedSum a b = .error (.overflow .summing) ↔ OutOfRange (a.toRat + b.toRat) := by
  rw [← Decimal.add?_eq_none_iff, checkedSum]
  cases a.add? b <;> simp

def SumLeavesRange (values : List Decimal) : Prop :=
  ∃ before v after total, values = before ++ v :: after ∧ sumAll before = .ok total ∧
    OutOfRange (total.toRat + v.toRat)

theorem sumAll_eq_error_iff {values : List Decimal} :
    sumAll values = .error (.overflow .summing) ↔ SumLeavesRange values := by
  simp only [sumAll, SumLeavesRange, foldlM_eq_error_iff, checkedSum_eq_error_iff]

namespace MonthlyTotals

/-- Some entry takes the total that its month has there out of range. -/
def MonthLeavesRange (entries : List (Date × Decimal)) : Prop :=
  ∃ before date amount after t, entries = before ++ (date, amount) :: after ∧
    ofEntries before = .ok t ∧ OutOfRange (((t.get? date).getD .zero).toRat + amount.toRat)

theorem Holds.add_eq_error_iff {t : MonthlyTotals} {entries : List (Date × Decimal)}
    (h : Holds t entries) (date : Date) (amount : Decimal) :
    t.add date amount = .error (.overflow .summing) ↔
      OutOfRange (((t.get? date).getD .zero).toRat + amount.toRat) := by
  rw [← checkedSum_eq_error_iff, add, record]
  dsimp only
  rw [h.get?_enter]
  cases checkedSum ((t.get? date).getD .zero) amount <;> simp

theorem holds_of_ofEntries {entries : List (Date × Decimal)} {t : MonthlyTotals}
    (ht : ofEntries entries = .ok t) : Holds t entries := by
  rcases ofEntries_eq entries with ⟨t', ht', h⟩ | ⟨herror, _⟩
  · cases ht.symm.trans ht'
    exact h
  · rw [ht] at herror
    cases herror

theorem ofEntries_eq_error_iff {entries : List (Date × Decimal)} :
    ofEntries entries = .error (.overflow .summing) ↔ MonthLeavesRange entries := by
  rw [ofEntries, foldlM_eq_error_iff]
  constructor
  · rintro ⟨before, ⟨date, amount⟩, after, t, hsplit, ht, hadd⟩
    exact ⟨before, date, amount, after, t, hsplit, ht,
      ((holds_of_ofEntries ht).add_eq_error_iff date amount).mp hadd⟩
  · rintro ⟨before, date, amount, after, t, hsplit, ht, hout⟩
    exact ⟨before, (date, amount), after, t, hsplit, ht,
      ((holds_of_ofEntries ht).add_eq_error_iff date amount).mpr hout⟩

end MonthlyTotals

open MonthlyTotals (ofEntries MonthLeavesRange)

/-- A computation that can only overflow succeeds exactly where it does not. -/
theorem exists_ok_iff_not_overflow {α : Type} {x : Except Failure α} {operation : Operation}
    (h : ∀ e, x = .error e → e = .overflow operation) :
    (∃ a, x = .ok a) ↔ ¬ x = .error (.overflow operation) := by
  cases x with
  | ok a => simp
  | error e => simp [h e rfl]

/-- Converting, grouping and summing overflow exactly where an exact result is out of range, and
succeed everywhere else. -/
theorem overflow_iff_outOfRange :
    (∀ table p rate source, RateTable.lookup table p.currency p.date = some (rate, source) →
      (normalize table p = .error (.overflow .converting) ↔
        OutOfRange (p.amount.toRat * rate.toRat)) ∧
      ((∃ value, normalize table p = .ok value) ↔ ¬ OutOfRange (p.amount.toRat * rate.toRat))) ∧
    (∀ entries, (ofEntries entries = .error (.overflow .summing) ↔ MonthLeavesRange entries) ∧
      ((∃ t, ofEntries entries = .ok t) ↔ ¬ MonthLeavesRange entries)) ∧
    ∀ values, (sumAll values = .error (.overflow .summing) ↔ SumLeavesRange values) ∧
      ((∃ total, sumAll values = .ok total) ↔ ¬ SumLeavesRange values) := by
  refine ⟨?_, ?_, ?_⟩
  · intro table p rate source hrate
    have hvalue : normalize table p = valueAt table.target p (some rate) := by
      rw [normalize_eq_valueAt, hrate]
      rfl
    rw [hvalue, ← Decimal.mul?_eq_none_iff, valueAt]
    cases p.amount.mul? rate <;> simp
  · intro entries
    rw [← MonthlyTotals.ofEntries_eq_error_iff]
    refine ⟨Iff.rfl, exists_ok_iff_not_overflow ?_⟩
    intro e he
    rcases MonthlyTotals.ofEntries_eq entries with ⟨t, ht, _⟩ | ⟨herror, _⟩
    · rw [ht] at he
      cases he
    · rw [herror] at he
      cases he
      rfl
  · intro values
    rw [← sumAll_eq_error_iff]
    exact ⟨Iff.rfl, exists_ok_iff_not_overflow fun e => sumAll_error⟩

end TrailingYear
