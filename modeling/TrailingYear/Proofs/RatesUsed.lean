import TrailingYear.Command.Run
import TrailingYear.Proofs.Income
import TrailingYear.Proofs.RateTable
import TrailingYear.Proofs.ReportingCurrency
import Mathlib.Logic.Relation

/-! # The rates that commands use

The currency of a report, the column of the rates and the table agree with each other, so that every
payment is converted by the rate that its currency and day have in the files, and by no other. -/

namespace TrailingYear

/-- Changes to the rows of rates and the currencies that have no part in a report in `target` whose
rates are those of the column `field`. -/
inductive Unseen (target : String) (field : RateField) :
    List RateRow × List Currency → List RateRow × List Currency → Prop where
  | rateColumn {rows rows' currencies} :
      rows.map (fun r => (r.currency, r.date, r.rate field)) =
        rows'.map (fun r => (r.currency, r.date, r.rate field)) →
      Unseen target field (rows, currencies) (rows', currencies)
  | targetRow {before r after currencies} : r.currency = target →
      Unseen target field (before ++ r :: after, currencies) (before ++ after, currencies)
  | rateOrder {before r r' after currencies} : (r.currency, r.date) ≠ (r'.currency, r'.date) →
      Unseen target field (before ++ r :: r' :: after, currencies)
        (before ++ r' :: r :: after, currencies)
  | currencyColumn {rows currencies currencies'} :
      currencies.map (fun c => (c.code, c.name, c.fallbackRate field)) =
        currencies'.map (fun c => (c.code, c.name, c.fallbackRate field)) →
      Unseen target field (rows, currencies) (rows, currencies')
  | targetFallback {rows before c c' after} : c.code = target → c'.code = target →
      c'.name = c.name →
      Unseen target field (rows, before ++ c :: after) (rows, before ++ c' :: after)
  | currencyOrder {rows currencies currencies'} : currencies.Perm currencies' →
      Unseen target field (rows, currencies) (rows, currencies')

structure Agree (target : String) (field : RateField) (x y : List RateRow × List Currency) :
    Prop where
  checked : CodesChecked x.2 ↔ CodesChecked y.2
  currency : CodesChecked x.2 → ∀ marketing state,
    ReportingCurrency.ofCodes x.2 marketing state = ReportingCurrency.ofCodes y.2 marketing state
  rate : CodesChecked x.2 → ∀ currency date,
    rateUsed target field x.1 x.2 currency date = rateUsed target field y.1 y.2 currency date

namespace Agree

variable {target : String} {field : RateField} {x y z : List RateRow × List Currency}

theorem refl (x : List RateRow × List Currency) : Agree target field x x :=
  ⟨Iff.rfl, fun _ _ _ => rfl, fun _ _ _ => rfl⟩

theorem symm (h : Agree target field x y) : Agree target field y x := by
  refine ⟨h.checked.symm, ?_, ?_⟩
  · intro hc marketing state
    exact (h.currency (h.checked.mpr hc) marketing state).symm
  · intro hc currency date
    exact (h.rate (h.checked.mpr hc) currency date).symm

theorem trans (h : Agree target field x y) (k : Agree target field y z) :
    Agree target field x z := by
  refine ⟨h.checked.trans k.checked, ?_, ?_⟩
  · intro hc marketing state
    exact (h.currency hc marketing state).trans (k.currency (h.checked.mp hc) marketing state)
  · intro hc currency date
    exact (h.rate hc currency date).trans (k.rate (h.checked.mp hc) currency date)

/-- It is enough for rows that the rates on each day are the same, unless those are
rates of the target. -/
theorem of_ratesOn {rows rows' : List RateRow} (currencies : List Currency)
    (h : ∀ currency date, currency ≠ target →
      ratesOn field currency date rows = ratesOn field currency date rows') :
    Agree target field (rows, currencies) (rows', currencies) := by
  refine ⟨Iff.rfl, fun _ _ _ => rfl, ?_⟩
  intro _ currency date
  unfold rateUsed
  split_ifs with hcurrency
  · rfl
  · rw [h currency date hcurrency]

end Agree

theorem ratesOn_append (field : RateField) (currency : String) (date : Date)
    (rows rows' : List RateRow) :
    ratesOn field currency date (rows ++ rows') =
      ratesOn field currency date rows ++ ratesOn field currency date rows' := by
  simp [ratesOn]

theorem ratesOn_cons (field : RateField) (currency : String) (date : Date) (r : RateRow)
    (rows : List RateRow) : ratesOn field currency date (r :: rows) =
      if r.currency = currency ∧ r.date = date then r.rate field :: ratesOn field currency date rows
      else ratesOn field currency date rows := by
  by_cases h : r.currency = currency ∧ r.date = date <;> simp [ratesOn, h]

theorem ratesOn_eq_of_column {field : RateField} {rows rows' : List RateRow}
    (h : rows.map (fun r => (r.currency, r.date, r.rate field)) =
      rows'.map (fun r => (r.currency, r.date, r.rate field))) (currency : String) (date : Date) :
    ratesOn field currency date rows = ratesOn field currency date rows' := by
  have hrates : ∀ rows, ratesOn field currency date rows =
      ((rows.map fun r => (r.currency, r.date, r.rate field)).filter fun entry =>
        entry.1 = currency ∧ entry.2.1 = date).map (·.2.2) := by
    intro rows
    rw [ratesOn, List.filter_map, List.map_map]
    rfl
  rw [hrates, hrates, h]

theorem fallbackOf_eq_of_column {field : RateField} {currencies currencies' : List Currency}
    (h : currencies.map (fun c => (c.code, c.name, c.fallbackRate field)) =
      currencies'.map (fun c => (c.code, c.name, c.fallbackRate field))) (currency : String) :
    fallbackOf field currency currencies = fallbackOf field currency currencies' := by
  have hfallback : ∀ currencies, fallbackOf field currency currencies =
      ((currencies.map fun c => (c.code, c.name, c.fallbackRate field)).find? fun entry =>
        entry.1 = currency).bind (·.2.2) := by
    intro currencies
    rw [fallbackOf, List.find?_map, Option.bind_map]
    rfl
  rw [hfallback, hfallback, h]

theorem fallbackOf_perm {field : RateField} {currencies currencies' : List Currency}
    (hc : CodesChecked currencies) (h : currencies.Perm currencies') (currency : String) :
    fallbackOf field currency currencies = fallbackOf field currency currencies' := by
  unfold fallbackOf
  rw [find?_eq_of_perm h]
  intro c hmem d hmem' hcode hcode'
  rw [decide_eq_true_eq] at hcode hcode'
  exact hc.eq_of_code hmem hmem' (hcode.trans hcode'.symm)

theorem Agree.of_unseen {target : String} {field : RateField} {x y : List RateRow × List Currency}
    (h : Unseen target field x y) : Agree target field x y := by
  cases h with
  | rateColumn h => exact of_ratesOn _ fun currency date _ => ratesOn_eq_of_column h currency date
  | targetRow h =>
    apply of_ratesOn
    intro currency date hne
    rw [ratesOn_append, ratesOn_append, ratesOn_cons, if_neg]
    exact fun hr => hne (hr.1.symm.trans h)
  | @rateOrder before r r' after currencies h =>
    apply of_ratesOn
    intro currency date _
    simp only [ratesOn_append, ratesOn_cons]
    by_cases hr : r.currency = currency ∧ r.date = date
    · have hr' : ¬ (r'.currency = currency ∧ r'.date = date) := by
        intro hr'
        exact h (Prod.ext (hr.1.trans hr'.1.symm) (hr.2.trans hr'.2.symm))
      rw [if_neg hr', if_neg hr']
    · rw [if_neg hr, if_neg hr]
  | @currencyColumn rows currencies currencies' h =>
    have hcodes : currencies.map (·.code) = currencies'.map (·.code) := by
      have := congrArg (List.map (·.1)) h
      rwa [List.map_map, List.map_map] at this
    have hlabels :
        currencies.map ReportingCurrency.label = currencies'.map ReportingCurrency.label := by
      have := congrArg (List.map fun entry => (entry.1, entry.2.1)) h
      rwa [List.map_map, List.map_map] at this
    refine ⟨CodesChecked.codes hcodes, ?_, ?_⟩
    · intro _ marketing state
      exact ReportingCurrency.ofCodes_label hlabels marketing state
    · intro _ currency date
      unfold rateUsed
      rw [fallbackOf_eq_of_column h]
  | @targetFallback rows before c c' after hc hc' hn =>
    have hcodes : (before ++ c :: after).map (·.code) = (before ++ c' :: after).map (·.code) := by
      simp [hc, hc']
    have hlabels : (before ++ c :: after).map ReportingCurrency.label =
        (before ++ c' :: after).map ReportingCurrency.label := by
      simp [ReportingCurrency.label, hc, hc', hn]
    refine ⟨CodesChecked.codes hcodes, ?_, ?_⟩
    · intro _ marketing state
      exact ReportingCurrency.ofCodes_label hlabels marketing state
    · intro _ currency date
      unfold rateUsed
      split_ifs with hcurrency
      · rfl
      · have hne : target ≠ currency := Ne.symm hcurrency
        simp [fallbackOf, List.find?_append, hc, hc', hne]
  | currencyOrder h =>
    refine ⟨CodesChecked.perm h, ?_, ?_⟩
    · intro hc marketing state
      exact ReportingCurrency.ofCodes_perm hc h marketing state
    · intro hc currency date
      unfold rateUsed
      rw [fallbackOf_perm hc h]

/-- Any number of such changes, made or undone. -/
theorem Agree.of_eqvGen {target : String} {field : RateField} {x y : List RateRow × List Currency}
    (h : Relation.EqvGen (Unseen target field) x y) : Agree target field x y := by
  induction h with
  | rel x y h => exact of_unseen h
  | refl x => exact refl x
  | symm x y _ ih => exact ih.symm
  | trans x y z _ _ ih ih' => exact ih.trans ih'

end TrailingYear
