import TrailingYear.Proofs.Decimal.Rounding
import TrailingYear.Proofs.Import.Checks
import TrailingYear.Proofs.Table.Rows

/-! # What is read

The three readers as their lists of checks. What the checks let through is what everything after
them relies on: amounts that are not negative, rates above zero, codes of three capitals. -/

namespace TrailingYear

open Import

def paymentChecks : Checks Payment where
  required := paymentColumns
  refusals c _ r :=
    [refusal (check c r "amount" Field.amount),
      refusal (check c r "currency" Field.currencyCode),
      refusal (check c r "payment_date" Field.date)]
  Gives c r p :=
    Field.amount (c.cell r.cells "amount") = .ok p.amount ∧
      Field.currencyCode (c.cell r.cells "currency") = .ok p.currency ∧
      Field.date (c.cell r.cells "payment_date") = .ok p.date

def rateChecks : Checks RateRow where
  required := rateColumns
  refusals c _ r :=
    [refusal (check c r "currency" Field.currencyCode),
      refusal (check c r "payment_date" Field.date),
      refusal (check c r RateField.state.column Field.rate),
      refusal (check c r RateField.marketing.column Field.rate)]
  Gives c r row :=
    Field.currencyCode (c.cell r.cells "currency") = .ok row.currency ∧
      Field.date (c.cell r.cells "payment_date") = .ok row.date ∧
      ∀ field, Field.rate (c.cell r.cells field.column) = .ok (row.rate field)

def currencyChecks : Checks Currency where
  required := currencyColumns
  refusals c before r :=
    [refusal (check c r "code" Field.currencyCode),
      if ∃ earlier ∈ withContent before, c.cell earlier.cells "code" = c.cell r.cells "code" then
        some (.duplicateCurrency r.line (c.cell r.cells "code"))
      else none,
      refusal (check c r RateField.state.column Field.optionalRate),
      refusal (check c r RateField.marketing.column Field.optionalRate)]
  Gives c r currency :=
    Field.currencyCode (c.cell r.cells "code") = .ok currency.code ∧
      currency.name =
        (if c.cell r.cells "name" = "" then currency.code else c.cell r.cells "name") ∧
      ∀ field, Field.optionalRate (c.cell r.cells field.column) = .ok (currency.fallbackRate field)

namespace Import

theorem check_eq_ok_iff {α : Type} {c : Columns} {r : Row} {column : String}
    {f : String → Except FieldError α} {a : α} :
    check c r column f = .ok a ↔ f (c.cell r.cells column) = .ok a :=
  mapError_eq_ok_iff

theorem payment_readBy : paymentChecks.ReadBy fun c _ r => payment c r := by
  apply Checks.ReadBy.of_cases
  · rintro c r ⟨_, _, _⟩ ⟨_, _, _⟩ ⟨ha, hc, hd⟩ ⟨ha', hc', hd'⟩
    rw [ha] at ha'
    rw [hc] at hc'
    rw [hd] at hd'
    cases ha'
    cases hc'
    cases hd'
    rfl
  · intro c before r
    simp only [payment, Checks.firstRefusal, paymentChecks]
    cases ha : check c r "amount" Field.amount with
    | error e => exact .inl ⟨e, rfl, rfl⟩
    | ok amount =>
      cases hc : check c r "currency" Field.currencyCode with
      | error e => exact .inl ⟨e, rfl, rfl⟩
      | ok currency =>
        cases hd : check c r "payment_date" Field.date with
        | error e => exact .inl ⟨e, rfl, rfl⟩
        | ok date =>
          exact .inr ⟨rfl, ⟨amount, currency, date⟩,
            ⟨check_eq_ok_iff.mp ha, check_eq_ok_iff.mp hc, check_eq_ok_iff.mp hd⟩, rfl⟩

theorem rateRow_readBy : rateChecks.ReadBy fun c _ r => rateRow c r := by
  apply Checks.ReadBy.of_cases
  · rintro c r ⟨_, _, _, _⟩ ⟨_, _, _, _⟩ ⟨hc, hd, hr⟩ ⟨hc', hd', hr'⟩
    have hs := (hr .state).symm.trans (hr' .state)
    have hm := (hr .marketing).symm.trans (hr' .marketing)
    rw [hc] at hc'
    rw [hd] at hd'
    cases hc'
    cases hd'
    cases hs
    cases hm
    rfl
  · intro c before r
    simp only [rateRow, Checks.firstRefusal, rateChecks]
    cases hc : check c r "currency" Field.currencyCode with
    | error e => exact .inl ⟨e, rfl, rfl⟩
    | ok currency =>
      cases hd : check c r "payment_date" Field.date with
      | error e => exact .inl ⟨e, rfl, rfl⟩
      | ok date =>
        cases hs : check c r RateField.state.column Field.rate with
        | error e => exact .inl ⟨e, rfl, rfl⟩
        | ok state =>
          cases hm : check c r RateField.marketing.column Field.rate with
          | error e => exact .inl ⟨e, rfl, rfl⟩
          | ok marketing =>
            refine .inr ⟨rfl, ⟨currency, date, state, marketing⟩,
              ⟨check_eq_ok_iff.mp hc, check_eq_ok_iff.mp hd, ?_⟩, rfl⟩
            rintro (_ | _)
            · exact check_eq_ok_iff.mp hs
            · exact check_eq_ok_iff.mp hm

def codesOf (c : Columns) (rows : List Row) : List String :=
  (withContent rows).map fun r => c.cell r.cells "code"

def currencyAfter (c : Columns) (before : List Row) (r : Row) : Except ImportError Currency :=
  currency c (codesOf c before) r

theorem mem_codesOf {c : Columns} {rows : List Row} {code : String} :
    code ∈ codesOf c rows ↔ ∃ r ∈ withContent rows, c.cell r.cells "code" = code :=
  List.mem_map

theorem codesOf_append_blank (c : Columns) (rows : List Row) {r : Row} (h : r.IsBlank) :
    codesOf c (rows ++ [r]) = codesOf c rows := by
  simp [codesOf, withContent, h]

theorem codesOf_append (c : Columns) (rows : List Row) {r : Row} (h : ¬ r.IsBlank) :
    codesOf c (rows ++ [r]) = codesOf c rows ++ [c.cell r.cells "code"] := by
  simp [codesOf, withContent, h]

theorem currencyCode_eq {text code : String} (h : Field.currencyCode text = .ok code) :
    code = text := by
  unfold Field.currencyCode at h
  split at h
  · cases h
  split at h
  · cases h
    rfl
  · cases h

theorem currency_readBy : currencyChecks.ReadBy currencyAfter := by
  apply Checks.ReadBy.of_cases
  · rintro c r ⟨_, _, _, _⟩ ⟨_, _, _, _⟩ ⟨hc, hn, hr⟩ ⟨hc', hn', hr'⟩
    have hs := (hr .state).symm.trans (hr' .state)
    have hm := (hr .marketing).symm.trans (hr' .marketing)
    rw [hc] at hc'
    cases hc'
    cases hs
    cases hm
    rw [← hn'] at hn
    cases hn
    rfl
  · intro c before r
    simp only [currencyAfter, currency, Checks.firstRefusal, currencyChecks, ← mem_codesOf]
    cases hc : check c r "code" Field.currencyCode with
    | error e => exact .inl ⟨e, rfl, rfl⟩
    | ok code =>
      have hcode := check_eq_ok_iff.mp hc
      have hcell := currencyCode_eq hcode
      rw [← hcell] at hcode ⊢
      generalize c.cell r.cells "name" = name
      by_cases hseen : code ∈ codesOf c before
      · refine .inl ⟨.duplicateCurrency r.line code, ?_, if_pos hseen⟩
        rw [if_pos hseen]
        rfl
      · rw [if_neg hseen]
        cases hs : check c r RateField.state.column Field.optionalRate with
        | error e => exact .inl ⟨e, rfl, if_neg hseen⟩
        | ok state =>
          cases hm : check c r RateField.marketing.column Field.optionalRate with
          | error e => exact .inl ⟨e, rfl, if_neg hseen⟩
          | ok marketing =>
            refine .inr ⟨rfl, ⟨code, if name = "" then code else name, state, marketing⟩,
              ⟨hcode, rfl, ?_⟩, if_neg hseen⟩
            rintro (_ | _)
            · exact check_eq_ok_iff.mp hs
            · exact check_eq_ok_iff.mp hm

/-- A reader that remembers codes sees the rows before. -/
theorem currenciesAfter_eq {c : Columns} {seen : List String} {before : List Row}
    (h : ∀ code, code ∈ seen ↔ code ∈ codesOf c before) (rows : List (Except EncodingError Row)) :
    currenciesAfter c seen rows = readAfter (currencyAfter c) before rows := by
  induction rows generalizing seen before with
  | nil => rw [currenciesAfter, readAfter]
  | cons row rows ih =>
    cases row with
    | error e => exact (readAfter_error ..).symm
    | ok r =>
      rw [currenciesAfter]
      by_cases hblank : r.IsBlank
      · rw [readAfter_blank _ before hblank, ← ih]
        · exact if_pos hblank
        · intro code
          rw [h, codesOf_append_blank c before hblank]
      · refine (if_neg hblank).trans ?_
        have hsame : currency c seen r = currencyAfter c before r := by
          simp only [currencyAfter, currency, h]
        rw [hsame]
        cases hr : currencyAfter c before r with
        | error e => exact (readAfter_refused hblank hr rows).symm
        | ok first =>
          have hcode : first.code = c.cell r.cells "code" :=
            currencyCode_eq ((currency_readBy.ok_iff c before r first).mp hr).2.1
          have hrest : currenciesAfter c (first.code :: seen) rows =
              readAfter (currencyAfter c) (before ++ [r]) rows := by
            apply ih
            intro code
            rw [codesOf_append c before hblank, List.mem_append, List.mem_singleton,
              List.mem_cons, h, hcode, or_comm]
          rw [readAfter_value hblank hr, ← hrest]
          show (currenciesAfter c (first.code :: seen) rows >>= fun others =>
            pure (first :: others)) = _
          cases currenciesAfter c (first.code :: seen) rows <;> rfl

theorem payments_eq (bytes : List UInt8) : payments bytes =
    readTable paymentChecks.required (fun c _ r => payment c r) (.ofBytes bytes) := by
  unfold payments readTable
  simp only [collect_unlessBlank _ []]
  rfl

theorem rates_eq (bytes : List UInt8) : rates bytes =
    readTable rateChecks.required (fun c _ r => rateRow c r) (.ofBytes bytes) := by
  unfold rates readTable
  simp only [collect_unlessBlank _ []]
  rfl

theorem currencies_eq (bytes : List UInt8) : currencies bytes =
    readTable currencyChecks.required currencyAfter (.ofBytes bytes) := by
  unfold currencies readTable
  have h : ∀ c rows, currenciesAfter c [] rows = readAfter (currencyAfter c) [] rows :=
    fun c rows => currenciesAfter_eq (by simp [codesOf, withContent]) rows
  simp only [h]
  rfl

end Import

namespace Field

theorem amount_nonneg {text : String} {a : Decimal} (h : amount text = .ok a) : 0 ≤ a.toRat := by
  obtain ⟨a', _, h⟩ := bind_eq_ok_iff.mp h
  split at h
  · cases h
  · rename_i hn
    cases h
    rwa [Decimal.isNegative_iff_toRat, not_lt] at hn

theorem rate_pos {text : String} {a : Decimal} (h : rate text = .ok a) : 0 < a.toRat := by
  obtain ⟨a', _, h⟩ := bind_eq_ok_iff.mp h
  split at h
  · rename_i hp
    cases h
    rwa [Decimal.isPositive_iff_toRat] at hp
  · cases h

theorem optionalRate_pos {text : String} {a : Decimal} (h : optionalRate text = .ok (some a)) :
    0 < a.toRat := by
  unfold optionalRate at h
  split at h
  · cases h
  · cases hr : rate text with
    | error e =>
      rw [hr] at h
      cases h
    | ok b =>
      rw [hr] at h
      cases h
      exact rate_pos hr

end Field

structure Payment.Checked (p : Payment) : Prop where
  amount : 0 ≤ p.amount.toRat
  code : Field.isCurrencyCode p.currency.toList = true

structure RateRow.Checked (r : RateRow) : Prop where
  rate : ∀ field, 0 < (r.rate field).toRat
  code : Field.isCurrencyCode r.currency.toList = true

structure CurrenciesChecked (currencies : List Currency) :
    Prop extends CodesChecked currencies where
  name : ∀ c ∈ currencies, c.name ≠ ""
  rate : ∀ c ∈ currencies, ∀ field r, c.fallbackRate field = some r → 0 < r.toRat

namespace Import

theorem payments_checked {bytes : List UInt8} {ps : List Payment} (h : payments bytes = .ok ps) :
    ∀ p ∈ ps, p.Checked := by
  intro p hp
  rw [payments_eq, readTable_iff payment_readBy] at h
  cases h with
  | read _ _ _ _ hv =>
    obtain ⟨r, ha, hc, _⟩ := exists_of_mem_right hv hp
    exact ⟨Field.amount_nonneg ha, currencyCode_form hc⟩

theorem rates_checked {bytes : List UInt8} {rows : List RateRow} (h : rates bytes = .ok rows) :
    ∀ r ∈ rows, r.Checked := by
  intro row hrow
  rw [rates_eq, readTable_iff rateRow_readBy] at h
  cases h with
  | read _ _ _ _ hv =>
    obtain ⟨r, hc, _, hr⟩ := exists_of_mem_right hv hrow
    exact ⟨fun field => Field.rate_pos (hr field), currencyCode_form hc⟩

theorem currencies_checked {bytes : List UInt8} {read : List Currency}
    (h : currencies bytes = .ok read) :
    CurrenciesChecked read := by
  have hcodes := currencies_codes h
  rw [currencies_eq, readTable_iff currency_readBy] at h
  cases h with
  | read _ _ _ _ hv =>
    refine ⟨hcodes, ?_, ?_⟩
    · intro c hc hempty
      obtain ⟨r, hcode, hn, _⟩ := exists_of_mem_right hv hc
      rw [hempty] at hn
      split_ifs at hn with hname
      · have hform := currencyCode_form hcode
        rw [← hn] at hform
        cases hform
      · exact absurd hn.symm hname
    · intro c hc field rate hrate
      obtain ⟨r, _, _, hr⟩ := exists_of_mem_right hv hc
      apply Field.optionalRate_pos
      rw [hr field, hrate]

end Import

/-- The reading of a table ends as the checks say, and well exactly if all of it passes. -/
structure Checks.Decide {α : Type} (S : Checks α) (bytes : List UInt8)
    (result : Except ImportError (List α)) : Prop where
  ends : ∀ r, result = r ↔ S.Ends (.ofBytes bytes) r
  succeeds : (∃ values, result = .ok values) ↔ ∃ header rows, Table.Holds bytes header rows ∧
    S.HasColumns header ∧ S.PassedAfter (.ofHeader header) [] rows

theorem Checks.ReadBy.decide {α : Type} {S : Checks α}
    {read : Columns → List Row → Row → Except ImportError α} (h : S.ReadBy read)
    (bytes : List UInt8) :
    S.Decide bytes (readTable S.required read (.ofBytes bytes)) := by
  refine ⟨fun r => readTable_iff h, ?_, ?_⟩
  · rintro ⟨values, hvalues⟩
    rw [readTable_iff h] at hvalues
    cases hvalues with
    | read hheader hc hrows hp _ =>
      refine ⟨_, _, ?_, hc, hp⟩
      rw [Table.Holds, ← hheader, ← hrows]
  · rintro ⟨header, rows, hholds, hc, hp⟩
    obtain ⟨values, hvalues⟩ := exists_values h hp
    refine ⟨values, (readTable_iff h).mpr (.read ?_ hc ?_ hp hvalues)⟩
    · rw [hholds]
    · rw [hholds]

/-- How the reading of a file ends is told by its checks, and what is read has passed them. The
errors of fields that are not text tell where these are. -/
theorem read_iff_checked (bytes : List UInt8) :
    Table.Decodes bytes ∧
    paymentChecks.Decide bytes (payments bytes) ∧
    rateChecks.Decide bytes (rates bytes) ∧
    currencyChecks.Decide bytes (currencies bytes) ∧
    (∀ ps, payments bytes = .ok ps → ∀ p ∈ ps, p.Checked) ∧
    (∀ rows, rates bytes = .ok rows → ∀ r ∈ rows, r.Checked) ∧
    ∀ read, currencies bytes = .ok read → CurrenciesChecked read := by
  refine ⟨Table.decodes bytes, ?_, ?_, ?_, fun _ => payments_checked, fun _ => rates_checked,
    fun _ => currencies_checked⟩
  · rw [payments_eq]
    exact payment_readBy.decide bytes
  · rw [rates_eq]
    exact rateRow_readBy.decide bytes
  · rw [currencies_eq]
    exact currency_readBy.decide bytes

end TrailingYear
