import TrailingYear.Conversion
import TrailingYear.Proofs.Decimal.Rounding
import TrailingYear.Proofs.FirstFailure
import TrailingYear.Proofs.RateTable

/-! # The values of payments

Whatever is reported on the way, payments are converted in order, and the first one
without a value decides. -/

namespace TrailingYear

def valueAt (target : String) (p : Payment) : Option Decimal → Except Failure Decimal
  | none => .error (.missingRate p.currency target p.date)
  | some rate =>
    match p.amount.mul? rate with
    | none => .error (.overflow .converting)
    | some value => .ok value

theorem result_convert (table : RateTable) (p : Payment) : (convert table p).result =
    match table.lookup p.currency p.date with
    | none => .error (.missingRate p.currency table.target p.date)
    | some (rate, source) =>
      match p.amount.mul? rate with
      | none => .error (.overflow .converting)
      | some value => .ok (⟨p, value⟩, source) := by
  unfold convert
  cases table.lookup p.currency p.date with
  | none => rfl
  | some found =>
    obtain ⟨rate, source⟩ := found
    cases hm : p.amount.mul? rate <;> cases source <;> simp only [hm] <;> rfl

theorem normalize_eq_valueAt (table : RateTable) (p : Payment) :
    normalize table p = valueAt table.target p ((table.lookup p.currency p.date).map (·.1)) := by
  rw [normalize, result_convert]
  cases table.lookup p.currency p.date with
  | none => rfl
  | some found =>
    simp only [Option.map_some, valueAt]
    cases p.amount.mul? found.1 <;> rfl

theorem result_convertEach (table : RateTable) (ps : List Payment) :
    (convertEach table ps).result = ps.mapM fun p => (convert table p).result := by
  induction ps with
  | nil => rfl
  | cons p ps ih =>
    rw [convertEach, List.mapM_cons, Logged.result_bind]
    congr 1
    funext c
    rw [Logged.result_bind, ih]
    rfl

theorem conversion_eq (table : RateTable) (p : Payment) :
    (convert table p).result.map (·.1) = (normalize table p).map (Conversion.mk p) := by
  rw [normalize, result_convert]
  cases table.lookup p.currency p.date with
  | none => rfl
  | some found => cases hm : p.amount.mul? found.1 <;> simp [Except.map, hm]

theorem result_convertAll (table : RateTable) (ps : List Payment) :
    (convertAll table ps).result = ps.mapM fun p => (normalize table p).map (Conversion.mk p) := by
  have hall :
      (convertAll table ps).result = (convertEach table ps).result.map (List.map (·.1)) := by
    unfold convertAll
    rw [Logged.result_bind]
    cases (convertEach table ps).result with
    | error e => rfl
    | ok cs =>
      change Logged.result (ite _ _ _) = _
      split <;> rfl
  rw [hall, result_convertEach, mapM_map]
  simp only [conversion_eq]

def Converts (table : RateTable) (p : Payment) : Prop := ∃ v, normalize table p = .ok v

instance (table : RateTable) (p : Payment) : Decidable (Converts table p) :=
  match h : normalize table p with
  | .ok v => .isTrue ⟨v, h⟩
  | .error _ => .isFalse fun ⟨_, hv⟩ => nomatch h.symm.trans hv

theorem converts_iff {table : RateTable} {p : Payment} :
    Converts table p ↔ ∃ c, (convert table p).result = .ok c := by
  unfold Converts normalize
  cases (convert table p).result <;> simp [Except.map]

/-- The days and values of the payments that can be converted. -/
def valued (table : RateTable) (ps : List Payment) : List (Date × Decimal) :=
  ps.filterMap fun p => (normalize table p).toOption.map fun v => (p.date, v)

theorem exists_of_mem_valued {table : RateTable} {ps : List Payment} {entry : Date × Decimal}
    (h : entry ∈ valued table ps) : ∃ p ∈ ps, normalize table p = .ok entry.2 := by
  obtain ⟨p, hp, hvalue⟩ := List.mem_filterMap.mp h
  cases hn : normalize table p with
  | error e =>
    rw [hn] at hvalue
    cases hvalue
  | ok v =>
    rw [hn] at hvalue
    cases hvalue
    exact ⟨p, hp, hn⟩

structure IsConversion (table : RateTable) (p : Payment) (c : Conversion) : Prop where
  payment : c.payment = p
  value : normalize table p = .ok c.value

theorem result_convertAll_eq_ok_iff {table : RateTable} {ps : List Payment} {cs : List Conversion} :
    (convertAll table ps).result = .ok cs ↔ List.Forall₂ (IsConversion table) ps cs := by
  rw [result_convertAll, mapM_eq_ok_iff]
  constructor
  · refine fun h => h.imp fun p c hc => ?_
    obtain ⟨value, hvalue, rfl⟩ := map_eq_ok_iff.mp hc
    exact ⟨rfl, hvalue⟩
  · refine fun h => h.imp fun p c hc => ?_
    exact map_eq_ok_iff.mpr ⟨c.value, hc.value, by rw [← hc.payment]⟩

theorem exists_conversions {table : RateTable} {ps : List Payment}
    (h : ∀ p ∈ ps, Converts table p) :
    ∃ cs, List.Forall₂ (IsConversion table) ps cs := by
  induction ps with
  | nil => exact ⟨[], .nil⟩
  | cons p ps ih =>
    obtain ⟨⟨v, hv⟩, hps⟩ := List.forall_mem_cons.mp h
    obtain ⟨cs, hcs⟩ := ih hps
    exact ⟨⟨p, v⟩ :: cs, .cons ⟨rfl, hv⟩ hcs⟩

theorem valued_of_conversions {table : RateTable} {ps : List Payment} {cs : List Conversion}
    (h : List.Forall₂ (IsConversion table) ps cs) :
    cs.map (fun c => (c.payment.date, c.value)) = valued table ps := by
  induction h with
  | nil => rfl
  | @cons p c ps cs hc _ ih =>
    have hvalue : (normalize table p).toOption = some c.value := by
      rw [hc.value]
      rfl
    simp [valued, hvalue, hc.payment, ih]

theorem convertAll_ok {table : RateTable} {ps : List Payment} (h : ∀ p ∈ ps, Converts table p) :
    ∃ cs, (convertAll table ps).result = .ok cs ∧
      cs.map (fun c => (c.payment.date, c.value)) = valued table ps := by
  obtain ⟨cs, hcs⟩ := exists_conversions h
  exact ⟨cs, result_convertAll_eq_ok_iff.mpr hcs, valued_of_conversions hcs⟩

theorem result_convertAll_eq_error_iff {table : RateTable} {ps : List Payment} {e : Failure} :
    (convertAll table ps).result = .error e ↔ ∃ before p after, ps = before ++ p :: after ∧
      (∀ q ∈ before, Converts table q) ∧ normalize table p = .error e := by
  have hconverts : ∀ q, (∃ c, (normalize table q).map (Conversion.mk q) = .ok c) ↔
      Converts table q := by
    simp [map_eq_ok_iff, Converts]
  simp only [result_convertAll, mapM_eq_error_iff, map_eq_error_iff, hconverts]

theorem convertAll_error {table : RateTable} {before after : List Payment} {p : Payment}
    {e : Failure} (hb : ∀ q ∈ before, Converts table q) (hp : normalize table p = .error e) :
    (convertAll table (before ++ p :: after)).result = .error e :=
  result_convertAll_eq_error_iff.mpr ⟨before, p, after, rfl, hb, hp⟩

/-! ## The account of fallback rates

The use of a fallback rate is reported as soon as the rate is chosen, before it is known whether
the value fits. The uses are counted after the last payment, so that a batch that fails reports
them one by one and has no summary. -/

/-- The payments up to the first one that cannot be converted, that one included. -/
def tried (table : RateTable) (ps : List Payment) : List Payment :=
  ps.take ((ps.takeWhile fun p => Converts table p).length + 1)

def UsesFallback (table : RateTable) (p : Payment) : Prop :=
  ∃ rate, table.lookup p.currency p.date = some (rate, .fallback)

def fallbackUse? (table : RateTable) (p : Payment) : Option Event :=
  match table.lookup p.currency p.date with
  | some (rate, .fallback) => some (.fallbackUsed p.currency p.date rate)
  | _ => none

def fallbackUses (table : RateTable) (ps : List Payment) : List Event :=
  ps.filterMap (fallbackUse? table)

theorem fallbackUse?_eq_some_iff {table : RateTable} {p : Payment} {e : Event} :
    fallbackUse? table p = some e ↔
      ∃ rate, table.lookup p.currency p.date = some (rate, .fallback) ∧
      e = .fallbackUsed p.currency p.date rate := by
  unfold fallbackUse?
  cases table.lookup p.currency p.date with
  | none => simp
  | some found =>
    obtain ⟨rate, source⟩ := found
    cases source <;> simp [eq_comm]

theorem isSome_fallbackUse?_iff {table : RateTable} {p : Payment} :
    (fallbackUse? table p).isSome ↔ UsesFallback table p := by
  simp [Option.isSome_iff_exists, fallbackUse?_eq_some_iff, UsesFallback]

instance (table : RateTable) (p : Payment) : Decidable (UsesFallback table p) :=
  decidable_of_iff _ isSome_fallbackUse?_iff

section

variable {table : RateTable} {p : Payment} {ps : List Payment}

theorem fallbackUses_ne_nil_iff : fallbackUses table ps ≠ [] ↔ ∃ p ∈ ps, UsesFallback table p := by
  simp [fallbackUses, List.filterMap_eq_nil_iff, ← isSome_fallbackUse?_iff,
    Option.isSome_iff_ne_none]

theorem fallbackUse?_of_lookup {rate : Decimal} {source : RateSource}
    (h : table.lookup p.currency p.date = some (rate, source)) :
    (fallbackUse? table p).isSome = decide (source = .fallback) := by
  cases source <;> simp [fallbackUse?, h]

theorem tried_cons_of_converts (h : Converts table p) :
    tried table (p :: ps) = p :: tried table ps := by
  simp [tried, h]

theorem tried_cons_of_fails (h : ¬ Converts table p) : tried table (p :: ps) = [p] := by
  simp [tried, h]

theorem tried_of_converts (h : ∀ p ∈ ps, Converts table p) : tried table ps = ps := by
  induction ps with
  | nil => rfl
  | cons p ps ih =>
    obtain ⟨hp, hps⟩ := List.forall_mem_cons.mp h
    rw [tried_cons_of_converts hp, ih hps]

theorem tried_of_failure {before after : List Payment} (hb : ∀ q ∈ before, Converts table q)
    (hp : ¬ Converts table p) : tried table (before ++ p :: after) = before ++ [p] := by
  induction before with
  | nil => exact tried_cons_of_fails hp
  | cons q before ih =>
    obtain ⟨hq, hrest⟩ := List.forall_mem_cons.mp hb
    rw [List.cons_append, tried_cons_of_converts hq, ih hrest]
    rfl

/-- The use is reported whether or not the payment has a value. -/
theorem events_convert (table : RateTable) (p : Payment) :
    (convert table p).events = (fallbackUse? table p).toList := by
  unfold convert fallbackUse?
  cases table.lookup p.currency p.date with
  | none => rfl
  | some found =>
    obtain ⟨rate, source⟩ := found
    cases hm : p.amount.mul? rate <;> cases source <;> simp only [hm] <;> rfl

theorem source_of_convert {c : Conversion × RateSource} (h : (convert table p).result = .ok c) :
    decide (c.2 = .fallback) = (fallbackUse? table p).isSome := by
  rw [result_convert] at h
  cases hl : table.lookup p.currency p.date with
  | none =>
    rw [hl] at h
    cases h
  | some found =>
    obtain ⟨rate, source⟩ := found
    cases hm : p.amount.mul? rate <;> simp only [hl, hm] at h <;> cases h
    exact (fallbackUse?_of_lookup hl).symm

theorem events_convertEach (table : RateTable) (ps : List Payment) :
    (convertEach table ps).events = fallbackUses table (tried table ps) := by
  induction ps with
  | nil => rfl
  | cons p ps ih =>
    rw [convertEach]
    cases hc : (convert table p).result with
    | ok c =>
      rw [Logged.bind_of_ok _ hc, tried_cons_of_converts (converts_iff.mpr ⟨c, hc⟩)]
      simp only [Logged.events_bind_pure, ih, events_convert, fallbackUses]
      cases hu : fallbackUse? table p <;> simp [hu]
    | error e =>
      have hfails : ¬ Converts table p := by simp [converts_iff, hc]
      rw [Logged.bind_of_error _ hc, tried_cons_of_fails hfails, events_convert]
      cases hu : fallbackUse? table p <;> simp [fallbackUses, hu]

theorem countFallbacks_eq {cs : List (Conversion × RateSource)}
    (h : List.Forall₂ (fun p c => (convert table p).result = .ok c) ps cs) :
    countFallbacks cs = (fallbackUses table ps).length := by
  induction h with
  | nil => rfl
  | @cons p c ps cs hc _ ih =>
    have hsource := source_of_convert hc
    simp only [countFallbacks, fallbackUses, List.countP_cons] at ih ⊢
    cases hu : fallbackUse? table p <;> simp_all

def fallbackSummary (table : RateTable) (ps : List Payment) : List Event :=
  if (∀ p ∈ ps, Converts table p) ∧ ∃ p ∈ ps, UsesFallback table p then
    [.fallbacksCounted (fallbackUses table (tried table ps)).length ps.length table.target]
  else []

theorem fallbackSummary_of_failure (hp : p ∈ ps) (h : ¬ Converts table p) :
    fallbackSummary table ps = [] :=
  if_neg fun hall => h (hall.1 p hp)

theorem fallbackSummary_of_converts (h : ∀ p ∈ ps, Converts table p) :
    fallbackSummary table ps =
      if 0 < (fallbackUses table ps).length then
        [.fallbacksCounted (fallbackUses table ps).length ps.length table.target]
      else [] := by
  simp only [fallbackSummary, and_iff_right h, tried_of_converts h, ← fallbackUses_ne_nil_iff,
    List.length_pos_iff]

theorem converts_of_convertEach {cs : List (Conversion × RateSource)}
    (h : List.Forall₂ (fun p c => (convert table p).result = .ok c) ps cs) :
    ∀ p ∈ ps, Converts table p := by
  induction h with
  | nil => simp
  | cons hc _ ih => exact List.forall_mem_cons.mpr ⟨converts_iff.mpr ⟨_, hc⟩, ih⟩

theorem events_convertAll (table : RateTable) (ps : List Payment) :
    (convertAll table ps).events =
      fallbackUses table (tried table ps) ++ fallbackSummary table ps := by
  rw [convertAll]
  cases hr : (convertEach table ps).result with
  | ok cs =>
    rw [Logged.bind_of_ok _ hr, events_convertEach]
    rw [result_convertEach, mapM_eq_ok_iff] at hr
    rw [fallbackSummary_of_converts (converts_of_convertEach hr), ← countFallbacks_eq hr]
    by_cases hcount : 0 < countFallbacks cs <;> simp [hcount]
  | error e =>
    rw [Logged.bind_of_error _ hr, events_convertEach]
    rw [result_convertEach, mapM_eq_error_iff] at hr
    obtain ⟨before, p, after, rfl, _, he⟩ := hr
    have hfails : ¬ Converts table p := by simp [converts_iff, he]
    rw [fallbackSummary_of_failure (by simp) hfails, List.append_nil]

theorem debug_of_mem_uses {e : Event} (h : e ∈ fallbackUses table ps) :
    e.level = .debug ∧ e.message = "no dated rate, using currency fallback rate" := by
  obtain ⟨p, _, hp⟩ := List.mem_filterMap.mp h
  obtain ⟨rate, _, rfl⟩ := fallbackUse?_eq_some_iff.mp hp
  exact ⟨rfl, rfl⟩

theorem info_of_mem_summary {e : Event} (h : e ∈ fallbackSummary table ps) :
    e.level = .info ∧ e.message = "records converted with currency fallback rates" ∧
      e.fields = [("fallbacks", toString (fallbackUses table (tried table ps)).length),
        ("records", toString ps.length), ("target", table.target)] := by
  obtain ⟨_, hsummary⟩ := List.mem_ite_nil_right.mp h
  rw [List.mem_singleton.mp hsummary]
  exact ⟨rfl, rfl, rfl⟩

theorem normalize_overflow {rate : Decimal} {source : RateSource}
    (hl : table.lookup p.currency p.date = some (rate, source)) (hm : p.amount.mul? rate = none) :
    normalize table p = .error (.overflow .converting) := by
  simp [normalize_eq_valueAt, hl, valueAt, hm]

end

/-- Each use of a fallback rate among the payments that are tried is reported in their order,
also the use for a payment whose value does not fit. If none of them fails, and only then, the
uses are counted. -/
theorem fallbacks_are_accounted (table : RateTable) (ps : List Payment) :
    ∃ uses summary, (convertAll table ps).events = uses ++ summary ∧
      uses = fallbackUses table (tried table ps) ∧
      (∀ e ∈ uses, e.level = .debug ∧ e.message = "no dated rate, using currency fallback rate") ∧
      summary = (if (∀ p ∈ ps, Converts table p) ∧ ∃ p ∈ ps, UsesFallback table p then
        [.fallbacksCounted uses.length ps.length table.target] else []) ∧
      (∀ e ∈ summary, e.level = .info ∧
        e.message = "records converted with currency fallback rates" ∧
        e.fields = [("fallbacks", toString uses.length), ("records", toString ps.length),
          ("target", table.target)]) ∧
      ∀ before p after rate, ps = before ++ p :: after → (∀ q ∈ before, Converts table q) →
        table.lookup p.currency p.date = some (rate, .fallback) → p.amount.mul? rate = none →
        (convertAll table ps).result = .error (.overflow .converting) ∧
          uses = fallbackUses table before ++ [.fallbackUsed p.currency p.date rate] ∧
            summary = [] := by
  refine ⟨_, _, events_convertAll table ps, rfl, fun e => debug_of_mem_uses, rfl,
    fun e => info_of_mem_summary, ?_⟩
  rintro before p after rate rfl hb hl hm
  have herror := normalize_overflow hl hm
  have hfails : ¬ Converts table p := by simp [Converts, herror]
  have huse : fallbackUse? table p = some (.fallbackUsed p.currency p.date rate) :=
    fallbackUse?_eq_some_iff.mpr ⟨rate, hl, rfl⟩
  refine ⟨convertAll_error hb herror, ?_, fallbackSummary_of_failure (by simp) hfails⟩
  simp [tried_of_failure hb hfails, fallbackUses, huse]

def standingRates : RateTable := ⟨"UAH", [], [("EUR", .ofParts 41 0), ("USD", .ofParts 38 0)]⟩

def oversized : List Payment :=
  [⟨.one, "EUR", .ofParts 2024 3 9⟩,
    ⟨.ofParts 79228162514264337593543950335 0, "USD", .ofParts 2024 3 10⟩,
    ⟨.one, "EUR", .ofParts 2024 3 11⟩]

theorem fallbacks_are_accounted_oversized :
    (convertAll standingRates oversized).result = .error (.overflow .converting) ∧
    (convertAll standingRates oversized).events =
      [.fallbackUsed "EUR" (.ofParts 2024 3 9) (.ofParts 41 0),
        .fallbackUsed "USD" (.ofParts 2024 3 10) (.ofParts 38 0)] := by
  obtain ⟨uses, summary, hevents, _, _, _, _, hoverflow⟩ :=
    fallbacks_are_accounted standingRates oversized
  have hb : ∀ q ∈ oversized.take 1, Converts standingRates q := by decide +kernel
  obtain ⟨hresult, huses, hsummary⟩ :=
    hoverflow (oversized.take 1) oversized[1] (oversized.drop 2) (.ofParts 38 0) rfl hb rfl
      (by decide +kernel)
  refine ⟨hresult, ?_⟩
  rw [hevents, huses, hsummary]
  rfl

/-! ## Payments in the target currency

A payment in the target currency is converted as any other is, by the rate one, and no rate of the
table can take the place of that. A product with one is never rounded, so that the amount comes
out as it is. -/

namespace Decimal

/-- Only zeros have a sign that their mantissas do not show. -/
theorem eq_of_mantissa {a b : Decimal} (hz : ¬ a.IsZero) (hm : a.mantissa = b.mantissa)
    (hs : a.scale = b.scale) : a = b := by
  have hzb : ¬ b.IsZero := by simpa [IsZero, ← hm] using hz
  have hnegative : a.negative = b.negative := by
    rw [Bool.eq_iff_iff, negative_iff hz, negative_iff hzb, hm]
  have hmagnitude : a.magnitude = b.magnitude := by
    rw [← natAbs_mantissa a, ← natAbs_mantissa b, hm]
  cases a
  cases b
  simp_all

theorem nearest?_mul_one {a : Decimal} (hz : ¬ a.IsZero) :
    nearest? (a.mantissa * one.mantissa) (tenTo (a.scale + one.scale))
      (min (a.scale + one.scale) maxScale) = some a := by
  have hone : one.mantissa = 1 := rfl
  have hplaces : a.scale + one.scale = a.scale := rfl
  obtain ⟨c, hc, hm, hs⟩ :=
    nearest?_exact (n := a.mantissa) (m := a.mantissa) (tenTo_pos a.scale) rfl
    (by simpa [natAbs_mantissa] using a.magnitude_lt) a.scale_le
  rw [hone, hplaces, Int.mul_one, min_eq_left a.scale_le, hc,
    eq_of_mantissa hz hm.symm hs.symm]

/-- The product with one is the number itself. Of a zero only the number is left. -/
theorem mul?_one (a : Decimal) : a.mul? one = some (if a.IsZero then zero else a) := by
  by_cases hz : a.IsZero
  · simp [mul?, hz]
  have hone : ¬ one.IsZero := by decide
  have hplaces : ¬ 47 < a.scale + one.scale := by
    have hscale : a.scale ≤ 28 := a.scale_le
    have hzero : one.scale = 0 := rfl
    omega
  have hsign : a.withSign (a.negative != one.negative) = a := by
    simp [withSign, one]
  simp only [mul?, hz, hone, or_self, if_false, hplaces, nearest?_mul_one hz, Option.map_some,
    hsign, ite_self]

end Decimal

namespace RateTable

theorem target_foldl_enter (t : RateTable) (history : List RateEntry) :
    (history.foldl enter t).target = t.target := by
  induction history generalizing t with
  | nil => rfl
  | cons i history ih =>
    have hstep : (t.enter i).target = t.target := by cases i <;> rfl
    exact (ih (t.enter i)).trans hstep

end RateTable

theorem convert_target (table : RateTable) (amount : Decimal) (date : Date) :
    convert table ⟨amount, table.target, date⟩ =
      pure
        (⟨⟨amount, table.target, date⟩, if amount.IsZero then .zero else amount⟩, .identity) := by
  simp [convert, RateTable.lookup, Decimal.mul?_one]

/-- Whatever has been entered into a table, also for its target, an amount in the target currency
keeps its number, and all of itself but for the places and the sign of a zero. -/
theorem target_keeps_amount (table : RateTable) (history : List RateEntry) (amount : Decimal)
    (date : Date) :
    ∃ value, normalize (history.foldl RateTable.enter table) ⟨amount, table.target, date⟩ =
      .ok value ∧
      value.Same amount ∧ (¬ amount.IsZero → value = amount) ∧ (amount.IsZero → value = .zero) := by
  have htarget := table.target_foldl_enter history
  refine ⟨if amount.IsZero then .zero else amount, ?_, ?_, fun hz => if_neg hz, fun hz => if_pos hz⟩
  · rw [normalize, ← htarget, convert_target]
    rfl
  · by_cases hz : amount.IsZero
    · simp [hz, Decimal.same_iff_toRat, Decimal.isZero_iff_toRat.mp hz]
    · simp [hz, Decimal.same_iff_toRat]

def ownRates : List RateEntry :=
  [.dated ⟨"USD", .ofParts 2024 3 9, .zero⟩, .fallback "USD" (.ofParts 38 0)]

def longest : Decimal := .ofParts (-79228162514264337593543950335) 28

theorem target_keeps_amount_longest :
    ¬ longest.IsZero ∧
      normalize (RateTable.filled "USD" ownRates) ⟨longest, "USD", .ofParts 2024 3 9⟩ =
        .ok longest := by
  obtain ⟨value, hvalue, _, hkept, _⟩ :=
    target_keeps_amount (.empty "USD") ownRates longest (.ofParts 2024 3 9)
  have hlongest : ¬ longest.IsZero := by decide +kernel
  exact ⟨hlongest, hkept hlongest ▸ hvalue⟩

end TrailingYear
