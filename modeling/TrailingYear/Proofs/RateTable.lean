import TrailingYear.Rates
import Mathlib.Data.List.Dedup
import Mathlib.Data.List.Induction

/-! # What a rate table holds

Of several dated rates for one currency and day the last row counts. Fallback rates are those of a
list of currencies without repetition. -/

namespace TrailingYear

def ratesOn (field : RateField) (currency : String) (date : Date) (rows : List RateRow) :
    List Decimal :=
  (rows.filter fun r => r.currency = currency ∧ r.date = date).map (·.rate field)

def fallbackOf (field : RateField) (currency : String) (currencies : List Currency) :
    Option Decimal :=
  (currencies.find? fun c => c.code = currency).bind (·.fallbackRate field)

/-- One for the target itself; else the rate in the last row of that currency and day; else that
of the row of the currency. -/
def rateUsed (target : String) (field : RateField) (rows : List RateRow)
    (currencies : List Currency) (currency : String) (date : Date) : Option Decimal :=
  if currency = target then some .one
  else (ratesOn field currency date rows).getLast?.or (fallbackOf field currency currencies)

namespace RateTable

theorem get?_foldl_insertRate (field : RateField) (rows : List RateRow) (t : RateTable)
    (currency : String) (date : Date) :
    get? (currency, date) ((rows.map (·.toDatedRate field)).foldl insertRate t).dated =
      (ratesOn field currency date rows).getLast?.or (get? (currency, date) t.dated) := by
  induction rows using List.reverseRecOn with
  | nil => rfl
  | append_singleton rows r ih =>
    rw [List.map_append, List.foldl_append]
    change get? _ (put (r.currency, r.date) (r.rate field) _) = _
    rw [get?_put, ih]
    by_cases h : r.currency = currency ∧ r.date = date
    · simp [ratesOn, h]
    · have hk : ¬ (r.currency, r.date) = (currency, date) := by
        intro hk
        exact h (Prod.mk.inj hk)
      simp [ratesOn, h, hk]

theorem target_foldl_insertRate (rates : List DatedRate) (t : RateTable) :
    (rates.foldl insertRate t).target = t.target := by
  induction rates generalizing t with
  | nil => rfl
  | cons r rates ih => exact ih (t.insertRate r)

theorem fallback_foldl_insertRate (rates : List DatedRate) (t : RateTable) :
    (rates.foldl insertRate t).fallback = t.fallback := by
  induction rates generalizing t with
  | nil => rfl
  | cons r rates ih => exact ih (t.insertRate r)

theorem insertCurrency_keeps (field : RateField) (t : RateTable) (c : Currency) :
    (t.insertCurrency field c).target = t.target ∧ (t.insertCurrency field c).dated = t.dated := by
  unfold insertCurrency
  split <;> exact ⟨rfl, rfl⟩

theorem foldl_insertCurrency_keeps (field : RateField) (currencies : List Currency)
    (t : RateTable) :
    (currencies.foldl (insertCurrency field) t).target = t.target ∧
      (currencies.foldl (insertCurrency field) t).dated = t.dated := by
  induction currencies generalizing t with
  | nil => exact ⟨rfl, rfl⟩
  | cons c currencies ih =>
    obtain ⟨ht, hd⟩ := insertCurrency_keeps field t c
    obtain ⟨ht', hd'⟩ := ih (t.insertCurrency field c)
    exact ⟨ht'.trans ht, hd'.trans hd⟩

theorem get?_insertCurrency (field : RateField) (t : RateTable) (c : Currency) (currency : String) :
    get? currency (t.insertCurrency field c).fallback =
      if c.code = currency then (c.fallbackRate field).or (get? currency t.fallback)
      else get? currency t.fallback := by
  cases hr : c.fallbackRate field <;> simp [insertCurrency, hr, insertFallback]

/-- Each code has one row, so no fallback rate takes the place of another. -/
theorem get?_foldl_insertCurrency (field : RateField) {currencies : List Currency}
    (hn : (currencies.map (·.code)).Nodup) (t : RateTable) (currency : String) :
    get? currency (currencies.foldl (insertCurrency field) t).fallback =
      (fallbackOf field currency currencies).or (get? currency t.fallback) := by
  induction currencies generalizing t with
  | nil => rfl
  | cons c currencies ih =>
    obtain ⟨hc, hn⟩ := List.nodup_cons.mp hn
    rw [List.foldl_cons, ih hn, get?_insertCurrency]
    by_cases h : c.code = currency
    · have hnone : currencies.find? (fun d => d.code = currency) = none := by
        rw [List.find?_eq_none]
        intro d hd
        rw [decide_eq_true_eq]
        rintro rfl
        exact hc (List.mem_map.mpr ⟨d, hd, h.symm⟩)
      simp [fallbackOf, h, hnone]
    · simp [fallbackOf, h]

theorem lookup_ofParts (target : String) (field : RateField) (rows : List RateRow)
    {currencies : List Currency} (hn : (currencies.map (·.code)).Nodup) (currency : String)
    (date : Date) :
    ((ofParts target field (rows.map (·.toDatedRate field)) currencies).lookup currency date).map
      (·.1) = rateUsed target field rows currencies currency date := by
  unfold lookup rateUsed ofParts
  rw [(foldl_insertCurrency_keeps ..).1, (foldl_insertCurrency_keeps ..).2, target_foldl_insertRate,
    get?_foldl_insertRate, get?_foldl_insertCurrency field hn, fallback_foldl_insertRate]
  change (if currency = target then _ else _ : Option (Decimal × RateSource)).map _ = _
  split
  · rfl
  · simp only [empty, get?, Option.or_none]
    cases (ratesOn field currency date rows).getLast? with
    | some r => rfl
    | none => cases fallbackOf field currency currencies <;> rfl

end RateTable

/-! ## The history of a rate table

A table is filled entry by entry, and it answers from the whole of its history: for each
key only the last entry counts, and of the kinds of rates the one for the target stands
before all others. -/

inductive RateEntry where
  | dated (r : DatedRate)
  | fallback (currency : String) (rate : Decimal)
  deriving DecidableEq, Repr

namespace RateEntry

/-- Entries take each other's place if they are of one kind and for the same currency and day. -/
def key : RateEntry → (String × Date) ⊕ String
  | .dated r => .inl (r.currency, r.date)
  | .fallback currency _ => .inr currency

def rate : RateEntry → Decimal
  | .dated r => r.rate
  | .fallback _ rate => rate

def day? : RateEntry → Option (String × Date)
  | .dated r => some (r.currency, r.date)
  | .fallback .. => none

theorem mem_filterMap_day? (history : List RateEntry) (k : String × Date) :
    k ∈ history.filterMap day? ↔ .inl k ∈ history.map key := by
  rw [List.mem_filterMap, List.mem_map]
  constructor
  · rintro ⟨i, hi, hk⟩
    cases i with
    | dated r =>
      cases hk
      exact ⟨_, hi, rfl⟩
    | fallback => cases hk
  · rintro ⟨i, hi, hk⟩
    cases i with
    | dated r =>
      cases hk
      exact ⟨_, hi, rfl⟩
    | fallback => cases hk

def latest (k : (String × Date) ⊕ String) (history : List RateEntry) : Option Decimal :=
  (history.filter fun i => i.key = k).getLast?.map rate

theorem latest_concat (k : (String × Date) ⊕ String) (history : List RateEntry) (i : RateEntry) :
    latest k (history ++ [i]) = if i.key = k then some i.rate else latest k history := by
  by_cases h : i.key = k <;> simp [latest, h]

/-- What comes between two entries of different keys does not depend on their order. -/
theorem latest_swap {i j : RateEntry} (h : i.key ≠ j.key) (k : (String × Date) ⊕ String)
    (before after : List RateEntry) :
    latest k (before ++ j :: i :: after) = latest k (before ++ i :: j :: after) := by
  unfold latest
  congr 2
  rw [List.filter_append, List.filter_append]
  congr 1
  by_cases hi : i.key = k
  · have hj : ¬ j.key = k := fun hj => h (hi.trans hj.symm)
    simp [hi, hj]
  · by_cases hj : j.key = k <;> simp [hi, hj]

end RateEntry

section

variable {κ ν : Type} [DecidableEq κ]

theorem mem_keys_put (k k' : κ) (v : ν) (l : List (κ × ν)) :
    k' ∈ (put k v l).map (·.1) ↔ k' = k ∨ k' ∈ l.map (·.1) := by
  induction l with
  | nil => simp [put]
  | cons p l ih =>
    obtain ⟨j, w⟩ := p
    by_cases hj : j = k
    · subst hj
      simp [put]
    · rw [put, if_neg hj, List.map_cons, List.mem_cons, ih, List.map_cons, List.mem_cons]
      tauto

theorem nodup_keys_put (k : κ) (v : ν) {l : List (κ × ν)} (h : (l.map (·.1)).Nodup) :
    ((put k v l).map (·.1)).Nodup := by
  induction l with
  | nil => simp [put]
  | cons p l ih =>
    obtain ⟨j, w⟩ := p
    obtain ⟨hj, hl⟩ := List.nodup_cons.mp h
    by_cases hk : j = k
    · subst hk
      rw [put, if_pos rfl]
      exact h
    · rw [put, if_neg hk, List.map_cons, List.nodup_cons, mem_keys_put]
      refine ⟨?_, ih hl⟩
      rintro (hjk | hmem)
      · exact hk hjk
      · exact hj hmem

end

namespace RateTable

def enter (t : RateTable) : RateEntry → RateTable
  | .dated r => t.insertRate r
  | .fallback currency rate => t.insertFallback currency rate

def filled (target : String) (history : List RateEntry) : RateTable :=
  history.foldl enter (empty target)

def answer (target : String) (history : List RateEntry) (currency : String) (date : Date) :
    Option (Decimal × RateSource) :=
  if currency = target then some (.one, .identity)
  else match RateEntry.latest (.inl (currency, date)) history with
    | some rate => some (rate, .dated)
    | none => (RateEntry.latest (.inr currency) history).map fun rate => (rate, .fallback)

/-- The table holds what is left of a history when later entries have replaced earlier ones. -/
structure Remembers (t : RateTable) (target : String) (history : List RateEntry) : Prop where
  target : t.target = target
  dated : ∀ day, get? day t.dated = RateEntry.latest (.inl day) history
  fallback : ∀ currency, get? currency t.fallback = RateEntry.latest (.inr currency) history
  distinct : (t.dated.map (·.1)).Nodup
  days : ∀ day, day ∈ t.dated.map (·.1) ↔ .inl day ∈ history.map RateEntry.key

theorem remembers_empty (target : String) : Remembers (empty target) target [] := by
  constructor
  · rfl
  · intro day
    rfl
  · intro currency
    rfl
  · exact List.nodup_nil
  · intro day
    simp [empty]

theorem enter_remembers {t : RateTable} {target : String} {history : List RateEntry}
    (h : Remembers t target history) (i : RateEntry) :
    Remembers (t.enter i) target (history ++ [i]) := by
  cases i with
  | dated r =>
    constructor
    · exact h.target
    · intro day
      rw [RateEntry.latest_concat, ← h.dated day]
      change get? day (put (r.currency, r.date) r.rate t.dated) = _
      simp [RateEntry.key, RateEntry.rate]
    · intro currency
      rw [RateEntry.latest_concat, if_neg (by simp [RateEntry.key])]
      exact h.fallback currency
    · exact nodup_keys_put _ _ h.distinct
    · intro day
      change day ∈ (put (r.currency, r.date) r.rate t.dated).map (·.1) ↔ _
      rw [mem_keys_put, h.days, List.map_append, List.mem_append]
      simp [RateEntry.key, or_comm]
  | fallback currency rate =>
    constructor
    · exact h.target
    · intro day
      rw [RateEntry.latest_concat, if_neg (by simp [RateEntry.key])]
      exact h.dated day
    · intro currency'
      rw [RateEntry.latest_concat, ← h.fallback currency']
      change get? currency' (put currency rate t.fallback) = _
      simp [RateEntry.key, RateEntry.rate]
    · exact h.distinct
    · intro day
      rw [List.map_append, List.mem_append, ← h.days]
      simp [RateEntry.key, enter, insertFallback]

theorem filled_remembers (target : String) (history : List RateEntry) :
    Remembers (filled target history) target history := by
  induction history using List.reverseRecOn with
  | nil => exact remembers_empty target
  | append_singleton history i ih =>
    rw [filled, List.foldl_append]
    exact enter_remembers ih i

namespace Remembers

variable {t : RateTable} {target : String} {history : List RateEntry}

theorem lookup_eq (h : Remembers t target history) (currency : String) (date : Date) :
    t.lookup currency date = answer target history currency date := by
  unfold lookup answer
  rw [h.target]
  cases hlatest : RateEntry.latest (.inl (currency, date)) history with
  | none => simp [h.dated, hlatest, h.fallback]
  | some rate => simp [h.dated, hlatest]

theorem datedCount_eq (h : Remembers t target history) :
    t.datedCount = (history.filterMap RateEntry.day?).dedup.length := by
  have hperm : (t.dated.map (·.1)).Perm (history.filterMap RateEntry.day?).dedup := by
    rw [List.perm_ext_iff_of_nodup h.distinct (List.nodup_dedup _)]
    intro day
    rw [h.days, List.mem_dedup, RateEntry.mem_filterMap_day?]
  rw [← hperm.length_eq, List.length_map]
  rfl

end Remembers

theorem answer_identity_iff (target : String) (history : List RateEntry) (currency : String)
    (date : Date) :
    answer target history currency date = some (.one, .identity) ↔ currency = target := by
  unfold answer
  constructor
  · intro h
    by_contra hne
    rw [if_neg hne] at h
    split at h
    · simp at h
    · simp at h
  · intro h
    rw [if_pos h]

theorem answer_swap {i j : RateEntry} (h : i.key ≠ j.key) (target : String)
    (before after : List RateEntry) :
    answer target (before ++ j :: i :: after) = answer target (before ++ i :: j :: after) := by
  funext currency date
  unfold answer
  rw [RateEntry.latest_swap h, RateEntry.latest_swap h]

def entriesOf (field : RateField) (rates : List DatedRate) (currencies : List Currency) :
    List RateEntry :=
  rates.map .dated ++ currencies.filterMap fun c => (c.fallbackRate field).map (.fallback c.code)

theorem foldl_insertCurrency_eq (field : RateField) (currencies : List Currency) (t : RateTable) :
    currencies.foldl (insertCurrency field) t =
      (currencies.filterMap fun c => (c.fallbackRate field).map (.fallback c.code)).foldl
        enter t := by
  induction currencies generalizing t with
  | nil => rfl
  | cons c currencies ih =>
    rw [List.foldl_cons, ih]
    cases h : c.fallbackRate field with
    | none =>
      rw [List.filterMap_cons_none (by simp [h]), insertCurrency, h]
    | some rate =>
      rw [List.filterMap_cons_some (b := .fallback c.code rate) (by simp [h]), insertCurrency, h]
      rfl

theorem ofParts_eq_filled (target : String) (field : RateField) (rates : List DatedRate)
    (currencies : List Currency) :
    ofParts target field rates currencies = filled target (entriesOf field rates currencies) := by
  rw [ofParts, foldl_insertCurrency_eq, filled, entriesOf, List.foldl_append, List.foldl_map]
  rfl

/-- A lookup is answered by the last entries for its currency and day, whatever the order
of the others; a table made of rates and currencies answers as one that is filled with
them entry by entry. -/
theorem lookup_of_history (target : String) (history : List RateEntry) :
    (∀ currency date,
      (filled target history).lookup currency date = answer target history currency date) ∧
    (∀ currency date,
      (filled target history).lookup currency date = some (.one, .identity) ↔ currency = target) ∧
    (filled target history).datedCount = (history.filterMap RateEntry.day?).dedup.length ∧
    (∀ before i j after, history = before ++ i :: j :: after → i.key ≠ j.key → ∀ currency date,
      (filled target (before ++ j :: i :: after)).lookup currency date =
        (filled target history).lookup currency date) ∧
    ∀ field rates currencies, history = entriesOf field rates currencies → ∀ currency date,
      (ofParts target field rates currencies).lookup currency date =
        (filled target history).lookup currency date := by
  have hlookup : ∀ history currency date,
      (filled target history).lookup currency date = answer target history currency date :=
    fun history => (filled_remembers target history).lookup_eq
  refine ⟨hlookup history, ?_, (filled_remembers target history).datedCount_eq, ?_, ?_⟩
  · intro currency date
    rw [hlookup, answer_identity_iff]
  · rintro before i j after rfl hkey currency date
    rw [hlookup, hlookup, answer_swap hkey]
  · rintro field rates currencies rfl currency date
    rw [ofParts_eq_filled]

end RateTable

end TrailingYear
