import TrailingYear.Import
import TrailingYear.Proofs.FirstFailure
import Mathlib.Data.List.Nodup

/-! # Reading as a list of checks

A kind of file has required columns, and checks to which each of its rows with content is put in a
fixed order. How the reading of a file ends is told from these alone: by the first row that is
refused, and in it by the first check that refuses it. -/

namespace TrailingYear

def refusal {ε α : Type} : Except ε α → Option ε
  | .error e => some e
  | .ok _ => none

def withContent (rows : List Row) : List Row := rows.filter fun r => ¬ r.IsBlank

/-- What a kind of file is checked for, and which rows give which values. A row is checked after the
rows before it. -/
structure Checks (α : Type) where
  required : List String
  refusals : Columns → List Row → Row → List (Option ImportError)
  Gives : Columns → Row → α → Prop

namespace Checks

variable {α : Type} (S : Checks α) (c : Columns)

def firstRefusal (before : List Row) (r : Row) : Option ImportError :=
  (S.refusals c before r).findSome? id

/-- None of the rows that have content is refused, each checked after `before` and
the rows in between. -/
def PassedAfter (before rows : List Row) : Prop :=
  ∀ front r back, rows = front ++ r :: back → ¬ r.IsBlank →
    S.firstRefusal c (before ++ front) r = none

def HasColumns (header : List String) : Prop :=
  ∀ name ∈ S.required, name ∈ (Columns.ofHeader header).names

/-- The five ways in which the reading of a table ends. Each rules out those before it. -/
inductive Ends (t : Table) : Except ImportError (List α) → Prop where
  | header {e} : t.header = .error e → Ends t (.error (.encoding e))
  | columns {header} : t.header = .ok header → ¬ S.HasColumns header →
      Ends t (.error (.missingColumns (S.required.filter (· ∉ (Columns.ofHeader header).names))))
  | encoding {header before e after} : t.header = .ok header → S.HasColumns header →
      t.rows = before.map .ok ++ .error e :: after →
      S.PassedAfter (.ofHeader header) [] before → Ends t (.error (.encoding e))
  | refused {header before r after e} : t.header = .ok header → S.HasColumns header →
      t.rows = before.map .ok ++ .ok r :: after →
      S.PassedAfter (.ofHeader header) [] before → ¬ r.IsBlank →
      S.firstRefusal (.ofHeader header) before r = some e → Ends t (.error e)
  | read {header rows values} : t.header = .ok header → S.HasColumns header →
      t.rows = rows.map .ok → S.PassedAfter (.ofHeader header) [] rows →
      List.Forall₂ (S.Gives (.ofHeader header)) (withContent rows) values → Ends t (.ok values)

structure ReadBy (read : Columns → List Row → Row → Except ImportError α) : Prop where
  ok_iff : ∀ c before r value,
    read c before r = .ok value ↔ S.firstRefusal c before r = none ∧ S.Gives c r value
  error_iff : ∀ c before r e, read c before r = .error e ↔ S.firstRefusal c before r = some e

variable {S c}

theorem ReadBy.gives {read : Columns → List Row → Row → Except ImportError α} (h : S.ReadBy read)
    {before : List Row} {r : Row} (hp : S.firstRefusal c before r = none) :
    ∃ value, S.Gives c r value := by
  cases hr : read c before r with
  | ok value => exact ⟨value, ((h.ok_iff ..).mp hr).2⟩
  | error e =>
    have he := (h.error_iff ..).mp hr
    rw [hp] at he
    cases he

/-- It is enough that each row is either refused or read, and read in one way. -/
theorem ReadBy.of_cases {read : Columns → List Row → Row → Except ImportError α}
    (unique : ∀ c r v w, S.Gives c r v → S.Gives c r w → v = w)
    (h : ∀ c before r, (∃ e, S.firstRefusal c before r = some e ∧ read c before r = .error e) ∨
      S.firstRefusal c before r = none ∧ ∃ v, S.Gives c r v ∧ read c before r = .ok v) :
    S.ReadBy read := by
  constructor
  · intro c before r value
    rcases h c before r with ⟨e, he, hr⟩ | ⟨hn, v, hv, hr⟩
    · rw [hr, he]
      simp
    · rw [hr, hn, Except.ok.injEq]
      exact ⟨fun h => ⟨rfl, h ▸ hv⟩, fun h => unique c r v value hv h.2⟩
  · intro c before r e
    rcases h c before r with ⟨e', he, hr⟩ | ⟨hn, v, _, hr⟩
    · rw [hr, he, Except.error.injEq, Option.some.injEq]
    · rw [hr, hn]
      simp

theorem passedAfter_nil (before : List Row) : S.PassedAfter c before [] := by
  intro front r back h
  simp at h

theorem passedAfter_cons {before rows : List Row} {r : Row} :
    S.PassedAfter c before (r :: rows) ↔
      (¬ r.IsBlank → S.firstRefusal c before r = none) ∧ S.PassedAfter c (before ++ [r]) rows := by
  constructor
  · intro h
    refine ⟨fun hr => ?_, fun front r' back hrows hr' => ?_⟩
    · simpa using h [] r rows rfl hr
    · simpa using h (r :: front) r' back (by rw [hrows]; rfl) hr'
  · rintro ⟨hr, hrest⟩ front r' back hrows hr'
    cases front with
    | nil =>
      cases hrows
      simpa using hr hr'
    | cons _ front =>
      cases hrows
      simpa using hrest front r' back rfl hr'

theorem withContent_cons (r : Row) (rows : List Row) :
    withContent (r :: rows) = if r.IsBlank then withContent rows else r :: withContent rows := by
  unfold withContent
  by_cases h : r.IsBlank <;> simp [h]

/-- Either all rows pass, or there is a first one that is no text or is refused. -/
theorem rows_cases (S : Checks α) (c : Columns) (before : List Row)
    (rows : List (Except EncodingError Row)) :
    (∃ rs, rows = rs.map .ok ∧ S.PassedAfter c before rs) ∨
    (∃ rs e after, rows = rs.map .ok ++ .error e :: after ∧ S.PassedAfter c before rs) ∨
    ∃ rs r after e, rows = rs.map .ok ++ .ok r :: after ∧ S.PassedAfter c before rs ∧ ¬ r.IsBlank ∧
      S.firstRefusal c (before ++ rs) r = some e := by
  induction rows generalizing before with
  | nil => exact .inl ⟨[], rfl, passedAfter_nil before⟩
  | cons row rows ih =>
    cases row with
    | error e => exact .inr (.inl ⟨[], e, rows, rfl, passedAfter_nil before⟩)
    | ok r =>
      by_cases hstop : ¬ r.IsBlank ∧ S.firstRefusal c before r ≠ none
      · obtain ⟨hr, hne⟩ := hstop
        obtain ⟨e, he⟩ := Option.ne_none_iff_exists'.mp hne
        exact .inr (.inr ⟨[], r, rows, e, rfl, passedAfter_nil before, hr, by simpa using he⟩)
      · have hpass : ¬ r.IsBlank → S.firstRefusal c before r = none := by
          intro hr
          by_contra hne
          exact hstop ⟨hr, hne⟩
        rcases ih (before ++ [r]) with ⟨rs, rfl, hrs⟩ | ⟨rs, e, after, rfl, hrs⟩ |
            ⟨rs, r', after, e, rfl, hrs, hr', he⟩
        · exact .inl ⟨r :: rs, rfl, passedAfter_cons.mpr ⟨hpass, hrs⟩⟩
        · exact .inr (.inl ⟨r :: rs, e, after, rfl, passedAfter_cons.mpr ⟨hpass, hrs⟩⟩)
        · refine .inr
            (.inr ⟨r :: rs, r', after, e, rfl, passedAfter_cons.mpr ⟨hpass, hrs⟩, hr', ?_⟩)
          simpa using he

end Checks

namespace Import

variable {α : Type}

def readAfter (read : List Row → Row → Except ImportError α) (before : List Row) :
    List (Except EncodingError Row) → Except ImportError (List α)
  | [] => .ok []
  | row :: rows => do
    let r ← row.mapError .encoding
    if r.IsBlank then readAfter read (before ++ [r]) rows
    else
      let value ← read before r
      let values ← readAfter read (before ++ [r]) rows
      return value :: values

theorem readAfter_error (read : List Row → Row → Except ImportError α) (before : List Row)
    (e : EncodingError) (rows : List (Except EncodingError Row)) :
    readAfter read before (.error e :: rows) = .error (.encoding e) := rfl

theorem readAfter_blank (read : List Row → Row → Except ImportError α) (before : List Row) {r : Row}
    (h : r.IsBlank) (rows : List (Except EncodingError Row)) :
    readAfter read before (.ok r :: rows) = readAfter read (before ++ [r]) rows := by
  rw [readAfter]
  exact if_pos h

theorem readAfter_refused {read : List Row → Row → Except ImportError α} {before : List Row}
    {r : Row} {e : ImportError} (h : ¬ r.IsBlank) (hr : read before r = .error e)
    (rows : List (Except EncodingError Row)) :
    readAfter read before (.ok r :: rows) = .error e := by
  rw [readAfter]
  refine (if_neg h).trans ?_
  rw [hr]
  rfl

theorem readAfter_value {read : List Row → Row → Except ImportError α} {before : List Row} {r : Row}
    {value : α} (h : ¬ r.IsBlank) (hr : read before r = .ok value)
    (rows : List (Except EncodingError Row)) :
    readAfter read before (.ok r :: rows) =
      (readAfter read (before ++ [r]) rows).map (value :: ·) := by
  rw [readAfter]
  refine (if_neg h).trans ?_
  rw [hr]
  show (readAfter read (before ++ [r]) rows >>= fun values => pure (value :: values)) = _
  cases readAfter read (before ++ [r]) rows <;> rfl

/-- Rows that do not depend on those before them, and of which some, the blank ones among them,
may be left out. -/
theorem collect_eq {β : Type} {read : Row → Except ImportError (Option β)}
    {each : Row → Except ImportError α} {f : α → Option β}
    (hblank : ∀ r : Row, r.IsBlank → read r = .ok none)
    (hread : ∀ r : Row, ¬ r.IsBlank → read r = (each r).map f) (before : List Row)
    (rows : List (Except EncodingError Row)) :
    collect read rows = (readAfter (fun _ => each) before rows).map (List.filterMap f) := by
  induction rows generalizing before with
  | nil => rfl
  | cons row rows ih =>
    cases row with
    | error e => rfl
    | ok r =>
      show (read r >>= fun value => collect read rows >>= fun values =>
        pure (value.toList ++ values)) = _
      by_cases h : r.IsBlank
      · rw [readAfter_blank _ before h, hblank r h, ← ih]
        show (collect read rows >>= fun values => pure values) = _
        rw [bind_pure]
      · rw [hread r h]
        cases hr : each r with
        | error e =>
          rw [readAfter_refused h hr rows]
          rfl
        | ok value =>
          rw [readAfter_value h hr, ih (before ++ [r])]
          cases readAfter (fun _ => each) (before ++ [r]) rows with
          | error e => rfl
          | ok values =>
            show Except.ok ((f value).toList ++ values.filterMap f) =
              .ok ((value :: values).filterMap f)
            rw [List.filterMap_cons]
            cases f value <;> rfl

theorem collect_unlessBlank (read : Row → Except ImportError α) (before : List Row)
    (rows : List (Except EncodingError Row)) :
    collect (unlessBlank read) rows = readAfter (fun _ => read) before rows := by
  have hblank : ∀ r : Row, r.IsBlank → unlessBlank read r = .ok none := fun _ h => if_pos h
  have hread : ∀ r : Row, ¬ r.IsBlank → unlessBlank read r = (read r).map some :=
    fun _ h => if_neg h
  rw [collect_eq hblank hread before]
  cases readAfter (fun _ => read) before rows with
  | error e => rfl
  | ok values => exact congrArg _ List.filterMap_some

theorem columns_of_error {t : Table} {e : EncodingError} (required : List String)
    (h : t.header = .error e) : columns t required = .error (.encoding e) := by
  unfold columns
  rw [h]
  rfl

theorem columns_of_header {t : Table} {header : List String} (required : List String)
    (h : t.header = .ok header) : columns t required = require (.ofHeader header) required := by
  unfold columns
  rw [h]
  rfl

variable {S : Checks α} {read : Columns → List Row → Row → Except ImportError α} {c : Columns}
  {header : List String}

theorem require_eq_ok {c : Columns} {required : List String}
    (h : ∀ name ∈ required, name ∈ c.names) :
    require c required = .ok c := by
  refine if_pos (List.filter_eq_nil_iff.mpr fun name hname => ?_)
  rw [decide_eq_true_eq, not_not]
  exact h name hname

theorem require_eq_error (h : ¬ S.HasColumns header) :
    require (.ofHeader header) S.required =
      .error (.missingColumns (S.required.filter (· ∉ (Columns.ofHeader header).names))) := by
  refine if_neg fun hnil => h fun name hname => ?_
  have hin := List.filter_eq_nil_iff.mp hnil name hname
  rwa [decide_eq_true_eq, not_not] at hin

theorem readAfter_ok (h : S.ReadBy read) {before rows : List Row} {values : List α}
    (hp : S.PassedAfter c before rows) (hv : List.Forall₂ (S.Gives c) (withContent rows) values) :
    readAfter (read c) before (rows.map .ok) = .ok values := by
  induction rows generalizing before values with
  | nil =>
    cases hv
    rfl
  | cons r rows ih =>
    obtain ⟨hr, hrest⟩ := Checks.passedAfter_cons.mp hp
    rw [Checks.withContent_cons] at hv
    by_cases hblank : r.IsBlank
    · rw [if_pos hblank] at hv
      rw [List.map_cons, readAfter_blank _ before hblank, ih hrest hv]
    · rw [if_neg hblank] at hv
      cases hv with
      | cons hgives hv =>
        have hvalue := (h.ok_iff ..).mpr ⟨hr hblank, hgives⟩
        rw [List.map_cons, readAfter_value hblank hvalue, ih hrest hv]
        rfl

/-- Rows that pass leave a failure after them as it is. -/
theorem readAfter_of_error (h : S.ReadBy read) {before rows : List Row}
    {rest : List (Except EncodingError Row)} {e : ImportError} (hp : S.PassedAfter c before rows)
    (he : readAfter (read c) (before ++ rows) rest = .error e) :
    readAfter (read c) before (rows.map .ok ++ rest) = .error e := by
  induction rows generalizing before with
  | nil => rwa [List.append_nil] at he
  | cons r rows ih =>
    obtain ⟨hr, hrest⟩ := Checks.passedAfter_cons.mp hp
    have hrec := ih hrest (by rwa [List.append_assoc])
    by_cases hblank : r.IsBlank
    · rw [List.map_cons, List.cons_append, readAfter_blank _ before hblank, hrec]
    · obtain ⟨value, hgives⟩ := h.gives (hr hblank)
      have hvalue := (h.ok_iff ..).mpr ⟨hr hblank, hgives⟩
      rw [List.map_cons, List.cons_append, readAfter_value hblank hvalue, hrec]
      rfl

/-- The values that the rows with content give. -/
theorem exists_values (h : S.ReadBy read) {before rows : List Row}
    (hp : S.PassedAfter c before rows) :
    ∃ values, List.Forall₂ (S.Gives c) (withContent rows) values := by
  induction rows generalizing before with
  | nil => exact ⟨[], .nil⟩
  | cons r rows ih =>
    obtain ⟨hr, hrest⟩ := Checks.passedAfter_cons.mp hp
    obtain ⟨values, hvalues⟩ := ih hrest
    rw [Checks.withContent_cons]
    by_cases hblank : r.IsBlank
    · rw [if_pos hblank]
      exact ⟨values, hvalues⟩
    · obtain ⟨value, hvalue⟩ := h.gives (hr hblank)
      rw [if_neg hblank]
      exact ⟨value :: values, .cons hvalue hvalues⟩

def readTable (required : List String) (read : Columns → List Row → Row → Except ImportError α)
    (t : Table) : Except ImportError (List α) := do
  let c ← columns t required
  readAfter (read c) [] t.rows

theorem readTable_of_columns {t : Table} (h : t.header = .ok header) (hc : S.HasColumns header) :
    readTable S.required read t = readAfter (read (.ofHeader header)) [] t.rows := by
  unfold readTable
  rw [columns_of_header _ h, require_eq_ok hc]
  rfl

theorem readTable_of_ends (h : S.ReadBy read) {t : Table} {r : Except ImportError (List α)}
    (he : S.Ends t r) : readTable S.required read t = r := by
  cases he with
  | header ht =>
    unfold readTable
    rw [columns_of_error _ ht]
    rfl
  | columns ht hc =>
    unfold readTable
    rw [columns_of_header _ ht, require_eq_error hc]
    rfl
  | encoding ht hc hrows hp =>
    rw [readTable_of_columns ht hc, hrows]
    exact readAfter_of_error h hp (readAfter_error ..)
  | refused ht hc hrows hp hr he =>
    rw [readTable_of_columns ht hc, hrows]
    exact readAfter_of_error h hp (readAfter_refused hr ((h.error_iff ..).mpr he) _)
  | read ht hc hrows hp hv =>
    rw [readTable_of_columns ht hc, hrows]
    exact readAfter_ok h hp hv

theorem exists_ends (h : S.ReadBy read) (t : Table) : ∃ r, S.Ends t r := by
  cases ht : t.header with
  | error e => exact ⟨_, .header ht⟩
  | ok header =>
    by_cases hc : S.HasColumns header
    · rcases Checks.rows_cases S (.ofHeader header) [] t.rows with ⟨rows, hrows, hp⟩ |
          ⟨rows, e, after, hrows, hp⟩ | ⟨rows, r, after, e, hrows, hp, hr, he⟩
      · obtain ⟨values, hvalues⟩ := exists_values h hp
        exact ⟨_, .read ht hc hrows hp hvalues⟩
      · exact ⟨_, .encoding ht hc hrows hp⟩
      · exact ⟨_, .refused ht hc hrows hp hr he⟩
    · exact ⟨_, .columns ht hc⟩

theorem readTable_iff (h : S.ReadBy read) {t : Table} {r : Except ImportError (List α)} :
    readTable S.required read t = r ↔ S.Ends t r := by
  constructor
  · rintro rfl
    obtain ⟨r, hr⟩ := exists_ends h t
    rw [readTable_of_ends h hr]
    exact hr
  · exact readTable_of_ends h

end Import

/-! ## The codes of a file of currencies -/

structure CodesChecked (currencies : List Currency) : Prop where
  form : ∀ c ∈ currencies, Field.isCurrencyCode c.code.toList = true
  distinct : (currencies.map (·.code)).Nodup

namespace Import

theorem currencyCode_form {text code : String} (h : Field.currencyCode text = .ok code) :
    Field.isCurrencyCode code.toList = true := by
  unfold Field.currencyCode at h
  split at h
  · cases h
  split at h
  · cases h
    assumption
  · cases h

theorem currency_code {c : Columns} {seen : List String} {r : Row} {first : Currency}
    (h : currency c seen r = .ok first) :
    Field.isCurrencyCode first.code.toList = true ∧ first.code ∉ seen := by
  obtain ⟨code, hcode, h⟩ := bind_eq_ok_iff.mp h
  have hform := currencyCode_form (mapError_eq_ok_iff.mp hcode)
  dsimp only at h
  by_cases hseen : code ∈ seen
  · rw [if_pos hseen] at h
    cases h
  · rw [if_neg hseen] at h
    obtain ⟨state, _, h⟩ := bind_eq_ok_iff.mp h
    obtain ⟨marketing, _, h⟩ := bind_eq_ok_iff.mp h
    cases h
    exact ⟨hform, hseen⟩

/-- The rows read so far are remembered by their codes. -/
theorem currenciesAfter_codes {c : Columns} {seen : List String}
    {rows : List (Except EncodingError Row)} {currencies : List Currency}
    (h : currenciesAfter c seen rows = .ok currencies) :
    CodesChecked currencies ∧ ∀ d ∈ currencies, d.code ∉ seen := by
  induction rows generalizing seen currencies with
  | nil =>
    cases h
    exact ⟨⟨by simp, List.nodup_nil⟩, by simp⟩
  | cons row rows ih =>
    obtain ⟨r, _, h⟩ := bind_eq_ok_iff.mp h
    split at h
    · exact ih h
    · obtain ⟨first, hfirst, h⟩ := bind_eq_ok_iff.mp h
      obtain ⟨others, hothers, h⟩ := bind_eq_ok_iff.mp h
      cases h
      obtain ⟨hform, hnew⟩ := currency_code hfirst
      obtain ⟨hchecked, hseen⟩ := ih hothers
      refine ⟨⟨?_, ?_⟩, ?_⟩
      · exact List.forall_mem_cons.mpr ⟨hform, hchecked.form⟩
      · refine List.nodup_cons.mpr ⟨?_, hchecked.distinct⟩
        intro hm
        obtain ⟨d, hd, he⟩ := List.mem_map.mp hm
        exact hseen d hd (he ▸ List.mem_cons_self ..)
      · refine List.forall_mem_cons.mpr ⟨hnew, ?_⟩
        intro d hd hm
        exact hseen d hd (List.mem_cons_of_mem _ hm)

theorem currencies_codes {bytes : List UInt8} {read : List Currency}
    (h : currencies bytes = .ok read) : CodesChecked read := by
  obtain ⟨c, _, h⟩ := bind_eq_ok_iff.mp h
  exact (currenciesAfter_codes h).1

end Import

end TrailingYear
