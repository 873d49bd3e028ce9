import TrailingYear.Proofs.Date.Text
import TrailingYear.Proofs.Field
import TrailingYear.Proofs.Import.Readers
import TrailingYear.Proofs.Table.Columns
import TrailingYear.Proofs.Table.Write

/-! # Reading undoes writing

Payments, rates and currencies can be written under columns in any order, among columns of other
things. What is read from such a file is what was written. -/

namespace TrailingYear

/-- The file has a row for each of the values, which stand in the columns `names`. -/
def IsFileOf {α : Type} (names : List String) (Writes : α → (String → String) → Prop)
    (values : List α) (bytes : List UInt8) : Prop :=
  ∃ (layout : Layout names) (header : List String) (rows : List (List String)),
    bytes = Table.toBytes (header :: rows) ∧ layout.HasHeader header ∧
      List.Forall₂ (fun value cells => ∃ textOf, layout.HasCells textOf cells ∧ Writes value textOf)
        values rows

structure Payment.Writes (p : Payment) (textOf : String → String) : Prop where
  amount : p.amount.IsWritten (textOf "amount")
  currency : textOf "currency" = p.currency
  date : textOf "payment_date" = p.date.toText

structure RateRow.Writes (r : RateRow) (textOf : String → String) : Prop where
  currency : textOf "currency" = r.currency
  date : textOf "payment_date" = r.date.toText
  rate : ∀ field, (r.rate field).IsWritten (textOf field.column)

structure Currency.Writes (c : Currency) (textOf : String → String) : Prop where
  code : textOf "code" = c.code
  name : textOf "name" = c.name
  rate : ∀ field rate, c.fallbackRate field = some rate → rate.IsWritten (textOf field.column)
  absent : ∀ field, c.fallbackRate field = none → textOf field.column = ""

def plainFile {α : Type} (names : List String) (textOf : α → String → String) (values : List α) :
    List UInt8 :=
  Table.toBytes (names :: values.map fun value => names.map (textOf value))

theorem isFileOf_plainFile {α : Type} {names : List String} {Writes : α → (String → String) → Prop}
    {textOf : α → String → String} (hn : ∀ name ∈ names, name.toList.map Char.toLower = name.toList)
    (hw : ∀ value, Writes value (textOf value)) (values : List α) :
    IsFileOf names Writes values (plainFile names textOf values) := by
  refine ⟨.plain names, _, _, rfl, Layout.plain_hasHeader hn, ?_⟩
  rw [List.forall₂_map_right_iff, List.forall₂_same]
  intro value _
  exact ⟨textOf value, Layout.plain_hasCells _, hw value⟩

def RateRow.texts (r : RateRow) (name : String) : String :=
  if name = "currency" then r.currency else if name = "payment_date" then r.date.toText
  else if name = RateField.state.column then r.stateRate.toText else r.marketingRate.toText

theorem RateRow.writes_texts (r : RateRow) : r.Writes r.texts := by
  refine ⟨if_pos rfl, (if_neg (by decide)).trans (if_pos rfl), ?_⟩
  rintro (_ | _)
  · exact .inl rfl
  · exact .inl rfl

def Currency.texts (c : Currency) (name : String) : String :=
  if name = "code" then c.code else if name = "name" then c.name
  else if name = RateField.state.column then (c.stateRate.map Decimal.toText).getD ""
  else (c.marketingRate.map Decimal.toText).getD ""

theorem Currency.texts_column (c : Currency) (field : RateField) :
    c.texts field.column = ((c.fallbackRate field).map Decimal.toText).getD "" := by
  cases field <;> rfl

theorem Currency.writes_texts (c : Currency) : c.Writes c.texts := by
  refine ⟨if_pos rfl, (if_neg (by decide)).trans (if_pos rfl), ?_, ?_⟩
  · intro field rate h
    rw [texts_column, h]
    exact .inl rfl
  · intro field h
    rw [texts_column, h]
    rfl

def Payment.unsigned (p : Payment) : Payment := { p with amount := p.amount.withSign false }

theorem trim_code {code : String} (h : Field.isCurrencyCode code.toList = true) :
    trim code = code := by
  rw [Field.isCurrencyCode, Bool.and_eq_true, List.all_eq_true] at h
  apply trim_of_none
  intro c hc
  have hbounds := isUpper_iff.mp (h.2 c hc)
  exact isBlank_of_visible (by omega)

theorem forall₂_texts {α : Type} {names : List String} {Writes : α → (String → String) → Prop}
    {layout : Layout names} {header : List String} (hheader : layout.HasHeader header)
    (hn : ∀ name ∈ names, IsColumnName name) (hd : names.Nodup) {values : List α}
    {written : List (List String)} {rows : List Row}
    (hw : List.Forall₂ (fun value cells => ∃ textOf, layout.HasCells textOf cells ∧
      Writes value textOf)
      values written)
    (hr : List.Forall₂
      (fun (r : Row) (cells : List String) => r.cells = cells.map trim) rows written) :
    List.Forall₂ (fun value (r : Row) => ∃ textOf, Writes value textOf ∧
      ∀ name ∈ names, (Columns.ofHeader header).cell r.cells name =
        trim (textOf name)) values rows := by
  induction hw generalizing rows with
  | nil =>
    cases hr
    exact .nil
  | cons hvalue _ ih =>
    obtain ⟨textOf, hcells, hwrites⟩ := hvalue
    cases hr with
    | cons hrow hrest =>
      refine .cons ⟨textOf, hwrites, fun name hname => ?_⟩ (ih hrest)
      rw [hrow]
      exact hheader.cell_eq hn hd hcells hname

/-- The rows of a file, each with the texts of its value. -/
theorem IsFileOf.rows {α : Type} {names : List String} {Writes : α → (String → String) → Prop}
    {values : List α} {bytes : List UInt8} (h : IsFileOf names Writes values bytes)
    (hn : ∀ name ∈ names, IsColumnName name) (hd : names.Nodup) (hne : names ≠ []) :
    ∃ header rows, Table.Holds bytes header rows ∧
      (∀ name ∈ names, name ∈ (Columns.ofHeader header).names) ∧
      List.Forall₂ (fun value (r : Row) => ∃ textOf, Writes value textOf ∧
        ∀ name ∈ names, (Columns.ofHeader header).cell r.cells name =
          trim (textOf name)) values rows := by
  obtain ⟨layout, header, written, rfl, hheader, hwritten⟩ := h
  have hcells : written.filter (· ≠ []) = written := by
    refine List.filter_eq_self.mpr fun cells hmem => ?_
    obtain ⟨value, textOf, hrow, _⟩ := exists_of_mem_right hwritten hmem
    simpa using Layout.ne_nil hrow hne
  obtain ⟨rows, hrows, hread⟩ := Table.holds_toBytes (Layout.ne_nil hheader hne) written
  rw [hcells] at hread
  exact ⟨header, rows, hrows, fun name => hheader.mem_names hn hd,
    forall₂_texts hheader hn hd hwritten hread⟩

namespace Import

theorem columns_of_holds {bytes : List UInt8} {header : List String} {rows : List Row}
    (h : Table.Holds bytes header rows) {required : List String}
    (hr : ∀ name ∈ required, name ∈ (Columns.ofHeader header).names) :
    columns (.ofBytes bytes) required = .ok (.ofHeader header) := by
  have hheader : (Table.ofBytes bytes).header = .ok header := by rw [h]
  rw [columns_of_header required hheader, require_eq_ok hr]

theorem collect_cons {α : Type} {read : Row → Except ImportError (Option α)} {r : Row}
    {rows : List Row} {value : Option α} {values : List α} (hr : read r = .ok value)
    (hrows : collect read (rows.map .ok) = .ok values) :
    collect read ((r :: rows).map .ok) = .ok (value.toList ++ values) := by
  show (read r >>= fun value => collect read (rows.map .ok) >>= fun values =>
    pure (value.toList ++ values)) = _
  rw [hr, hrows]
  rfl

theorem collect_of_rows {α : Type} {f : Row → Except ImportError α} {rows : List Row}
    {values : List α}
    (h : List.Forall₂ (fun value r => ¬ r.IsBlank ∧ f r = .ok value) values rows) :
    collect (unlessBlank f) (rows.map .ok) = .ok values := by
  induction h with
  | nil => rfl
  | cons hrow _ ih =>
    obtain ⟨hblank, hvalue⟩ := hrow
    exact collect_cons ((if_neg hblank).trans (congrArg (Except.map some) hvalue)) ih

theorem check_of_cell {α : Type} {c : Columns} {r : Row} {column text : String}
    {f : String → Except FieldError α} {a : α} (hcell : c.cell r.cells column = trim text)
    (htrim : trim text = text) (h : f text = .ok a) : check c r column f = .ok a := by
  rw [check, hcell, htrim, h]
  rfl

section

variable {c : Columns} {r : Row} {textOf : String → String} {column : String}

/-- A row with a code in it has content. -/
theorem code_of_text {code : String} (hcell : c.cell r.cells column = trim (textOf column))
    (htext : textOf column = code) (h : Field.isCurrencyCode code.toList = true) :
    ¬ r.IsBlank ∧ c.cell r.cells column = code ∧
      check c r column Field.currencyCode = .ok code := by
  have hcode : c.cell r.cells column = code := by
    rw [hcell, htext, trim_code h]
  refine ⟨?_, hcode, ?_⟩
  · intro hblank
    rw [c.cell_of_isBlank hblank] at hcode
    subst hcode
    cases h
  · rw [check_eq_ok_iff, hcode, Field.currencyCode_of_form h]

theorem date_of_text {date : Date} (hcell : c.cell r.cells column = trim (textOf column))
    (htext : textOf column = date.toText) : check c r column Field.date = .ok date := by
  rw [htext] at hcell
  apply check_of_cell hcell date.trim_toText
  rw [Field.date, Date.ofText_toText]
  rfl

theorem payment_of_texts {p : Payment} (hp : p.Checked) (hw : p.Writes textOf)
    (hcells : ∀ name ∈ paymentColumns, c.cell r.cells name = trim (textOf name)) :
    ¬ r.IsBlank ∧ payment c r = .ok p.unsigned := by
  have hamount : check c r "amount" Field.amount = .ok (p.amount.withSign false) :=
    check_of_cell (hcells _ (by decide)) hw.amount.trim_eq
      (Field.amount_of_written hw.amount hp.amount)
  obtain ⟨hblank, _, hcode⟩ := code_of_text (hcells _ (by decide)) hw.currency hp.code
  have hdate := date_of_text (hcells _ (by decide)) hw.date
  refine ⟨hblank, ?_⟩
  rw [payment, hamount, hcode, hdate]
  rfl

theorem rateRow_of_texts {row : RateRow} (hr : row.Checked) (hw : row.Writes textOf)
    (hcells : ∀ name ∈ rateColumns, c.cell r.cells name = trim (textOf name)) :
    ¬ r.IsBlank ∧ rateRow c r = .ok row := by
  have hrate : ∀ field : RateField, check c r field.column Field.rate = .ok (row.rate field) := by
    intro field
    have hcolumn : field.column ∈ rateColumns := by cases field <;> decide
    exact check_of_cell (hcells _ hcolumn) (hw.rate field).trim_eq
      (Field.rate_of_written (hw.rate field) (hr.rate field))
  obtain ⟨hblank, _, hcode⟩ := code_of_text (hcells _ (by decide)) hw.currency hr.code
  have hdate := date_of_text (hcells _ (by decide)) hw.date
  refine ⟨hblank, ?_⟩
  rw [rateRow, hcode, hdate, hrate .state, hrate .marketing]
  rfl

def writtenCurrencyColumns : List String :=
  currencyColumns ++ [RateField.state.column, RateField.marketing.column]

theorem currency_of_texts {currency : Currency}
    (hform : Field.isCurrencyCode currency.code.toList = true)
    (hname : currency.name ≠ "" ∧ trim currency.name = currency.name)
    (hrate : ∀ field rate, currency.fallbackRate field = some rate → 0 < rate.toRat)
    (hw : currency.Writes textOf)
    (hcells : ∀ name ∈ writtenCurrencyColumns, c.cell r.cells name = trim (textOf name))
    {seen : List String} (hseen : currency.code ∉ seen) :
    ¬ r.IsBlank ∧ Import.currency c seen r = .ok currency := by
  have hcheck : ∀ field : RateField,
      check c r field.column Field.optionalRate = .ok (currency.fallbackRate field) := by
    intro field
    have hcolumn : field.column ∈ writtenCurrencyColumns := by cases field <;> decide
    cases hf : currency.fallbackRate field with
    | none =>
      have hempty := hcells _ hcolumn
      rw [hw.absent field hf] at hempty
      exact check_of_cell hempty (by decide) rfl
    | some rate =>
      have hwritten := hw.rate field rate hf
      exact check_of_cell (hcells _ hcolumn) hwritten.trim_eq
        (Field.optionalRate_of_written hwritten (hrate field rate hf))
  obtain ⟨hblank, _, hcode⟩ := code_of_text (hcells _ (by decide)) hw.code hform
  have hcell : c.cell r.cells "name" = currency.name := by
    rw [hcells _ (by decide), hw.name, hname.2]
  refine ⟨hblank, ?_⟩
  rw [Import.currency, hcode, hcheck .state, hcheck .marketing, hcell]
  refine (if_neg hseen).trans ?_
  show Except.ok
    (Currency.mk currency.code (if currency.name = "" then currency.code else currency.name)
    currency.stateRate currency.marketingRate) = _
  rw [if_neg hname.1]

end

/-- Codes that differ from each other and from those before are all read. -/
theorem currenciesAfter_of_rows {c : Columns} {seen : List String} {rows : List Row}
    {currencies : List Currency}
    (h : List.Forall₂ (fun currency r => ∀ seen : List String, currency.code ∉ seen →
      ¬ r.IsBlank ∧ Import.currency c seen r = .ok currency) currencies rows)
    (hd : (currencies.map (·.code)).Nodup) (hseen : ∀ currency ∈ currencies, currency.code ∉ seen) :
    currenciesAfter c seen (rows.map .ok) = .ok currencies := by
  induction h generalizing seen with
  | nil => rfl
  | @cons currency r currencies rows hrow _ ih =>
    rw [List.map_cons, List.nodup_cons] at hd
    obtain ⟨hnew, hrest⟩ := List.forall_mem_cons.mp hseen
    obtain ⟨hblank, hvalue⟩ := hrow seen hnew
    have hothers : currenciesAfter c (currency.code :: seen) (rows.map .ok) = .ok currencies := by
      apply ih hd.2
      intro other hother hmem
      rcases List.mem_cons.mp hmem with heq | hmem
      · exact hd.1 (heq ▸ List.mem_map_of_mem hother)
      · exact hrest other hother hmem
    rw [List.map_cons, currenciesAfter]
    refine (if_neg hblank).trans ?_
    rw [hvalue]
    show (currenciesAfter c (currency.code :: seen) (rows.map .ok) >>= _) = _
    rw [hothers]
    rfl

/-- Names that are their own normal form, each different from the others. -/
theorem isColumnName_of_mem {names : List String}
    (h : names.all fun name => name.toList.all fun c => 33 ≤ c.toNat && c.toNat < 127) :
    ∀ name ∈ names, IsColumnName name := by
  intro name hname c hc
  have hall := List.all_eq_true.mp (List.all_eq_true.mp h name hname) c hc
  simpa using hall

theorem payments_of_file {ps : List Payment} {bytes : List UInt8} (hp : ∀ p ∈ ps, p.Checked)
    (h : IsFileOf paymentColumns Payment.Writes ps bytes) :
    payments bytes = .ok (ps.map Payment.unsigned) := by
  obtain ⟨header, rows, hholds, hcolumns, hrows⟩ :=
    h.rows (isColumnName_of_mem (by decide)) (by decide) (by decide)
  have hread : List.Forall₂ (fun p r => ¬ r.IsBlank ∧ payment (.ofHeader header) r = .ok p)
      (ps.map Payment.unsigned) rows := by
    rw [List.forall₂_map_left_iff]
    refine ((List.forall₂_and_left ..).mpr ⟨hp, hrows⟩).imp ?_
    rintro p r ⟨hchecked, textOf, hwrites, hcells⟩
    exact payment_of_texts hchecked hwrites hcells
  rw [payments, columns_of_holds hholds hcolumns]
  show collect (unlessBlank (payment (.ofHeader header))) (Table.ofBytes bytes).rows = _
  rw [hholds]
  exact collect_of_rows hread

theorem rates_of_file {values : List RateRow} {bytes : List UInt8} (hr : ∀ r ∈ values, r.Checked)
    (h : IsFileOf rateColumns RateRow.Writes values bytes) : rates bytes = .ok values := by
  obtain ⟨header, rows, hholds, hcolumns, hrows⟩ :=
    h.rows (isColumnName_of_mem (by decide)) (by decide) (by decide)
  have hread : List.Forall₂ (fun value r => ¬ r.IsBlank ∧ rateRow (.ofHeader header) r = .ok value)
      values rows := by
    refine ((List.forall₂_and_left ..).mpr ⟨hr, hrows⟩).imp ?_
    rintro value r ⟨hchecked, textOf, hwrites, hcells⟩
    exact rateRow_of_texts hchecked hwrites hcells
  rw [rates, columns_of_holds hholds hcolumns]
  show collect (unlessBlank (rateRow (.ofHeader header))) (Table.ofBytes bytes).rows = _
  rw [hholds]
  exact collect_of_rows hread

theorem currencies_of_file {values : List Currency} {bytes : List UInt8}
    (hc : CurrenciesChecked values) (hname : ∀ c ∈ values, trim c.name = c.name)
    (h : IsFileOf writtenCurrencyColumns Currency.Writes values bytes) :
    currencies bytes = .ok values := by
  obtain ⟨header, rows, hholds, hcolumns, hrows⟩ :=
    h.rows (isColumnName_of_mem (by decide)) (by decide) (by decide)
  have hrequired : ∀ name ∈ currencyColumns, name ∈ (Columns.ofHeader header).names :=
    fun name hn => hcolumns name (List.mem_append_left _ hn)
  have hall : ∀ c ∈ values, Field.isCurrencyCode c.code.toList = true ∧
      (c.name ≠ "" ∧ trim c.name = c.name) ∧
      ∀ field rate, c.fallbackRate field = some rate → 0 < rate.toRat :=
    fun c hm => ⟨hc.form c hm, ⟨hc.name c hm, hname c hm⟩, hc.rate c hm⟩
  have hread : List.Forall₂ (fun value r => ∀ seen : List String, value.code ∉ seen →
      ¬ r.IsBlank ∧ Import.currency (.ofHeader header) seen r = .ok value) values rows := by
    refine ((List.forall₂_and_left ..).mpr ⟨hall, hrows⟩).imp ?_
    rintro value r ⟨⟨hform, hnamed, hrate⟩, textOf, hwrites, hcells⟩ seen hseen
    exact currency_of_texts hform hnamed hrate hwrites hcells hseen
  rw [currencies, columns_of_holds hholds hrequired]
  show currenciesAfter (.ofHeader header) [] (Table.ofBytes bytes).rows = _
  rw [hholds]
  exact currenciesAfter_of_rows hread hc.distinct (by simp)

end Import

theorem Payment.Checked.unsigned_same {p : Payment} (h : p.Checked) :
    p.unsigned.amount.Same p.amount ∧ p.unsigned.amount.scale = p.amount.scale := by
  have hpos : 0 ≤ p.amount.mantissa := by
    have hamount := h.amount
    rw [← not_lt, ← Decimal.isNegative_iff_toRat] at hamount
    exact not_lt.mp hamount
  have hmantissa : (p.amount.withSign false).mantissa = p.amount.mantissa := by
    have habs := p.amount.natAbs_mantissa
    have hplain : (p.amount.withSign false).mantissa = p.amount.magnitude :=
      Decimal.mantissa_withSign
    omega
  refine ⟨?_, rfl⟩
  show (p.amount.withSign false).mantissa * _ = p.amount.mantissa * _
  rw [hmantissa]
  rfl

/-- What is read from a file of checked values is what was written. Amounts that are zero may lose
their sign, but neither their value nor their places. -/
theorem read_of_written :
    (∀ ps bytes, (∀ p ∈ ps, p.Checked) → IsFileOf Import.paymentColumns Payment.Writes ps bytes →
      Import.payments bytes = .ok (ps.map Payment.unsigned) ∧
        ∀ p ∈ ps, p.unsigned.amount.Same p.amount ∧ p.unsigned.amount.scale = p.amount.scale) ∧
    (∀ rows bytes, (∀ r ∈ rows, r.Checked) → IsFileOf Import.rateColumns RateRow.Writes rows bytes →
      Import.rates bytes = .ok rows) ∧
    ∀ currencies bytes, CurrenciesChecked currencies → (∀ c ∈ currencies, trim c.name = c.name) →
      IsFileOf Import.writtenCurrencyColumns Currency.Writes currencies bytes →
      Import.currencies bytes = .ok currencies := by
  refine ⟨fun ps bytes hp h => ⟨Import.payments_of_file hp h, fun p hm => (hp p hm).unsigned_same⟩,
    fun rows bytes hr h => Import.rates_of_file hr h,
    fun currencies bytes hc hname h => Import.currencies_of_file hc hname h⟩

def farPayment : Payment := ⟨.ofParts 123456750 2, "USD", .ofParts 12024 3 9⟩

def farTexts (name : String) : String :=
  if name = "amount" then "1,234,567.50" else if name = "currency" then "USD" else "+12024-03-09"

def notedLayout : Layout Import.paymentColumns :=
  ⟨[none, some "payment_date", some "amount", some "currency"], by decide⟩

def notedTable : List (List String) :=
  [["note", "Payment_Date", " AMOUNT ", "currency"],
    ["a \"quoted\",\nlong note", "+12024-03-09", "1,234,567.50", "USD"]]

theorem isFileOf_notedTable :
    IsFileOf Import.paymentColumns Payment.Writes [farPayment] (Table.toBytes notedTable) := by
  have hblank : ∀ c ∈ [' '], isBlank c = true := by
    intro c hc
    rw [List.mem_singleton.mp hc]
    decide
  have hnote : lowerCase (trim "note") ∉ Import.paymentColumns := by decide +kernel
  have hheader : notedLayout.HasHeader ["note", "Payment_Date", " AMOUNT ", "currency"] :=
    .cons hnote (.cons ⟨[], "Payment_Date".toList, [], by decide, by simp, by simp, by decide⟩
      (.cons ⟨[' '], "AMOUNT".toList, [' '], by decide, hblank, hblank, by decide⟩
        (.cons ⟨[], "currency".toList, [], by decide, by simp, by simp, by decide⟩ .nil)))
  have hcells : notedLayout.HasCells farTexts
      ["a \"quoted\",\nlong note", "+12024-03-09", "1,234,567.50", "USD"] := by
    refine .cons ?_ (.cons ?_ (.cons ?_ (.cons ?_ .nil)))
    · rintro name ⟨⟩
    · rintro name ⟨⟩
      decide
    · rintro name ⟨⟩
      decide
    · rintro name ⟨⟩
      decide
  have hwrites : farPayment.Writes farTexts :=
    ⟨.inr (by decide +kernel), by decide, by decide +kernel⟩
  exact ⟨notedLayout, _, _, rfl, hheader, .cons ⟨farTexts, hcells, hwrites⟩ .nil⟩

def twoRates : List RateRow :=
  [⟨"EUR", .ofParts 2024 3 9, .ofParts 11 1, .ofParts 200 2⟩,
    ⟨"JPY", .ofParts (-1) 12 31, .ofParts 65 4, .ofParts 1 28⟩]

def namedCurrencies : List Currency :=
  [⟨"USD", "Dollar", none, some (.ofParts 95 2)⟩, ⟨"EUR", "Euro, \"the\"", none, none⟩]

theorem read_of_written_noted :
    Import.payments (Table.toBytes notedTable) = .ok [farPayment] ∧
    Import.rates (plainFile Import.rateColumns RateRow.texts twoRates) = .ok twoRates ∧
    Import.currencies (plainFile Import.writtenCurrencyColumns Currency.texts namedCurrencies) =
      .ok namedCurrencies := by
  have hpayments : ∀ p ∈ [farPayment], p.Checked := by
    intro p hp
    rw [List.mem_singleton.mp hp]
    exact ⟨by decide +kernel, by decide⟩
  have hrates : ∀ r ∈ twoRates, r.Checked := by
    intro r hr
    rcases List.mem_pair.mp hr with rfl | rfl
    · exact ⟨by rintro (_ | _) <;> decide +kernel, by decide⟩
    · exact ⟨by rintro (_ | _) <;> decide +kernel, by decide⟩
  have hcurrencies : CurrenciesChecked namedCurrencies := by
    refine ⟨⟨by decide, by decide⟩, by decide, ?_⟩
    intro c hc field rate hrate
    rcases List.mem_pair.mp hc with rfl | rfl
    · cases field with
      | state => cases hrate
      | marketing =>
        cases hrate
        decide +kernel
    · cases field <;> cases hrate
  have hnames : ∀ c ∈ namedCurrencies, trim c.name = c.name := by decide +kernel
  obtain ⟨readPayments, readRates, readCurrencies⟩ := read_of_written
  exact ⟨(readPayments _ _ hpayments isFileOf_notedTable).1,
    readRates _ _ hrates (isFileOf_plainFile (by decide) RateRow.writes_texts _),
    readCurrencies _ _ hcurrencies hnames (isFileOf_plainFile (by decide) Currency.writes_texts _)⟩

end TrailingYear
