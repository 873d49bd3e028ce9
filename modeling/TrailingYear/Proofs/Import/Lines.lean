import TrailingYear.Import
import TrailingYear.Proofs.Import.Readers
import TrailingYear.Proofs.Table.Columns
import TrailingYear.Proofs.Table.Layout

/-! # The lines that errors name

An error about a row gives the line on which the row before it ended. The row itself begins there
if no line feed is passed over to find it: where lines end with a carriage return and a line feed,
or there are blank lines before the row, it begins further down. -/

namespace TrailingYear

open Record Import

def ImportError.line? : ImportError → Option ℕ
  | .field line _ _ => some line
  | .duplicateCurrency line _ => some line
  | _ => none

theorem ImportError.chain_of_line {e : ImportError} {line : ℕ} (h : e.line? = some line) :
    ∃ text causes, e.chain = (lineLabel line ++ text) :: causes := by
  cases e with
  | encoding => cases h
  | missingColumns => cases h
  | field l column cause =>
    cases h
    exact ⟨column, cause.chain, rfl⟩
  | duplicateCurrency l code =>
    cases h
    refine ⟨"duplicate currency " ++ code, [], ?_⟩
    rw [chain, String.append_assoc]

def dateChecks (column : String) : Checks (Option Date) where
  required := [column]
  refusals c _ r :=
    [if c.cell r.cells column = "" then none
      else refusal (check c r column fun text => Field.date (datePart text))]
  Gives c r date :=
    if c.cell r.cells column = "" then date = none
    else ∃ day, Field.date (datePart (c.cell r.cells column)) = .ok day ∧ date = some day

namespace Import

theorem dateIn_readBy (column : String) :
    (dateChecks column).ReadBy fun c _ r => dateIn c column r := by
  apply Checks.ReadBy.of_cases
  · intro c r v w hv hw
    simp only [dateChecks] at hv hw
    by_cases hempty : c.cell r.cells column = ""
    · rw [if_pos hempty] at hv hw
      rw [hv, hw]
    · rw [if_neg hempty] at hv hw
      obtain ⟨day, hday, rfl⟩ := hv
      obtain ⟨day', hday', rfl⟩ := hw
      rw [hday] at hday'
      cases hday'
      rfl
  · intro c before r
    simp only [dateIn, Checks.firstRefusal, dateChecks]
    by_cases hempty : c.cell r.cells column = ""
    · simp only [if_pos hempty]
      exact .inr ⟨rfl, none, rfl, rfl⟩
    · simp only [if_neg hempty]
      cases hd : check c r column fun text => Field.date (datePart text) with
      | error e => exact .inl ⟨e, rfl, rfl⟩
      | ok day =>
        have hday := (check_eq_ok_iff (f := fun text => Field.date (datePart text))).mp hd
        exact .inr ⟨rfl, some day, ⟨day, hday, rfl⟩, rfl⟩

theorem dates_eq (bytes : List UInt8) (column : String) : dates bytes column =
    (readTable (dateChecks (columnName column)).required
      (fun c _ r => dateIn c (columnName column) r) (.ofBytes bytes)).map (List.filterMap id) := by
  have hblank : ∀ c r, Row.IsBlank r → dateIn c (columnName column) r = .ok none := by
    intro c r h
    exact if_pos (c.cell_of_isBlank h _)
  have hread : ∀ c r, dateIn c (columnName column) r = (dateIn c (columnName column) r).map id := by
    intro c r
    cases dateIn c (columnName column) r <;> rfl
  have hrequired : (dateChecks (columnName column)).required = [columnName column] := rfl
  unfold dates readTable
  rw [hrequired]
  simp only [collect_eq (hblank _) (fun r _ => hread _ r) []]
  cases columns (.ofBytes bytes) [columnName column] <;> rfl

end Import

def GivesLine (line : ℕ) (refused : Option ImportError) : Prop :=
  ∀ e, refused = some e → e.line? = some line

theorem givesLine_check {α : Type} {c : Columns} {r : Row} {column : String}
    {f : String → Except FieldError α} : GivesLine r.line (refusal (check c r column f)) := by
  intro e h
  unfold check at h
  cases hf : f (c.cell r.cells column) with
  | ok a =>
    rw [hf] at h
    cases h
  | error cause =>
    rw [hf] at h
    cases h
    rfl

def Checks.NamesLine {α : Type} (S : Checks α) : Prop :=
  ∀ c before r, ∀ refused ∈ S.refusals c before r, GivesLine r.line refused

theorem Checks.NamesLine.line_of_refused {α : Type} {S : Checks α} (h : S.NamesLine) {c : Columns}
    {before : List Row} {r : Row} {e : ImportError} (hr : S.firstRefusal c before r = some e) :
    e.line? = some r.line := by
  obtain ⟨refused, hmem, hsome⟩ := List.exists_of_findSome?_eq_some hr
  exact h c before r refused hmem e hsome

theorem paymentChecks_namesLine : paymentChecks.NamesLine := by
  intro c before r
  simp only [paymentChecks, List.forall_mem_cons]
  exact ⟨givesLine_check, givesLine_check, givesLine_check, List.forall_mem_nil _⟩

theorem rateChecks_namesLine : rateChecks.NamesLine := by
  intro c before r
  simp only [rateChecks, List.forall_mem_cons]
  exact ⟨givesLine_check, givesLine_check, givesLine_check, givesLine_check, List.forall_mem_nil _⟩

theorem currencyChecks_namesLine : currencyChecks.NamesLine := by
  intro c before r
  simp only [currencyChecks, List.forall_mem_cons]
  refine ⟨givesLine_check, ?_, givesLine_check, givesLine_check, List.forall_mem_nil _⟩
  intro e he
  split at he
  · cases he
    rfl
  · cases he

theorem dateChecks_namesLine (column : String) : (dateChecks column).NamesLine := by
  intro c before r
  simp only [dateChecks, List.forall_mem_cons]
  refine ⟨?_, List.forall_mem_nil _⟩
  intro e he
  split at he
  · cases he
  · exact givesLine_check e he

def Record.Source.Holds (s : Source) (r : Row) : Prop :=
  ∃ texts : List String, s.fields = texts.map textBytes ∧ r.cells = texts.map trim

structure Place (sources : List Source) where
  header : Source
  front : List Source
  row : Source
  back : List Source
  split : sources = header :: (front ++ row :: back)

namespace Place

variable {α : Type} {sources : List Source}

def before (p : Place sources) : List UInt8 := (p.header :: p.front).flatMap Source.bytes

structure RefusedBy (p : Place sources) (S : Checks α) (names : List String) (rows : List Row)
    (r : Row) (e : ImportError) : Prop where
  header : p.header.fields = names.map textBytes
  required : S.HasColumns names
  before : List.Forall₂ Source.Holds p.front rows
  passed : S.PassedAfter (.ofHeader names) [] rows
  holds : p.row.Holds r
  content : ¬ r.IsBlank
  refused : S.firstRefusal (.ofHeader names) rows r = some e

def Refused (p : Place sources) (S : Checks α) (e : ImportError) : Prop :=
  ∃ names rows r, p.RefusedBy S names rows r e

end Place

/-- The number of the line on which what follows these bytes stands. -/
def lineAfter (bytes : List UInt8) : ℕ := 1 + lineFeeds bytes

/-- The error about a row gives the line on which the search for it began. Its first cell stands
as many lines further down as line feeds were passed over. -/
structure Place.Located {α : Type} {sources : List Source} (p : Place sources) (S : Checks α)
    (bytes : List UInt8) (e : ImportError) (line : ℕ) : Prop where
  refused : p.Refused S e
  label : ∃ text causes, e.chain = (lineLabel line ++ text) :: causes
  begins : ∃ rest, withoutMark bytes = p.before ++ (p.row.skipped ++ p.row.text ++ rest)
  line_eq : line = lineAfter p.before
  first_cell : line + lineFeeds p.row.skipped = lineAfter (p.before ++ p.row.skipped)

theorem holds_of_ofRecord {record : Record} {r : Row} (h : Row.ofRecord record = .ok r) :
    r.line = record.position.line ∧
      ∃ texts : List String, record.fields = texts.map textBytes ∧ r.cells = texts.map trim := by
  obtain ⟨texts, htexts⟩ := exists_texts (Row.ofRecord_isText h)
  rw [Row.ofRecord_texts htexts] at h
  cases h
  exact ⟨rfl, texts, htexts, rfl⟩

theorem forall₂_holds {sources : List Source} {records : List Record} {rows : List Row}
    (hs : List.Forall₂ (fun s (record : Record) => record.fields = s.fields) sources records)
    (hr : List.Forall₂ (fun record r => Row.ofRecord record = .ok r) records rows) :
    List.Forall₂ Source.Holds sources rows := by
  induction hs generalizing rows with
  | nil =>
    cases hr
    exact .nil
  | cons hfields _ ih =>
    cases hr with
    | cons hrow hrows =>
      obtain ⟨_, texts, htexts, hcells⟩ := holds_of_ofRecord hrow
      exact .cons ⟨texts, hfields ▸ htexts, hcells⟩ (ih hrows)

/-- The records that the header and the rows of a table are read from. -/
theorem exists_records {bytes : List UInt8} {names : List String} {rows : List Row} {r : Row}
    {after : List (Except EncodingError Row)} (hheader : (Table.ofBytes bytes).header = .ok names)
    (hrows : (Table.ofBytes bytes).rows = rows.map .ok ++ .ok r :: after) :
    ∃ first front record back, Record.ofBytes bytes = first :: (front ++ record :: back) ∧
      first.fields = names.map textBytes ∧
      List.Forall₂ (fun record r => Row.ofRecord record = .ok r) front rows ∧
        Row.ofRecord record = .ok r := by
  unfold Table.ofBytes at hheader hrows
  cases hb : Record.ofBytes bytes with
  | nil =>
    rw [hb] at hrows
    simp at hrows
  | cons first records =>
    rw [hb] at hheader hrows
    obtain ⟨front, rest, rfl, hfront, hrest⟩ := List.map_eq_append_iff.mp hrows
    obtain ⟨record, back, rfl, hrecord, _⟩ := List.map_eq_cons_iff.mp hrest
    rw [← List.forall₂_eq_eq_eq, List.forall₂_map_left_iff, List.forall₂_map_right_iff] at hfront
    exact ⟨first, front, record, back, rfl, eq_textBytes_of_decodeFields hheader, hfront, hrecord⟩

/-- Errors about rows are located by all checks that name lines. -/
theorem exists_located {α : Type} {S : Checks α} {bytes : List UInt8} {sources : List Source}
    (hlines : S.NamesLine) (hparts : Parts (withoutMark bytes) sources) {e : ImportError} {line : ℕ}
    (hends : S.Ends (.ofBytes bytes) (.error e)) (hline : e.line? = some line) :
    ∃ p : Place sources, p.Located S bytes e line := by
  cases hends with
  | header => cases hline
  | columns => cases hline
  | encoding => cases hline
  | @refused names rows r after _ hheader hcolumns hrows hpassed hr he =>
    obtain ⟨first, front, record, back, hrecords, hfirst, hfront, hrecord⟩ :=
      exists_records hheader hrows
    rw [ofBytes_of_parts hparts] at hrecords
    have hplaced : placed ⟨0, 1, 0⟩ (markLength bytes) sources =
        (first :: front) ++ record :: back := hrecords
    obtain ⟨before, s, behind, hsources, hfields, hbefore, hposition⟩ := exists_of_placed hplaced
    obtain ⟨hrowline, texts, htexts, hcells⟩ := holds_of_ofRecord hrecord
    cases hbefore with
    | @cons header _ others _ hheaderfields hothers =>
    obtain ⟨rest, hrest⟩ := (hsources ▸ hparts).split
    have hgiven : line = lineAfter ((header :: others).flatMap Source.bytes) := by
      have hrline := hlines.line_of_refused he
      rw [hline, Option.some.injEq] at hrline
      rw [hrline, hrowline, hposition]
      rfl
    refine ⟨⟨header, others, s, behind, hsources⟩, ?_⟩
    constructor
    · exact ⟨names, rows, r, hheaderfields ▸ hfirst, hcolumns, forall₂_holds hothers hfront,
        hpassed, ⟨texts, hfields ▸ htexts, hcells⟩, hr, he⟩
    · exact ImportError.chain_of_line hline
    · exact ⟨rest, hrest⟩
    · exact hgiven
    · rw [hgiven, lineAfter, lineAfter, lineFeeds_append, Nat.add_assoc]
      rfl

def Checks.LocatesErrors {α β : Type} (S : Checks α) (bytes : List UInt8) (sources : List Source)
    (result : Except ImportError β) : Prop :=
  ∀ e line, result = .error e → e.line? = some line → ∃ p : Place sources, p.Located S bytes e line

/-- Every file is made of rows, and an error about one of them gives the line on which the row
before it ended. -/
theorem errors_name_lines (bytes : List UInt8) (column : String) :
    (∃ sources, Parts (withoutMark bytes) sources) ∧
    ∀ sources, Parts (withoutMark bytes) sources →
      paymentChecks.LocatesErrors bytes sources (payments bytes) ∧
      rateChecks.LocatesErrors bytes sources (rates bytes) ∧
      currencyChecks.LocatesErrors bytes sources (currencies bytes) ∧
      (dateChecks (columnName column)).LocatesErrors bytes sources (dates bytes column) := by
  refine ⟨exists_parts _ rfl, fun sources hparts => ⟨?_, ?_, ?_, ?_⟩⟩
  · intro e line he hline
    rw [payments_eq, readTable_iff payment_readBy] at he
    exact exists_located paymentChecks_namesLine hparts he hline
  · intro e line he hline
    rw [rates_eq, readTable_iff rateRow_readBy] at he
    exact exists_located rateChecks_namesLine hparts he hline
  · intro e line he hline
    rw [currencies_eq, readTable_iff currency_readBy] at he
    exact exists_located currencyChecks_namesLine hparts he hline
  · intro e line he hline
    rw [dates_eq, map_eq_error_iff, readTable_iff (dateIn_readBy _)] at he
    exact exists_located (dateChecks_namesLine _) hparts he hline

def crlfFile : List UInt8 :=
  textBytes "amount,currency,payment_date\r\n-1,USD,2024-01-10\r\n"

def crlfHeader : Source :=
  ⟨[], .plain (textBytes "amount"),
    [.plain (textBytes "currency"), .plain (textBytes "payment_date")],
    [carriageReturn]⟩

def crlfRow : Source :=
  ⟨[lineFeed], .plain (textBytes "-1"), [.plain (textBytes "USD"), .plain (textBytes "2024-01-10")],
    [carriageReturn]⟩

theorem parts_crlfFile : Parts (withoutMark crlfFile) [crlfHeader, crlfRow] := by
  have hsplit : withoutMark crlfFile = crlfHeader.bytes ++ (crlfRow.bytes ++ [lineFeed]) := by
    decide +kernel
  have hheader : crlfHeader.Valid :=
    ⟨nofun, by decide +kernel, by decide +kernel, by decide +kernel⟩
  have hrow : crlfRow.Valid :=
    ⟨List.all_eq_true.mp rfl, by decide +kernel, by decide +kernel, by decide +kernel⟩
  rw [hsplit]
  apply Parts.row hheader
  · exact ⟨by decide +kernel, carriageReturn, by decide, rfl⟩
  apply Parts.row hrow
  · exact ⟨by decide +kernel, carriageReturn, by decide, rfl⟩
  exact .blank (List.all_eq_true.mp rfl)

theorem payments_crlfFile :
    payments crlfFile = .error (.field 1 "amount" (.negativeAmount "-1")) := by
  decide +kernel

/-- The error about the only row after the header gives the line of the header. -/
theorem errors_name_lines_crlf :
    ∃ p : Place [crlfHeader, crlfRow],
      p.Located paymentChecks crlfFile (.field 1 "amount" (.negativeAmount "-1")) 1 := by
  obtain ⟨_, hlocates⟩ := errors_name_lines crlfFile "payment_date"
  exact (hlocates _ parts_crlfFile).1 _ _ payments_crlfFile rfl

/-- Where a line ends with two bytes the search for the next row begins before the second of them.
So the error about the row on the second line gives the first. -/
theorem crlf_error_line :
    payments crlfFile = .error (.field 1 "amount" (.negativeAmount "-1")) ∧
    lineAfter (crlfHeader.bytes ++ crlfRow.skipped) = 2 ∧
    ¬ ∀ bytes sources e line, Parts (withoutMark bytes) sources → payments bytes = .error e →
      e.line? = some line → ∃ p : Place sources, p.Refused paymentChecks e ∧
        line = lineAfter (p.before ++ p.row.skipped) := by
  have hsecond : lineAfter (crlfHeader.bytes ++ crlfRow.skipped) = 2 := by decide +kernel
  refine ⟨payments_crlfFile, hsecond, fun h => ?_⟩
  obtain ⟨⟨header, front, row, back, hsplit⟩, _, hline⟩ :=
    h _ _ _ _ parts_crlfFile payments_crlfFile rfl
  cases front with
  | nil =>
    cases hsplit
    exact absurd (hline.trans hsecond) (by decide)
  | cons other front => simp at hsplit

end TrailingYear
