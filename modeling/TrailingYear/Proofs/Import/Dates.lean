import TrailingYear.Import
import TrailingYear.Proofs.Import.RoundTrip

/-! # Reading a column of dates

Dates are read from the last column with the name that is asked for, whatever the others hold. A
cell may hold a time after its date: it is cut off at a byte, but never inside a character. -/

namespace TrailingYear

open Import

/-- The characters of a text, each with the number of bytes before it. -/
def charOffsets (before : ℕ) : List Char → List (ℕ × Char)
  | [] => []
  | c :: cs => (before, c) :: charOffsets (before + c.utf8Size) cs

theorem getElem?_charOffsets (before : ℕ) (cs : List Char) (i : ℕ) :
    (charOffsets before cs)[i]? =
      cs[i]?.map fun c => (before + (Utf8.encode (cs.take i)).length, c) := by
  induction cs generalizing before i with
  | nil => rfl
  | cons c cs ih =>
    cases i with
    | zero => rfl
    | succ i =>
      have hlength : (Utf8.encode ((c :: cs).take (i + 1))).length =
          c.utf8Size + (Utf8.encode (cs.take i)).length := by
        rw [List.take_succ_cons, Utf8.encode_cons, List.length_append, String.length_utf8EncodeChar]
      simp only [charOffsets, List.getElem?_cons_succ, ih, hlength, Nat.add_assoc]

/-- The byte at which a time begins: that of the eleventh character, if it is one
that may stand there. -/
def timeOffset? (text : String) : Option ℕ :=
  match (charOffsets 0 text.toList)[10]? with
  | some (offset, 'T') | some (offset, ' ') => some offset
  | _ => none

structure IsCut (text part : String) : Prop where
  whole : timeOffset? text = none → part = text
  bytes : ∀ offset, timeOffset? text = some offset → textBytes part = (textBytes text).take offset
  boundary : ∀ offset, timeOffset? text = some offset → (⟨offset⟩ : String.Pos.Raw).IsValid text

theorem length_textBytes (text : String) : (textBytes text).length = text.utf8ByteSize := by
  have hbytes : (String.ofList text.toList).toByteArray = (textBytes text).toByteArray :=
    String.toByteArray_ofList
  rw [String.ofList_toList] at hbytes
  rw [← String.size_toByteArray, hbytes, List.size_toByteArray]

namespace Import

theorem datePart_of_mark {text : String} {mark : Char} (h : text.toList[10]? = some mark)
    (hm : mark = 'T' ∨ mark = ' ') : datePart text = String.ofList (text.toList.take 10) := by
  rw [datePart, h]
  rcases hm with rfl | rfl <;> rfl

theorem datePart_of_no_mark {text : String}
    (h : ∀ mark, text.toList[10]? = some mark → mark ≠ 'T' ∧ mark ≠ ' ') :
    datePart text = text := by
  unfold datePart
  split
  · exact absurd rfl (h _ ‹_›).1
  · exact absurd rfl (h _ ‹_›).2
  · rfl

theorem timeOffset?_eq (text : String) :
    timeOffset? text = (text.toList[10]?.filter fun mark => mark = 'T' ∨ mark = ' ').map fun _ =>
      (textBytes (String.ofList (text.toList.take 10))).length := by
  rw [timeOffset?, getElem?_charOffsets, Nat.zero_add, textBytes, String.toList_ofList]
  cases text.toList[10]? with
  | none => rfl
  | some mark =>
    by_cases hT : mark = 'T'
    · subst hT
      rfl
    by_cases hspace : mark = ' '
    · subst hspace
      rfl
    simp [hT, hspace]

theorem isCut_datePart (text : String) : IsCut text (datePart text) := by
  have hcut : ∀ offset, timeOffset? text = some offset →
      datePart text = String.ofList (text.toList.take 10) ∧
        (textBytes (datePart text)).length = offset := by
    intro offset h
    rw [timeOffset?_eq, Option.map_eq_some_iff] at h
    obtain ⟨mark, hmark, rfl⟩ := h
    rw [Option.filter_eq_some_iff, decide_eq_true_eq] at hmark
    have hpart := datePart_of_mark hmark.1 hmark.2
    exact ⟨hpart, congrArg (fun part => (textBytes part).length) hpart⟩
  have hsplit : ∀ offset, timeOffset? text = some offset →
      text = datePart text ++ String.ofList (text.toList.drop 10) := by
    intro offset h
    rw [(hcut offset h).1, ← String.ofList_append, List.take_append_drop, String.ofList_toList]
  constructor
  · intro h
    apply datePart_of_no_mark
    intro mark hmark
    simpa [timeOffset?_eq, hmark] using h
  · intro offset h
    have hbytes :
        textBytes text = textBytes (datePart text) ++ Utf8.encode (text.toList.drop 10) := by
      conv_lhs => rw [textBytes, hsplit offset h, String.toList_append, Utf8.encode_append]
      rw [String.toList_ofList]
      rfl
    rw [hbytes, ← (hcut offset h).2, List.take_left]
  · intro offset h
    refine String.Pos.Raw.isValid_iff_exists_append.mpr ⟨_, _, hsplit offset h, ?_⟩
    rw [← (hcut offset h).2, length_textBytes]
    rfl

end Import

/-- What a cell of dates may hold: nothing, the text of a day, or such a text
with a time after it. -/
inductive HoldsDate : String → Option Date → Prop where
  | blank {cell : String} (h : ∀ c ∈ cell.toList, isBlank c) : HoldsDate cell none
  | day {d : Date} (h : 0 ≤ d.year ∧ d.year ≤ 9999) : HoldsDate d.toText (some d)
  | timed {d : Date} (h : 0 ≤ d.year ∧ d.year ≤ 9999) {mark : String} (hm : mark = "T" ∨ mark = " ")
    (time : String) : HoldsDate (d.toText ++ mark ++ time) (some d)

/-- The text of a day with a year of four digits has ten characters. -/
theorem Date.length_toChars {d : Date} (h : 0 ≤ d.year ∧ d.year ≤ 9999) :
    d.toChars.length = 10 := by
  obtain ⟨hmonth, hday⟩ := d.valid.2
  have hlength := monthLength_bounds d.year d.month
  have hyear : (yearChars d.year).length = 4 := by
    rw [yearChars, if_neg (by omega), if_neg (by omega)]
    exact length_padded (by omega) (by decide)
  have hmonth' : (twoDigits d.month).length = 2 := length_padded (by omega) (by decide)
  have hday' : (twoDigits d.day).length = 2 := length_padded (by omega) (by decide)
  simp [toChars, hyear, hmonth', hday']

namespace Import

/-- Of a cell with the text of a day the blanks at the end may be taken off, and no more than what
follows that text is lost. -/
theorem datePart_trim {d : Date} (h : 0 ≤ d.year ∧ d.year ≤ 9999) {cell : String} {rest : List Char}
    (hcell : cell.toList = d.toChars ++ rest)
    (hrest : ∀ mark ∈ rest.head?, mark = 'T' ∨ mark = ' ') :
    trim cell ≠ "" ∧ datePart (trim cell) = d.toText := by
  have hlength := Date.length_toChars h
  have hne : d.toChars ≠ [] := List.ne_nil_of_length_pos (by omega)
  have hvisible : ∀ c ∈ d.toChars, isBlank c = false := by
    intro c hc
    apply Date.not_isBlank_of_mem_toText (d := d)
    rwa [Date.toText, String.toList_ofList]
  obtain ⟨kept, htrim, hkept⟩ := trimWith_append_of_none hne hvisible rest
  rw [← hcell, ← toList_trim] at htrim
  have hmark : ∀ mark, (trim cell).toList[10]? = some mark → mark = 'T' ∨ mark = ' ' := by
    intro mark hget
    apply hrest
    rw [htrim, List.getElem?_append_right hlength.le, hlength] at hget
    obtain ⟨after, rfl⟩ := hkept
    cases kept with
    | nil => cases hget
    | cons c kept => exact hget
  have htake : (trim cell).toList.take 10 = d.toChars := by rw [htrim, ← hlength, List.take_left]
  constructor
  · intro hempty
    rw [hempty] at htake
    exact hne htake.symm
  · cases hget : (trim cell).toList[10]? with
    | some mark => rw [datePart_of_mark hget (hmark mark hget), htake, Date.toText]
    | none =>
      have hwhole : (trim cell).toList.take 10 = (trim cell).toList :=
        List.take_of_length_le (List.getElem?_eq_none_iff.mp hget)
      rw [datePart_of_no_mark (by simp [hget]), Date.toText, ← htake, hwhole, String.ofList_toList]

theorem dateIn_of_text {c : Columns} {column : String} {r : Row} {cell : String}
    (hcell : c.cell r.cells column = trim cell) {d : Date} (h : 0 ≤ d.year ∧ d.year ≤ 9999)
    {rest : List Char} (htext : cell.toList = d.toChars ++ rest)
    (hrest : ∀ mark ∈ rest.head?, mark = 'T' ∨ mark = ' ') :
    dateIn c column r = .ok (some d) := by
  obtain ⟨hne, hpart⟩ := datePart_trim h htext hrest
  have hread : check c r column (fun text => Field.date (datePart text)) = .ok d := by
    rw [check_eq_ok_iff, hcell, hpart, Field.date, Date.ofText_toText]
    rfl
  simp only [dateIn, hcell, if_neg hne, hread]
  rfl

theorem dateIn_of_holds {c : Columns} {column : String} {r : Row} {cell : String}
    (hcell : c.cell r.cells column = trim cell) {value : Option Date} (h : HoldsDate cell value) :
    dateIn c column r = .ok value := by
  cases h with
  | blank h => exact if_pos (hcell.trans (trim_of_blank h))
  | @day d h =>
    have htext : d.toText.toList = d.toChars ++ [] := by simp [Date.toText]
    exact dateIn_of_text hcell h htext (by simp)
  | @timed d h mark hm time =>
    have htext : (d.toText ++ mark ++ time).toList = d.toChars ++ (mark.toList ++ time.toList) := by
      simp [Date.toText]
    apply dateIn_of_text hcell h htext
    rcases hm with rfl | rfl <;> simp

end Import

def cellAt (row : List String) (i : ℕ) : String := row[i]?.getD ""

/-- The last column with the name that is asked for, but for blanks at the ends and
the case of letters. -/
structure IsLastNamed (header : List String) (column : String) (i : ℕ) : Prop where
  named : ∃ name, header[i]? = some name ∧ columnName name = columnName column
  last : ∀ j name, i < j → header[j]? = some name → columnName name ≠ columnName column

theorem exists_isLastNamed_iff {header : List String} {column : String} :
    (∃ i, IsLastNamed header column i) ↔ ∃ name ∈ header, columnName name = columnName column := by
  constructor
  · rintro ⟨i, ⟨name, hget, hname⟩, -⟩
    exact ⟨name, List.mem_of_getElem? hget, hname⟩
  · intro h
    induction header with
    | nil => simp at h
    | cons first header ih =>
      by_cases hrest : ∃ name ∈ header, columnName name = columnName column
      · obtain ⟨i, hi⟩ := ih hrest
        refine ⟨i + 1, hi.named, fun j name hj hget => ?_⟩
        cases j with
        | zero => omega
        | succ j => exact hi.last j name (by omega) hget
      · obtain ⟨name, hmem, hname⟩ := h
        have hfirst : columnName first = columnName column := by
          rcases List.mem_cons.mp hmem with rfl | hmem
          · exact hname
          · exact absurd ⟨name, hmem, hname⟩ hrest
        refine ⟨0, ⟨first, rfl, hfirst⟩, fun j name hj hget heq => ?_⟩
        cases j with
        | zero => omega
        | succ j => exact hrest ⟨name, List.mem_of_getElem? hget, heq⟩

theorem IsLastNamed.index? {header : List String} {column : String} {i : ℕ}
    (h : IsLastNamed header column i) :
    (Columns.ofHeader header).index? (columnName column) = some i := by
  apply Columns.indexIn_of_last
  · obtain ⟨name, hget, hname⟩ := h.named
    show (header.map columnName)[i]? = _
    rw [List.getElem?_map, hget, Option.map_some, hname]
  · intro j hj hget
    change (header.map columnName)[j]? = _ at hget
    obtain ⟨name, hname, heq⟩ := Option.map_eq_some_iff.mp (List.getElem?_map.symm.trans hget)
    exact h.last j name hj hname heq

namespace Import

variable {header : List String} {rows : List (List String)} {column : String}

theorem collect_dates {c : Columns} {name : String} {i : ℕ} (hi : c.index? name = some i)
    {values : List (Option Date)}
    (h : List.Forall₂ (fun row value => HoldsDate (cellAt row i) value) rows values)
    {read : List Row}
    (hread : List.Forall₂ (fun (r : Row) (cells : List String) => r.cells = cells.map trim) read
      (rows.filter (· ≠ []))) :
    collect (dateIn c name) (read.map .ok) = .ok (values.filterMap id) := by
  induction h generalizing read with
  | nil =>
    cases hread
    rfl
  | @cons row value rows values hvalue _ ih =>
    have hdate : ∀ r : Row, r.cells = row.map trim → dateIn c name r = .ok value := by
      intro r hr
      exact dateIn_of_holds (hr ▸ Columns.cell_of_index hi row) hvalue
    have hvalues : (value :: values).filterMap id = value.toList ++ values.filterMap id := by
      cases value <;> rfl
    rw [hvalues]
    by_cases hrow : row = []
    · -- There is no row in the file to look for a date in, and there would be none in it.
      subst hrow
      have hnone : dateIn c name ⟨0, []⟩ = .ok none :=
        if_pos (c.cell_of_isBlank (by simp [Row.IsBlank]) name)
      cases hnone.symm.trans (hdate ⟨0, []⟩ rfl)
      exact ih (by simpa using hread)
    · rw [List.filter_cons_of_pos (by simpa using hrow)] at hread
      cases hread with
      | cons hr hrest => exact collect_cons (hdate _ hr) (ih hrest)

theorem dates_of_cells {i : ℕ} (hi : IsLastNamed header column i) {values : List (Option Date)}
    (h : List.Forall₂ (fun row value => HoldsDate (cellAt row i) value) rows values) :
    dates (Table.toBytes (header :: rows)) column = .ok (values.filterMap id) := by
  obtain ⟨name, hget, hname⟩ := hi.named
  have hheader : header ≠ [] := List.ne_nil_of_mem (List.mem_of_getElem? hget)
  have hcolumns : ∀ required ∈ [columnName column], required ∈ (Columns.ofHeader header).names := by
    intro required hrequired
    rw [List.mem_singleton.mp hrequired, ← hname]
    exact List.mem_map_of_mem (List.mem_of_getElem? hget)
  obtain ⟨read, hholds, hread⟩ := Table.holds_toBytes hheader rows
  rw [dates, columns_of_holds hholds hcolumns]
  show collect (dateIn (.ofHeader header) (columnName column)) (Table.ofBytes _).rows = _
  rw [hholds]
  exact collect_dates hi.index? h hread

theorem dates_of_no_column (h : ∀ name ∈ header, columnName name ≠ columnName column)
    (hrows : header = [] → ∀ row ∈ rows, row = []) :
    dates (Table.toBytes (header :: rows)) column =
      .error (.missingColumns [columnName column]) := by
  have hmissing : (Columns.ofHeader header).missing [columnName column] = [columnName column] := by
    have hnot : columnName column ∉ (Columns.ofHeader header).names := by
      intro hmem
      obtain ⟨name, hname, heq⟩ := List.mem_map.mp hmem
      exact h name hname heq
    simp [Columns.missing, hnot]
  rw [dates, columns_of_header _ (Table.header_toBytes hrows), require, hmissing]
  rfl

/-- From the last column with the name that is asked for all dates are read, in the order of the
rows and whatever the other columns hold. Without such a column nothing is read. A time is cut off
between two characters. -/
theorem dates_of_last_column (header : List String) (rows : List (List String)) (column : String) :
    ((∃ i, IsLastNamed header column i) ↔ ∃ name ∈ header, columnName name = columnName column) ∧
    (∀ i values, IsLastNamed header column i →
      List.Forall₂ (fun row value => HoldsDate (cellAt row i) value) rows values →
      dates (Table.toBytes (header :: rows)) column = .ok (values.filterMap id)) ∧
    ((∀ name ∈ header, columnName name ≠ columnName column) →
      (header = [] → ∀ row ∈ rows, row = []) →
      dates (Table.toBytes (header :: rows)) column =
        .error (.missingColumns [columnName column])) ∧
    ∀ text, IsCut text (datePart text) :=
  ⟨exists_isLastNamed_iff, fun _ _ hi h => dates_of_cells hi h, dates_of_no_column, isCut_datePart⟩

def dealRows : List (List String) :=
  [["1", "soon", "2024-02-29T12:30 ½é"], ["2"], [], ["3", "2020-01-01", " \t"],
    ["4", "", "0009-12-31 "]]

theorem dates_of_last_column_deals :
    dates (Table.toBytes (["id", "Created", " CREATED "] :: dealRows)) "created\t" =
        .ok [⟨2024, 2, 29, by decide⟩, ⟨9, 12, 31, by decide⟩] ∧
      dates (Table.toBytes (["id", "Created", " CREATED "] :: dealRows)) "closed" =
        .error (.missingColumns ["closed"]) := by
  obtain ⟨-, hread, -, -⟩ :=
    dates_of_last_column ["id", "Created", " CREATED "] dealRows "created\t"
  obtain ⟨-, -, hmissing, -⟩ :=
    dates_of_last_column ["id", "Created", " CREATED "] dealRows "closed"
  have hlast : IsLastNamed ["id", "Created", " CREATED "] "created\t" 2 := by
    refine ⟨⟨" CREATED ", rfl, by decide +kernel⟩, fun j name hj hget => ?_⟩
    rw [List.getElem?_eq_none (by simp; omega)] at hget
    cases hget
  have htext : (⟨2024, 2, 29, by decide⟩ : Date).toText ++ "T" ++ "12:30 ½é" =
      "2024-02-29T12:30 ½é" := by
    decide +kernel
  have htext' : (⟨9, 12, 31, by decide⟩ : Date).toText ++ " " ++ "" = "0009-12-31 " := by
    decide +kernel
  have hnone : ∀ cell, cell.toList.all isBlank → HoldsDate cell none :=
    fun cell h => .blank (List.all_eq_true.mp h)
  have hcells : List.Forall₂ (fun row value => HoldsDate (cellAt row 2) value) dealRows
      [some ⟨2024, 2, 29, by decide⟩, none, none, none, some ⟨9, 12, 31, by decide⟩] := by
    refine .cons ?_
      (.cons (hnone "" rfl) (.cons (hnone "" rfl) (.cons (hnone " \t" rfl) (.cons ?_ .nil))))
    · exact htext ▸ .timed (by decide) (.inl rfl) "12:30 ½é"
    · exact htext' ▸ .timed (by decide) (.inr rfl) ""
  exact ⟨hread 2 _ hlast hcells, hmissing (by decide +kernel) nofun⟩

end Import
end TrailingYear
