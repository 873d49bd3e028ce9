import TrailingYear.Table
import TrailingYear.Proofs.Table.Layout
import TrailingYear.Proofs.Table.Rows

/-! # Reading back tables

The rows of a written file are those that were written, but for rows without cells. All their
cells stand in quotes and a line feed ends each of them. -/

namespace TrailingYear
namespace Record

def writtenCell (cell : String) : Cell := .quoted (textBytes cell) []

def writtenRow : List String → Source
  | [] => ⟨[], .plain [], [], [lineFeed]⟩
  | cell :: cells => ⟨[], writtenCell cell, cells.map writtenCell, [lineFeed]⟩

theorem bytes_writtenCell (cell : String) : (writtenCell cell).bytes = Table.cellBytes cell := rfl

theorem cellsBytes_eq (cells : List String) :
    Table.cellsBytes cells = (cells.map writtenCell).flatMap (comma :: ·.bytes) ++ [lineFeed] := by
  induction cells with
  | nil => rfl
  | cons cell cells ih =>
    rw [Table.cellsBytes, ih, List.map_cons, List.flatMap_cons, bytes_writtenCell,
      List.append_assoc]

theorem bytes_writtenRow {cells : List String} (hne : cells ≠ []) :
    (writtenRow cells).bytes = Table.rowBytes cells := by
  cases cells with
  | nil => exact absurd rfl hne
  | cons cell cells =>
    rw [Table.rowBytes, cellsBytes_eq, ← bytes_writtenCell, ← List.append_assoc]
    rfl

theorem fields_writtenRow {cells : List String} (hne : cells ≠ []) :
    (writtenRow cells).fields = cells.map textBytes := by
  cases cells with
  | nil => exact absurd rfl hne
  | cons cell cells => simp [writtenRow, Source.fields, writtenCell, Cell.content]

theorem ended_writtenRow {cells : List String} (hne : cells ≠ []) : (writtenRow cells).Ended := by
  cases cells with
  | nil => exact absurd rfl hne
  | cons cell cells =>
    refine ⟨?_, lineFeed, by decide, rfl⟩
    intro written hwritten
    obtain ⟨text, _, rfl⟩ :=
      List.mem_map.mp (show written ∈ (cell :: cells).map writtenCell from hwritten)
    trivial

theorem valid_writtenRow {cells : List String} (hne : cells ≠ []) : (writtenRow cells).Valid := by
  have hclosed := (ended_writtenRow hne).closed
  cases cells with
  | nil => exact absurd rfl hne
  | cons cell cells =>
    refine ⟨nofun, nofun, ?_, fun written h => hclosed written (List.dropLast_subset _ h)⟩
    intro written hwritten
    obtain ⟨text, _, rfl⟩ :=
      List.mem_map.mp (show written ∈ (cell :: cells).map writtenCell from hwritten)
    exact ⟨nofun, nofun⟩

/-- Line ends before a row are passed over. -/
def Source.after (skipped : List UInt8) (s : Source) : Source :=
  { s with skipped := skipped ++ s.skipped }

theorem Source.bytes_after (skipped : List UInt8) (s : Source) :
    (s.after skipped).bytes = skipped ++ s.bytes := by
  simp [Source.bytes, Source.after, Source.text]

theorem Source.Valid.after {s : Source} (h : s.Valid) {skipped : List UInt8}
    (hs : ∀ b ∈ skipped, isLineEnd b) : (s.after skipped).Valid :=
  ⟨List.forall_mem_append.mpr ⟨hs, h.skipped⟩, h.text_ne_nil, h.cells, h.closed⟩

/-- A row without cells is an empty line, which is passed over before the next row. -/
theorem exists_parts_toBytes {skipped : List UInt8} (hs : ∀ b ∈ skipped, isLineEnd b)
    (rows : List (List String)) :
    ∃ sources, Parts (skipped ++ Table.toBytes rows) sources ∧
      sources.map Source.fields = (rows.filter (· ≠ [])).map (·.map textBytes) := by
  induction rows generalizing skipped with
  | nil => exact ⟨[], .blank (by simpa [Table.toBytes] using hs), rfl⟩
  | cons row rows ih =>
    by_cases hrow : row = []
    · have hs' : ∀ b ∈ skipped ++ [lineFeed], isLineEnd b :=
        List.forall_mem_append.mpr ⟨hs, List.forall_mem_singleton.mpr (by decide)⟩
      obtain ⟨sources, hparts, hfields⟩ := ih hs'
      rw [List.append_assoc] at hparts
      subst hrow
      exact ⟨sources, hparts, by simpa using hfields⟩
    · obtain ⟨sources, hparts, hfields⟩ := ih (List.forall_mem_nil _)
      have hended := ended_writtenRow hrow
      have hall :=
        Parts.row ((valid_writtenRow hrow).after hs) ⟨hended.closed, hended.ending⟩ hparts
      rw [Source.bytes_after, bytes_writtenRow hrow, List.append_assoc] at hall
      refine ⟨_, hall, ?_⟩
      rw [List.filter_cons_of_pos (by simpa using hrow), List.map_cons, List.map_cons, hfields]
      exact congrArg (· :: _) (fields_writtenRow hrow)

/-- A written file starts with a quote or a line feed, and so not with a byte order mark. -/
theorem markLength_toBytes (rows : List (List String)) : markLength (Table.toBytes rows) = 0 := by
  cases rows with
  | nil => rfl
  | cons row rows => cases row <;> rfl

/-- The records of a written file have the cells of its rows for fields. -/
theorem ofBytes_toBytes (rows : List (List String)) :
    List.Forall₂ Record.Has (ofBytes (Table.toBytes rows)) (rows.filter (· ≠ [])) := by
  obtain ⟨sources, hparts, hsources⟩ := exists_parts_toBytes (List.forall_mem_nil _) rows
  have hparts' : Parts (withoutMark (Table.toBytes rows)) sources := by
    rw [withoutMark, markLength_toBytes rows]
    exact hparts
  have hfields : (ofBytes (Table.toBytes rows)).map (·.fields) =
      (rows.filter (· ≠ [])).map (·.map textBytes) := by
    rw [ofBytes_of_parts hparts', fields_placed, hsources]
  rw [← List.forall₂_eq_eq_eq, List.forall₂_map_left_iff, List.forall₂_map_right_iff] at hfields
  exact hfields

end Record

namespace Table

theorem forall₂_cells {records : List Record} {rows : List (List String)}
    (h : List.Forall₂ Record.Has records rows) :
    List.Forall₂ (fun (r : Row) (cells : List String) => r.cells = cells.map trim)
      (List.zipWith (fun (r : Record) texts => ⟨r.position.line, texts.map trim⟩) records rows)
        rows := by
  induction h with
  | nil => exact .nil
  | cons _ _ ih => exact .cons rfl ih

/-- The table of a written file has the cells that were written, without the
blanks at their ends. -/
theorem holds_toBytes {header : List String} (hh : header ≠ []) (rows : List (List String)) :
    ∃ read, Holds (toBytes (header :: rows)) header read ∧
      List.Forall₂ (fun (r : Row) (cells : List String) => r.cells = cells.map trim) read
        (rows.filter (· ≠ [])) := by
  have hrecords := Record.ofBytes_toBytes (header :: rows)
  rw [List.filter_cons_of_pos (by simpa using hh)] at hrecords
  cases hb : Record.ofBytes (toBytes (header :: rows)) with
  | nil =>
    rw [hb] at hrecords
    cases hrecords
  | cons record records =>
    rw [hb] at hrecords
    cases hrecords with
    | cons hrecord hrest => exact ⟨_, holds_of_texts hb hrecord hrest, forall₂_cells hrest⟩

/-- The header is read as it was written, unless there are no columns but cells in a row. -/
theorem header_toBytes {header : List String} {rows : List (List String)}
    (h : header = [] → ∀ row ∈ rows, row = []) :
    (ofBytes (toBytes (header :: rows))).header = .ok header := by
  by_cases hh : header = []
  · have hrecords := Record.ofBytes_toBytes (header :: rows)
    have hnone : (header :: rows).filter (· ≠ []) = [] := by
      simpa [List.filter_eq_nil_iff, hh] using h hh
    rw [hnone, List.forall₂_nil_right_iff] at hrecords
    rw [ofBytes, hrecords, hh]
  · obtain ⟨read, hread, -⟩ := holds_toBytes hh rows
    rw [hread]

end Table
end TrailingYear
