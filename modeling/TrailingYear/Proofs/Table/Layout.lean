import Mathlib.Data.List.Forall2
import Mathlib.Data.List.TakeWhile
import TrailingYear.Table

/-! # The layout of a file

A file is a sequence of rows. Before a row stand the line ends that are passed over to find it,
and a single byte ends it. Each row is a sequence of cells with commas between them, and each cell
stands in quotes or does not. Every file has such a layout, and its records are the rows in order,
each placed where the row before it ended. -/

namespace TrailingYear
namespace Record

/-- A cell without quotes, one in quotes with what follows them, or one in quotes
that are not closed. -/
inductive Cell where
  | plain (text : List UInt8)
  | quoted (content tail : List UInt8)
  | unclosed (content : List UInt8)
  deriving DecidableEq, Repr

def doubled (content : List UInt8) : List UInt8 :=
  content.flatMap fun b => if b = quote then [quote, quote] else [b]

structure IsPlain (bytes : List UInt8) : Prop where
  head : bytes.head? ≠ some quote
  inner : ∀ b ∈ bytes, b ≠ comma ∧ isLineEnd b = false

instance (bytes : List UInt8) : Decidable (IsPlain bytes) :=
  decidable_of_iff (bytes.head? ≠ some quote ∧ bytes.all fun b => b ≠ comma && !isLineEnd b)
    ⟨fun h => ⟨h.1, fun b hb => by simpa using List.all_eq_true.mp h.2 b hb⟩,
      fun h => ⟨h.head, List.all_eq_true.mpr fun b hb => by simpa using h.inner b hb⟩⟩

namespace Cell

def bytes : Cell → List UInt8
  | plain text => text
  | quoted content tail => quote :: (doubled content ++ quote :: tail)
  | unclosed content => quote :: doubled content

def content : Cell → List UInt8
  | plain text => text
  | quoted content tail => content ++ tail
  | unclosed content => content

def Valid : Cell → Prop
  | plain text => IsPlain text
  | quoted _ tail => IsPlain tail
  | unclosed _ => True

def IsClosed : Cell → Prop
  | unclosed _ => False
  | _ => True

instance : ∀ cell : Cell, Decidable cell.Valid
  | plain text => inferInstanceAs (Decidable (IsPlain text))
  | quoted _ tail => inferInstanceAs (Decidable (IsPlain tail))
  | unclosed _ => .isTrue trivial

instance : ∀ cell : Cell, Decidable cell.IsClosed
  | plain _ => .isTrue trivial
  | quoted _ _ => .isTrue trivial
  | unclosed _ => .isFalse id

end Cell

structure Source where
  skipped : List UInt8
  first : Cell
  others : List Cell
  ending : List UInt8
  deriving DecidableEq, Repr

namespace Source

def text (s : Source) : List UInt8 := s.first.bytes ++ s.others.flatMap (comma :: ·.bytes)

def bytes (s : Source) : List UInt8 := s.skipped ++ s.text ++ s.ending

def fields (s : Source) : List (List UInt8) := s.first.content :: s.others.map Cell.content

structure Valid (s : Source) : Prop where
  skipped : ∀ b ∈ s.skipped, isLineEnd b
  text_ne_nil : s.text ≠ []
  cells : ∀ cell ∈ s.first :: s.others, cell.Valid
  closed : ∀ cell ∈ (s.first :: s.others).dropLast, cell.IsClosed

structure Ended (s : Source) : Prop where
  closed : ∀ cell ∈ s.first :: s.others, cell.IsClosed
  ending : ∃ b, isLineEnd b ∧ s.ending = [b]

end Source

inductive Parts : List UInt8 → List Source → Prop where
  | blank {skipped : List UInt8} (h : ∀ b ∈ skipped, isLineEnd b) : Parts skipped []
  | last {s : Source} (hs : s.Valid) (hend : s.ending = []) : Parts s.bytes [s]
  | row {s : Source} {rest : List UInt8} {sources : List Source} (hs : s.Valid) (hend : s.Ended)
    (hrest : Parts rest sources) : Parts (s.bytes ++ rest) (s :: sources)

def lineFeeds (bytes : List UInt8) : Nat := bytes.count lineFeed

theorem lineFeeds_append (as bs : List UInt8) :
    lineFeeds (as ++ bs) = lineFeeds as + lineFeeds bs :=
  List.count_append

namespace Scanner

/-- The scanner after more bytes of a cell, of which it keeps `taken`. -/
def along (s : Scanner) (phase : Phase) (taken bytes : List UInt8) : Scanner :=
  { s with
    phase := phase
    field := taken.reverse ++ s.field
    line := s.line + lineFeeds bytes
    byte := s.byte + bytes.length }

variable {s : Scanner} {b : UInt8}

theorem along_along (s : Scanner) (phase phase' : Phase) (taken taken' bytes bytes' : List UInt8) :
    (s.along phase taken bytes).along phase' taken' bytes' =
      s.along phase' (taken ++ taken') (bytes ++ bytes') := by
  simp only [along, List.reverse_append, List.append_assoc, lineFeeds_append, List.length_append,
    Nat.add_assoc]

theorem count_eq (s : Scanner) (b : UInt8) : s.count b = s.along s.phase [] [b] := by
  unfold count along lineFeeds
  by_cases hb : b = lineFeed <;> simp [hb]

theorem step_eq (s : Scanner) (b : UInt8) : s.step b = (s.along s.phase [] [b]).advance b := by
  rw [step, count_eq]

/-- Outside quotes a byte that opens none, and is not passed over, is a plain one. -/
theorem step_eq_plainByte (hp : s.phase ≠ .quoted) (hq : b = quote → s.phase = .plain)
    (hend : isLineEnd b → s.phase ≠ .between) :
    s.step b = (s.along s.phase [] [b]).plainByte b := by
  rw [step_eq]
  unfold advance
  cases hphase : s.phase with
  | between =>
    have hline : ¬ isLineEnd b := fun h => hend h hphase
    have hquote : b ≠ quote := fun h => by simp [hq h] at hphase
    exact (if_neg hline).trans (if_neg hquote)
  | start =>
    have hquote : b ≠ quote := fun h => by simp [hq h] at hphase
    exact if_neg hquote
  | plain => rfl
  | quoted => exact absurd hphase hp
  | afterQuote =>
    have hquote : b ≠ quote := fun h => by simp [hq h] at hphase
    exact if_neg hquote

theorem step_kept (hp : s.phase ≠ .quoted) (hq : b = quote → s.phase = .plain)
    (hb : b ≠ comma ∧ isLineEnd b = false) : s.step b = s.along .plain [b] [b] := by
  rw [step_eq_plainByte hp hq (by simp [hb.2]), plainByte, if_neg hb.1, if_neg (by simp [hb.2])]
  rfl

theorem step_comma (hp : s.phase ≠ .quoted) :
    s.step comma = (s.along s.phase [] [comma]).endField := by
  rw [step_eq_plainByte hp (fun h => absurd h (by decide)) (fun h => absurd h (by decide)),
    plainByte, if_pos rfl]

theorem step_lineEnd (hp : s.phase ≠ .quoted) (hbetween : s.phase ≠ .between) (hb : isLineEnd b) :
    s.step b = (s.along s.phase [] [b]).endRecord := by
  have hquote : b ≠ quote := by
    rintro rfl
    exact absurd hb (by decide)
  have hcomma : b ≠ comma := by
    rintro rfl
    exact absurd hb (by decide)
  rw [step_eq_plainByte hp (fun h => absurd h hquote) (fun _ => hbetween), plainByte, if_neg hcomma,
    if_pos hb]

theorem step_skipped (hp : s.phase = .between) (hb : isLineEnd b) :
    s.step b = s.along .between [] [b] := by
  rw [step_eq, hp]
  exact if_pos hb

theorem step_opened (hp : s.phase = .between ∨ s.phase = .start) :
    s.step quote = s.along .quoted [] [quote] := by
  rw [step_eq]
  rcases hp with hp | hp <;> rw [hp] <;> rfl

theorem step_quoted (hp : s.phase = .quoted) (hb : b ≠ quote) :
    s.step b = s.along .quoted [b] [b] := by
  rw [step_eq, hp]
  exact if_neg hb

theorem step_closed (hp : s.phase = .quoted) : s.step quote = s.along .afterQuote [] [quote] := by
  rw [step_eq, hp]
  rfl

theorem step_second (hp : s.phase = .afterQuote) :
    s.step quote = s.along .quoted [quote] [quote] := by
  rw [step_eq, hp]
  rfl

theorem foldl_skipped (hp : s.phase = .between) {bytes : List UInt8}
    (h : ∀ b ∈ bytes, isLineEnd b) :
    bytes.foldl step s = s.along .between [] bytes := by
  induction bytes generalizing s with
  | nil => rw [← hp]; rfl
  | cons b bytes ih =>
    obtain ⟨hb, hbytes⟩ := List.forall_mem_cons.mp h
    rw [List.foldl_cons, step_skipped hp hb, ih rfl hbytes, along_along]
    rfl

/-- In the middle of a plain cell a quote is a byte like others. -/
theorem foldl_inner (hp : s.phase = .plain) {bytes : List UInt8}
    (h : ∀ b ∈ bytes, b ≠ comma ∧ isLineEnd b = false) :
    bytes.foldl step s = s.along .plain bytes bytes := by
  induction bytes generalizing s with
  | nil => rw [← hp]; rfl
  | cons b bytes ih =>
    obtain ⟨hb, hbytes⟩ := List.forall_mem_cons.mp h
    rw [List.foldl_cons, step_kept (by simp [hp]) (fun _ => hp) hb, ih rfl hbytes, along_along]
    rfl

theorem foldl_plain (hp : s.phase ≠ .quoted) {bytes : List UInt8} (h : IsPlain bytes) :
    bytes.foldl step s = s.along (if bytes = [] then s.phase else .plain) bytes bytes := by
  cases bytes with
  | nil => rfl
  | cons b bytes =>
    obtain ⟨hb, hbytes⟩ := List.forall_mem_cons.mp h.inner
    have hquote : b ≠ quote := fun hq => h.head (congrArg some hq)
    rw [List.foldl_cons, step_kept hp (fun hq => absurd hq hquote) hb, foldl_inner rfl hbytes,
      along_along, if_neg (List.cons_ne_nil _ _)]
    rfl

theorem foldl_doubled (hp : s.phase = .quoted) (content : List UInt8) :
    (doubled content).foldl step s = s.along .quoted content (doubled content) := by
  induction content generalizing s with
  | nil => rw [← hp]; rfl
  | cons b content ih =>
    have hsplit :
        doubled (b :: content) = (if b = quote then [quote, quote] else [b]) ++ doubled content :=
      List.flatMap_cons
    rw [hsplit, List.foldl_append]
    by_cases hb : b = quote
    · rw [if_pos hb, hb]
      show (doubled content).foldl step ((s.step quote).step quote) = _
      rw [step_closed hp, step_second rfl, along_along, ih rfl, along_along]
      rfl
    · rw [if_neg hb]
      show (doubled content).foldl step (s.step b) = _
      rw [step_quoted hp hb, ih rfl, along_along]
      rfl

end Scanner

namespace Cell

def phase (before : Phase) : Cell → Phase
  | plain text => if text = [] then before else .plain
  | quoted _ tail => if tail = [] then .afterQuote else .plain
  | unclosed _ => .quoted

theorem phase_ne_quoted {cell : Cell} {before : Phase} (h : cell.IsClosed) (hb : before ≠ .quoted) :
    cell.phase before ≠ .quoted := by
  cases cell with
  | plain text => by_cases htext : text = [] <;> simp [phase, htext, hb]
  | quoted content tail => by_cases htail : tail = [] <;> simp [phase, htail]
  | unclosed content => exact h.elim

theorem phase_ne_between {cell : Cell} {before : Phase} (h : before ≠ .between ∨ cell.bytes ≠ []) :
    cell.phase before ≠ .between := by
  cases cell with
  | plain text =>
    by_cases htext : text = []
    · have hb : before ≠ .between := h.resolve_right (not_not.mpr htext)
      simp [phase, htext, hb]
    · simp [phase, htext]
  | quoted content tail => by_cases htail : tail = [] <;> simp [phase, htail]
  | unclosed content => simp [phase]

end Cell

namespace Scanner

variable {s t : Scanner}

theorem foldl_cell (hp : s.phase = .between ∨ s.phase = .start) {cell : Cell} (h : cell.Valid) :
    cell.bytes.foldl step s = s.along (cell.phase s.phase) cell.content cell.bytes := by
  cases cell with
  | plain text =>
    have hne : s.phase ≠ .quoted := by rcases hp with hp | hp <;> simp [hp]
    exact foldl_plain hne h
  | quoted content tail =>
    have hclosed : ∀ t : Scanner, (t.along .afterQuote [] [quote]).phase ≠ .quoted :=
      fun t h => nomatch h
    rw [Cell.bytes, List.foldl_cons, List.foldl_append, List.foldl_cons, step_opened hp,
      foldl_doubled rfl, step_closed rfl, foldl_plain (hclosed _) h]
    simp only [along_along, List.append_assoc, List.nil_append, List.singleton_append]
    rfl
  | unclosed content =>
    rw [Cell.bytes, List.foldl_cons, step_opened hp, foldl_doubled rfl, along_along]
    rfl

def row (s : Scanner) : List (List UInt8) := (s.field.reverse :: s.fields).reverse

structure Passes (s t : Scanner) (cells : List Cell) (bytes : List UInt8) : Prop where
  row : t.row = s.row ++ cells.map Cell.content
  position : t.position = s.position
  records : t.records = s.records
  line : t.line = s.line + lineFeeds bytes
  byte : t.byte = s.byte + bytes.length
  outside : s.phase ≠ .quoted → (∀ cell ∈ cells, cell.IsClosed) → t.phase ≠ .quoted
  within : s.phase ≠ .between ∨ cells ≠ [] → t.phase ≠ .between

namespace Passes

variable {u : Scanner} {cells cells' : List Cell} {bytes bytes' : List UInt8}

theorem refl (s : Scanner) : s.Passes s [] [] :=
  ⟨(List.append_nil _).symm, rfl, rfl, rfl, rfl, fun h _ => h, fun h => h.resolve_right (by simp)⟩

theorem trans (h : s.Passes t cells bytes) (h' : t.Passes u cells' bytes') :
    s.Passes u (cells ++ cells') (bytes ++ bytes') := by
  constructor
  · rw [h'.row, h.row, List.map_append, List.append_assoc]
  · rw [h'.position, h.position]
  · rw [h'.records, h.records]
  · rw [h'.line, h.line, lineFeeds_append, Nat.add_assoc]
  · rw [h'.byte, h.byte, List.length_append, Nat.add_assoc]
  · intro hs hclosed
    obtain ⟨hcells, hcells'⟩ := List.forall_mem_append.mp hclosed
    exact h'.outside (h.outside hs hcells) hcells'
  · intro hs
    by_cases hcells : cells = []
    · subst hcells
      rw [List.nil_append] at hs
      exact h'.within (hs.imp_left fun hs => h.within (.inl hs))
    · exact h'.within (.inl (h.within (.inr hcells)))

end Passes

theorem passes_cell (hp : s.phase ≠ .quoted) {cell : Cell} (h : cell.Valid) :
    s.Passes ((comma :: cell.bytes).foldl step s) [cell] (comma :: cell.bytes) := by
  have hrun := foldl_cell (s := (s.along s.phase [] [comma]).endField) (.inr rfl) h
  rw [List.foldl_cons, step_comma hp, hrun]
  constructor
  · simp [row, along, endField]
  · rfl
  · rfl
  · show s.line + lineFeeds [comma] + lineFeeds cell.bytes = _
    rw [Nat.add_assoc, ← lineFeeds_append]
    rfl
  · show s.byte + 1 + cell.bytes.length = _
    rw [List.length_cons]
    omega
  · intro _ hclosed
    exact Cell.phase_ne_quoted (hclosed cell (List.mem_singleton_self cell)) (nomatch ·)
  · intro _
    exact Cell.phase_ne_between (.inl (nomatch ·))

theorem passes_cells {cells : List Cell} (hp : cells ≠ [] → s.phase ≠ .quoted)
    (hv : ∀ cell ∈ cells, cell.Valid) (hc : ∀ cell ∈ cells.dropLast, cell.IsClosed) :
    s.Passes ((cells.flatMap (comma :: ·.bytes)).foldl step s) cells
      (cells.flatMap (comma :: ·.bytes)) := by
  induction cells generalizing s with
  | nil => exact .refl s
  | cons cell cells ih =>
    obtain ⟨hcell, hcells⟩ := List.forall_mem_cons.mp hv
    have hs : s.phase ≠ .quoted := hp (List.cons_ne_nil _ _)
    have hfirst := passes_cell hs hcell
    have hclosed : cells ≠ [] → cell.IsClosed ∧ ∀ other ∈ cells.dropLast, other.IsClosed := by
      intro hne
      rw [List.dropLast_cons_of_ne_nil hne] at hc
      exact List.forall_mem_cons.mp hc
    have hothers : ∀ other ∈ cells.dropLast, other.IsClosed := by
      intro other hother
      apply (hclosed _).2 other hother
      rintro rfl
      cases hother
    have hafter : cells ≠ [] → ((comma :: cell.bytes).foldl step s).phase ≠ .quoted := by
      intro hne
      apply hfirst.outside hs
      intro other hother
      rw [List.mem_singleton.mp hother]
      exact (hclosed hne).1
    rw [List.flatMap_cons, List.foldl_append]
    exact hfirst.trans (ih hafter hcells hothers)

def opening (p : Position) (byte : Nat) (records : List Record) : Scanner :=
  ⟨.between, [], [], p, p.line, byte, records⟩

structure Finds (t : Scanner) (p : Position) (byte : Nat) (records : List Record) (s : Source) :
    Prop where
  row : t.row = s.fields
  position : t.position = p
  records : t.records = records
  line : t.line = p.line + lineFeeds (s.skipped ++ s.text)
  byte : t.byte = byte + (s.skipped ++ s.text).length
  outside : s.Ended → t.phase ≠ .quoted
  within : t.phase ≠ .between

theorem finds_text {r : Source} (h : r.Valid) (p : Position) (byte : Nat) (records : List Record) :
    ((r.skipped ++ r.text).foldl step (opening p byte records)).Finds p byte records r := by
  obtain ⟨hfirst, hothers⟩ := List.forall_mem_cons.mp h.cells
  have hskipped := foldl_skipped (s := opening p byte records) rfl h.skipped
  have hcell :=
    foldl_cell (s := (opening p byte records).along .between [] r.skipped) (.inl rfl) hfirst
  rw [along_along] at hcell
  have hclosed : r.others ≠ [] → r.first.IsClosed ∧ ∀ cell ∈ r.others.dropLast, cell.IsClosed := by
    intro hne
    have hc := h.closed
    rw [List.dropLast_cons_of_ne_nil hne] at hc
    exact List.forall_mem_cons.mp hc
  have hlast : ∀ cell ∈ r.others.dropLast, cell.IsClosed := by
    intro cell hcell
    apply (hclosed _).2 cell hcell
    intro hnil
    rw [hnil] at hcell
    cases hcell
  have hafter : r.first.IsClosed → r.first.phase .between ≠ .quoted :=
    fun hc => Cell.phase_ne_quoted hc (nomatch ·)
  have hpasses := passes_cells
    (s := (opening p byte records).along (r.first.phase .between) r.first.content
      (r.skipped ++ r.first.bytes))
    (fun hne => hafter (hclosed hne).1) hothers hlast
  have hrun : (r.skipped ++ r.text).foldl step (opening p byte records) =
      (r.others.flatMap (comma :: ·.bytes)).foldl step ((opening p byte records).along
        (r.first.phase .between) r.first.content (r.skipped ++ r.first.bytes)) := by
    rw [Source.text, List.foldl_append, hskipped, List.foldl_append]
    exact congrArg (fun t => (r.others.flatMap (comma :: ·.bytes)).foldl step t) hcell
  have htext :
      r.skipped ++ r.text =
        (r.skipped ++ r.first.bytes) ++ r.others.flatMap (comma :: ·.bytes) := by
    rw [Source.text, List.append_assoc]
  rw [hrun]
  constructor
  · rw [hpasses.row]
    simp [row, along, opening, Source.fields]
  · exact hpasses.position
  · exact hpasses.records
  · rw [hpasses.line, htext, lineFeeds_append, ← Nat.add_assoc]
    rfl
  · rw [hpasses.byte, htext, List.length_append, ← Nat.add_assoc]
    rfl
  · intro hended
    obtain ⟨hc, hcs⟩ := List.forall_mem_cons.mp hended.closed
    exact hpasses.outside (hafter hc) hcs
  · apply hpasses.within
    by_cases hne : r.others = []
    · left
      apply Cell.phase_ne_between
      right
      intro hnil
      apply h.text_ne_nil
      rw [Source.text, hnil, hne]
      rfl
    · exact .inr hne

theorem finish_of_within (h : t.phase ≠ .between) : t.finish = t.endRecord.records.reverse := by
  unfold finish
  cases hp : t.phase with
  | between => exact absurd hp h
  | start => rfl
  | plain => rfl
  | quoted => rfl
  | afterQuote => rfl

/-- The byte that ends a row is the last one of it. -/
theorem Finds.endRecord {r : Source} {p : Position} {byte : Nat} {records : List Record}
    (h : t.Finds p byte records r) {b : UInt8} (hb : r.ending = [b]) :
    (t.along t.phase [] [b]).endRecord =
      opening ⟨p.record + 1, p.line + lineFeeds r.bytes, byte + r.bytes.length⟩
        (byte + r.bytes.length) (⟨p, r.fields⟩ :: records) := by
  have hline : t.line + lineFeeds [b] = p.line + lineFeeds r.bytes := by
    rw [h.line, Source.bytes, hb, lineFeeds_append _ [b], Nat.add_assoc]
  have hbyte : t.byte + 1 = byte + r.bytes.length := by
    rw [h.byte, Source.bytes, hb]
    simp only [List.length_append, List.length_singleton]
    omega
  show (⟨.between, [], [], ⟨t.position.record + 1, t.line + lineFeeds [b], t.byte + 1⟩,
    t.line + lineFeeds [b], t.byte + 1, ⟨t.position, t.row⟩ :: t.records⟩ : Scanner) = _
  rw [hline, hbyte, h.row, h.position, h.records]
  rfl

end Scanner

def placed : Position → Nat → List Source → List Record
  | _, _, [] => []
  | p, byte, s :: sources =>
    ⟨p, s.fields⟩ :: placed ⟨p.record + 1, p.line + lineFeeds s.bytes, byte + s.bytes.length⟩
      (byte + s.bytes.length) sources

theorem fields_placed (p : Position) (byte : Nat) (sources : List Source) :
    (placed p byte sources).map (·.fields) = sources.map Source.fields := by
  induction sources generalizing p byte with
  | nil => rfl
  | cons s sources ih => rw [placed, List.map_cons, List.map_cons, ih]

theorem finish_of_parts {bytes : List UInt8} {sources : List Source} (h : Parts bytes sources)
    (p : Position) (byte : Nat) (records : List Record) :
    (bytes.foldl Scanner.step (.opening p byte records)).finish =
      records.reverse ++ placed p byte sources := by
  induction h generalizing p byte records with
  | blank h =>
    rw [Scanner.foldl_skipped rfl h, placed, List.append_nil]
    rfl
  | @last s hs hend =>
    have hfinds := Scanner.finds_text hs p byte records
    rw [Source.bytes, hend, List.append_nil, Scanner.finish_of_within hfinds.within,
      Scanner.endRecord, hfinds.position, hfinds.records]
    show (Record.mk p (Scanner.row _) :: records).reverse = _
    rw [hfinds.row, List.reverse_cons]
    rfl
  | @row s rest sources hs hend _ ih =>
    have hfinds := Scanner.finds_text hs p byte records
    obtain ⟨b, hb, hending⟩ := hend.ending
    rw [List.foldl_append, Source.bytes, List.foldl_append, hending]
    show (rest.foldl Scanner.step (Scanner.step _ b)).finish = _
    rw [Scanner.step_lineEnd (hfinds.outside hend) hfinds.within hb, hfinds.endRecord hending, ih,
      List.reverse_cons, List.append_assoc]
    rfl

/-- What may follow a cell: nothing if its quotes are open, and otherwise what ends it. -/
def Cell.Stops : Cell → List UInt8 → Prop
  | unclosed _, rest => rest = []
  | _, rest => ∀ b ∈ rest.head?, b = comma ∨ isLineEnd b

theorem exists_span (p : UInt8 → Bool) (bytes : List UInt8) :
    ∃ front rest, bytes = front ++ rest ∧ (∀ b ∈ front, p b) ∧ ∀ b ∈ rest.head?, p b = false := by
  refine ⟨bytes.takeWhile p, bytes.dropWhile p, List.takeWhile_append_dropWhile.symm,
    fun _ => List.mem_takeWhile_imp, fun b hb => ?_⟩
  have hhead := List.head?_dropWhile_not p bytes
  rw [Option.mem_def.mp hb] at hhead
  exact hhead

theorem exists_plain {bytes : List UInt8} (h : bytes.head? ≠ some quote) :
    ∃ text rest, bytes = text ++ rest ∧ IsPlain text ∧ ∀ b ∈ rest.head?, b = comma ∨
      isLineEnd b := by
  obtain ⟨text, rest, rfl, htext, hrest⟩ := exists_span (fun b => b ≠ comma && !isLineEnd b) bytes
  refine ⟨text, rest, rfl, ⟨?_, ?_⟩, ?_⟩
  · intro hhead
    rw [List.head?_append, hhead] at h
    exact h rfl
  · intro b hb
    simpa using htext b hb
  · intro b hb
    have hnot := hrest b hb
    by_cases hcomma : b = comma
    · exact .inl hcomma
    · right
      simpa [hcomma] using hnot

theorem doubled_of_ne {b : UInt8} (h : b ≠ quote) (content : List UInt8) :
    doubled (b :: content) = b :: doubled content := by
  rw [doubled, List.flatMap_cons, if_neg h]
  rfl

/-- Quotes are closed by the first single one. -/
theorem exists_doubled : ∀ bytes : List UInt8, (∃ content, bytes = doubled content) ∨
    ∃ content rest, bytes = doubled content ++ quote :: rest ∧ rest.head? ≠ some quote
  | [] => .inl ⟨[], rfl⟩
  | b :: bytes => by
    by_cases hb : b = quote
    case neg =>
      rcases exists_doubled bytes with ⟨content, rfl⟩ | ⟨content, rest, rfl, hrest⟩
      · exact .inl ⟨b :: content, (doubled_of_ne hb content).symm⟩
      · refine .inr ⟨b :: content, rest, ?_, hrest⟩
        rw [doubled_of_ne hb]
        rfl
    subst hb
    match bytes with
    | [] => exact .inr ⟨[], [], rfl, nofun⟩
    | c :: rest =>
      by_cases hc : c = quote
      case neg => exact .inr ⟨[], c :: rest, rfl, fun h => hc (Option.some.inj h)⟩
      subst hc
      rcases exists_doubled rest with ⟨content, rfl⟩ | ⟨content, rest, rfl, hrest⟩
      · exact .inl ⟨quote :: content, rfl⟩
      · exact .inr ⟨quote :: content, rest, rfl, hrest⟩

theorem exists_cell (bytes : List UInt8) :
    ∃ (cell : Cell) (rest : List UInt8), bytes = cell.bytes ++ rest ∧ cell.Valid ∧
      cell.Stops rest := by
  by_cases hquote : bytes.head? = some quote
  · obtain ⟨tail, rfl⟩ := List.head?_eq_some_iff.mp hquote
    rcases exists_doubled tail with ⟨content, rfl⟩ | ⟨content, rest, rfl, hrest⟩
    · exact ⟨.unclosed content, [], (List.append_nil _).symm, trivial, rfl⟩
    · obtain ⟨text, rest, rfl, htext, hstop⟩ := exists_plain hrest
      refine ⟨.quoted content text, rest, ?_, htext, hstop⟩
      rw [Cell.bytes, List.cons_append, List.append_assoc, List.cons_append]
  · obtain ⟨text, rest, rfl, htext, hstop⟩ := exists_plain hquote
    exact ⟨.plain text, rest, rfl, htext, hstop⟩

/-- The cells of a row run up to a line end or the end of the file. -/
theorem exists_cells (n : Nat) {bytes : List UInt8} (h : bytes.length = n) :
    ∃ (first : Cell) (others : List Cell) (rest : List UInt8),
      bytes = first.bytes ++ others.flatMap (comma :: ·.bytes) ++ rest ∧
      (∀ cell ∈ first :: others, cell.Valid) ∧
        (∀ cell ∈ (first :: others).dropLast, cell.IsClosed) ∧
      (rest = [] ∨ (∀ cell ∈ first :: others, cell.IsClosed) ∧
        ∃ b after, rest = b :: after ∧ isLineEnd b) := by
  induction n using Nat.strongRecOn generalizing bytes with
  | ind n ih =>
    obtain ⟨cell, rest, rfl, hvalid, hstop⟩ := exists_cell bytes
    have hone : ∀ first ∈ [cell], first.Valid := by simpa using hvalid
    cases rest with
    | nil => exact ⟨cell, [], [], by simp, hone, by simp, .inl rfl⟩
    | cons b rest =>
      have hclosed : cell.IsClosed := by
        cases cell with
        | unclosed content => cases hstop
        | plain text => trivial
        | quoted content tail => trivial
      have hends : b = comma ∨ isLineEnd b := by
        cases cell with
        | unclosed content => cases hstop
        | plain text => exact hstop b rfl
        | quoted content tail => exact hstop b rfl
      rcases hends with rfl | hb
      · rw [List.length_append, List.length_cons] at h
        obtain ⟨first, others, rest, rfl, hcells, hlast, hrest⟩ := ih rest.length (by omega) rfl
        refine ⟨cell, first :: others, rest, by simp,
          List.forall_mem_cons.mpr ⟨hvalid, hcells⟩, ?_, ?_⟩
        · rw [List.dropLast_cons_of_ne_nil (List.cons_ne_nil _ _)]
          exact List.forall_mem_cons.mpr ⟨hclosed, hlast⟩
        · exact hrest.imp_right fun ⟨hall, hend⟩ => ⟨List.forall_mem_cons.mpr ⟨hclosed, hall⟩, hend⟩
      · exact ⟨cell, [], b :: rest, by simp, hone, by simp,
          .inr ⟨by simpa using hclosed, b, rest, rfl, hb⟩⟩

theorem exists_parts (n : Nat) {bytes : List UInt8} (h : bytes.length = n) :
    ∃ sources, Parts bytes sources := by
  induction n using Nat.strongRecOn generalizing bytes with
  | ind n ih =>
    obtain ⟨skipped, rest, rfl, hskipped, hhead⟩ := exists_span isLineEnd bytes
    obtain ⟨first, others, after, hrest, hvalid, hclosed, hend⟩ := exists_cells rest.length rfl
    by_cases hnil : first.bytes ++ others.flatMap (comma :: ·.bytes) = []
    · -- What is left starts with a line end or is nothing, and line ends have all been passed over.
      rw [hnil, List.nil_append] at hrest
      subst hrest
      rcases hend with rfl | ⟨_, b, after, rfl, hb⟩
      · rw [List.append_nil]
        exact ⟨[], .blank hskipped⟩
      · exact absurd hb (by simp [hhead b rfl])
    · have hsource : ∀ ending, Source.Valid ⟨skipped, first, others, ending⟩ :=
        fun ending => ⟨hskipped, hnil, hvalid, hclosed⟩
      rcases hend with rfl | ⟨hall, b, after, rfl, hb⟩
      · have hlast := Parts.last (hsource []) rfl
        rw [Source.bytes, List.append_nil] at hlast
        rw [hrest, List.append_nil]
        exact ⟨_, hlast⟩
      · subst hrest
        simp only [List.length_append, List.length_cons] at h
        obtain ⟨sources, hsources⟩ := ih after.length (by omega) rfl
        have hrow := Parts.row (hsource [b]) ⟨hall, b, hb, rfl⟩ hsources
        rw [Source.bytes, Source.text, List.append_assoc, List.append_assoc] at hrow
        exact ⟨_, hrow⟩

def markLength (bytes : List UInt8) : Nat := if byteOrderMark.isPrefixOf bytes then 3 else 0

def withoutMark (bytes : List UInt8) : List UInt8 := bytes.drop (markLength bytes)

/-- The records of a file are its rows. -/
theorem ofBytes_of_parts {bytes : List UInt8} {sources : List Source}
    (h : Parts (withoutMark bytes) sources) :
    ofBytes bytes = placed ⟨0, 1, 0⟩ (markLength bytes) sources := by
  have hfinish := finish_of_parts h ⟨0, 1, 0⟩ (markLength bytes) []
  rw [List.reverse_nil, List.nil_append] at hfinish
  rw [← hfinish, ofBytes, withoutMark, markLength]
  by_cases hmark : byteOrderMark.isPrefixOf bytes
  · rw [if_pos hmark, if_pos hmark]
    rfl
  · rw [if_neg hmark, if_neg hmark]
    rfl

/-- A record is placed on the line that the rows before it lead to. -/
theorem exists_of_placed {p : Position} {byte : Nat} {sources : List Source}
    {front back : List Record} {r : Record} (h : placed p byte sources = front ++ r :: back) :
    ∃ before s after, sources = before ++ s :: after ∧ r.fields = s.fields ∧
      List.Forall₂ (fun s (r : Record) => r.fields = s.fields) before front ∧
      r.position.line = p.line + lineFeeds (before.flatMap Source.bytes) := by
  induction front generalizing p byte sources with
  | nil =>
    cases sources with
    | nil => cases h
    | cons s sources =>
      obtain ⟨rfl, _⟩ := List.cons.inj h
      exact ⟨[], s, sources, rfl, rfl, .nil, rfl⟩
  | cons first front ih =>
    cases sources with
    | nil => cases h
    | cons s sources =>
      obtain ⟨rfl, hrest⟩ := List.cons.inj h
      obtain ⟨before, t, after, rfl, hfields, hbefore, hline⟩ := ih hrest
      refine ⟨s :: before, t, after, rfl, hfields, .cons rfl hbefore, ?_⟩
      rw [hline, List.flatMap_cons, lineFeeds_append, Nat.add_assoc]

/-- A file goes on after each of its rows. -/
theorem Parts.split {bytes : List UInt8} {before after : List Source} {s : Source}
    (h : Parts bytes (before ++ s :: after)) :
    ∃ rest, bytes = before.flatMap Source.bytes ++ (s.skipped ++ s.text ++ rest) := by
  induction before generalizing bytes with
  | nil =>
    cases h with
    | last _ _ => exact ⟨s.ending, rfl⟩
    | @row _ rest _ _ _ _ =>
      refine ⟨s.ending ++ rest, ?_⟩
      rw [Source.bytes, List.append_assoc _ s.ending]
      rfl
  | cons first before ih =>
    generalize hsources : first :: before ++ s :: after = sources at h
    cases h with
    | blank _ => cases hsources
    | last _ _ => simp at hsources
    | row _ _ hrest =>
      obtain ⟨rfl, rfl⟩ := List.cons.inj hsources
      obtain ⟨rest, rfl⟩ := ih hrest
      refine ⟨rest, ?_⟩
      rw [List.flatMap_cons, List.append_assoc first.bytes]

end Record
end TrailingYear
