import TrailingYear.Table
import TrailingYear.Proofs.Text

/-! # The texts of a table

A table can be read exactly if all its fields are texts. Its cells are then those texts without
the blanks at their ends, and otherwise the error tells which field of which record is the
first that is none. -/

namespace TrailingYear

def Utf8.IsText (bytes : List UInt8) : Prop := ∃ cs, bytes = Utf8.encode cs

def textBytes (text : String) : List UInt8 := Utf8.encode text.toList

def Record.Has (r : Record) (texts : List String) : Prop := r.fields = texts.map textBytes

def Record.IsText (r : Record) : Prop := ∀ field ∈ r.fields, Utf8.IsText field

structure EncodingError.Names (e : EncodingError) (r : Record) : Prop where
  position : e.position = r.position
  garbled : ∃ field, r.fields[e.field]? = some field ∧ ¬ Utf8.IsText field
  first : ∀ i field, i < e.field → r.fields[i]? = some field → Utf8.IsText field

theorem not_isText_of_decode {bytes : List UInt8} {valid : Nat}
    (h : Utf8.decode bytes = .error valid) :
    ¬ Utf8.IsText bytes := by
  rintro ⟨cs, rfl⟩
  rw [Utf8.decode_encode] at h
  cases h

theorem decodeFields_textBytes (position : Position) (n : Nat) (texts : List String) :
    decodeFields position n (texts.map textBytes) = .ok texts := by
  induction texts generalizing n with
  | nil => rfl
  | cons text texts ih =>
    rw [List.map_cons, decodeFields, textBytes, Utf8.decode_encode]
    simp only [ih, String.ofList_toList]
    rfl

theorem eq_textBytes_of_decodeFields {position : Position} {n : Nat} {fields : List (List UInt8)}
    {texts : List String} (h : decodeFields position n fields = .ok texts) :
    fields = texts.map textBytes := by
  induction fields generalizing n texts with
  | nil =>
    cases h
    rfl
  | cons field fields ih =>
    rw [decodeFields] at h
    split at h
    · cases h
    · rename_i cs hcs
      cases hr : decodeFields position (n + 1) fields with
      | error e =>
        rw [hr] at h
        cases h
      | ok rest =>
        rw [hr] at h
        cases h
        rw [List.map_cons, ← ih hr, textBytes, String.toList_ofList, ← Utf8.eq_encode_of_decode hcs]

/-- The fields are numbered from `n` on. -/
theorem decodeFields_error {position : Position} {n : Nat} {fields : List (List UInt8)}
    {e : EncodingError} (h : decodeFields position n fields = .error e) :
    e.position = position ∧ ∃ i field, e.field = n + i ∧ fields[i]? = some field ∧
      ¬ Utf8.IsText field ∧ ∀ j other, j < i → fields[j]? = some other → Utf8.IsText other := by
  induction fields generalizing n with
  | nil => cases h
  | cons field fields ih =>
    rw [decodeFields] at h
    split at h
    · rename_i valid hvalid
      cases h
      exact ⟨rfl, 0, field, rfl, rfl, not_isText_of_decode hvalid, fun j _ hj => by omega⟩
    · rename_i cs hcs
      cases hr : decodeFields position (n + 1) fields with
      | ok rest =>
        rw [hr] at h
        cases h
      | error e' =>
        rw [hr] at h
        cases h
        obtain ⟨hp, i, other, hi, hget, hnot, hfirst⟩ := ih hr
        refine ⟨hp, i + 1, other, by omega, by simpa using hget, hnot, ?_⟩
        intro j another hj hanother
        cases j with
        | zero =>
          cases hanother
          exact ⟨cs, Utf8.eq_encode_of_decode hcs⟩
        | succ j => exact hfirst j another (by omega) (by simpa using hanother)

theorem exists_texts {fields : List (List UInt8)} (h : ∀ field ∈ fields, Utf8.IsText field) :
    ∃ texts : List String, fields = texts.map textBytes := by
  induction fields with
  | nil => exact ⟨[], rfl⟩
  | cons field fields ih =>
    obtain ⟨⟨cs, hcs⟩, hrest⟩ := List.forall_mem_cons.mp h
    obtain ⟨texts, htexts⟩ := ih hrest
    refine ⟨String.ofList cs :: texts, ?_⟩
    rw [List.map_cons, ← htexts, textBytes, String.toList_ofList, ← hcs]

theorem isText_textBytes {texts : List String} :
    ∀ field ∈ texts.map textBytes, Utf8.IsText field := by
  intro field hfield
  obtain ⟨text, _, rfl⟩ := List.mem_map.mp hfield
  exact ⟨_, rfl⟩

theorem isText_trimBytes_iff {bytes : List UInt8} :
    Utf8.IsText (trimBytes bytes) ↔ Utf8.IsText bytes := by
  constructor
  · rintro ⟨cs, hcs⟩
    exact exists_text_of_trimBytes hcs
  · rintro ⟨cs, rfl⟩
    exact ⟨_, trimBytes_encode cs⟩

/-- Taking the blanks off the bytes does not change the texts without their blanks. -/
theorem map_trimBytes (texts : List String) : ∃ trimmed : List String,
    (texts.map textBytes).map trimBytes = trimmed.map textBytes ∧
      trimmed.map trim = texts.map trim := by
  refine ⟨texts.map fun t => String.ofList (trimWith isBlankAscii t.toList), ?_, ?_⟩
  · rw [List.map_map, List.map_map]
    apply List.map_congr_left
    intro t _
    simp only [Function.comp_apply, textBytes, String.toList_ofList, trimBytes_encode]
  · rw [List.map_map]
    apply List.map_congr_left
    intro t _
    rw [Function.comp_apply, trim_of_trimBytes, String.ofList_toList]

theorem Row.ofRecord_texts {r : Record} {texts : List String} (h : r.Has texts) :
    Row.ofRecord r = .ok ⟨r.position.line, texts.map trim⟩ := by
  obtain ⟨trimmed, htrimmed, hcells⟩ := map_trimBytes texts
  rw [Row.ofRecord, h, htrimmed, decodeFields_textBytes, ← hcells]
  rfl

theorem Row.ofRecord_error {r : Record} {e : EncodingError} (h : Row.ofRecord r = .error e) :
    e.Names r := by
  have hd : decodeFields r.position 0 (r.fields.map trimBytes) = .error e := by
    unfold Row.ofRecord at h
    cases hd : decodeFields r.position 0 (r.fields.map trimBytes) with
    | ok cells =>
      rw [hd] at h
      cases h
    | error e' =>
      rw [hd] at h
      cases h
      rfl
  obtain ⟨hp, i, field, hi, hget, hnot, hfirst⟩ := decodeFields_error hd
  rw [Nat.zero_add] at hi
  rw [List.getElem?_map, Option.map_eq_some_iff] at hget
  obtain ⟨raw, hraw, rfl⟩ := hget
  refine ⟨hp, ⟨raw, hi ▸ hraw, fun h => hnot (isText_trimBytes_iff.mpr h)⟩, ?_⟩
  intro j other hj hother
  rw [← isText_trimBytes_iff]
  exact hfirst j _ (hi ▸ hj) (by rw [List.getElem?_map, hother]; rfl)

theorem Row.ofRecord_isText {r : Record} {row : Row} (h : Row.ofRecord r = .ok row) : r.IsText := by
  intro field hfield
  rw [← isText_trimBytes_iff]
  unfold Row.ofRecord at h
  cases hd : decodeFields r.position 0 (r.fields.map trimBytes) with
  | error e =>
    rw [hd] at h
    cases h
  | ok cells =>
    apply @isText_textBytes cells
    rw [← eq_textBytes_of_decodeFields hd]
    exact List.mem_map_of_mem hfield

namespace Table

def Holds (bytes : List UInt8) (header : List String) (rows : List Row) : Prop :=
  ofBytes bytes = ⟨.ok header, rows.map .ok⟩

theorem map_ofRecord_texts {records : List Record} {rows : List (List String)}
    (h : List.Forall₂ Record.Has records rows) :
    records.map Row.ofRecord = (List.zipWith (fun (r : Record) texts =>
      (⟨r.position.line, texts.map trim⟩ : Row)) records rows).map .ok := by
  induction h with
  | nil => rfl
  | cons h _ ih => rw [List.map_cons, Row.ofRecord_texts h, ih]; rfl

theorem holds_of_texts {bytes : List UInt8} {record : Record} {records : List Record}
    {header : List String} {rows : List (List String)}
    (hb : Record.ofBytes bytes = record :: records) (hh : record.Has header)
    (hr : List.Forall₂ Record.Has records rows) :
    Holds bytes header (List.zipWith (fun (r : Record) texts => ⟨r.position.line, texts.map trim⟩)
      records rows) := by
  rw [Holds, ofBytes, hb]
  simp only [Table.mk.injEq]
  exact ⟨by rw [hh, decodeFields_textBytes], map_ofRecord_texts hr⟩

structure Decodes (bytes : List UInt8) : Prop where
  whole : (∃ header rows, Holds bytes header rows) ↔ ∀ r ∈ Record.ofBytes bytes, r.IsText
  cells : ∀ record records header rows, Record.ofBytes bytes = record :: records →
    record.Has header → List.Forall₂ Record.Has records rows →
    Holds bytes header (List.zipWith (fun (r : Record) texts => ⟨r.position.line, texts.map trim⟩)
      records rows)
  header : ∀ e, (ofBytes bytes).header = .error e → ∃ r, (Record.ofBytes bytes)[0]? = some r ∧
    e.Names r
  row : ∀ i e, (ofBytes bytes).rows[i]? = some (.error e) →
    ∃ r, (Record.ofBytes bytes)[i + 1]? = some r ∧ e.Names r

theorem exists_rows {records : List Record} (h : ∀ r ∈ records, r.IsText) :
    ∃ rows, List.Forall₂ Record.Has records rows := by
  induction records with
  | nil => exact ⟨[], .nil⟩
  | cons r records ih =>
    obtain ⟨hr, hrest⟩ := List.forall_mem_cons.mp h
    obtain ⟨texts, htexts⟩ := exists_texts hr
    obtain ⟨rows, hrows⟩ := ih hrest
    exact ⟨texts :: rows, .cons htexts hrows⟩

theorem isText_of_rows {records : List Record} {rows : List Row}
    (h : records.map Row.ofRecord = rows.map .ok) {r : Record} (hr : r ∈ records) : r.IsText := by
  have hm : Row.ofRecord r ∈ rows.map Except.ok := h ▸ List.mem_map_of_mem hr
  obtain ⟨row, _, hrow⟩ := List.mem_map.mp hm
  exact Row.ofRecord_isText hrow.symm

theorem names_of_header {r : Record} {e : EncodingError}
    (h : decodeFields r.position 0 r.fields = .error e) : e.Names r := by
  obtain ⟨hp, i, field, hi, hget, hnot, hfirst⟩ := decodeFields_error h
  rw [Nat.zero_add] at hi
  subst hi
  exact ⟨hp, ⟨field, hget, hnot⟩, hfirst⟩

theorem holds_iff {bytes : List UInt8} :
    (∃ header rows, Holds bytes header rows) ↔ ∀ r ∈ Record.ofBytes bytes, r.IsText := by
  cases hb : Record.ofBytes bytes with
  | nil =>
    refine ⟨fun _ r hr => absurd hr List.not_mem_nil, fun _ => ⟨[], [], ?_⟩⟩
    rw [Holds, ofBytes, hb]
    rfl
  | cons record records =>
    constructor
    · rintro ⟨header, rows, h⟩
      rw [Holds, ofBytes, hb] at h
      simp only [Table.mk.injEq] at h
      refine List.forall_mem_cons.mpr ⟨?_, fun r hr => isText_of_rows h.2 hr⟩
      intro field hfield
      rw [eq_textBytes_of_decodeFields h.1] at hfield
      exact isText_textBytes field hfield
    · intro h
      obtain ⟨hrecord, hrecords⟩ := List.forall_mem_cons.mp h
      obtain ⟨header, hheader⟩ := exists_texts hrecord
      obtain ⟨rows, hrows⟩ := exists_rows hrecords
      exact ⟨header, _, holds_of_texts hb hheader hrows⟩

theorem decodes (bytes : List UInt8) : Decodes bytes := by
  refine ⟨holds_iff, fun _ _ _ _ => holds_of_texts, ?_, ?_⟩
  · intro e he
    rw [ofBytes] at he
    split at he
    · cases he
    · rename_i record records hb
      exact ⟨record, by rw [hb]; rfl, names_of_header he⟩
  · intro i e he
    rw [ofBytes] at he
    split at he
    · cases he
    · rename_i record records hb
      rw [List.getElem?_map, Option.map_eq_some_iff] at he
      obtain ⟨r, hr, herror⟩ := he
      exact ⟨r, by rw [hb]; exact hr, Row.ofRecord_error herror⟩

end Table
end TrailingYear
