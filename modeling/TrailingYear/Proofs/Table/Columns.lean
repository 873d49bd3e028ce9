import TrailingYear.Table
import TrailingYear.Proofs.Text
import Mathlib.Data.List.Perm.Basic

/-! # Finding columns

The header of a column may be written in capital letters and with blanks around it. A column
whose name occurs once is found wherever it stands, and its cell is the one in the same
place of the row. -/

namespace TrailingYear

theorem Columns.cell_of_isBlank (c : Columns) {r : Row} (h : r.IsBlank) (name : String) :
    c.cell r.cells name = "" := by
  have hcell : ((c.index? name).bind fun i => r.cells[i]?).getD "" = "" := by
    cases hi : (c.index? name).bind fun i => r.cells[i]? with
    | none => rfl
    | some cell =>
      obtain ⟨i, _, hget⟩ := Option.bind_eq_some_iff.mp hi
      exact h cell (List.mem_of_getElem? hget)
  rw [Columns.cell, hcell]
  rfl

namespace Columns

theorem indexIn_eq_none {name : String} {names : List String} (h : name ∉ names) :
    indexIn name names = none := by
  induction names with
  | nil => rfl
  | cons n names ih =>
    obtain ⟨hne, hrest⟩ := not_or.mp (mt List.mem_cons.mpr h)
    rw [indexIn, ih hrest, if_neg (Ne.symm hne)]
    rfl

/-- Of columns with one name the last is found. -/
theorem indexIn_of_last {name : String} {names : List String} {i : ℕ} (h : names[i]? = some name)
    (hlast : ∀ j, i < j → names[j]? ≠ some name) : indexIn name names = some i := by
  induction names generalizing i with
  | nil => cases h
  | cons n names ih =>
    cases i with
    | zero =>
      have hrest : name ∉ names := by
        intro hmem
        obtain ⟨j, hj⟩ := List.mem_iff_getElem?.mp hmem
        exact hlast (j + 1) j.succ_pos hj
      rw [indexIn, indexIn_eq_none hrest, if_pos (Option.some.inj h)]
      rfl
    | succ i =>
      have hrest : indexIn name names = some i :=
        ih h fun j hj => hlast (j + 1) (Nat.succ_lt_succ hj)
      rw [indexIn, hrest]
      rfl

theorem cell_of_index {c : Columns} {name : String} {i : ℕ} (h : c.index? name = some i)
    (cells : List String) : c.cell (cells.map trim) name = trim (cells[i]?.getD "") := by
  rw [cell, h, Option.bind_some, List.getElem?_map]
  cases cells[i]? with
  | none => rfl
  | some text => exact trim_trim text

end Columns

theorem visible_of_toLower {c : Char} (h : 33 ≤ c.toLower.toNat ∧ c.toLower.toNat < 127) :
    33 ≤ c.toNat ∧ c.toNat < 127 := by
  rw [toNat_toLower] at h
  split_ifs at h with hupper
  · have hbounds := isUpper_iff.mp hupper
    omega
  · exact h

/-- For ASCII letters there is nothing more to lower case. -/
theorem lowerAfter_ascii {cs : List Char} (h : ∀ c ∈ cs, c.toNat < 128) (before : List Char) :
    lowerAfter before cs = cs.map Char.toLower := by
  induction cs generalizing before with
  | nil => rfl
  | cons c cs ih =>
    obtain ⟨hc, hcs⟩ := List.forall_mem_cons.mp h
    have hdot : c ≠ 'İ' := by
      rintro rfl
      exact absurd hc (by decide)
    have hsigma : c ≠ 'Σ' := by
      rintro rfl
      exact absurd hc (by decide)
    rw [lowerAfter, if_neg hdot, if_neg hsigma, lowerChar, if_pos hc, ih hcs]
    rfl

def IsColumnName (name : String) : Prop := ∀ c ∈ name.toList, 33 ≤ c.toNat ∧ c.toNat < 127

def IsHeaderOf (name header : String) : Prop :=
  ∃ left core right, header.toList = left ++ core ++ right ∧ (∀ c ∈ left, isBlank c) ∧
    (∀ c ∈ right, isBlank c) ∧ core.map Char.toLower = name.toList

theorem IsHeaderOf.name_eq {name header : String} (h : IsHeaderOf name header)
    (hn : IsColumnName name) : lowerCase (trim header) = name := by
  obtain ⟨left, core, right, hheader, hleft, hright, hcore⟩ := h
  have hvisible : ∀ c ∈ core, 33 ≤ c.toNat ∧ c.toNat < 127 := by
    intro c hc
    apply visible_of_toLower
    apply hn
    rw [← hcore]
    exact List.mem_map_of_mem hc
  have htrim : (trim header).toList = core := by
    rw [toList_trim, hheader, trimWith_append hleft hright,
      trimWith_of_none fun c hc => isBlank_of_visible (hvisible c hc)]
  have hascii : ∀ c ∈ core, c.toNat < 128 := by
    intro c hc
    have := hvisible c hc
    omega
  rw [lowerCase, htrim, lowerAfter_ascii hascii, hcore, String.ofList_toList]

/-- The columns of a file: each of the names has one, and the others have none of the names. -/
structure Layout (names : List String) where
  columns : List (Option String)
  complete : (columns.filterMap id).Perm names

namespace Layout

variable {names : List String}

def IsHeader (names : List String) : Option String → String → Prop
  | some name, header => IsHeaderOf name header
  | none, header => lowerCase (trim header) ∉ names

def HasHeader (l : Layout names) (header : List String) : Prop :=
  List.Forall₂ (IsHeader names) l.columns header

def HasCells (l : Layout names) (textOf : String → String) (cells : List String) : Prop :=
  List.Forall₂ (fun column cell => ∀ name, column = some name → cell = textOf name) l.columns cells

def IsNamed (names : List String) : Option String → String → Prop
  | some name, text => text = name
  | none, text => text ∉ names

theorem not_mem_texts {columns : List (Option String)} {texts : List String}
    (h : List.Forall₂ (IsNamed names) columns texts) {name : String} (hn : name ∈ names)
    (hm : some name ∉ columns) : name ∉ texts := by
  induction h with
  | nil => exact List.not_mem_nil
  | @cons column text columns texts hcolumn _ ih =>
    have hne : name ≠ text := by
      rintro rfl
      cases column with
      | none => exact hcolumn hn
      | some other =>
        apply hm
        rw [show name = other from hcolumn]
        exact List.mem_cons_self ..
    exact List.not_mem_cons_of_ne_of_not_mem hne (ih fun h => hm (List.mem_cons_of_mem _ h))

theorem exists_index {columns : List (Option String)} {texts cells : List String}
    {textOf : String → String} (h : List.Forall₂ (IsNamed names) columns texts)
    (hc : List.Forall₂ (fun column cell => ∀ name, column = some name →
      cell = textOf name) columns cells)
    (hd : (columns.filterMap id).Nodup) {name : String} (hn : name ∈ names)
    (hm : some name ∈ columns) :
    ∃ i, Columns.indexIn name texts = some i ∧ cells[i]? = some (textOf name) := by
  induction h generalizing cells with
  | nil => cases hm
  | @cons column text columns texts hcolumn hrest ih =>
    cases hc with
    | cons hcell hcells =>
      by_cases hhere : column = some name
      · subst hhere
        -- the name is not found again further on
        have hnot : some name ∉ columns := by
          intro h
          have hd' : (name :: columns.filterMap id).Nodup := hd
          exact (List.nodup_cons.mp hd').1 (List.mem_filterMap.mpr ⟨some name, h, rfl⟩)
        refine ⟨0, ?_, congrArg some (hcell name rfl)⟩
        rw [Columns.indexIn, Columns.indexIn_eq_none (not_mem_texts hrest hn hnot),
          if_pos (show text = name from hcolumn)]
        rfl
      · have hlater : some name ∈ columns :=
          (List.mem_cons.mp hm).resolve_left fun h => hhere h.symm
        have hd' : (columns.filterMap id).Nodup := by
          cases column with
          | none => exact hd
          | some other =>
            have hd' : (other :: columns.filterMap id).Nodup := hd
            exact (List.nodup_cons.mp hd').2
        obtain ⟨i, hi, hget⟩ := ih hcells hd' hlater
        refine ⟨i + 1, ?_, hget⟩
        rw [Columns.indexIn, hi]
        rfl

theorem isNamed_of_isHeader {columns : List (Option String)} {header : List String}
    (h : List.Forall₂ (IsHeader names) columns header) (hn : ∀ name ∈ names, IsColumnName name)
    (hm : ∀ name, some name ∈ columns → name ∈ names) :
    List.Forall₂ (IsNamed names) columns (Columns.ofHeader header).names := by
  induction h with
  | nil => exact .nil
  | @cons column text columns texts hcolumn _ ih =>
    refine .cons ?_ (ih fun name h => hm name (List.mem_cons_of_mem _ h))
    cases column with
    | none => exact hcolumn
    | some name => exact IsHeaderOf.name_eq hcolumn (hn name (hm name (List.mem_cons_self ..)))

def plain (names : List String) : Layout names where
  columns := names.map some
  complete := by
    rw [List.filterMap_map]
    exact .of_eq List.filterMap_some

theorem plain_hasHeader (h : ∀ name ∈ names, name.toList.map Char.toLower = name.toList) :
    (plain names).HasHeader names := by
  unfold HasHeader plain
  rw [List.forall₂_map_left_iff, List.forall₂_same]
  intro name hname
  exact ⟨[], name.toList, [], by simp, by simp, by simp, h name hname⟩

theorem plain_hasCells (textOf : String → String) :
    (plain names).HasCells textOf (names.map textOf) := by
  unfold HasCells plain
  rw [List.forall₂_map_left_iff, List.forall₂_map_right_iff, List.forall₂_same]
  rintro name _ _ ⟨⟩
  rfl

variable {l : Layout names} {header cells : List String} {textOf : String → String}

theorem mem_columns_iff {name : String} : some name ∈ l.columns ↔ name ∈ names := by
  rw [← l.complete.mem_iff, List.mem_filterMap]
  simp

theorem HasHeader.named (h : l.HasHeader header) (hn : ∀ name ∈ names, IsColumnName name) :
    List.Forall₂ (IsNamed names) l.columns (Columns.ofHeader header).names :=
  isNamed_of_isHeader h hn fun _ => mem_columns_iff.mp

/-- Each of the names has its text in the row. -/
theorem HasHeader.cell_eq (h : l.HasHeader header) (hn : ∀ name ∈ names, IsColumnName name)
    (hd : names.Nodup) (hc : l.HasCells textOf cells) {name : String} (hm : name ∈ names) :
    (Columns.ofHeader header).cell (cells.map trim) name = trim (textOf name) := by
  obtain ⟨i, hi, hget⟩ :=
    exists_index (h.named hn) hc (l.complete.nodup_iff.mpr hd) hm (mem_columns_iff.mpr hm)
  rw [Columns.cell_of_index hi, hget, Option.getD_some]

theorem HasHeader.mem_names (h : l.HasHeader header) (hn : ∀ name ∈ names, IsColumnName name)
    (hd : names.Nodup) {name : String} (hm : name ∈ names) :
    name ∈ (Columns.ofHeader header).names := by
  have hnamed := h.named hn
  have htexts : List.Forall₂ (fun column text => ∀ name, column = some name → text = id name)
      l.columns (Columns.ofHeader header).names := by
    refine hnamed.imp fun column text htext name hcolumn => ?_
    subst hcolumn
    exact htext
  obtain ⟨i, _, hget⟩ :=
    exists_index hnamed htexts (l.complete.nodup_iff.mpr hd) hm (mem_columns_iff.mpr hm)
  exact List.mem_of_getElem? hget

theorem ne_nil {R : Option String → String → Prop} {texts : List String}
    (h : List.Forall₂ R l.columns texts) (hne : names ≠ []) : texts ≠ [] := by
  rintro rfl
  have hnil : l.columns = [] := List.forall₂_nil_right_iff.mp h
  have hperm := l.complete
  rw [hnil] at hperm
  exact hne (List.nil_perm.mp hperm)

end Layout
end TrailingYear
