import TrailingYear.Settings

/-! # The range of integers in documents

An integer of more than 64 bits is refused where it is read. Statements only move values about, so
no table holds such an integer. -/

namespace TrailingYear
namespace Toml

inductive InRange : Toml → Prop where
  | string (s) : InRange (.string s)
  | integer {n} : -integerLimit ≤ n → n < integerLimit → InRange (.integer n)
  | boolean (b) : InRange (.boolean b)
  | float : InRange .float
  | moment : InRange .moment
  | array {items} : (∀ item ∈ items, InRange item) → InRange (.array items)
  | table {origin entries} : (∀ e ∈ entries, InRange e.2) → InRange (.table origin entries)
  | tables {elements} : (∀ entries ∈ elements, ∀ e ∈ entries, InRange e.2) →
      InRange (.tables elements)

def AllInRange (entries : Entries) : Prop := ∀ e ∈ entries, InRange e.2

theorem allInRange_nil : AllInRange [] := List.forall_mem_nil _

theorem InRange.entries {origin : TableOrigin} {entries : Entries}
    (h : InRange (.table origin entries)) :
    AllInRange entries := by
  cases h with
  | table h => exact h

theorem InRange.elements {elements : List Entries} (h : InRange (.tables elements)) :
    ∀ entries ∈ elements, AllInRange entries := by
  cases h with
  | tables h => exact h

def KeepsRange (f : Entries → Option Entries) : Prop :=
  ∀ entries out, AllInRange entries → f entries = some out → AllInRange out

def KeepsValueRange (f : Option Toml → Option Toml) : Prop :=
  ∀ held value, (∀ old ∈ held, InRange old) → f held = some value → InRange value

theorem KeepsValueRange.alter {f : Option Toml → Option Toml} (hf : KeepsValueRange f)
    (key : String) :
    KeepsRange (alter key f) := by
  intro entries
  induction entries with
  | nil =>
    intro out _ h
    obtain ⟨value, hvalue, ⟨⟩⟩ := Option.bind_eq_some_iff.mp h
    have := hf none value (by simp) hvalue
    simpa [AllInRange] using this
  | cons e entries ih =>
    intro out hall h
    obtain ⟨he, hentries⟩ := List.forall_mem_cons.mp hall
    rw [Toml.alter] at h
    split at h
    · obtain ⟨value, hvalue, ⟨⟩⟩ := Option.bind_eq_some_iff.mp h
      exact List.forall_mem_cons.mpr ⟨hf (some e.2) value (by simpa using he) hvalue, hentries⟩
    · obtain ⟨tail, htail, ⟨⟩⟩ := Option.bind_eq_some_iff.mp h
      exact List.forall_mem_cons.mpr ⟨he, ih tail hentries htail⟩

theorem KeepsRange.alterLast {f : Entries → Option Entries} (hf : KeepsRange f) :
    ∀ elements out, (∀ entries ∈ elements, AllInRange entries) → alterLast f elements = some out →
      ∀ entries ∈ out, AllInRange entries := by
  intro elements
  induction elements with
  | nil =>
    intro out _ h
    cases h
  | cons element elements ih =>
    intro out hall h
    obtain ⟨helement, helements⟩ := List.forall_mem_cons.mp hall
    cases elements with
    | nil =>
      obtain ⟨last, hlast, ⟨⟩⟩ := Option.bind_eq_some_iff.mp h
      simpa using hf element last helement hlast
    | cons next elements =>
      obtain ⟨tail, htail, ⟨⟩⟩ := Option.bind_eq_some_iff.mp h
      exact List.forall_mem_cons.mpr ⟨helement, ih tail helements htail⟩

theorem KeepsRange.table {f : Entries → Option Entries} (hf : KeepsRange f) {origin : TableOrigin}
    {entries : Entries} {value : Toml} (hall : AllInRange entries)
    (h : (f entries).map (.table origin) = some value) : InRange value := by
  obtain ⟨out, hout, rfl⟩ := Option.map_eq_some_iff.mp h
  exact .table (hf entries out hall hout)

theorem KeepsRange.tables {f : Entries → Option Entries} (hf : KeepsRange f)
    {elements : List Entries} {value : Toml} (hall : ∀ entries ∈ elements, AllInRange entries)
    (h : (Toml.alterLast f elements).map Toml.tables = some value) : InRange value := by
  obtain ⟨out, hout, rfl⟩ := Option.map_eq_some_iff.mp h
  exact .tables (hf.alterLast elements out hall hout)

theorem keepsRange_put {value : Toml} (hvalue : InRange value) (path : List String) (key : String) :
    KeepsRange (put path key value) := by
  induction path with
  | nil =>
    refine KeepsValueRange.alter (fun held new _ h => ?_) key
    cases held with
    | none =>
      cases h
      exact hvalue
    | some _ => cases h
  | cons step path ih =>
    refine KeepsValueRange.alter (fun held new hheld h => ?_) step
    split at h
    · exact ih.table allInRange_nil h
    · exact ih.table (hheld _ rfl).entries h
    · split at h
      · cases h
      · exact ih.table (hheld _ rfl).entries h
    · split at h
      · cases h
      · exact ih.tables (hheld _ rfl).elements h
    · cases h

theorem keepsRange_within {f : Entries → Option Entries} (hf : KeepsRange f) (path : List String) :
    KeepsRange (within path f) := by
  induction path with
  | nil => exact hf
  | cons step path ih =>
    refine KeepsValueRange.alter (fun held new hheld h => ?_) step
    split at h
    · exact ih.table allInRange_nil h
    · cases h
    · exact ih.table (hheld _ rfl).entries h
    · exact ih.tables (hheld _ rfl).elements h
    · cases h

theorem keepsRange_openTable (path : List String) (key : String) :
    KeepsRange (openTable path key) := by
  refine keepsRange_within (KeepsValueRange.alter (fun held new hheld h => ?_) key) path
  split at h
  · cases h
    exact .table allInRange_nil
  · cases h
    exact .table (hheld _ rfl).entries
  · cases h

theorem keepsRange_openElement (path : List String) (key : String) :
    KeepsRange (openElement path key) := by
  refine keepsRange_within (KeepsValueRange.alter (fun held new hheld h => ?_) key) path
  split at h
  · cases h
    exact .tables (by simp)
  · cases h
    refine .tables (List.forall_mem_append.mpr ⟨(hheld _ rfl).elements, ?_⟩)
    simp
  · cases h

theorem foldlM_invariant {σ α : Type} {step : σ → α → Option σ} {inv : σ → Prop} {items : List α}
    (hstep : ∀ s, ∀ a ∈ items, ∀ s', inv s → step s a = some s' → inv s') {s s' : σ} (hs : inv s)
    (h : items.foldlM step s = some s') : inv s' := by
  induction items generalizing s with
  | nil =>
    cases h
    exact hs
  | cons a items ih =>
    rw [List.foldlM_cons] at h
    obtain ⟨next, hnext, hrest⟩ := Option.bind_eq_some_iff.mp h
    exact ih (fun s a ha => hstep s a (List.mem_cons_of_mem _ ha))
      (hstep s a (List.mem_cons_self ..) next hs hnext) hrest

def Statement.InRange : Statement → Prop
  | .pair _ _ value => Toml.InRange value
  | .table _ _ | .element _ _ => True

theorem Tree.add_inRange {t t' : Tree} {s : Statement} (hs : s.InRange) (ht : AllInRange t.root)
    (h : t.add s = some t') : AllInRange t'.root := by
  cases s with
  | pair path key value =>
    obtain ⟨root, hroot, ⟨⟩⟩ := Option.bind_eq_some_iff.mp h
    exact keepsRange_within (keepsRange_put hs path key) t.current t.root root ht hroot
  | table path key =>
    obtain ⟨root, hroot, ⟨⟩⟩ := Option.bind_eq_some_iff.mp h
    exact keepsRange_openTable path key t.root root ht hroot
  | element path key =>
    obtain ⟨root, hroot, ⟨⟩⟩ := Option.bind_eq_some_iff.mp h
    exact keepsRange_openElement path key t.root root ht hroot

theorem build_inRange {statements : List Statement} (hs : ∀ s ∈ statements, s.InRange)
    {entries : Entries} (h : build statements = some entries) : AllInRange entries := by
  obtain ⟨t, ht, rfl⟩ := Option.map_eq_some_iff.mp h
  exact foldlM_invariant (fun _ s h _ hroot hadd =>
    Tree.add_inRange (hs s h) hroot hadd) allInRange_nil ht

theorem integer?_inRange {n : Int} {cs rest : List Char} {value : Toml}
    (h : integer? n cs = some (value, rest)) : InRange value := by
  unfold integer? at h
  split at h
  · cases h
    exact .integer ‹_ ∧ _›.1 ‹_ ∧ _›.2
  · cases h

theorem readFloat_inRange {sign : Option Char} {whole cs rest : List Char} {value : Toml}
    (h : readFloat sign whole cs = some (value, rest)) : InRange value := by
  simp only [readFloat, Option.bind_eq_bind, Option.bind_eq_some_iff] at h
  obtain ⟨_, _, _, _, h⟩ := h
  split at h
  · cases h
  · cases h
    exact .float

theorem readSigned_inRange {cs rest : List Char} {value : Toml}
    (h : readSigned cs = some (value, rest)) :
    InRange value := by
  unfold readSigned at h
  dsimp only at h
  split at h
  · cases h
    exact .float
  · cases h
    exact .float
  · obtain ⟨_, _, h⟩ := Option.bind_eq_some_iff.mp h
    split at h
    · exact readFloat_inRange h
    · exact integer?_inRange h

theorem readBased_inRange {base : Nat} {isDigit : Char → Bool} {cs rest : List Char} {value : Toml}
    (h : readBased base isDigit cs = some (value, rest)) : InRange value := by
  obtain ⟨_, _, h⟩ := Option.bind_eq_some_iff.mp h
  exact integer?_inRange h

theorem readNumber_inRange {cs rest : List Char} {value : Toml}
    (h : readNumber cs = some (value, rest)) :
    InRange value := by
  unfold readNumber at h
  split at h
  · exact readBased_inRange h
  · exact readBased_inRange h
  · exact readBased_inRange h
  · exact readSigned_inRange h

theorem readScalar_inRange {cs rest : List Char} {value : Toml}
    (h : readScalar cs = some (value, rest)) :
    InRange value := by
  unfold readScalar at h
  split at h
  · cases h
    exact .boolean true
  · cases h
    exact .boolean false
  · split at h
    · obtain ⟨_, _, h⟩ := Option.map_eq_some_iff.mp h
      cases h
      exact .string _
    split at h
    · cases h
      exact .moment
    · exact readNumber_inRange h
  · cases h

def PairsInRange (pairs : List (List String × String × Toml)) : Prop := ∀ p ∈ pairs, InRange p.2.2

theorem inlineTable_inRange {pairs : List (List String × String × Toml)} (hp : PairsInRange pairs)
    {value : Toml} (h : inlineTable pairs = some value) : InRange value := by
  obtain ⟨entries, hfold, rfl⟩ := Option.map_eq_some_iff.mp h
  exact .table (foldlM_invariant (fun _ p h _ hall hput =>
    keepsRange_put (hp p h) p.1 p.2.1 _ _ hall hput) allInRange_nil hfold)

structure ReadersInRange (fuel : Nat) : Prop where
  value : ∀ room cs v rest, readValue fuel room cs = some (v, rest) → InRange v
  items : ∀ room cs vs rest, readItems fuel room cs = some (vs, rest) → ∀ v ∈ vs, InRange v
  pairs : ∀ room cs ps rest, readPairs fuel room cs = some (ps, rest) → PairsInRange ps

theorem readValue_inRange {fuel : Nat} (ih : ReadersInRange fuel) {room : Nat} {cs rest : List Char}
    {v : Toml} (h : readValue (fuel + 1) room cs = some (v, rest)) : InRange v := by
  unfold readValue at h
  dsimp only at h
  split at h
  · split at h
    · cases h
    obtain ⟨_, _, h⟩ := Option.bind_eq_some_iff.mp h
    split at h
    · cases h
      exact .array (List.forall_mem_nil _)
    · obtain ⟨⟨items, _⟩, hitems, ⟨⟩⟩ := Option.bind_eq_some_iff.mp h
      exact .array (ih.items _ _ _ _ hitems)
  · by_cases hroom : room = 0
    · rw [if_pos hroom] at h
      cases h
    rw [if_neg hroom] at h
    split at h
    · obtain ⟨_, htable, ⟨⟩⟩ := Option.bind_eq_some_iff.mp h
      exact inlineTable_inRange (List.forall_mem_nil _) htable
    · obtain ⟨⟨pairs, _⟩, hpairs, h⟩ := Option.bind_eq_some_iff.mp h
      obtain ⟨_, htable, ⟨⟩⟩ := Option.bind_eq_some_iff.mp h
      exact inlineTable_inRange (ih.pairs _ _ _ _ hpairs) htable
  · exact readScalar_inRange h

theorem readItems_inRange {fuel : Nat} (ih : ReadersInRange fuel) {room : Nat} {cs rest : List Char}
    {vs : List Toml} (h : readItems (fuel + 1) room cs = some (vs, rest)) :
    ∀ v ∈ vs, InRange v := by
  unfold readItems at h
  obtain ⟨⟨item, _⟩, hitem, h⟩ := Option.bind_eq_some_iff.mp h
  have hfirst := ih.value _ _ _ _ hitem
  obtain ⟨_, _, h⟩ := Option.bind_eq_some_iff.mp h
  split at h
  · cases h
    simpa using hfirst
  · obtain ⟨_, _, h⟩ := Option.bind_eq_some_iff.mp h
    split at h
    · cases h
      simpa using hfirst
    · obtain ⟨⟨items, _⟩, hitems, ⟨⟩⟩ := Option.bind_eq_some_iff.mp h
      exact List.forall_mem_cons.mpr ⟨hfirst, ih.items _ _ _ _ hitems⟩
  · cases h

theorem readPairs_inRange {fuel : Nat} (ih : ReadersInRange fuel) {room : Nat} {cs rest : List Char}
    {ps : List (List String × String × Toml)} (h : readPairs (fuel + 1) room cs = some (ps, rest)) :
    PairsInRange ps := by
  unfold readPairs at h
  obtain ⟨⟨path, key, _⟩, _, h⟩ := Option.bind_eq_some_iff.mp h
  obtain ⟨⟨value, _⟩, hvalue, h⟩ := Option.bind_eq_some_iff.mp h
  have hfirst := ih.value _ _ _ _ hvalue
  dsimp only at h
  split at h
  · cases h
    simpa [PairsInRange] using hfirst
  · obtain ⟨⟨pairs, _⟩, hpairs, ⟨⟩⟩ := Option.bind_eq_some_iff.mp h
    exact List.forall_mem_cons.mpr ⟨hfirst, ih.pairs _ _ _ _ hpairs⟩
  · cases h

theorem readersInRange (fuel : Nat) : ReadersInRange fuel := by
  induction fuel with
  | zero => constructor <;> intro _ _ _ _ h <;> cases h
  | succ fuel ih =>
    exact ⟨fun _ _ _ _ => readValue_inRange ih, fun _ _ _ _ => readItems_inRange ih,
      fun _ _ _ _ => readPairs_inRange ih⟩

theorem readPair_inRange {cs rest : List Char} {s : Statement} (h : readPair cs = some (s, rest)) :
    s.InRange := by
  obtain ⟨⟨path, key, _⟩, _, h⟩ := Option.bind_eq_some_iff.mp h
  obtain ⟨⟨value, _⟩, hvalue, h⟩ := Option.bind_eq_some_iff.mp h
  obtain ⟨_, _, ⟨⟩⟩ := Option.bind_eq_some_iff.mp h
  exact (readersInRange _).value _ _ _ _ hvalue

theorem readHeader_inRange {cs rest : List Char} {s : Statement}
    (h : readHeader cs = some (s, rest)) :
    s.InRange := by
  obtain ⟨_, _, h⟩ := Option.bind_eq_some_iff.mp h
  split at h
  · obtain ⟨_, _, ⟨⟩⟩ := Option.bind_eq_some_iff.mp h
    trivial
  · cases h

theorem readElementHeader_inRange {cs rest : List Char} {s : Statement}
    (h : readElementHeader cs = some (s, rest)) : s.InRange := by
  obtain ⟨_, _, h⟩ := Option.bind_eq_some_iff.mp h
  split at h
  · obtain ⟨_, _, ⟨⟩⟩ := Option.bind_eq_some_iff.mp h
    trivial
  · cases h

theorem readStatements_inRange {fuel : Nat} {cs : List Char} {statements : List Statement}
    (h : readStatements fuel cs = some statements) : ∀ s ∈ statements, s.InRange := by
  induction fuel generalizing cs statements with
  | zero => cases h
  | succ fuel ih =>
    unfold readStatements at h
    split at h
    · cases h
      exact List.forall_mem_nil _
    split at h
    · obtain ⟨_, _, h⟩ := Option.bind_eq_some_iff.mp h
      exact ih h
    have hcons : ∀ {read : Option (Statement × List Char)},
        (∀ s rest, read = some (s, rest) → s.InRange) →
        (read >>= fun p => readStatements fuel p.2 >>= fun others => pure (p.1 :: others)) =
          some statements → ∀ s ∈ statements, s.InRange := by
      intro read hread h
      obtain ⟨⟨s, rest⟩, hs, h⟩ := Option.bind_eq_some_iff.mp h
      obtain ⟨others, hothers, ⟨⟩⟩ := Option.bind_eq_some_iff.mp h
      exact List.forall_mem_cons.mpr ⟨hread s rest hs, ih hothers⟩
    dsimp only at h
    split at h
    · exact hcons (fun _ _ => readElementHeader_inRange) h
    · exact hcons (fun _ _ => readHeader_inRange) h
    · exact hcons (fun _ _ => readPair_inRange) h

/-- No document holds an integer of more than 64 bits. -/
theorem ofText?_inRange {text : String} {entries : Entries} (h : ofText? text = some entries) :
    AllInRange entries := by
  obtain ⟨statements, hstatements, hbuild⟩ := Option.bind_eq_some_iff.mp h
  exact build_inRange (readStatements_inRange hstatements) hbuild

theorem find?_inRange {entries : Entries} (hall : AllInRange entries) (key : String) :
    ∀ v ∈ find? key entries, InRange v := by
  intro v hv
  obtain ⟨e, he, rfl⟩ := Option.map_eq_some_iff.mp hv
  exact hall e (List.mem_of_find?_eq_some he)

end Toml

namespace Settings

theorem sectionValues_inRange {names : List String} {held : Option Toml}
    {values : List (Option Toml)} (hheld : ∀ v ∈ held, v.InRange)
    (h : sectionValues names held = some values) :
    ∀ value ∈ values, ∀ v ∈ value, v.InRange := by
  unfold sectionValues at h
  split at h
  · cases h
    simp
  · cases h
    simp
  · cases h
    have hentries := (hheld _ rfl).entries
    simp only [List.forall_mem_map]
    exact fun name _ => Toml.find?_inRange hentries name
  · cases h
    simp only [List.forall_mem_map]
    intro i _ v hv
    cases hheld _ rfl with
    | array hitems => exact hitems v (List.mem_of_getElem? hv)
  · cases h

theorem naturalOr_lt {missing n : Nat} {held : Option Toml}
    (hmissing : (missing : Int) < Toml.integerLimit) (hheld : ∀ v ∈ held, v.InRange)
    (h : naturalOr missing held = some n) :
    (n : Int) < Toml.integerLimit := by
  unfold naturalOr at h
  split at h
  · cases h
    exact hmissing
  · split at h
    · cases h
      cases hheld _ rfl with
      | integer _ hlt => omega
    · cases h
  · cases h

/-- The number in settings that are read has 63 bits. -/
theorem barWidth_lt {text : String} {s : Settings} (h : ofText? text = some s) :
    (s.barWidth : Int) < Toml.integerLimit := by
  obtain ⟨entries, hentries, h⟩ := Option.bind_eq_some_iff.mp h
  have hall := Toml.ofText?_inRange hentries
  unfold ofEntries? at h
  obtain ⟨_, _, h⟩ := Option.bind_eq_some_iff.mp h
  obtain ⟨report, hreport, h⟩ := Option.bind_eq_some_iff.mp h
  have hrange := sectionValues_inRange (Toml.find?_inRange hall _) hreport
  obtain ⟨_, _, h⟩ := Option.bind_eq_some_iff.mp h
  split at h
  · simp only [Option.bind_eq_bind, Option.bind_eq_some_iff] at h
    obtain ⟨_, _, _, _, _, _, width, hwidth, _, _, _, _, _, _, ⟨⟩⟩ := h
    exact naturalOr_lt (by decide) (hrange _ (by simp)) hwidth
  · cases h

end Settings
end TrailingYear
