import TrailingYear.Json.Text
import TrailingYear.Proofs.Decimal.Text
import TrailingYear.Proofs.Text
import Mathlib.Data.List.TakeDrop

/-! # Reading back JSON text

Any blanks may stand between the parts of a text. A text is read up to the quote that
closes it, and a number up to a character that no number goes on with; everything else has
an end of its own. -/

namespace TrailingYear
namespace Json

def before (c : Char) (read : Option (List Char × List Char)) : Option (List Char × List Char) :=
  read.map fun (text, rest) => (c :: text, rest)

theorem readQuoted_escaped {c d : Char} (hd : escaped? d = some c) (more : List Char) :
    readQuoted ('\\' :: d :: more) = before c (readQuoted more) := by
  have hu : ∀ (a b e f : Char) (cs : List Char), d = 'u' → more = a :: b :: e :: f :: cs →
      False := by
    rintro _ _ _ _ _ rfl _
    cases hd
  rw [readQuoted.eq_4 d more hu, hd]
  cases readQuoted more <;> rfl

theorem readQuoted_control {c : Char} (hc : c.toNat < 32) (more : List Char) :
    readQuoted
      ('\\' :: 'u' :: '0' :: '0' :: hexDigit (c.toNat / 16) :: hexDigit (c.toNat % 16) :: more) =
      before c (readQuoted more) := by
  have hplain : ¬ (0xD800 ≤ c.toNat ∧ c.toNat < 0xDC00) := by omega
  rw [readQuoted, hexNumber?_byte hexValue?_hexDigit (by omega), Option.bind_eq_bind,
    Option.bind_some, if_neg hplain, charOf?_toNat]
  cases readQuoted more <;> rfl

theorem readQuoted_plain {c : Char} (hq : c ≠ '"') (hb : c ≠ '\\') (hc : ¬ c.toNat < 32)
    (more : List Char) : readQuoted (c :: more) = before c (readQuoted more) := by
  rw [readQuoted.eq_5 c more hq (fun _ _ _ _ _ h _ => hb h) (fun _ _ h _ => hb h),
    if_neg (not_or_intro hc hb)]
  cases readQuoted more <;> rfl

theorem readQuoted_escape (c : Char) (more : List Char) :
    readQuoted (escape c ++ more) = before c (readQuoted more) := by
  unfold escape
  split_ifs with hquote hbackslash hline hreturn htab hback hfeed hcontrol
  · subst c
    exact readQuoted_escaped rfl more
  · subst c
    exact readQuoted_escaped rfl more
  · subst c
    exact readQuoted_escaped rfl more
  · subst c
    exact readQuoted_escaped rfl more
  · subst c
    exact readQuoted_escaped rfl more
  · obtain rfl : c = '\x08' := Char.toNat_inj.mp hback
    exact readQuoted_escaped rfl more
  · obtain rfl : c = '\x0c' := Char.toNat_inj.mp hfeed
    exact readQuoted_escaped rfl more
  · exact readQuoted_control hcontrol more
  · exact readQuoted_plain hquote hbackslash hcontrol more

/-- A text is read back up to the quote that closes it. -/
theorem readQuoted_flatMap (cs rest : List Char) :
    readQuoted (cs.flatMap escape ++ '"' :: rest) = some (cs, rest) := by
  induction cs with
  | nil => rfl
  | cons c cs ih =>
    rw [List.flatMap_cons, List.append_assoc, readQuoted_escape, ih, before, Option.map_some]

def Ends (rest : List Char) : Prop :=
  ∀ c ∈ rest.head?, c.isDigit = false ∧ c ≠ '.' ∧ c ≠ 'e' ∧ c ≠ 'E'

theorem natOf_natDigits (n : Nat) : natOf (natDigits n) = n := by
  rw [natOf, foldl_digitValue (fun _ => digit?_of_isDigit) fun _ => isDigit_of_mem_natDigits,
    ofDigitChars_natDigits]

theorem spanDigits_natDigits {n : Nat} {rest : List Char}
    (h : ∀ c ∈ rest.head?, c.isDigit = false) :
    spanDigits (natDigits n ++ rest) = (natDigits n, rest) := by
  have hdigits : ∀ c ∈ natDigits n, c.isDigit := fun _ => isDigit_of_mem_natDigits
  rw [spanDigits, List.span_eq_takeWhile_dropWhile, List.takeWhile_append_of_pos hdigits,
    List.dropWhile_append_of_pos hdigits]
  cases rest with
  | nil => simp
  | cons c rest =>
    have hc : ¬ c.isDigit = true := by simpa using h
    rw [List.takeWhile_cons_of_neg hc, List.dropWhile_cons_of_neg hc, List.append_nil]

theorem readExponentDigits_natDigits {n : Nat} {rest : List Char} (h : Ends rest) :
    readExponentDigits (natDigits n ++ rest) = some (n, rest) := by
  rw [readExponentDigits, spanDigits_natDigits fun c hc => (h c hc).1]
  dsimp only
  rw [if_neg (natDigits_ne_nil n), natOf_natDigits]

/-- A power of ten that is one is not written. -/
def exponentChars (e : Int) : List Char := if e = 0 then [] else 'e' :: intChars e

theorem readExponent_ends {rest : List Char} (h : Ends rest) :
    readExponent rest = some (0, rest) := by
  have hne : ∀ c cs, rest = c :: cs → c ≠ 'e' ∧ c ≠ 'E' := by
    rintro c cs rfl
    exact (h c rfl).2.2
  exact readExponent.eq_7 rest (fun _ hr => (hne _ _ hr).1 rfl) (fun _ hr => (hne _ _ hr).2 rfl)
    (fun _ hr => (hne _ _ hr).1 rfl) (fun _ hr => (hne _ _ hr).2 rfl)
    (fun _ hr => (hne _ _ hr).1 rfl)
    (fun _ hr => (hne _ _ hr).2 rfl)

theorem readExponent_chars {e : Int} {rest : List Char} (h : Ends rest) :
    readExponent (exponentChars e ++ rest) = some (e, rest) := by
  have hread := readExponentDigits_natDigits (n := e.natAbs) h
  unfold exponentChars intChars
  by_cases hzero : e = 0
  · rw [if_pos hzero, List.nil_append, hzero]
    exact readExponent_ends h
  rw [if_neg hzero]
  by_cases hneg : e < 0
  · have habs : -(e.natAbs : Int) = e := by omega
    rw [if_pos hneg, List.cons_append, List.cons_append, readExponent, hread, Option.map_some]
    dsimp only
    rw [habs]
  · have habs : (e.natAbs : Int) = e := by omega
    obtain ⟨d, ds, hds, hd⟩ := natDigits_eq_cons e.natAbs
    rw [if_neg hneg, List.cons_append, readExponent.eq_5, hread, Option.map_some]
    · dsimp only
      rw [habs]
    · intro cs hcs
      rw [hds, List.cons_append, List.cons.injEq] at hcs
      exact ne_of_isDigit hd (by decide) hcs.1
    · intro cs hcs
      rw [hds, List.cons_append, List.cons.injEq] at hcs
      exact ne_of_isDigit hd (by decide) hcs.1

/-- Neither an exponent nor what follows it goes on with the digits before it. -/
theorem exponentChars_head {e : Int} {rest : List Char} (h : Ends rest) :
    ∀ c ∈ (exponentChars e ++ rest).head?, c.isDigit = false ∧ c ≠ '.' := by
  unfold exponentChars
  split
  · intro c hc
    exact ⟨(h c hc).1, (h c hc).2.1⟩
  · rintro c ⟨⟩
    decide

theorem readUnsigned_chars {n : Nat} {e : Int} {rest : List Char} (h : Ends rest) :
    readUnsigned (natDigits n ++ (exponentChars e ++ rest)) = some (n, e, rest) := by
  have hhead := exponentChars_head (e := e) h
  have hwhole : ¬ (natDigits n = [] ∨ (natDigits n).head? = some '0' ∧ natDigits n ≠ ['0']) := by
    rintro (hnil | ⟨hzero, hne⟩)
    · exact natDigits_ne_nil n hnil
    · obtain ⟨ds, hds⟩ := List.head?_eq_some_iff.mp hzero
      exact hne (natDigits_leading hds ▸ hds)
  have hplaces : readPlaces (exponentChars e ++ rest) = some ([], exponentChars e ++ rest) := by
    apply readPlaces.eq_2
    intro cs hcs
    exact (hhead '.' (by rw [hcs]; rfl)).2 rfl
  rw [readUnsigned, spanDigits_natDigits fun c hc => (hhead c hc).1]
  dsimp only
  rw [if_neg hwhole, hplaces]
  simp only [Option.bind_eq_bind, Option.bind_some, readExponent_chars h, List.append_nil,
    natOf_natDigits]
  simp

theorem readNumber_chars {m e : Int} {rest : List Char} (h : Ends rest) :
    readNumber (intChars m ++ (exponentChars e ++ rest)) = some (.number m e, rest) := by
  have hread := readUnsigned_chars (n := m.natAbs) (e := e) h
  unfold intChars
  by_cases hneg : m < 0
  · have habs : -(m.natAbs : Int) = m := by omega
    rw [if_pos hneg, List.cons_append, readNumber, hread, Option.map_some]
    dsimp only
    rw [habs]
  · have habs : (m.natAbs : Int) = m := by omega
    obtain ⟨d, ds, hds, hd⟩ := natDigits_eq_cons m.natAbs
    rw [if_neg hneg, readNumber.eq_2, hread, Option.map_some]
    · dsimp only
      rw [habs]
    intro cs hcs
    rw [hds, List.cons_append, List.cons.injEq] at hcs
    exact ne_of_isDigit hd (by decide) hcs.1

def AllBlank (gap : List Char) : Prop := ∀ c ∈ gap, c = ' ' ∨ c = '\n' ∨ c = '\r' ∨ c = '\t'

mutual

inductive IsValue : Json → List Char → Prop where
  | null : IsValue .null ['n', 'u', 'l', 'l']
  | boolTrue : IsValue (.bool true) ['t', 'r', 'u', 'e']
  | boolFalse : IsValue (.bool false) ['f', 'a', 'l', 's', 'e']
  | number (m e) : IsValue (.number m e) (intChars m ++ exponentChars e)
  | string (text) : IsValue (.string text) (quoted text)
  | emptyArray {gap} : AllBlank gap → IsValue (.array []) ('[' :: (gap ++ [']']))
  | array {gap item cs items tail} : AllBlank gap → IsValue item cs → AreItems items tail →
      IsValue (.array (item :: items)) ('[' :: (gap ++ (cs ++ tail)))
  | emptyObject {gap} : AllBlank gap → IsValue (.object []) ('\x7b' :: (gap ++ ['\x7d']))
  | object {gap name value cs members tail} : AllBlank gap → IsMember name value cs →
      AreMembers members tail →
      IsValue (.object ((name, value) :: members)) ('\x7b' :: (gap ++ (cs ++ tail)))

inductive AreItems : List Json → List Char → Prop where
  | nil {gap} : AllBlank gap → AreItems [] (gap ++ [']'])
  | cons {gap gap' item cs items tail} : AllBlank gap → AllBlank gap' → IsValue item cs →
      AreItems items tail → AreItems (item :: items) (gap ++ ',' :: (gap' ++ (cs ++ tail)))

inductive IsMember : String → Json → List Char → Prop where
  | mk {name gap gap' value cs} : AllBlank gap → AllBlank gap' → IsValue value cs →
      IsMember name value (quoted name ++ (gap ++ ':' :: (gap' ++ cs)))

inductive AreMembers : List (String × Json) → List Char → Prop where
  | nil {gap} : AllBlank gap → AreMembers [] (gap ++ ['\x7d'])
  | cons {gap gap' name value cs members tail} : AllBlank gap → AllBlank gap' →
      IsMember name value cs → AreMembers members tail →
      AreMembers ((name, value) :: members) (gap ++ ',' :: (gap' ++ (cs ++ tail)))

end

def IsText (j : Json) (text : String) : Prop :=
  ∃ gap cs gap', AllBlank gap ∧ IsValue j cs ∧ AllBlank gap' ∧ text.toList = gap ++ cs ++ gap'

theorem skipBlanks_append {gap : List Char} (h : AllBlank gap) (cs : List Char) :
    skipBlanks (gap ++ cs) = skipBlanks cs := by
  refine List.dropWhile_append_of_pos fun c hc => ?_
  rcases h c hc with rfl | rfl | rfl | rfl <;> rfl

theorem skipBlanks_bracket {c : Char} (hc : c = '[' ∨ c = '\x7b') (more : List Char) :
    skipBlanks (c :: more) = c :: more := by
  rcases hc with rfl | rfl <;> rfl

theorem intChars_head (m : Int) (tail : List Char) :
    ∃ c cs, intChars m ++ tail = c :: cs ∧ (c = '-' ∨ c.isDigit) := by
  unfold intChars
  split
  · exact ⟨_, _, rfl, .inl rfl⟩
  · obtain ⟨d, ds, hds, hd⟩ := natDigits_eq_cons m.natAbs
    exact ⟨d, ds ++ tail, by rw [hds]; rfl, .inr hd⟩

theorem ne_of_numberStart {c d : Char} (hc : c = '-' ∨ c.isDigit)
    (hd : d ≠ '-' ∧ d.isDigit = false) :
    c ≠ d := by
  rcases hc with rfl | hc
  · exact Ne.symm hd.1
  · exact ne_of_isDigit hc hd.2

theorem skipBlanks_numberStart {c : Char} (hc : c = '-' ∨ c.isDigit) (more : List Char) :
    skipBlanks (c :: more) = c :: more := by
  have hne : ∀ d, d ≠ '-' ∧ d.isDigit = false → c ≠ d := fun d => ne_of_numberStart hc
  exact List.dropWhile_cons_of_neg (by simp [hne])

/-- No blank starts the text of a value, nor does what ends an array. -/
theorem IsValue.head {j : Json} {cs : List Char} (h : IsValue j cs) :
    ∃ c tail, cs = c :: tail ∧ c ≠ ']' ∧ ∀ more, skipBlanks (c :: more) = c :: more := by
  cases h with
  | number m e =>
    obtain ⟨c, tail, hcs, hc⟩ := intChars_head m (exponentChars e)
    exact ⟨c, tail, hcs, ne_of_numberStart hc (by decide), skipBlanks_numberStart hc⟩
  | null | boolTrue | boolFalse | string | emptyArray | array | emptyObject | object =>
    exact ⟨_, _, rfl, by decide, fun _ => rfl⟩

theorem readValue_blank {gap : List Char} (h : AllBlank gap) (fuel : Nat) (cs : List Char) :
    readValue fuel (gap ++ cs) = readValue fuel cs := by
  cases fuel with
  | zero => rfl
  | succ fuel => rw [readValue, readValue, skipBlanks_append h]

theorem readName_blank {gap : List Char} (h : AllBlank gap) (cs : List Char) :
    readName (gap ++ cs) = readName cs := by
  rw [readName, readName, skipBlanks_append h]

theorem ends_nil : Ends [] := by
  rintro c ⟨⟩

theorem ends_cons {c : Char} (hc : c.isDigit = false ∧ c ≠ '.' ∧ c ≠ 'e' ∧ c ≠ 'E')
    (rest : List Char) :
    Ends (c :: rest) := by
  rintro d ⟨⟩
  exact hc

theorem Ends.after {gap rest : List Char} (hgap : AllBlank gap) (h : Ends rest) :
    Ends (gap ++ rest) := by
  cases gap with
  | nil => exact h
  | cons c gap =>
    rcases hgap c (List.mem_cons_self ..) with rfl | rfl | rfl | rfl <;>
      exact ends_cons (by decide) _

theorem AreItems.ends {items : List Json} {tail : List Char} (h : AreItems items tail)
    (rest : List Char) :
    Ends (tail ++ rest) := by
  cases h with
  | nil hgap | cons hgap =>
    rw [List.append_assoc]
    exact .after hgap (ends_cons (by decide) _)

theorem AreMembers.ends {members : List (String × Json)} {tail : List Char}
    (h : AreMembers members tail) (rest : List Char) : Ends (tail ++ rest) := by
  cases h with
  | nil hgap | cons hgap =>
    rw [List.append_assoc]
    exact .after hgap (ends_cons (by decide) _)

section

variable {gap : List Char} (hgap : AllBlank gap) (fuel : Nat) (rest : List Char)
include hgap

theorem readName_quoted (name : String) :
    readName (quoted name ++ (gap ++ ':' :: rest)) = some (name, rest) := by
  have hquoted : quoted name ++ (gap ++ ':' :: rest) =
      '"' :: (name.toList.flatMap escape ++ '"' :: (gap ++ ':' :: rest)) := by
    simp [quoted]
  have hcolon : skipBlanks (gap ++ ':' :: rest) = ':' :: rest := skipBlanks_append hgap _
  rw [hquoted, readName]
  show (readQuoted _ >>= _) = _
  rw [readQuoted_flatMap, Option.bind_eq_bind, Option.bind_some]
  dsimp only
  rw [hcolon]
  exact congrArg some (congrArg (·, rest) String.ofList_toList)

theorem readValue_emptyArray :
    readValue (fuel + 1) ('[' :: (gap ++ ']' :: rest)) = some (.array [], rest) := by
  rw [readValue, skipBlanks_bracket (.inl rfl)]
  -- Only the outer match is decided, by the bracket; the blanks in the inner one are still to be
  -- skipped.
  conv_lhs => whnf
  rw [skipBlanks_append hgap]
  rfl

theorem readValue_array {cs : List Char} (hcs : skipBlanks cs = cs) (hclose : cs.head? ≠ some ']') :
    readValue (fuel + 1) ('[' :: (gap ++ cs)) = (do
      let (item, rest) ← readValue fuel cs
      let (items, rest) ← readItems fuel rest
      return (.array (item :: items), rest)) := by
  rw [readValue, skipBlanks_bracket (.inl rfl)]
  conv_lhs => whnf
  rw [skipBlanks_append hgap, hcs]
  split
  · exact absurd rfl hclose
  · rfl

theorem readValue_emptyObject :
    readValue (fuel + 1) ('\x7b' :: (gap ++ '\x7d' :: rest)) = some (.object [], rest) := by
  rw [readValue, skipBlanks_bracket (.inr rfl)]
  conv_lhs => whnf
  rw [skipBlanks_append hgap]
  rfl

theorem readValue_object {cs : List Char} (hcs : skipBlanks cs = cs)
    (hclose : cs.head? ≠ some '\x7d') :
    readValue (fuel + 1) ('\x7b' :: (gap ++ cs)) = (do
      let (name, rest) ← readName cs
      let (value, rest) ← readValue fuel rest
      let (members, rest) ← readMembers fuel rest
      return (.object ((name, value) :: members), rest)) := by
  rw [readValue, skipBlanks_bracket (.inr rfl)]
  conv_lhs => whnf
  rw [skipBlanks_append hgap, hcs]
  split
  · exact absurd rfl hclose
  · rfl

theorem readItems_close : readItems (fuel + 1) (gap ++ ']' :: rest) = some ([], rest) := by
  rw [readItems, skipBlanks_append hgap]
  rfl

theorem readItems_comma :
    readItems (fuel + 1) (gap ++ ',' :: rest) = (do
      let (item, rest) ← readValue fuel rest
      let (items, rest) ← readItems fuel rest
      return (item :: items, rest)) := by
  rw [readItems, skipBlanks_append hgap]
  rfl

theorem readMembers_close : readMembers (fuel + 1) (gap ++ '\x7d' :: rest) = some ([], rest) := by
  rw [readMembers, skipBlanks_append hgap]
  rfl

theorem readMembers_comma :
    readMembers (fuel + 1) (gap ++ ',' :: rest) = (do
      let (name, rest) ← readName rest
      let (value, rest) ← readValue fuel rest
      let (members, rest) ← readMembers fuel rest
      return ((name, value) :: members, rest)) := by
  rw [readMembers, skipBlanks_append hgap]
  rfl

end

theorem readValue_number {m e : Int} {rest : List Char} (h : Ends rest) (fuel : Nat) :
    readValue (fuel + 1) (intChars m ++ exponentChars e ++ rest) = some (.number m e, rest) := by
  obtain ⟨c, cs, hcs, hc⟩ := intChars_head m (exponentChars e ++ rest)
  have hnumber := readNumber_chars (m := m) (e := e) h
  rw [List.append_assoc, hcs]
  rw [hcs] at hnumber
  have hne : ∀ d, d ≠ '-' ∧ d.isDigit = false → ∀ ds, c :: cs = d :: ds → False :=
    fun d hd ds heq => ne_of_numberStart hc hd (List.cons.inj heq).1
  rw [readValue, skipBlanks_numberStart hc]
  split
  · exact (hne '[' (by decide) _ ‹_›).elim
  · exact (hne '\x7b' (by decide) _ ‹_›).elim
  · rw [readScalar.eq_5 _ (hne '"' (by decide)) (fun _ => hne 'n' (by decide) _)
      (fun _ => hne 't' (by decide) _) (fun _ => hne 'f' (by decide) _), hnumber]

theorem readValue_quoted (fuel : Nat) (text : String) (rest : List Char) :
    readValue (fuel + 1) (quoted text ++ rest) = some (.string text, rest) := by
  have hquoted : quoted text ++ rest = '"' :: (text.toList.flatMap escape ++ '"' :: rest) := by
    simp [quoted]
  rw [hquoted]
  show (readQuoted _).map _ = _
  rw [readQuoted_flatMap]
  exact congrArg (fun t => some (Json.string t, rest)) String.ofList_toList

mutual

/-- Each text of a value is read as the value, whatever its blanks. -/
theorem IsValue.read {j : Json} {cs : List Char} (h : IsValue j cs) (fuel : Nat)
    (hf : cs.length ≤ fuel)
    {rest : List Char} (hrest : Ends rest) : readValue fuel (cs ++ rest) = some (j, rest) := by
  obtain ⟨fuel, rfl⟩ : ∃ n, fuel = n + 1 := by
    obtain ⟨c, tail, rfl, _⟩ := h.head
    exact Nat.exists_eq_add_one.mpr (Nat.zero_lt_of_lt hf)
  cases h with
  | null => rfl
  | boolTrue => rfl
  | boolFalse => rfl
  | number m e => exact readValue_number hrest fuel
  | string text => exact readValue_quoted fuel text rest
  | emptyArray hgap =>
    rw [List.cons_append, List.append_assoc]
    exact readValue_emptyArray hgap fuel rest
  | @array gap item cs items tail hgap hitem hitems =>
    simp only [List.length_cons, List.length_append] at hf
    obtain ⟨c, cs', hcs, hclose, hskip⟩ := hitem.head
    have hread := hitem.read fuel (by omega) (hitems.ends rest)
    have hreads := hitems.read fuel (by omega) rest
    rw [List.cons_append, List.append_assoc, List.append_assoc, readValue_array hgap]
    · simp only [hread, hreads, Option.bind_eq_bind, Option.bind_some]
      rfl
    · rw [hcs, List.cons_append, hskip]
    · rw [hcs, List.cons_append, List.head?_cons]
      simpa using hclose
  | emptyObject hgap =>
    rw [List.cons_append, List.append_assoc]
    exact readValue_emptyObject hgap fuel rest
  | @object gap name value cs members tail hgap hmember hmembers =>
    simp only [List.length_cons, List.length_append] at hf
    obtain ⟨mid, hname, hvalue⟩ := hmember.read fuel (by omega) (hmembers.ends rest)
    have hreads := hmembers.read fuel (by omega) rest
    rw [List.cons_append, List.append_assoc, List.append_assoc, readValue_object hgap]
    · simp only [hname, hvalue, hreads, Option.bind_eq_bind, Option.bind_some]
      rfl
    · cases hmember
      rfl
    · cases hmember
      simp [quoted]
termination_by cs.length

theorem AreItems.read {items : List Json} {tail : List Char} (h : AreItems items tail) (fuel : Nat)
    (hf : tail.length ≤ fuel) (rest : List Char) :
    readItems fuel (tail ++ rest) = some (items, rest) := by
  obtain ⟨fuel, rfl⟩ : ∃ n, fuel = n + 1 := by
    cases h <;> exact Nat.exists_eq_add_one.mpr (Nat.lt_of_lt_of_le (by simp) hf)
  cases h with
  | nil hgap =>
    rw [List.append_assoc]
    exact readItems_close hgap fuel rest
  | @cons gap gap' item cs items tail hgap hgap' hitem hitems =>
    simp only [List.length_cons, List.length_append] at hf
    have hread := hitem.read fuel (by omega) (hitems.ends rest)
    have hreads := hitems.read fuel (by omega) rest
    rw [List.append_assoc, List.cons_append, List.append_assoc, List.append_assoc,
      readItems_comma hgap, readValue_blank hgap']
    simp only [hread, hreads, Option.bind_eq_bind, Option.bind_some]
    rfl
termination_by tail.length

theorem IsMember.read {name : String} {value : Json} {cs : List Char} (h : IsMember name value cs)
    (fuel : Nat) (hf : cs.length ≤ fuel) {rest : List Char} (hrest : Ends rest) :
    ∃ mid, readName (cs ++ rest) = some (name, mid) ∧ readValue fuel mid = some (value, rest) := by
  cases h with
  | @mk _ gap gap' _ cs hgap hgap' hvalue =>
    simp only [List.length_cons, List.length_append] at hf
    refine ⟨gap' ++ (cs ++ rest), ?_, ?_⟩
    · rw [List.append_assoc, List.append_assoc, List.cons_append, List.append_assoc,
        readName_quoted hgap]
    · rw [readValue_blank hgap', hvalue.read fuel (by omega) hrest]
termination_by cs.length

theorem AreMembers.read {members : List (String × Json)} {tail : List Char}
    (h : AreMembers members tail) (fuel : Nat) (hf : tail.length ≤ fuel) (rest : List Char) :
    readMembers fuel (tail ++ rest) = some (members, rest) := by
  obtain ⟨fuel, rfl⟩ : ∃ n, fuel = n + 1 := by
    cases h <;> exact Nat.exists_eq_add_one.mpr (Nat.lt_of_lt_of_le (by simp) hf)
  cases h with
  | nil hgap =>
    rw [List.append_assoc]
    exact readMembers_close hgap fuel rest
  | @cons gap gap' name value cs members tail hgap hgap' hmember hmembers =>
    simp only [List.length_cons, List.length_append] at hf
    obtain ⟨mid, hname, hvalue⟩ := hmember.read fuel (by omega) (hmembers.ends rest)
    have hreads := hmembers.read fuel (by omega) rest
    rw [List.append_assoc, List.cons_append, List.append_assoc, List.append_assoc,
      readMembers_comma hgap, readName_blank hgap']
    simp only [hname, hvalue, hreads, Option.bind_eq_bind, Option.bind_some]
    rfl
termination_by tail.length

end

/-- Each text of a value is read as the value. -/
theorem IsText.read {j : Json} {text : String} (h : IsText j text) : ofText? text = some j := by
  obtain ⟨gap, cs, gap', hgap, hvalue, hgap', htext⟩ := h
  have hlength : cs.length ≤ (gap ++ (cs ++ gap')).length + 1 := by
    simp only [List.length_append]
    omega
  have hends : Ends (gap' ++ []) := .after hgap' ends_nil
  have hskip : skipBlanks (gap' ++ []) = [] := skipBlanks_append hgap' []
  rw [List.append_nil] at hends hskip
  rw [ofText?, htext, List.append_assoc, ofChars?, readValue_blank hgap,
    hvalue.read _ hlength hends]
  exact if_pos hskip

/-- The gap before an item or a member. -/
theorem allBlank_newLine (depth : Nat) : AllBlank (newLine depth) := by
  intro c hc
  rcases List.mem_cons.mp hc with rfl | hc
  · exact .inr (.inl rfl)
  · exact .inl (List.eq_of_mem_replicate hc)

theorem allBlank_nil : AllBlank [] := List.forall_mem_nil _

mutual

theorem isValue_toChars (depth : Nat) : ∀ j : Json, IsValue j (j.toChars depth)
  | .null => .null
  | .bool true => .boolTrue
  | .bool false => .boolFalse
  | .number m e => by
    have h := IsValue.number m e
    have hchars : toChars depth (.number m e) = intChars m ++ exponentChars e := by
      unfold exponentChars
      rw [toChars]
      split
      · rw [List.append_nil]
      · rfl
    rwa [hchars]
  | .string text => .string text
  | .array [] => .emptyArray allBlank_nil
  | .array (item :: items) => by
    have h := IsValue.array (allBlank_newLine (depth + 1)) (isValue_toChars (depth + 1) item)
      (areItems_toChars depth items)
    rwa [← List.append_assoc, ← List.cons_append] at h
  | .object [] => .emptyObject allBlank_nil
  | .object ((name, value) :: members) => by
    have h :=
      IsValue.object (allBlank_newLine (depth + 1)) (isMember_toChars (depth + 1) (name, value))
      (areMembers_toChars depth members)
    rwa [← List.append_assoc, ← List.cons_append] at h

theorem areItems_toChars (depth : Nat) :
    ∀ items : List Json, AreItems items (itemsToChars depth items)
  | [] => .nil (allBlank_newLine depth)
  | item :: items => by
    have h :=
      AreItems.cons allBlank_nil (allBlank_newLine (depth + 1)) (isValue_toChars (depth + 1) item)
      (areItems_toChars depth items)
    rwa [← List.append_assoc, ← List.cons_append] at h

theorem isMember_toChars (depth : Nat) :
    ∀ m : String × Json, IsMember m.1 m.2 (memberToChars depth m)
  | (_, value) =>
    .mk allBlank_nil (List.forall_mem_singleton.mpr (.inl rfl)) (isValue_toChars depth value)

theorem areMembers_toChars (depth : Nat) :
    ∀ members : List (String × Json), AreMembers members (membersToChars depth members)
  | [] => .nil (allBlank_newLine depth)
  | (name, value) :: members => by
    have h := AreMembers.cons allBlank_nil (allBlank_newLine (depth + 1))
      (isMember_toChars (depth + 1) (name, value)) (areMembers_toChars depth members)
    rwa [← List.append_assoc, ← List.cons_append] at h

end

theorem isText_toText (j : Json) : IsText j j.toText :=
  ⟨[], j.toChars 0, [], allBlank_nil, isValue_toChars 0 j, allBlank_nil, by simp [toText]⟩

end Json
end TrailingYear
