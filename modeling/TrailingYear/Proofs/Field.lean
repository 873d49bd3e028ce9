import TrailingYear.Import
import TrailingYear.Proofs.Decimal.Text
import TrailingYear.Proofs.Decimal.Rounding
import TrailingYear.Proofs.FirstFailure
import TrailingYear.Proofs.Text

/-! # Numbers in fields

A decimal can stand in a field as it is written, or with commas between the thousands of its
integer part. Both forms are accepted and read as the same decimal. -/

namespace TrailingYear

/-- A comma after each digit that is followed by a number of whole groups of three. -/
def grouped : List Char → List Char
  | [] => []
  | c :: cs => if cs ≠ [] ∧ cs.length % 3 = 0 then c :: ',' :: grouped cs else c :: grouped cs

def Decimal.toGroupedText (d : Decimal) : String :=
  String.ofList (d.sign ++ grouped d.whole ++ d.pointAndPlaces)

theorem ne_comma_of_isDigit {c : Char} (h : c.isDigit) : c ≠ ',' := by
  rintro rfl
  exact absurd h (by decide)

theorem mem_grouped {ds : List Char} {c : Char} (h : c ∈ grouped ds) : c ∈ ds ∨ c = ',' := by
  induction ds with
  | nil => exact .inl h
  | cons d ds ih =>
    rw [grouped] at h
    split at h
    · rcases List.mem_cons.mp h with rfl | h
      · exact .inl (List.mem_cons_self ..)
      rcases List.mem_cons.mp h with rfl | h
      · exact .inr rfl
      · exact (ih h).imp_left (List.mem_cons_of_mem _)
    · rcases List.mem_cons.mp h with rfl | h
      · exact .inl (List.mem_cons_self ..)
      · exact (ih h).imp_left (List.mem_cons_of_mem _)

theorem filter_grouped {ds : List Char} (hd : ∀ c ∈ ds, c.isDigit) :
    (grouped ds).filter (· ≠ ',') = ds := by
  induction ds with
  | nil => rfl
  | cons c ds ih =>
    obtain ⟨hc, hds⟩ := List.forall_mem_cons.mp hd
    rw [grouped]
    have hkeep := ne_comma_of_isDigit hc
    split
    · rw [List.filter_cons_of_pos (by simpa using hkeep),
        List.filter_cons_of_neg (by decide), ih hds]
    · rw [List.filter_cons_of_pos (by simpa using hkeep), ih hds]

/-- The first group has one to three digits, each other one three. -/
theorem splitOn_grouped {ds : List Char} (hd : ∀ c ∈ ds, c.isDigit) (hne : ds ≠ []) :
    ∃ first groups, (grouped ds).splitOn ',' = first :: groups ∧
      (∀ c ∈ first, c.isDigit) ∧ first.length = (ds.length - 1) % 3 + 1 ∧
      ∀ group ∈ groups, (∀ c ∈ group, c.isDigit) ∧ group.length = 3 := by
  induction ds with
  | nil => exact absurd rfl hne
  | cons c ds ih =>
    obtain ⟨hc, hds⟩ := List.forall_mem_cons.mp hd
    have hcomma : (c == ',') = false := by simpa using ne_comma_of_isDigit hc
    by_cases hnil : ds = []
    · subst hnil
      refine ⟨[c], [], ?_, by simpa using hc, rfl, by simp⟩
      simp [grouped, List.splitOn_cons_eq_if_modifyHead, hcomma]
    · obtain ⟨first, groups, hsplit, hfirst, hlength, hgroups⟩ := ih hds hnil
      have hpos := List.length_pos_iff.mpr hnil
      rw [grouped]
      by_cases hthree : ds ≠ [] ∧ ds.length % 3 = 0
      · rw [if_pos hthree]
        refine ⟨[c], first :: groups, ?_, by simpa using hc, ?_, ?_⟩
        · simp [List.splitOn_cons_eq_if_modifyHead, hcomma, hsplit]
        · simp only [List.length_cons, List.length_nil]
          omega
        · exact List.forall_mem_cons.mpr ⟨⟨hfirst, by omega⟩, hgroups⟩
      · rw [if_neg hthree]
        refine ⟨c :: first, groups, ?_, List.forall_mem_cons.mpr ⟨hc, hfirst⟩, ?_, hgroups⟩
        · simp [List.splitOn_cons_eq_if_modifyHead, hcomma, hsplit]
        · have hmod : ds.length % 3 ≠ 0 := fun h => hthree ⟨hnil, h⟩
          simp only [List.length_cons]
          omega

namespace Field

theorem areDigits_iff {cs : List Char} (hd : ∀ c ∈ cs, c.isDigit) (hne : cs ≠ []) :
    areDigits cs = true := by
  rw [areDigits, Bool.and_eq_true, List.all_eq_true]
  exact ⟨by simpa using hne, fun c hc => isDigit_of_isDigit (hd c hc)⟩

theorem areDigits_elim {cs : List Char} (h : areDigits cs = true) :
    cs ≠ [] ∧ ∀ c ∈ cs, isDigit c := by
  rw [areDigits, Bool.and_eq_true, List.all_eq_true] at h
  exact ⟨by simpa using h.1, h.2⟩

theorem areGroupedDigits_grouped {ds : List Char} (hd : ∀ c ∈ ds, c.isDigit) (hne : ds ≠ []) :
    areGroupedDigits (grouped ds) = true := by
  obtain ⟨first, groups, hsplit, hfirst, hlength, hgroups⟩ := splitOn_grouped hd hne
  have hfirst' : areDigits first = true :=
    areDigits_iff hfirst (List.ne_nil_of_length_pos (by omega))
  rw [areGroupedDigits, hsplit]
  simp only [hfirst', Bool.true_and, Bool.and_eq_true, decide_eq_true_eq, List.all_eq_true]
  refine ⟨by omega, fun group hgroup => ?_⟩
  obtain ⟨hdigits, hthree⟩ := hgroups group hgroup
  exact ⟨areDigits_iff hdigits (List.ne_nil_of_length_pos (by omega)), hthree⟩

section

open Decimal (pointed)

variable {s w places : List Char}

theorem takeWhile_pointed (hw : ∀ c ∈ w, c ≠ '.') :
    (w ++ pointed places).takeWhile (· ≠ '.') = w := by
  rw [List.takeWhile_append_of_pos fun c hc => decide_eq_true (hw c hc)]
  unfold pointed
  split <;> simp

theorem dropWhile_pointed (hw : ∀ c ∈ w, c ≠ '.') :
    (w ++ pointed places).dropWhile (· ≠ '.') = pointed places := by
  rw [List.dropWhile_append_of_pos fun c hc => decide_eq_true (hw c hc)]
  unfold pointed
  split <;> simp

theorem mem_pointed (hp : ∀ c ∈ places, c.isDigit) {c : Char} (hc : c ∈ pointed places) :
    c.isDigit ∨ c = '.' := by
  unfold pointed at hc
  split at hc
  · cases hc
  · exact (List.mem_cons.mp hc).symm.imp_left (hp c)

theorem filter_pointed (hp : ∀ c ∈ places, c.isDigit) :
    (pointed places).filter (· ≠ ',') = pointed places := by
  rw [List.filter_eq_self]
  intro c hc
  rcases mem_pointed hp hc with hdigit | rfl
  · exact decide_eq_true (ne_comma_of_isDigit hdigit)
  · decide

theorem isNumberForm_append (hs : s = [] ∨ s = ['-'])
    (hw : areDigits w = true ∨ areGroupedDigits w = true) (hne : w ≠ [])
    (hc : ∀ c ∈ w, c.isDigit ∨ c = ',') (hp : ∀ c ∈ places, c.isDigit) :
    isNumberForm (s ++ w ++ pointed places) = true := by
  have hpoint : ∀ c ∈ w, c ≠ '.' := by
    rintro c hcw rfl
    exact absurd (hc _ hcw) (by decide)
  have hminus : (w ++ pointed places).head? ≠ some '-' := by
    cases w with
    | nil => exact absurd rfl hne
    | cons c w =>
      rintro ⟨⟩
      exact absurd (hc _ (List.mem_cons_self ..)) (by decide)
  have hunsigned : (if (s ++ w ++ pointed places).head? = some '-' then
      (s ++ w ++ pointed places).tail else s ++ w ++ pointed places) = w ++ pointed places := by
    rcases hs with rfl | rfl
    · exact if_neg hminus
    · rfl
  have hafter : ((pointed places).isEmpty || areDigits (pointed places).tail) = true := by
    unfold pointed
    split
    next => rfl
    next hne => exact areDigits_iff hp hne
  rw [isNumberForm]
  simp only [hunsigned, takeWhile_pointed hpoint, dropWhile_pointed hpoint, hafter, Bool.and_true,
    Bool.or_eq_true]
  exact hw

theorem exists_pointed {cs : List Char} (hne : ∀ c ∈ cs.head?, c = '.')
    (h : (cs.isEmpty || areDigits cs.tail) = true) :
    ∃ places, pointed places = cs ∧ ∀ c ∈ places, isDigit c := by
  cases cs with
  | nil => exact ⟨[], rfl, by simp⟩
  | cons c cs =>
    obtain rfl : c = '.' := hne c rfl
    obtain ⟨hcs, hdigits⟩ := areDigits_elim h
    exact ⟨cs, if_neg hcs, hdigits⟩

/-- The parts that the number form names, one after the other. -/
theorem exists_parts {cs : List Char} (h : isNumberForm cs = true) :
    ∃ s w places, s ++ w ++ pointed places = cs ∧ (s = [] ∨ s = ['-']) ∧
      (areDigits w = true ∨ areGroupedDigits w = true) ∧ ∀ c ∈ places, isDigit c := by
  have hsigned : ∃ s, s ++ (if cs.head? = some '-' then cs.tail else cs) = cs ∧
      (s = [] ∨ s = ['-']) := by
    by_cases hminus : cs.head? = some '-'
    · rw [if_pos hminus]
      exact ⟨['-'], List.cons_head?_tail hminus, .inr rfl⟩
    · rw [if_neg hminus]
      exact ⟨[], rfl, .inl rfl⟩
  obtain ⟨s, hcs, hs⟩ := hsigned
  rw [isNumberForm] at h
  generalize (if cs.head? = some '-' then cs.tail else cs) = unsigned at h hcs
  rw [Bool.and_eq_true, Bool.or_eq_true] at h
  have hpoint : ∀ c ∈ (unsigned.dropWhile (· ≠ '.')).head?, c = '.' := by
    intro c hc
    have hstop := List.head?_dropWhile_not (· ≠ '.') unsigned
    rw [hc] at hstop
    simpa using hstop
  obtain ⟨places, hpointed, hplaces⟩ := exists_pointed hpoint h.2
  refine ⟨s, unsigned.takeWhile (· ≠ '.'), places, ?_, hs, h.1, hplaces⟩
  rw [hpointed, List.append_assoc, List.takeWhile_append_dropWhile, hcs]

end

end Field

namespace Decimal

def IsWritten (d : Decimal) (text : String) : Prop := text = d.toText ∨ text = d.toGroupedText

theorem mem_pointAndPlaces {d : Decimal} {c : Char} (h : c ∈ d.pointAndPlaces) :
    c.isDigit ∨ c = '.' := by
  rw [pointAndPlaces_eq] at h
  exact Field.mem_pointed (fun _ => isDigit_of_mem_places) h

theorem sign_eq (d : Decimal) : d.sign = [] ∨ d.sign = ['-'] := by
  unfold sign
  cases d.negative <;> simp

theorem mem_sign {d : Decimal} {c : Char} (h : c ∈ d.sign) : c = '-' := by
  rcases d.sign_eq with hs | hs
  · rw [hs] at h
    cases h
  · rw [hs] at h
    exact List.mem_singleton.mp h

theorem IsWritten.exists_whole {d : Decimal} {text : String} (h : d.IsWritten text) :
    ∃ w, text.toList = d.sign ++ w ++ d.pointAndPlaces ∧ w ≠ [] ∧
      (Field.areDigits w = true ∨ Field.areGroupedDigits w = true) ∧
      (∀ c ∈ w, c.isDigit ∨ c = ',') ∧ w.filter (· ≠ ',') = d.whole := by
  have hne : d.whole ≠ [] := d.whole_ne_nil
  have hd : ∀ c ∈ d.whole, c.isDigit := fun c => isDigit_of_mem_whole
  rcases h with rfl | rfl
  · refine ⟨d.whole, String.toList_ofList, hne, .inl (Field.areDigits_iff hd hne),
      fun c hc => .inl (hd c hc), ?_⟩
    rw [List.filter_eq_self]
    intro c hc
    exact decide_eq_true (ne_comma_of_isDigit (hd c hc))
  · refine ⟨grouped d.whole, String.toList_ofList, ?_, .inr (Field.areGroupedDigits_grouped hd hne),
      fun c hc => (mem_grouped hc).imp_left (hd c), filter_grouped hd⟩
    intro hnil
    have hfilter := filter_grouped hd
    rw [hnil] at hfilter
    exact hne hfilter.symm

theorem IsWritten.number {d : Decimal} {text : String} (h : d.IsWritten text) :
    Field.number text = .ok (d.withSign (decide (d.mantissa < 0))) := by
  obtain ⟨w, htext, hne, hform, hc, hfilter⟩ := h.exists_whole
  have hsign : d.sign.filter (· ≠ ',') = d.sign := by
    rw [List.filter_eq_self]
    intro c hc
    rw [mem_sign hc]
    decide
  have hplaces : d.pointAndPlaces.filter (· ≠ ',') = d.pointAndPlaces := by
    rw [pointAndPlaces_eq]
    exact Field.filter_pointed fun _ => isDigit_of_mem_places
  have hchars : text.toList.filter (· ≠ ',') = d.toChars := by
    rw [htext, List.filter_append, List.filter_append, hfilter, hsign, hplaces, toChars_eq]
  have hd : Field.isNumberForm text.toList = true := by
    rw [htext, pointAndPlaces_eq]
    exact Field.isNumberForm_append d.sign_eq hform hne hc fun _ => isDigit_of_mem_places
  rw [Field.number, hd, if_pos rfl, hchars, ofChars_toChars]
  rfl

theorem IsWritten.mem_chars {d : Decimal} {text : String} (h : d.IsWritten text) {c : Char}
    (hc : c ∈ text.toList) : c.isDigit ∨ c = ',' ∨ c = '.' ∨ c = '-' := by
  obtain ⟨w, htext, _, _, hw, _⟩ := h.exists_whole
  rw [htext, List.mem_append, List.mem_append] at hc
  rcases hc with (hc | hc) | hc
  · exact .inr (.inr (.inr (mem_sign hc)))
  · exact (hw c hc).imp_right .inl
  · exact (mem_pointAndPlaces hc).imp_right fun h => .inr (.inl h)

theorem IsWritten.trim_eq {d : Decimal} {text : String} (h : d.IsWritten text) :
    trim text = text := by
  apply trim_of_none
  intro c hc
  rcases h.mem_chars hc with hdigit | rfl | rfl | rfl
  · exact isBlank_of_visible (visible_of_isDigit hdigit)
  · decide
  · decide
  · decide

theorem IsWritten.ne_empty {d : Decimal} {text : String} (h : d.IsWritten text) : text ≠ "" := by
  obtain ⟨w, htext, hne, _⟩ := h.exists_whole
  rintro rfl
  rw [String.toList_empty] at htext
  have hlength := congrArg List.length htext
  have := List.length_pos_iff.mpr hne
  simp only [List.length_append, List.length_nil] at hlength
  omega

end Decimal

namespace Field

open Decimal (IsWritten)

theorem amount_eq_ok_iff {text : String} {d : Decimal} :
    amount text = .ok d ↔ number text = .ok d ∧ ¬ d.IsNegative := by
  have hcheck := check_eq_ok_iff (p := fun v => ¬ v.IsNegative) (f := fun _ => .negativeAmount text)
    (x := number text) (a := d)
  simp only [ite_not] at hcheck
  exact hcheck

theorem rate_eq_ok_iff {text : String} {d : Decimal} :
    rate text = .ok d ↔ number text = .ok d ∧ d.IsPositive :=
  check_eq_ok_iff

/-- An amount is read back with its places, a zero without its sign. -/
theorem amount_of_written {d : Decimal} {text : String} (h : d.IsWritten text) (hd : 0 ≤ d.toRat) :
    amount text = .ok (d.withSign false) := by
  have hnonneg : ¬ d.mantissa < 0 := by
    rw [← not_lt, ← Decimal.isNegative_iff_toRat] at hd
    exact hd
  have hread : ¬ (d.withSign false).IsNegative := by
    rw [Decimal.IsNegative, Decimal.mantissa_withSign]
    simp
  rw [amount_eq_ok_iff, h.number, decide_eq_false hnonneg]
  exact ⟨rfl, hread⟩

theorem rate_of_written {d : Decimal} {text : String} (h : d.IsWritten text) (hd : 0 < d.toRat) :
    rate text = .ok d := by
  have hnz : ¬ d.IsZero := by
    rw [Decimal.isZero_iff_toRat]
    exact hd.ne'
  have hread : d.withSign (decide (d.mantissa < 0)) = d := by
    have hsign : decide (d.mantissa < 0) = d.negative := by
      rw [Bool.eq_iff_iff, decide_eq_true_eq, Decimal.negative_iff hnz]
    rw [hsign]
    rfl
  rw [rate_eq_ok_iff, h.number, hread]
  exact ⟨rfl, Decimal.isPositive_iff_toRat.mpr hd⟩

theorem optionalRate_of_written {d : Decimal} {text : String} (h : d.IsWritten text)
    (hd : 0 < d.toRat) : optionalRate text = .ok (some d) := by
  rw [optionalRate, if_neg h.ne_empty, rate_of_written h hd]
  rfl

theorem currencyCode_of_form {text : String} (h : isCurrencyCode text.toList = true) :
    currencyCode text = .ok text := by
  have hne : text ≠ "" := by
    rintro rfl
    cases h
  rw [currencyCode, if_neg hne, if_pos h]

end Field
end TrailingYear
