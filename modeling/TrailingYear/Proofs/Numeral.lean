import TrailingYear.Proofs.Decimal.Reading
import TrailingYear.Proofs.Field

/-! # Numerals

Every text of the number form in ASCII digits is written from a sign, groups of digits and
places. It is read as the number that it denotes, exactly where its digits fit and else rounded
half away from zero. -/

namespace TrailingYear

/-- A number in ASCII digits. Commas stand before the groups of three; without any the
first has any length. -/
structure Numeral where
  minus : Bool
  first : List Char
  groups : List (List Char)
  places : List Char
  first_ne_nil : first ≠ []
  first_le : groups ≠ [] → first.length ≤ 3
  length_group : ∀ group ∈ groups, group.length = 3
  isDigit_first : ∀ c ∈ first, c.isDigit
  isDigit_group : ∀ group ∈ groups, ∀ c ∈ group, c.isDigit
  isDigit_places : ∀ c ∈ places, c.isDigit

theorem filter_intercalate {parts : List (List Char)} (hcomma : ∀ part ∈ parts, ',' ∉ part) :
    ([','].intercalate parts).filter (· ≠ ',') = parts.flatten := by
  induction parts with
  | nil => rfl
  | cons part parts ih =>
    obtain ⟨hpart, hparts⟩ := List.forall_mem_cons.mp hcomma
    have hkeep : part.filter (· ≠ ',') = part := by
      rw [List.filter_eq_self]
      exact fun c hc => decide_eq_true (ne_of_mem_of_not_mem hc hpart)
    cases parts with
    | nil => simpa using hkeep
    | cons next parts =>
      rw [List.intercalate_cons_cons, List.filter_append, List.filter_append, hkeep, ih hparts,
        List.flatten_cons, List.append_assoc]
      rfl

namespace Numeral

open Decimal (capacity maxScale pointed EndsAs ReadsAs)

variable (n : Numeral)

def sign : List Char := if n.minus then ['-'] else []

def grouped : List Char := [','].intercalate (n.first :: n.groups)

def whole : List Char := n.first ++ n.groups.flatten

def toChars : List Char := n.sign ++ n.grouped ++ pointed n.places

def unscaled : ℕ := Nat.ofDigitChars 10 (n.whole ++ n.places) 0

def value : ℚ := (if n.minus then -1 else 1) * (n.unscaled / 10 ^ n.places.length)

def Fits : Prop := n.unscaled < capacity ∧ n.places.length ≤ maxScale

theorem sign_eq : n.sign = [] ∨ n.sign = ['-'] := by
  unfold sign
  cases n.minus <;> simp

theorem comma_not_mem : ∀ part ∈ n.first :: n.groups, ',' ∉ part := by
  intro part hpart hcomma
  have hdigit : ∀ part ∈ n.first :: n.groups, ∀ c ∈ part, c.isDigit :=
    List.forall_mem_cons.mpr ⟨n.isDigit_first, n.isDigit_group⟩
  exact ne_comma_of_isDigit (hdigit part hpart ',' hcomma) rfl

theorem isDigit_whole : ∀ c ∈ n.whole, c.isDigit := by
  intro c hc
  rcases List.mem_append.mp hc with hc | hc
  · exact n.isDigit_first c hc
  · obtain ⟨group, hgroup, hc⟩ := List.mem_flatten.mp hc
    exact n.isDigit_group group hgroup c hc

theorem whole_ne_nil : n.whole ≠ [] := List.append_ne_nil_of_left_ne_nil n.first_ne_nil _

theorem filter_grouped : n.grouped.filter (· ≠ ',') = n.whole := filter_intercalate n.comma_not_mem

theorem mem_grouped {c : Char} (hc : c ∈ n.grouped) : c.isDigit ∨ c = ',' := by
  by_cases hcomma : c = ','
  · exact .inr hcomma
  · have hmem : c ∈ n.grouped.filter (· ≠ ',') := List.mem_filter.mpr ⟨hc, decide_eq_true hcomma⟩
    rw [filter_grouped] at hmem
    exact .inl (n.isDigit_whole c hmem)

theorem grouped_ne_nil : n.grouped ≠ [] := by
  intro hnil
  have hfilter := n.filter_grouped
  rw [hnil] at hfilter
  exact n.whole_ne_nil hfilter.symm

theorem filter_toChars :
    n.toChars.filter (· ≠ ',') = n.sign ++ (n.whole ++ pointed n.places) := by
  have hsign : n.sign.filter (· ≠ ',') = n.sign := by
    rcases n.sign_eq with h | h <;> rw [h] <;> rfl
  rw [toChars, List.filter_append, List.filter_append, hsign, filter_grouped,
    Field.filter_pointed n.isDigit_places, List.append_assoc]

theorem areDigits_or_grouped :
    Field.areDigits n.grouped = true ∨ Field.areGroupedDigits n.grouped = true := by
  by_cases hgroups : n.groups = []
  · left
    have hgrouped : n.grouped = n.first := by simp [grouped, hgroups]
    rw [hgrouped]
    exact Field.areDigits_iff n.isDigit_first n.first_ne_nil
  right
  have hsplit : n.grouped.splitOn ',' = n.first :: n.groups :=
    List.splitOn_intercalate _ n.comma_not_mem (List.cons_ne_nil _ _)
  rw [Field.areGroupedDigits, hsplit]
  simp only [Field.areDigits_iff n.isDigit_first n.first_ne_nil, Bool.true_and, Bool.and_eq_true,
    decide_eq_true_eq, List.all_eq_true]
  refine ⟨n.first_le hgroups, fun group hgroup => ?_⟩
  have hlength := n.length_group group hgroup
  exact ⟨Field.areDigits_iff (n.isDigit_group group hgroup) (List.ne_nil_of_length_pos (by omega)),
    hlength⟩

theorem isNumberForm_toChars : Field.isNumberForm n.toChars = true :=
  Field.isNumberForm_append n.sign_eq n.areDigits_or_grouped n.grouped_ne_nil
    (fun _ => n.mem_grouped) n.isDigit_places

/-- What follows the sign. -/
theorem mem_unsigned {c : Char} (hc : c ∈ n.grouped ++ pointed n.places) :
    c.isDigit ∨ c = ',' ∨ c = '.' := by
  rcases List.mem_append.mp hc with hc | hc
  · exact (n.mem_grouped hc).imp_right .inl
  · exact (Field.mem_pointed n.isDigit_places hc).imp_right .inr

theorem minus_not_mem : '-' ∉ n.grouped ++ pointed n.places := by
  intro hc
  exact absurd (n.mem_unsigned hc) (by decide)

theorem mem_toChars {c : Char} (hc : c ∈ n.toChars) : c.isDigit ∨ c = ',' ∨ c = '.' ∨ c = '-' := by
  rw [toChars, List.append_assoc] at hc
  rcases List.mem_append.mp hc with hc | hc
  · have hminus : c = '-' := by
      rcases n.sign_eq with h | h <;> rw [h] at hc
      · cases hc
      · exact List.mem_singleton.mp hc
    exact .inr (.inr (.inr hminus))
  · exact (n.mem_unsigned hc).imp_right (.imp_right .inl)

theorem minus_not_mem_tail : '-' ∉ n.toChars.tail := by
  rw [toChars, List.append_assoc]
  rcases n.sign_eq with h | h <;> rw [h]
  · exact fun hc => n.minus_not_mem (List.mem_of_mem_tail hc)
  · exact n.minus_not_mem

/-- The two forms of an integer part, once all digits are ASCII digits. -/
theorem exists_groups {w : List Char}
    (h : Field.areDigits w = true ∨ Field.areGroupedDigits w = true)
    (hascii : ∀ c ∈ w, TrailingYear.isDigit c → c.isDigit) :
    ∃ first groups, [','].intercalate (first :: groups) = w ∧ first ≠ [] ∧
      (groups ≠ [] → first.length ≤ 3) ∧
      (∀ group ∈ groups, group.length = 3) ∧ ∀ part ∈ first :: groups, ∀ c ∈ part, c.isDigit := by
  rcases h with hplain | hgrouped
  · obtain ⟨hne, hdigits⟩ := Field.areDigits_elim hplain
    refine ⟨w, [], by simp, hne, fun hnil => absurd rfl hnil, by simp, ?_⟩
    rw [List.forall_mem_singleton]
    exact fun c hc => hascii c hc (hdigits c hc)
  unfold Field.areGroupedDigits at hgrouped
  cases hsplit : w.splitOn ',' with
  | nil => simp [hsplit] at hgrouped
  | cons first groups =>
    simp only [hsplit, Bool.and_eq_true, decide_eq_true_eq, List.all_eq_true] at hgrouped
    obtain ⟨⟨hfirst, hlength⟩, hgroups⟩ := hgrouped
    have hjoin : [','].intercalate (first :: groups) = w := by
      rw [← hsplit]
      exact List.intercalate_splitOn ','
    have hparts : ∀ part ∈ first :: groups, Field.areDigits part = true :=
      List.forall_mem_cons.mpr ⟨hfirst, fun group hgroup => (hgroups group hgroup).1⟩
    have hcomma : ∀ part ∈ first :: groups, ',' ∉ part := by
      intro part hpart hmem
      exact absurd ((Field.areDigits_elim (hparts part hpart)).2 ',' hmem) (by decide)
    refine ⟨first, groups, hjoin, (Field.areDigits_elim hfirst).1, fun _ => hlength,
      fun group hgroup => (hgroups group hgroup).2, fun part hpart c hc => ?_⟩
    have hmem : c ∈ w.filter (· ≠ ',') := by
      rw [← hjoin, filter_intercalate hcomma]
      exact List.mem_flatten_of_mem hpart hc
    exact hascii c (List.mem_filter.mp hmem).1 ((Field.areDigits_elim (hparts part hpart)).2 c hc)

/-- The number form holds of nothing else. -/
theorem exists_of_isNumberForm {cs : List Char} (h : Field.isNumberForm cs = true)
    (hascii : ∀ c ∈ cs, TrailingYear.isDigit c → c.isDigit) : ∃ n : Numeral, n.toChars = cs := by
  obtain ⟨s, w, places, rfl, hs, hw, hplaces⟩ := Field.exists_parts h
  obtain ⟨first, groups, rfl, hne, hle, hlength, hdigit⟩ := exists_groups hw
    fun c hc => hascii c (by simp [hc])
  obtain ⟨hfirst, hgroup⟩ := List.forall_mem_cons.mp hdigit
  have hplace : ∀ c ∈ places, c.isDigit := by
    intro c hc
    have hmem : c ∈ pointed places := by simp [pointed, List.ne_nil_of_mem hc, hc]
    exact hascii c (List.mem_append_right _ hmem) (hplaces c hc)
  have hsign : ∃ minus : Bool, (if minus then ['-'] else []) = s := by
    rcases hs with rfl | rfl
    · exact ⟨false, rfl⟩
    · exact ⟨true, rfl⟩
  obtain ⟨minus, rfl⟩ := hsign
  exact ⟨⟨minus, first, groups, places, hne, hle, hlength, hfirst, hgroup, hplace⟩, rfl⟩

theorem value_eq : n.value =
    (if n.minus then -1 else 1) * (Nat.ofDigitChars 10 n.whole 0 + fraction n.places) := by
  rw [value, unscaled, Nat.ofDigitChars_append, ofDigitChars_fraction,
    mul_div_cancel_right₀ _ (by positivity)]

theorem ofChars_endsAs :
    EndsAs n.value n.places.length (Decimal.ofChars (n.toChars.filter (· ≠ ','))) := by
  obtain ⟨hpos, hneg⟩ := Decimal.ofChars_endsAs n.whole_ne_nil n.isDigit_whole n.isDigit_places
  rw [filter_toChars, value_eq]
  cases hminus : n.minus with
  | false => simpa [sign, hminus] using hpos
  | true => simpa [sign, hminus] using hneg

theorem value_mul : n.value * 10 ^ n.places.length =
    (((if n.minus then -1 else 1) * n.unscaled : ℤ) : ℚ) := by
  rw [value, mul_assoc, div_mul_cancel₀ _ (by positivity)]
  split <;> simp

theorem natAbs_unscaled : ((if n.minus then -1 else 1) * n.unscaled : ℤ).natAbs = n.unscaled := by
  split <;> simp

def withoutCommas : Numeral where
  minus := n.minus
  first := n.whole
  groups := []
  places := n.places
  first_ne_nil := n.whole_ne_nil
  first_le := fun h => absurd rfl h
  length_group := by simp
  isDigit_first := n.isDigit_whole
  isDigit_group := by simp
  isDigit_places := n.isDigit_places

theorem toChars_withoutCommas : n.withoutCommas.toChars = n.toChars.filter (· ≠ ',') := by
  have hgrouped : n.withoutCommas.grouped = n.whole := by simp [grouped, withoutCommas]
  rw [filter_toChars, toChars, hgrouped, List.append_assoc]
  rfl

def thousands : Numeral where
  minus := false
  first := ['1']
  groups := [['2', '5', '0']]
  places := ['0', '0']
  first_ne_nil := by simp
  first_le := by simp
  length_group := by simp
  isDigit_first := by simp
  isDigit_group := by simp
  isDigit_places := by simp

def belowLastPlace : Numeral where
  minus := true
  first := ['0']
  groups := []
  places := List.replicate 28 '0' ++ ['1']
  first_ne_nil := by simp
  first_le := by simp
  length_group := by simp
  isDigit_first := by simp
  isDigit_group := by simp
  isDigit_places := by simp

structure IsReadAs (n : Numeral) (d : Decimal) : Prop where
  exact : n.Fits → d.toRat = n.value ∧ d.scale = n.places.length
  rounded : ¬ n.Fits → d.toRat = roundAway (n.value * 10 ^ d.scale) / 10 ^ d.scale
  greatest : ¬ n.Fits →
    IsGreatest {t | t ≤ maxScale ∧ (roundAway (n.value * 10 ^ t)).natAbs < capacity} d.scale
  unsigned : d.toRat = 0 → d.negative = false

variable {n}

theorem isReadAs_of_readsAs {d : Decimal} (h : ReadsAs n.value n.places.length d) :
    n.IsReadAs d := by
  have hk := n.value_mul
  have hfits := n.natAbs_unscaled
  constructor
  · rintro ⟨hroom, hplaces⟩
    rw [← hfits] at hroom
    exact ⟨h.exact hk hroom hplaces, h.scale_eq hk hroom hplaces⟩
  · exact fun _ => h.toRat_eq
  · intro hfull
    rw [Fits, ← hfits] at hfull
    exact h.isGreatest hk hfull
  · intro hzero
    rw [← Decimal.isZero_iff_toRat] at hzero
    rw [h.sign, decide_eq_false hzero.not_lt]

end Numeral

namespace Field

open Numeral

variable {text : String} {n : Numeral} {d : Decimal}

theorem number_of_toChars (hn : n.toChars = text.toList) :
    number text = .ok d ↔ Decimal.ofChars (n.toChars.filter (· ≠ ',')) = .ok d := by
  rw [number, ← hn, n.isNumberForm_toChars, if_pos rfl, mapError_eq_ok_iff]

theorem readsAs_of_number (hn : n.toChars = text.toList) (h : number text = .ok d) :
    Decimal.ReadsAs n.value n.places.length d := by
  have hends := n.ofChars_endsAs
  rw [(number_of_toChars hn).mp h] at hends
  exact hends

theorem exists_number_iff (hn : n.toChars = text.toList) :
    (∃ d, number text = .ok d) ↔ ¬ OutOfRange n.value := by
  constructor
  · rintro ⟨d, h⟩
    exact (readsAs_of_number hn h).inRange
  · intro hrange
    have hends := n.ofChars_endsAs
    cases hread : Decimal.ofChars (n.toChars.filter (· ≠ ',')) with
    | ok d => exact ⟨d, (number_of_toChars hn).mpr hread⟩
    | error e =>
      rw [hread] at hends
      exact absurd hends hrange

/-- The form allows digits of any script, but the reader does not. -/
theorem exists_numeral (h : number text = .ok d) : ∃ n : Numeral, n.toChars = text.toList := by
  unfold number at h
  split at h
  next hform =>
    cases hread : Decimal.ofChars (text.toList.filter (· ≠ ',')) with
    | error e =>
      rw [hread] at h
      cases h
    | ok d =>
      refine exists_of_isNumberForm hform fun c hc hdigit => ?_
      by_contra hascii
      have hcomma : c ≠ ',' := by
        rintro rfl
        exact absurd hdigit (by decide)
      have hmem : c ∈ text.toList.filter (· ≠ ',') :=
        List.mem_filter.mpr ⟨hc, decide_eq_true hcomma⟩
      have hmark : c ∈ ['.', '_', '-', '+'] :=
        (Decimal.numberChars_of_ofChars hread c hmem).resolve_left hascii
      have hnone : ∀ c ∈ ['.', '_', '-', '+'], TrailingYear.isDigit c = false := by
        simp only [List.forall_mem_cons]
        exact ⟨by decide, by decide, by decide, by decide, by simp⟩
      rw [hnone c hmark] at hdigit
      cases hdigit
  next => cases h

/-- Numbers are read exactly from the numerals that are in range. -/
theorem number_reads_numerals (text : String) :
    ((∃ d, number text = .ok d) ↔
      ∃ n : Numeral, n.toChars = text.toList ∧ (roundAway n.value).natAbs ≤ 2 ^ 96 - 1) ∧
    (∀ n : Numeral, n.toChars = text.toList → ∀ d, number text = .ok d → n.IsReadAs d) ∧
    (∀ n : Numeral, n.toChars = text.toList → ∀ d,
      number text = .ok d ↔ number (String.ofList (text.toList.filter (· ≠ ','))) = .ok d) ∧
    ((∃ d, number text = .ok d) →
      (∀ c ∈ text.toList, c.isDigit ∨ c = ',' ∨ c = '.' ∨ c = '-') ∧ '-' ∉ text.toList.tail) := by
  have hrange {x : ℚ} : ¬ OutOfRange x ↔ (roundAway x).natAbs ≤ 2 ^ 96 - 1 := by
    rw [outOfRange_iff_roundAway, not_le, Nat.lt_iff_le_pred (by decide)]
    rfl
  refine ⟨⟨?_, ?_⟩, ?_, ?_, ?_⟩
  · rintro ⟨d, h⟩
    obtain ⟨n, hn⟩ := exists_numeral h
    exact ⟨n, hn, hrange.mp ((exists_number_iff hn).mp ⟨d, h⟩)⟩
  · rintro ⟨n, hn, hfits⟩
    exact (exists_number_iff hn).mpr (hrange.mpr hfits)
  · intro n hn d h
    exact isReadAs_of_readsAs (readsAs_of_number hn h)
  · intro n hn d
    have hplain :
        n.withoutCommas.toChars = (String.ofList (text.toList.filter (· ≠ ','))).toList := by
      rw [String.toList_ofList, ← hn, n.toChars_withoutCommas]
    rw [number_of_toChars hn, number_of_toChars hplain, n.toChars_withoutCommas, List.filter_filter]
    simp only [Bool.and_self]
  · rintro ⟨d, h⟩
    obtain ⟨n, hn⟩ := exists_numeral h
    rw [← hn]
    exact ⟨fun c => n.mem_toChars, n.minus_not_mem_tail⟩

/-- The sign is looked at after rounding. What is then a zero is an amount, although it can be
the nearest to a negative number of more places; a rate has to be positive, and so is the
number that it was. -/
theorem signs_by_value {v : Decimal} (hn : n.toChars = text.toList) (hv : number text = .ok v) :
    (∀ d, amount text = .ok d ↔ d = v ∧ -(1 / 2 / 10 ^ 28) < n.value) ∧
    (∀ d, rate text = .ok d ↔ d = v ∧ 1 / 2 / 10 ^ 28 ≤ n.value) ∧
    ∀ d, rate text = .ok d → 0 < d.toRat ∧ 0 < n.value := by
  have hread := readsAs_of_number hn hv
  have hsame {d : Decimal} : number text = .ok d ↔ d = v := by
    rw [hv, Except.ok.injEq, eq_comm]
  have hrate (d : Decimal) : rate text = .ok d ↔ d = v ∧ 1 / 2 / 10 ^ 28 ≤ n.value := by
    rw [rate_eq_ok_iff, hsame]
    refine and_congr_right fun hd => ?_
    rw [hd, Decimal.IsPositive, hread.mantissa_pos_iff n.value_mul]
  refine ⟨fun d => ?_, hrate, fun d hd => ?_⟩
  · rw [amount_eq_ok_iff, hsame]
    refine and_congr_right fun hd => ?_
    rw [hd, Decimal.IsNegative, hread.mantissa_neg_iff n.value_mul, not_le]
  · have hpos := (rate_eq_ok_iff.mp hd).2
    have hvalue := ((hrate d).mp hd).2
    exact ⟨Decimal.isPositive_iff_toRat.mp hpos, lt_of_lt_of_le (by positivity) hvalue⟩

theorem signs_of_thousands :
    amount "1,250.00" = .ok ⟨false, 125000, 2, by decide, by decide⟩ ∧
    rate "1,250.00" = .ok ⟨false, 125000, 2, by decide, by decide⟩ := by
  have hn : thousands.toChars = "1,250.00".toList := by decide
  have hv : number "1,250.00" = .ok ⟨false, 125000, 2, by decide, by decide⟩ := by decide +kernel
  have hvalue : thousands.value = 1250 := by decide +kernel
  obtain ⟨hamount, hrate, _⟩ := signs_by_value hn hv
  exact ⟨(hamount _).mpr ⟨rfl, by norm_num [hvalue]⟩, (hrate _).mpr ⟨rfl, by norm_num [hvalue]⟩⟩

/-- A negative number that is taken as an amount. -/
theorem amount_takes_negative :
    belowLastPlace.toChars = "-0.00000000000000000000000000001".toList ∧ belowLastPlace.value < 0 ∧
    number "-0.00000000000000000000000000001" = .ok ⟨false, 0, 28, by decide, by decide⟩ ∧
    amount "-0.00000000000000000000000000001" = .ok ⟨false, 0, 28, by decide, by decide⟩ :=
  ⟨by decide, by decide +kernel, by decide +kernel, by decide +kernel⟩

end Field
end TrailingYear
