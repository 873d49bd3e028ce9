import Mathlib.Data.List.TakeWhile
import TrailingYear.Import
import TrailingYear.Proofs.Date.Text

/-! # The spellings of a day

A day is read from more texts than the one that is written for it: its numbers may have blanks
before them and fewer digits, and a year with a sign may have more. Of the texts with four, two
and two digits each is read as the day that it is written for, or as none. -/

namespace TrailingYear
namespace Date

/-- A number that has digits already, or has room for none, may end. -/
theorem no_digits (cs : List Char) {n width : ℕ} {seen : Bool} (h : seen = true ∨ width = 0) :
    ∃ ds, cs = ds ++ cs ∧ (∀ c ∈ ds, c.isDigit) ∧ ds.length ≤ width ∧ n = Nat.ofDigitChars 10 ds n ∧
      (seen = false → 0 < width → ds ≠ []) := by
  refine ⟨[], rfl, by simp, Nat.zero_le _, Nat.ofDigitChars_nil.symm, ?_⟩
  rcases h with rfl | rfl
  · nofun
  · intro _ hpos
    exact absurd hpos (Nat.lt_irrefl 0)

/-- What a number is read from: digits that fit, and what follows them. -/
theorem digits_of_readNumber {cs rest : List Char} {n m width : ℕ} {seen : Bool}
    (h : readNumber n seen width cs = .ok (m, rest)) :
    ∃ ds, cs = ds ++ rest ∧ (∀ c ∈ ds, c.isDigit) ∧ ds.length ≤ width ∧
      m = Nat.ofDigitChars 10 ds n ∧ (seen = false → 0 < width → ds ≠ []) := by
  induction cs generalizing n width seen with
  | nil =>
    have hend : (if seen then Except.ok (n, []) else .error DateError.endOfInput) =
        .ok (m, rest) := by
      cases width <;> exact h
    cases seen with
    | false => cases hend
    | true =>
      cases hend
      exact no_digits [] (.inl rfl)
  | cons c cs ih =>
    cases width with
    | zero =>
      cases h
      exact no_digits (c :: cs) (.inr rfl)
    | succ width =>
      rw [readNumber] at h
      cases hdigit : c.isDigit with
      | true =>
        rw [digit?_of_isDigit hdigit] at h
        dsimp only at h
        split at h
        · obtain ⟨ds, rfl, hds, hlength, rfl, _⟩ := ih h
          refine ⟨c :: ds, rfl, List.forall_mem_cons.mpr ⟨hdigit, hds⟩, ?_, ?_, by simp⟩
          · rw [List.length_cons]
            omega
          · rw [Nat.ofDigitChars_cons, Nat.mul_comm]
        · cases h
      | false =>
        rw [digit?_of_not_isDigit hdigit] at h
        dsimp only at h
        cases seen with
        | false => cases h
        | true =>
          cases h
          exact no_digits (c :: cs) (.inl rfl)

theorem blanks_dropBlanks (cs : List Char) :
    ∃ blanks, cs = blanks ++ dropBlanks cs ∧ ∀ c ∈ blanks, isBlank c :=
  ⟨cs.takeWhile isBlank, List.takeWhile_append_dropWhile.symm, fun _ => List.mem_takeWhile_imp⟩

/-- A year that is in the limits is the number that was read, with its sign. -/
theorem number_of_year {x : Except DateError (ℕ × List Char)} {f : ℕ → ℤ} {year : ℤ}
    {rest : List Char} (h : (x.map (fun p => (f p.1, p.2)) >>= fun p =>
      if -yearLimit ≤ p.1 ∧ p.1 < yearLimit then .ok (p.1, p.2) else .error .outOfRange) =
        .ok (year, rest)) :
    ∃ n, x = .ok (n, rest) ∧ year = f n := by
  obtain ⟨p, hmap, hrange⟩ := bind_eq_ok_iff.mp h
  obtain ⟨⟨n, after⟩, hx, rfl⟩ := map_eq_ok_iff.mp hmap
  split at hrange
  · cases hrange
    exact ⟨n, hx, rfl⟩
  · cases hrange

/-- There are digits after a sign: where there is no room for one there is no input either. -/
theorem digits_of_signed {cs rest : List Char} {n : ℕ}
    (h : readNumber 0 false cs.length cs = .ok (n, rest)) :
    ∃ ds, cs = ds ++ rest ∧ (∀ c ∈ ds, c.isDigit) ∧ n = Nat.ofDigitChars 10 ds 0 ∧ ds ≠ [] := by
  have hpos : 0 < cs.length := by
    cases cs with
    | nil => cases h
    | cons => exact Nat.succ_pos _
  obtain ⟨ds, hcs, hds, -, hn, hne⟩ := digits_of_readNumber h
  exact ⟨ds, hcs, hds, hn, hne rfl hpos⟩

/-- What a year is read from. -/
theorem spelled_of_readYear {cs rest : List Char} {year : ℤ} (h : readYear cs = .ok (year, rest)) :
    ∃ (n : SpelledNumber) (sign : List Char), cs = n.blanks ++ (sign ++ n.digits ++ rest) ∧
      (sign = [] ∧ n.digits.length ≤ 4 ∨ sign = ['-'] ∨ sign = ['+']) ∧
        year = signed sign n.value := by
  obtain ⟨blanks, hsplit, hblanks⟩ := blanks_dropBlanks cs
  unfold readYear at h
  split at h
  case h_1 after hminus =>
    obtain ⟨n, hread, rfl⟩ := number_of_year (f := fun n => -(n : ℤ)) h
    obtain ⟨ds, rfl, hds, rfl, hne⟩ := digits_of_signed hread
    refine ⟨⟨blanks, ds, hblanks, hds, hne⟩, ['-'], ?_, .inr (.inl rfl), (if_pos rfl).symm⟩
    rw [hsplit, hminus]
    rfl
  case h_2 after hplus =>
    obtain ⟨n, hread, rfl⟩ := number_of_year (f := fun n => (n : ℤ)) h
    obtain ⟨ds, rfl, hds, rfl, hne⟩ := digits_of_signed hread
    refine ⟨⟨blanks, ds, hblanks, hds, hne⟩, ['+'], ?_, .inr (.inr rfl), (if_neg (by decide)).symm⟩
    rw [hsplit, hplus]
    rfl
  case h_3 =>
    obtain ⟨n, hread, rfl⟩ := number_of_year (f := fun n => (n : ℤ)) h
    obtain ⟨ds, hcs, hds, hlength, rfl, hne⟩ := digits_of_readNumber hread
    refine ⟨⟨blanks, ds, hblanks, hds, hne rfl (by decide)⟩, [], ?_, .inl ⟨rfl, hlength⟩,
      (if_neg (by decide)).symm⟩
    rw [List.nil_append, ← hcs]
    exact hsplit

/-- What a month or a day is read from. -/
theorem spelled_of_readPart {most m : ℕ} {cs rest : List Char}
    (h : readPart most cs = .ok (m, rest)) :
    ∃ n : SpelledNumber, cs = n.blanks ++ (n.digits ++ rest) ∧ n.digits.length ≤ 2 ∧
      m = n.value := by
  obtain ⟨blanks, hsplit, hblanks⟩ := blanks_dropBlanks cs
  obtain ⟨⟨m', after⟩, hread, hrange⟩ := bind_eq_ok_iff.mp h
  dsimp only at hrange
  split at hrange
  case isFalse => cases hrange
  cases hrange
  obtain ⟨ds, hcs, hds, hlength, hm, hne⟩ := digits_of_readNumber hread
  refine ⟨⟨blanks, ds, hblanks, hds, hne rfl (by decide)⟩, ?_, hlength, hm⟩
  rw [← hcs]
  exact hsplit

theorem hyphen_of_readHyphen {cs rest : List Char} (h : readHyphen cs = .ok rest) :
    cs = '-' :: rest := by
  cases cs with
  | nil => cases h
  | cons c cs =>
    by_cases hc : c = '-'
    · rw [readHyphen, if_pos hc] at h
      cases h
      rw [hc]
    · rw [readHyphen, if_neg hc] at h
      cases h

/-- Every text that a day is read from spells it. -/
theorem spelled_of_ofChars {cs : List Char} {d : Date} (h : ofChars cs = .ok d) :
    ∃ s : Spelling, s.toChars = cs ∧ s.Names d := by
  obtain ⟨⟨year, afterYear⟩, hyear, h⟩ := bind_eq_ok_iff.mp h
  obtain ⟨beforeMonth, hhyphen, h⟩ := bind_eq_ok_iff.mp h
  obtain ⟨⟨month, afterMonth⟩, hmonth, h⟩ := bind_eq_ok_iff.mp h
  obtain ⟨beforeDay, hhyphen', h⟩ := bind_eq_ok_iff.mp h
  obtain ⟨⟨day, afterDay⟩, hday, h⟩ := bind_eq_ok_iff.mp h
  dsimp only [id] at hhyphen hhyphen' h
  split at h
  case isTrue => cases h
  case isFalse hend =>
  obtain rfl : afterDay = [] := not_not.mp hend
  obtain ⟨hy, hm, hd⟩ := ofParts?_eq_ok_iff.mp h
  obtain ⟨y, sign, rfl, hsign, rfl⟩ := spelled_of_readYear hyear
  cases hyphen_of_readHyphen hhyphen
  obtain ⟨m, rfl, hmlength, rfl⟩ := spelled_of_readPart hmonth
  cases hyphen_of_readHyphen hhyphen'
  obtain ⟨n, rfl, hdlength, rfl⟩ := spelled_of_readPart hday
  refine ⟨⟨sign, y, m, n, hsign, hmlength, hdlength⟩, ?_, ⟨hy, hm, hd⟩⟩
  rw [Spelling.toChars, List.append_nil]

theorem ofChars_eq_ok_iff {cs : List Char} {d : Date} :
    ofChars cs = .ok d ↔ ∃ s : Spelling, s.toChars = cs ∧ s.Names d := by
  constructor
  · exact spelled_of_ofChars
  · rintro ⟨s, rfl, h⟩
    exact (readWith_spelling (fun _ => rfl) rfl h.year_lt).mpr h

def IsPlain (cs : List Char) : Prop :=
  ∃ year month day, cs = year ++ '-' :: (month ++ '-' :: day) ∧
    year.length = 4 ∧ month.length = 2 ∧ day.length = 2 ∧
    (∀ c ∈ year, c.isDigit) ∧ (∀ c ∈ month, c.isDigit) ∧ ∀ c ∈ day, c.isDigit

theorem padded_of_digits {ds : List Char} (hds : ∀ c ∈ ds, c.isDigit) (hne : ds ≠ []) {n : ℕ}
    (h : Nat.ofDigitChars 10 ds 0 = n) : padZeros ds.length (natDigits n) = ds := by
  apply eq_of_ofDigitChars (fun _ => isDigit_of_mem_padded) hds
  · rw [← h]
    exact length_padded (ofDigitChars_lt hds) (List.length_pos_iff.mpr hne)
  · rw [ofDigitChars_padded, h]

theorem yearChars_of_lt {n : ℕ} (h : n < 10 ^ 4) : yearChars n = padZeros 4 (natDigits n) := by
  rw [yearChars, if_neg (by omega), if_neg (by omega), Int.natAbs_natCast]

/-- A text of that form is read as the day that it is written for. -/
theorem ofChars_plain {cs : List Char} (h : IsPlain cs) {d : Date} :
    ofChars cs = .ok d ↔ cs = d.toChars := by
  constructor
  · intro hread
    obtain ⟨ys, ms, ds, rfl, hylength, hmlength, hdlength, hys, hms, hds⟩ := h
    have hyne : ys ≠ [] := List.ne_nil_of_length_pos (by omega)
    have hmne : ms ≠ [] := List.ne_nil_of_length_pos (by omega)
    have hdne : ds ≠ [] := List.ne_nil_of_length_pos (by omega)
    have hlt : Nat.ofDigitChars 10 ys 0 < 10 ^ 4 := hylength ▸ ofDigitChars_lt hys
    let s : Spelling := ⟨[], .ofDigits ys hys hyne, .ofDigits ms hms hmne, .ofDigits ds hds hdne,
      .inl ⟨rfl, hylength.le⟩, hmlength.le, hdlength.le⟩
    have hnames : s.Names d :=
      (readWith_spelling (fun _ => rfl) rfl (hlt.trans (by decide))).mp hread
    have hyear : (Nat.ofDigitChars 10 ys 0 : ℤ) = d.year := hnames.year
    have hy := padded_of_digits hys hyne rfl
    have hm := padded_of_digits hms hmne hnames.month
    have hd := padded_of_digits hds hdne hnames.day
    rw [hylength] at hy
    rw [hmlength] at hm
    rw [hdlength] at hd
    rw [toChars, ← hyear, yearChars_of_lt hlt, hy, twoDigits, hm, twoDigits, hd, List.append_assoc,
      List.cons_append]
  · rintro rfl
    exact readWith_toChars (fun _ => rfl) rfl d

end Date

namespace Field

/-- A date cell is taken if it spells a day. Among its spellings is the text that is written for
the day, and no other one with four, two and two digits. -/
theorem date_reads_spellings (text : String) (d : Date) :
    (date text = .ok d ↔ ∃ s : Date.Spelling, s.toChars = text.toList ∧ s.Names d) ∧
    date d.toText = .ok d ∧
    (Date.IsPlain text.toList → (date text = .ok d ↔ text = d.toText)) := by
  have hread : ∀ text d, date text = .ok d ↔ Date.ofChars text.toList = .ok d :=
    fun _ _ => mapError_eq_ok_iff
  refine ⟨?_, ?_, ?_⟩
  · rw [hread]
    exact Date.ofChars_eq_ok_iff
  · exact mapError_eq_ok_iff.mpr (Date.ofText_toText d)
  · intro hplain
    rw [hread, Date.ofChars_plain hplain, Date.toText, ← String.toList_inj, String.toList_ofList]

/-- The last day of a short month in a leap year. -/
theorem date_reads_spellings_leap_day :
    Date.IsPlain "2024-02-29".toList ∧ date "2024-02-29" = .ok ⟨2024, 2, 29, by decide⟩ := by
  have hplain : Date.IsPlain "2024-02-29".toList :=
    ⟨['2', '0', '2', '4'], ['0', '2'], ['2', '9'], by decide +kernel, rfl, rfl, rfl,
      List.all_eq_true.mp rfl, List.all_eq_true.mp rfl, List.all_eq_true.mp rfl⟩
  obtain ⟨_, _, hread⟩ := date_reads_spellings "2024-02-29" ⟨2024, 2, 29, by decide⟩
  exact ⟨hplain, (hread hplain).mpr (by decide +kernel)⟩

/-- A year of two digits is read as one of the first century. -/
theorem date_takes_short_year :
    date "24-01-10" = .ok ⟨24, 1, 10, by decide⟩ ∧
    (⟨24, 1, 10, by decide⟩ : Date).toText = "0024-01-10" ∧
    ¬ ∀ (text : String) (d : Date), date text = .ok d ↔ text = d.toText := by
  have hread : date "24-01-10" = .ok ⟨24, 1, 10, by decide⟩ := by decide +kernel
  have hwritten : (⟨24, 1, 10, by decide⟩ : Date).toText = "0024-01-10" := by decide +kernel
  refine ⟨hread, hwritten, fun h => ?_⟩
  have hsame := (h _ _).mp hread
  rw [hwritten] at hsame
  exact absurd hsame (by decide +kernel)

end Field
end TrailingYear
