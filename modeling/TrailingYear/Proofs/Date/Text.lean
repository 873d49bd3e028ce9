import TrailingYear.Date
import TrailingYear.Proofs.Decimal.Text
import TrailingYear.Proofs.FirstFailure
import TrailingYear.Proofs.Text

/-! # Reading back dates

Each of the three numbers ends where the reader stops: a year without a sign after four digits,
one with a sign before its hyphen, and a month or a day after two digits. A day is read from each
of its spellings, one of which is the text that is written for it. -/

namespace TrailingYear

namespace Date

/-- The reader takes all digits if it has room for no more or nothing follows them that is one. -/
theorem readNumber_digits {ds rest : List Char} (hd : ∀ c ∈ ds, c.isDigit) {n width : Nat}
    {seen : Bool} (hv : Nat.ofDigitChars 10 ds n < numberLimit) (hw : ds.length ≤ width)
    (hend : ds.length = width ∨ ∀ c ∈ rest.head?, c.isDigit = false)
    (hseen : seen = true ∨ ds ≠ []) :
    readNumber n seen width (ds ++ rest) = .ok (Nat.ofDigitChars 10 ds n, rest) := by
  induction ds generalizing n width seen with
  | nil =>
    obtain rfl : seen = true := by simpa using hseen
    rw [List.nil_append, Nat.ofDigitChars_nil]
    cases rest with
    | nil =>
      unfold readNumber
      rfl
    | cons c rest =>
      cases width with
      | zero => rfl
      | succ width =>
        have hc : c.isDigit = false := by simpa using hend
        rw [readNumber, digit?_of_not_isDigit hc]
        rfl
  | cons c ds ih =>
    obtain ⟨hc, hds⟩ := List.forall_mem_cons.mp hd
    rw [Nat.ofDigitChars_cons, Nat.mul_comm] at hv
    cases width with
    | zero => cases hw
    | succ width =>
      have hlt : n * 10 + (c.toNat - '0'.toNat) < numberLimit :=
        Nat.lt_of_le_of_lt (le_ofDigitChars ds _) hv
      rw [List.cons_append, readNumber, digit?_of_isDigit hc]
      dsimp only
      rw [if_pos hlt, ih hds hv (by simpa using hw) (by simpa using hend) (.inl rfl),
        Nat.ofDigitChars_cons, Nat.mul_comm 10]

theorem dropBlanks_of_visible {c : Char} (h : 33 ≤ c.toNat ∧ c.toNat < 127) (cs : List Char) :
    dropBlanks (c :: cs) = c :: cs :=
  List.dropWhile_cons_of_neg (by simp [isBlank_of_visible h])

/-- The number as it is written, with zeros on the left. -/
theorem ofDigitChars_padded (width n : Nat) :
    Nat.ofDigitChars 10 (padZeros width (natDigits n)) 0 = n := by
  rw [ofDigitChars_padZeros, ofDigitChars_natDigits]

theorem isDigit_of_mem_padded {width n : Nat} {c : Char} (h : c ∈ padZeros width (natDigits n)) :
    c.isDigit :=
  isDigit_of_mem_padZeros (fun _ => isDigit_of_mem_natDigits) h

theorem padded_ne_nil (width n : Nat) : padZeros width (natDigits n) ≠ [] := by
  rw [padZeros, ne_eq, List.append_eq_nil_iff]
  exact fun h => natDigits_ne_nil n h.2

theorem length_padded {width n : Nat} (h : n < 10 ^ width) (hw : 0 < width) :
    (padZeros width (natDigits n)).length = width := by
  have := (Nat.length_toDigits_le_iff (by decide : 1 < 10) hw).mpr h
  rw [length_padZeros, natDigits]
  omega

/-- A year in the limits that was read with or without a sign. -/
theorem readYear_signed {cs rest : List Char} {n : Nat}
    (h : readNumber 0 false cs.length cs = .ok (n, rest)) (hn : n < 2147483648) :
    readYear ('-' :: cs) = .ok (-(n : Int), rest) ∧
      readYear ('+' :: cs) = .ok ((n : Int), rest) := by
  have hneg : -yearLimit ≤ -(n : Int) ∧ -(n : Int) < yearLimit := by
    unfold yearLimit
    omega
  have hpos : -yearLimit ≤ (n : Int) ∧ (n : Int) < yearLimit := by
    unfold yearLimit
    omega
  constructor
  · rw [readYear, dropBlanks_of_visible (by decide)]
    simp only [h, Except.map, bind, Except.bind, if_pos hneg]
  · rw [readYear, dropBlanks_of_visible (by decide)]
    simp only [h, Except.map, bind, Except.bind, if_pos hpos]

theorem readYear_unsigned {c : Char} (hc : c.isDigit) {cs rest : List Char} {n : Nat}
    (h : readNumber 0 false 4 (c :: cs) = .ok (n, rest)) (hn : n < 2147483648) :
    readYear (c :: cs) = .ok ((n : Int), rest) := by
  have hpos : -yearLimit ≤ (n : Int) ∧ (n : Int) < yearLimit := by
    unfold yearLimit
    omega
  rw [readYear, dropBlanks_of_visible (visible_of_isDigit hc)]
  split
  · rename_i hcons
    cases hcons
    exact absurd hc (by decide)
  · rename_i hcons
    cases hcons
    exact absurd hc (by decide)
  · simp only [h, Except.map, bind, Except.bind, if_pos hpos]

def signed (sign : List Char) (n : Nat) : Int := if sign = ['-'] then -(n : Int) else n

structure SpelledNumber where
  blanks : List Char
  digits : List Char
  isBlank : ∀ c ∈ blanks, isBlank c
  isDigit : ∀ c ∈ digits, c.isDigit
  ne_nil : digits ≠ []

namespace SpelledNumber

def value (n : SpelledNumber) : Nat := Nat.ofDigitChars 10 n.digits 0

def ofDigits (ds : List Char) (h : ∀ c ∈ ds, c.isDigit) (hne : ds ≠ []) : SpelledNumber :=
  ⟨[], ds, by simp, h, hne⟩

def padded (width n : Nat) : SpelledNumber :=
  ofDigits (padZeros width (natDigits n)) (fun _ => isDigit_of_mem_padded) (padded_ne_nil width n)

@[simp] theorem value_padded (width n : Nat) : (padded width n).value = n :=
  ofDigitChars_padded width n

end SpelledNumber

theorem dropBlanks_append {blanks : List Char} (h : ∀ c ∈ blanks, isBlank c) (cs : List Char) :
    dropBlanks (blanks ++ cs) = dropBlanks cs :=
  List.dropWhile_append_of_pos h

theorem readYear_spelled {n : SpelledNumber} {sign : List Char}
    (hsign : sign = [] ∧ n.digits.length ≤ 4 ∨ sign = ['-'] ∨ sign = ['+'])
    (hn : n.value < 2147483648) (rest : List Char) :
    readYear (n.blanks ++ (sign ++ n.digits ++ '-' :: rest)) =
      .ok (signed sign n.value, '-' :: rest) := by
  have hread : ∀ limit, n.digits.length ≤ limit →
      readNumber 0 false limit (n.digits ++ '-' :: rest) = .ok (n.value, '-' :: rest) := by
    intro limit h
    have hfits : n.value < numberLimit := Nat.lt_trans hn (by decide)
    apply readNumber_digits n.isDigit hfits h _ (.inr n.ne_nil)
    right
    intro c hc
    cases hc
    decide
  have hblanks : ∀ cs, readYear (n.blanks ++ cs) = readYear cs := by
    intro cs
    rw [readYear, readYear, dropBlanks_append n.isBlank]
  have hafter := readYear_signed (hread _ (by rw [List.length_append]; omega)) hn
  rw [hblanks]
  rcases hsign with ⟨rfl, hlength⟩ | rfl | rfl
  · have hfour := hread 4 hlength
    obtain ⟨c, ds, hds⟩ := List.exists_cons_of_ne_nil n.ne_nil
    rw [hds] at hfour ⊢
    exact readYear_unsigned (n.isDigit c (hds ▸ List.mem_cons_self ..)) hfour hn
  · exact hafter.1
  · exact hafter.2

theorem readPart_spelled (most : Nat) {n : SpelledNumber} {rest : List Char}
    (hlength : n.digits.length ≤ 2) (hend : ∀ c ∈ rest.head?, c.isDigit = false) :
    readPart most (n.blanks ++ (n.digits ++ rest)) =
      if 1 ≤ n.value ∧ n.value ≤ most then .ok (n.value, rest) else .error .outOfRange := by
  have hvalue : n.value < numberLimit := by
    have hlt : n.value < 10 ^ n.digits.length := ofDigitChars_lt n.isDigit
    have hpow : 10 ^ n.digits.length ≤ 10 ^ 2 := Nat.pow_le_pow_right (by decide) hlength
    exact Nat.lt_of_lt_of_le hlt (Nat.le_trans hpow (by decide))
  have hread : readNumber 0 false 2 (n.digits ++ rest) = .ok (n.value, rest) :=
    readNumber_digits n.isDigit hvalue hlength (.inr hend) (.inr n.ne_nil)
  have hdigits : dropBlanks (n.digits ++ rest) = n.digits ++ rest := by
    obtain ⟨c, ds, hds⟩ := List.exists_cons_of_ne_nil n.ne_nil
    rw [hds]
    exact dropBlanks_of_visible (visible_of_isDigit (n.isDigit c (hds ▸ List.mem_cons_self ..))) _
  rw [readPart, dropBlanks_append n.isBlank, hdigits, hread]
  rfl

/-- Three numbers with hyphens between them. The year has up to four digits, or a sign and any
number of them, the month and the day have one or two. -/
structure Spelling where
  sign : List Char
  year : SpelledNumber
  month : SpelledNumber
  day : SpelledNumber
  sign_cases : sign = [] ∧ year.digits.length ≤ 4 ∨ sign = ['-'] ∨ sign = ['+']
  length_month : month.digits.length ≤ 2
  length_day : day.digits.length ≤ 2

namespace Spelling

/-- The sign stands between the blanks and the digits of the year. -/
def toChars (s : Spelling) : List Char :=
  s.year.blanks ++ (s.sign ++ s.year.digits ++
    '-' :: (s.month.blanks ++ (s.month.digits ++ '-' :: (s.day.blanks ++ s.day.digits))))

structure Names (s : Spelling) (d : Date) : Prop where
  year : signed s.sign s.year.value = d.year
  month : s.month.value = d.month
  day : s.day.value = d.day

theorem Names.year_lt {s : Spelling} {d : Date} (h : s.Names d) : s.year.value < 2147483648 := by
  have hyear := h.year
  have hbounds := d.valid.1
  unfold firstYear lastYear at hbounds
  unfold signed at hyear
  split at hyear <;> omega

end Spelling

theorem ofParts?_eq_ok_iff {year : Int} {month day : Nat} {d : Date} :
    ((ofParts? year month day).elim (.error .outOfRange) .ok : Except DateError Date) = .ok d ↔
      year = d.year ∧ month = d.month ∧ day = d.day := by
  constructor
  · intro h
    unfold ofParts? at h
    split at h
    · cases h
      exact ⟨rfl, rfl, rfl⟩
    · cases h
  · rintro ⟨rfl, rfl, rfl⟩
    rw [ofParts?, dif_pos d.valid]
    rfl

/-- A spelling with a year that is not too great is read as the day whose numbers it has. The
hyphens have nothing before them that a reader might take off, and so has the end. -/
theorem readWith_spelling {gap : List Char → List Char} (hyphen : ∀ cs, gap ('-' :: cs) = '-' :: cs)
    (hend : gap [] = []) {s : Spelling} (hlimit : s.year.value < 2147483648) {d : Date} :
    readWith gap s.toChars = .ok d ↔ s.Names d := by
  have hstops : ∀ cs : List Char, ∀ c ∈ ('-' :: cs).head?, c.isDigit = false := by
    intro cs c hc
    cases hc
    decide
  have hreadDay : readPart 31 (s.day.blanks ++ (s.day.digits ++ [])) =
      if 1 ≤ s.day.value ∧ s.day.value ≤ 31 then .ok (s.day.value, []) else .error .outOfRange :=
    readPart_spelled 31 s.length_day nofun
  rw [List.append_nil] at hreadDay
  rw [Spelling.toChars, readWith, readYear_spelled s.sign_cases hlimit]
  show (readHyphen (gap ('-' :: _)) >>= _) = _ ↔ _
  rw [hyphen]
  show (readPart 12 _ >>= _) = _ ↔ _
  rw [readPart_spelled 12 s.length_month (hstops _)]
  by_cases hmonth : 1 ≤ s.month.value ∧ s.month.value ≤ 12
  case neg =>
    rw [if_neg hmonth]
    exact iff_of_false nofun fun h => hmonth (h.month ▸ d.valid.2.1)
  rw [if_pos hmonth]
  show (readHyphen (gap ('-' :: _)) >>= _) = _ ↔ _
  rw [hyphen]
  show (readPart 31 _ >>= _) = _ ↔ _
  rw [hreadDay]
  by_cases hday : 1 ≤ s.day.value ∧ s.day.value ≤ 31
  case neg =>
    rw [if_neg hday]
    have hvalid := d.valid.2.2
    have hlength := monthLength_bounds d.year d.month
    exact iff_of_false nofun fun h => hday (h.day ▸ ⟨hvalid.1, by omega⟩)
  rw [if_pos hday]
  show (if gap [] ≠ [] then _ else _) = _ ↔ _
  rw [if_neg (not_not.mpr hend), ofParts?_eq_ok_iff]
  constructor
  · rintro ⟨hy, hm, hd⟩
    exact ⟨hy, hm, hd⟩
  · intro h
    exact ⟨h.year, h.month, h.day⟩

/-- A year is written with its sign, if it has one, and at least four digits. -/
theorem yearChars_eq (year : Int) :
    ∃ sign, yearChars year = sign ++ padZeros 4 (natDigits year.natAbs) ∧
      (sign = [] ∧ (padZeros 4 (natDigits year.natAbs)).length ≤ 4 ∨ sign = ['-'] ∨ sign = ['+']) ∧
      signed sign year.natAbs = year := by
  unfold yearChars
  by_cases hneg : year < 0
  · refine ⟨['-'], if_pos hneg, .inr (.inl rfl), ?_⟩
    rw [signed, if_pos rfl]
    omega
  rw [if_neg hneg]
  by_cases hbig : 9999 < year
  · refine ⟨['+'], if_pos hbig, .inr (.inr rfl), ?_⟩
    rw [signed, if_neg (by decide)]
    omega
  · refine ⟨[], if_neg hbig, .inl ⟨rfl, (length_padded (by omega) (by decide)).le⟩, ?_⟩
    rw [signed, if_neg (by decide)]
    omega

/-- The text of a day is one of its spellings. -/
theorem exists_spelling (d : Date) : ∃ s : Spelling, s.toChars = d.toChars ∧ s.Names d := by
  obtain ⟨hmonth, hday⟩ := d.valid.2
  have hlength := monthLength_bounds d.year d.month
  have htwo : ∀ {n : Nat}, n < 10 ^ 2 → (twoDigits n).length ≤ 2 :=
    fun h => (length_padded h (by decide)).le
  obtain ⟨sign, hchars, hsign, hsigned⟩ := yearChars_eq d.year
  refine
    ⟨⟨sign, .padded 4 d.year.natAbs, .padded 2 d.month, .padded 2 d.day, hsign, htwo (by omega),
      htwo (by omega)⟩, ?_, ?_⟩
  · rw [toChars, hchars, List.append_assoc, List.cons_append]
    rfl
  · constructor
    · rw [SpelledNumber.value_padded, hsigned]
    · exact SpelledNumber.value_padded 2 d.month
    · exact SpelledNumber.value_padded 2 d.day

theorem readWith_toChars {gap : List Char → List Char} (hyphen : ∀ cs, gap ('-' :: cs) = '-' :: cs)
    (hend : gap [] = []) (d : Date) : readWith gap d.toChars = .ok d := by
  obtain ⟨s, hs, hnames⟩ := exists_spelling d
  rw [← hs]
  exact (readWith_spelling hyphen hend hnames.year_lt).mpr hnames

theorem ofText_toText (d : Date) : ofText d.toText = .ok d := by
  rw [ofText, toText, String.toList_ofList]
  exact readWith_toChars (fun _ => rfl) rfl d

theorem ofSpacedText_toText (d : Date) : ofSpacedText d.toText = .ok d := by
  rw [ofSpacedText, toText, String.toList_ofList]
  exact readWith_toChars (dropBlanks_of_visible (by decide)) rfl d

theorem mem_yearChars {year : Int} {c : Char} (h : c ∈ yearChars year) :
    c.isDigit ∨ c = '-' ∨ c = '+' := by
  obtain ⟨sign, hchars, hsign, -⟩ := yearChars_eq year
  rw [hchars, List.mem_append] at h
  rcases h with h | h
  · rcases hsign with ⟨rfl, -⟩ | rfl | rfl
    · cases h
    · exact .inr (.inl (List.mem_singleton.mp h))
    · exact .inr (.inr (List.mem_singleton.mp h))
  · exact .inl (isDigit_of_mem_padded h)

theorem mem_monthText {d : Date} {c : Char} (h : c ∈ d.monthText.toList) :
    c.isDigit ∨ c = '-' ∨ c = '+' := by
  rw [monthText, String.toList_ofList, List.mem_append, List.mem_cons] at h
  rcases h with h | rfl | h
  · exact mem_yearChars h
  · exact .inr (.inl rfl)
  · exact .inl (isDigit_of_mem_padded h)

theorem mem_toText {d : Date} {c : Char} (h : c ∈ d.toText.toList) :
    c.isDigit ∨ c = '-' ∨ c = '+' := by
  rw [toText, String.toList_ofList, toChars, List.mem_append, List.mem_cons] at h
  rcases h with h | rfl | h
  · apply mem_monthText (d := d)
    rwa [monthText, String.toList_ofList]
  · exact .inr (.inl rfl)
  · exact .inl (isDigit_of_mem_padded h)

theorem not_isBlank_of_mem_toText {d : Date} {c : Char} (hc : c ∈ d.toText.toList) :
    isBlank c = false := by
  rcases mem_toText hc with hdigit | rfl | rfl
  · exact isBlank_of_visible (visible_of_isDigit hdigit)
  · decide
  · decide

theorem trim_toText (d : Date) : trim d.toText = d.toText :=
  trim_of_none fun _ => not_isBlank_of_mem_toText

end Date
end TrailingYear
