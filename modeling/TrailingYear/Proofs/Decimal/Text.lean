import TrailingYear.Decimal.Text
import Mathlib.Tactic.NormNum

/-! # Reading back decimals

The text of a decimal is a string of digits with a point in it. Digit by digit the
reader has the value of what it has read so far, which never exceeds the whole, and it
ends with the same places. -/

namespace TrailingYear

theorem isDigit_of_mem_natDigits {n : Nat} {c : Char} (h : c ∈ natDigits n) : c.isDigit :=
  Nat.isDigit_of_mem_toDigits (by decide) (by decide) h

theorem ne_of_isDigit {c d : Char} (hc : c.isDigit) (hd : d.isDigit = false) : c ≠ d := by
  rintro rfl
  rw [hc] at hd
  cases hd

theorem natDigits_ne_nil (n : Nat) : natDigits n ≠ [] := Nat.toDigits_ne_nil

theorem natDigits_eq_cons (n : Nat) : ∃ d ds, natDigits n = d :: ds ∧ d.isDigit := by
  obtain ⟨d, ds, hds⟩ := List.exists_cons_of_ne_nil (natDigits_ne_nil n)
  exact ⟨d, ds, hds, isDigit_of_mem_natDigits (hds ▸ List.mem_cons_self ..)⟩

theorem ofDigitChars_natDigits (n : Nat) : Nat.ofDigitChars 10 (natDigits n) 0 = n :=
  Nat.ofDigitChars_ten_toDigits

/-- Only zero is written with a zero in front. -/
theorem natDigits_leading {n : Nat} {ds : List Char} (h : natDigits n = '0' :: ds) : ds = [] := by
  induction n using Nat.strongRecOn generalizing ds with
  | ind n ih =>
    by_cases hn : n < 10
    · rw [natDigits, Nat.toDigits_of_lt_base hn] at h
      exact (List.cons.inj h).2.symm
    · have hsplit : natDigits n = natDigits (n / 10) ++ [(n % 10).digitChar] :=
        Nat.toDigits_of_base_le (by decide) (by omega)
      have hvalue := ofDigitChars_natDigits (n / 10)
      rw [hsplit] at h
      obtain ⟨c, cs, hcs⟩ := List.exists_cons_of_ne_nil (natDigits_ne_nil (n / 10))
      rw [hcs, List.cons_append, List.cons.injEq] at h
      obtain ⟨rfl, _⟩ := h
      rw [hcs, ih (n / 10) (by omega) hcs] at hvalue
      have hzero : Nat.ofDigitChars 10 ['0'] 0 = 0 := rfl
      omega

theorem isDigit_of_mem_padZeros {width : Nat} {ds : List Char} (h : ∀ c ∈ ds, c.isDigit) {c : Char}
    (hc : c ∈ padZeros width ds) : c.isDigit := by
  rcases List.mem_append.mp hc with hc | hc
  · rw [List.eq_of_mem_replicate hc]
    decide
  · exact h c hc

theorem ofDigitChars_padZeros (width : Nat) (ds : List Char) :
    Nat.ofDigitChars 10 (padZeros width ds) 0 = Nat.ofDigitChars 10 ds 0 := by
  rw [padZeros, Nat.ofDigitChars_append, Nat.ofDigitChars_replicate_zero, Nat.mul_zero]

theorem length_padZeros (width : Nat) (ds : List Char) :
    (padZeros width ds).length = max width ds.length := by
  rw [padZeros, List.length_append, List.length_replicate]
  omega

/-- More digits never make the value smaller. -/
theorem le_ofDigitChars (ds : List Char) (n : Nat) : n ≤ Nat.ofDigitChars 10 ds n := by
  induction ds generalizing n with
  | nil => exact Nat.le_refl n
  | cons c ds ih =>
    rw [Nat.ofDigitChars_cons]
    have := ih (10 * n + (c.toNat - '0'.toNat))
    omega

theorem digitValue_le {c : Char} (h : c.isDigit) : c.toNat - '0'.toNat ≤ 9 := by
  simp only [Char.isDigit, Bool.and_eq_true, decide_eq_true_eq] at h
  have h9 : c.toNat ≤ 57 := h.2
  have h0 : '0'.toNat = 48 := rfl
  omega

theorem eq_of_digitValue {c d : Char} (hc : c.isDigit) (hd : d.isDigit)
    (h : c.toNat - '0'.toNat = d.toNat - '0'.toNat) : c = d := by
  simp only [Char.isDigit, Bool.and_eq_true, decide_eq_true_eq] at hc hd
  have hc0 : 48 ≤ c.toNat := hc.1
  have hd0 : 48 ≤ d.toNat := hd.1
  have h0 : '0'.toNat = 48 := rfl
  apply Char.toNat_inj.mp
  omega

theorem ofDigitChars_lt {ds : List Char} (hd : ∀ c ∈ ds, c.isDigit) :
    Nat.ofDigitChars 10 ds 0 < 10 ^ ds.length := by
  induction ds with
  | nil => decide
  | cons c ds ih =>
    obtain ⟨hc, hds⟩ := List.forall_mem_cons.mp hd
    have hdigit := Nat.mul_le_mul_left (10 ^ ds.length) (digitValue_le hc)
    have hrest := ih hds
    rw [Nat.ofDigitChars_cons, Nat.ofDigitChars_eq_ofDigitChars_zero, Nat.mul_zero, Nat.zero_add,
      List.length_cons, Nat.pow_succ]
    omega

/-- Digits of one length are known from their number. -/
theorem eq_of_ofDigitChars {as bs : List Char} (ha : ∀ c ∈ as, c.isDigit) (hb : ∀ c ∈ bs, c.isDigit)
    (hlength : as.length = bs.length) (h : Nat.ofDigitChars 10 as 0 = Nat.ofDigitChars 10 bs 0) :
    as = bs := by
  induction as generalizing bs with
  | nil => exact (List.length_eq_zero_iff.mp hlength.symm).symm
  | cons a as ih =>
    cases bs with
    | nil => cases hlength
    | cons b bs =>
      obtain ⟨ha, has⟩ := List.forall_mem_cons.mp ha
      obtain ⟨hb, hbs⟩ := List.forall_mem_cons.mp hb
      have hlength : as.length = bs.length := Nat.succ.inj hlength
      have hlt : Nat.ofDigitChars 10 as 0 < 10 ^ as.length := ofDigitChars_lt has
      have hlt' : Nat.ofDigitChars 10 bs 0 < 10 ^ as.length := hlength ▸ ofDigitChars_lt hbs
      -- The first digit is the quotient by the place of the others, and they are the remainder.
      rw [Nat.ofDigitChars_cons, Nat.ofDigitChars_cons, Nat.ofDigitChars_eq_ofDigitChars_zero,
        Nat.ofDigitChars_eq_ofDigitChars_zero (l := bs), Nat.mul_zero, Nat.zero_add, Nat.zero_add,
        ← hlength] at h
      have hfirst := congrArg (· / 10 ^ as.length) h
      have hothers := congrArg (· % 10 ^ as.length) h
      have hpos : 0 < 10 ^ as.length := Nat.pow_pos (by decide)
      simp only [Nat.mul_add_div hpos, Nat.div_eq_of_lt hlt, Nat.div_eq_of_lt hlt',
        Nat.add_zero] at hfirst
      simp only [Nat.mul_add_mod, Nat.mod_eq_of_lt hlt, Nat.mod_eq_of_lt hlt'] at hothers
      rw [eq_of_digitValue ha hb hfirst, ih has hbs hlength hothers]

/-- The number written by digits, for any reading of single digits. -/
theorem foldl_digitValue {value : Char → Option Nat}
    (hvalue : ∀ c : Char, c.isDigit → value c = some (c.toNat - '0'.toNat)) {ds : List Char}
    (hd : ∀ c ∈ ds, c.isDigit) (n : Nat) :
    ds.foldl (fun n c => n * 10 + (value c).getD 0) n = Nat.ofDigitChars 10 ds n := by
  induction ds generalizing n with
  | nil => rfl
  | cons c ds ih =>
    obtain ⟨hc, hds⟩ := List.forall_mem_cons.mp hd
    rw [List.foldl_cons, Nat.ofDigitChars_cons, ih hds, hvalue c hc, Option.getD_some, Nat.mul_comm]

theorem digit?_of_isDigit {c : Char} (h : c.isDigit) : digit? c = some (c.toNat - '0'.toNat) := by
  simp only [Char.isDigit, Bool.and_eq_true, decide_eq_true_eq] at h
  exact if_pos h

theorem digit?_of_not_isDigit {c : Char} (h : c.isDigit = false) : digit? c = none := by
  refine if_neg fun hc => ?_
  have hdigit : c.isDigit = true := by
    simp only [Char.isDigit, Bool.and_eq_true, decide_eq_true_eq]
    exact hc
  rw [h] at hdigit
  cases hdigit

namespace Decimal

section

variable {m s k : Nat} {hm : m < capacity} {hs : s ≤ maxScale}

theorem ofParts?_natCast (hm : m < capacity) (hs : s ≤ maxScale) :
    ofParts? m s = some ⟨false, m, s, hm, hs⟩ :=
  ofParts?_eq_some.mpr ⟨rfl, rfl, (decide_eq_false (by omega)).symm⟩

theorem appendDigit?_eq (hk : 10 * m + k < capacity) :
    appendDigit? ⟨false, m, s, hm, hs⟩ k = some ⟨false, 10 * m + k, s, hk, hs⟩ := by
  rw [appendDigit?, ← ofParts?_natCast hk hs, Nat.mul_comm]
  rfl

theorem appendPlace?_eq (hk : 10 * m + k < capacity) (hs' : s + 1 ≤ maxScale) :
    appendPlace? ⟨false, m, s, hm, hs⟩ k = some ⟨false, 10 * m + k, s + 1, hk, hs'⟩ := by
  rw [appendPlace?, ← ofParts?_natCast hk hs', Nat.mul_comm]
  rfl

end

theorem readWhole_digits {ds : List Char} (hd : ∀ c ∈ ds, c.isDigit) {m s : Nat} {hm : m < capacity}
    {hs : s ≤ maxScale} (hv : Nat.ofDigitChars 10 ds m < capacity) (seen : Bool)
    (rest : List Char) :
    readWhole ⟨false, m, s, hm, hs⟩ seen (ds ++ rest) =
      readWhole ⟨false, Nat.ofDigitChars 10 ds m, s, hv, hs⟩ (seen || !ds.isEmpty) rest := by
  induction ds generalizing m seen with
  | nil => simp [Nat.ofDigitChars]
  | cons c ds ih =>
    obtain ⟨hc, hds⟩ := List.forall_mem_cons.mp hd
    have hk : 10 * m + (c.toNat - '0'.toNat) < capacity :=
      Nat.lt_of_le_of_lt (le_ofDigitChars ds _) hv
    rw [List.cons_append, readWhole, digit?_of_isDigit hc]
    dsimp only
    rw [appendDigit?_eq hk]
    dsimp only
    rw [ih hds (by rwa [Nat.ofDigitChars_cons] at hv)]
    simp [Nat.ofDigitChars_cons]

theorem readPlaces_digits {ds : List Char} (hd : ∀ c ∈ ds, c.isDigit) {m s : Nat}
    {hm : m < capacity} {hs : s ≤ maxScale} (hv : Nat.ofDigitChars 10 ds m < capacity)
    (hs' : s + ds.length ≤ maxScale) :
    readPlaces ⟨false, m, s, hm, hs⟩ true ds =
      .ok ⟨false, Nat.ofDigitChars 10 ds m, s + ds.length, hv, hs'⟩ := by
  induction ds generalizing m s with
  | nil => rfl
  | cons c ds ih =>
    obtain ⟨hc, hds⟩ := List.forall_mem_cons.mp hd
    have hk : 10 * m + (c.toNat - '0'.toNat) < capacity :=
      Nat.lt_of_le_of_lt (le_ofDigitChars ds _) hv
    rw [List.length_cons] at hs'
    rw [readPlaces, if_neg (by dsimp only; omega), digit?_of_isDigit hc]
    dsimp only
    rw [appendPlace?_eq hk (by omega)]
    dsimp only
    rw [ih hds (by rwa [Nat.ofDigitChars_cons] at hv) (by omega)]
    simp only [Nat.ofDigitChars_cons, List.length_cons, Nat.add_assoc, Nat.add_comm 1]

/-- Places follow a point; without any there is no point. -/
def pointed (places : List Char) : List Char := if places = [] then [] else '.' :: places

def digits (d : Decimal) : List Char := padZeros (d.scale + 1) (natDigits d.magnitude)

def whole (d : Decimal) : List Char := d.digits.take (d.digits.length - d.scale)

def places (d : Decimal) : List Char := d.digits.drop (d.digits.length - d.scale)

def pointAndPlaces (d : Decimal) : List Char := if d.scale = 0 then [] else '.' :: d.places

def sign (d : Decimal) : List Char := if d.negative then ['-'] else []

theorem toChars_eq (d : Decimal) : d.toChars = d.sign ++ d.whole ++ d.pointAndPlaces := rfl

theorem isDigit_of_mem_digits {d : Decimal} {c : Char} (h : c ∈ d.digits) : c.isDigit :=
  isDigit_of_mem_padZeros (fun _ => isDigit_of_mem_natDigits) h

theorem isDigit_of_mem_whole {d : Decimal} {c : Char} (h : c ∈ d.whole) : c.isDigit :=
  isDigit_of_mem_digits (List.mem_of_mem_take h)

theorem scale_lt_length_digits (d : Decimal) : d.scale < d.digits.length := by
  rw [digits, length_padZeros]
  omega

theorem isDigit_of_mem_places {d : Decimal} {c : Char} (h : c ∈ d.places) : c.isDigit :=
  isDigit_of_mem_digits (List.mem_of_mem_drop h)

theorem length_places (d : Decimal) : d.places.length = d.scale := by
  have := d.scale_lt_length_digits
  rw [places, List.length_drop]
  omega

theorem pointAndPlaces_eq (d : Decimal) : d.pointAndPlaces = pointed d.places := by
  have hnil : d.places = [] ↔ d.scale = 0 := by rw [← List.length_eq_zero_iff, length_places]
  simp only [pointAndPlaces, pointed, hnil]

theorem whole_ne_nil (d : Decimal) : d.whole ≠ [] := by
  have := d.scale_lt_length_digits
  apply List.ne_nil_of_length_pos
  rw [whole, List.length_take]
  omega

theorem ofDigitChars_digits (d : Decimal) : Nat.ofDigitChars 10 d.digits 0 = d.magnitude := by
  rw [digits, ofDigitChars_padZeros, ofDigitChars_natDigits]

theorem readWhole_chars (d : Decimal) :
    readWhole zero false (d.whole ++ d.pointAndPlaces) = .ok (d.withSign false) := by
  have hsplit : d.whole ++ d.places = d.digits := List.take_append_drop ..
  have hmagnitude : Nat.ofDigitChars 10 d.places (Nat.ofDigitChars 10 d.whole 0) = d.magnitude := by
    rw [← Nat.ofDigitChars_append, hsplit, ofDigitChars_digits]
  have hwhole : Nat.ofDigitChars 10 d.whole 0 < capacity := by
    have hle := le_ofDigitChars d.places (Nat.ofDigitChars 10 d.whole 0)
    rw [hmagnitude] at hle
    exact Nat.lt_of_le_of_lt hle d.magnitude_lt
  have hseen : (false || !d.whole.isEmpty) = true := by
    cases h : d.whole with
    | nil => exact absurd h d.whole_ne_nil
    | cons _ _ => rfl
  have hz : zero = ⟨false, 0, 0, by decide, by decide⟩ := rfl
  rw [hz, readWhole_digits (fun _ => isDigit_of_mem_whole) hwhole, hseen]
  unfold pointAndPlaces
  by_cases hs : d.scale = 0
  · have hnil : d.places = [] := List.eq_nil_of_length_eq_zero (d.length_places.trans hs)
    rw [hnil, Nat.ofDigitChars_nil] at hmagnitude
    rw [if_pos hs, readWhole, if_pos rfl]
    simp only [hmagnitude, withSign, Except.ok.injEq, mk.injEq, true_and]
    exact hs.symm
  · rw [if_neg hs, readWhole, digit?_of_not_isDigit (by decide)]
    dsimp only
    rw [if_pos rfl, readPlaces_digits fun c hc => isDigit_of_mem_places hc]
    · simp only [hmagnitude, length_places, withSign, Nat.zero_add]
    · rw [hmagnitude]
      exact d.magnitude_lt
    · rw [length_places, Nat.zero_add]
      exact d.scale_le

theorem neg_withSign (d : Decimal) :
    (d.withSign false).neg = d.withSign (decide (0 < d.magnitude)) := by
  have hmantissa : (d.withSign false).mantissa = d.magnitude := mantissa_withSign
  unfold neg
  simp only [hmantissa, Nat.cast_pos]
  rfl

theorem ofChars_digit {c : Char} (hc : c.isDigit) (cs : List Char) :
    ofChars (c :: cs) = readWhole zero false (c :: cs) := by
  unfold ofChars
  split
  · contradiction
  · rename_i hcons
    cases hcons
    exact absurd hc (by decide)
  · rename_i hcons
    cases hcons
    exact absurd hc (by decide)
  · rfl

/-- A decimal is read back from its text, a zero without its sign. -/
theorem ofChars_toChars (d : Decimal) :
    ofChars d.toChars = .ok (d.withSign (decide (d.mantissa < 0))) := by
  rw [toChars_eq, List.append_assoc, sign]
  cases hn : d.negative with
  | false =>
    have hpos : ¬ d.mantissa < 0 := by
      rw [mantissa, hn]
      simp
    rw [decide_eq_false hpos, ← readWhole_chars d]
    cases hw : d.whole with
    | nil => exact absurd hw d.whole_ne_nil
    | cons c cs =>
      exact ofChars_digit (isDigit_of_mem_whole (hw ▸ List.mem_cons_self ..)) _
  | true =>
    have hmantissa : decide (d.mantissa < 0) = decide (0 < d.magnitude) := by
      rw [decide_eq_decide, mantissa, hn, if_pos rfl, Left.neg_neg_iff, Nat.cast_pos]
    rw [if_pos rfl, List.singleton_append, ofChars, readWhole_chars, hmantissa, ← neg_withSign]
    rfl

end Decimal
end TrailingYear
