import TrailingYear.Proofs.Decimal.Nearest
import TrailingYear.Proofs.Decimal.Text
import Mathlib.Data.List.TakeWhile
import Mathlib.Data.Rat.Floor
import Mathlib.Data.Sign.Basic

/-! # Reading numbers of any length

Digit by digit the reader has the number cut off after the places that it has read. Where the next
one has no room, its first digit tells whether the rest comes to half a unit, so that the number
is rounded half away from zero at the largest scale at which it fits. It fails only where the
number does not fit as an integer. -/

namespace TrailingYear

/-- The nearest integer, and of two that are equally near the one that is farther from zero. -/
def roundAway (x : ℚ) : ℤ := SignType.sign x * ⌊|x| + 1 / 2⌋

theorem roundAway_of_nonneg {x : ℚ} (h : 0 ≤ x) : roundAway x = ⌊x + 1 / 2⌋ := by
  rcases h.eq_or_lt with rfl | hpos
  · norm_num [roundAway]
  · rw [roundAway, sign_pos hpos, abs_of_pos hpos, SignType.coe_one, one_mul]

theorem roundAway_neg (x : ℚ) : roundAway (-x) = -roundAway x := by
  rw [roundAway, Left.sign_neg, abs_neg, SignType.coe_neg, neg_mul]
  rfl

theorem roundAway_intCast (k : ℤ) : roundAway k = k := by
  have hnat (m : ℕ) : roundAway (m : ℤ) = m := by
    rw [roundAway_of_nonneg (by positivity), Int.floor_eq_iff]
    constructor <;> norm_num
  obtain ⟨m, rfl | rfl⟩ := Int.eq_nat_or_neg k
  · exact hnat m
  · rw [Int.cast_neg, roundAway_neg, hnat]

theorem roundAway_pos_iff {x : ℚ} : 0 < roundAway x ↔ 1 / 2 ≤ x := by
  rcases le_total 0 x with h | h
  · rw [roundAway_of_nonneg h, Int.floor_pos]
    constructor <;> intro hx <;> linarith
  · have hneg : roundAway x ≤ 0 := by
      rw [← neg_neg x, roundAway_neg, roundAway_of_nonneg (neg_nonneg.mpr h), neg_nonpos,
        Int.floor_nonneg]
      linarith
    constructor <;> intro hx <;> linarith

theorem natAbs_roundAway (x : ℚ) : ((roundAway x).natAbs : ℤ) = ⌊|x| + 1 / 2⌋ := by
  have habs : (roundAway x).natAbs = (roundAway |x|).natAbs := by
    rcases abs_choice x with h | h <;> rw [h]
    rw [roundAway_neg, Int.natAbs_neg]
  have hnonneg : 0 ≤ ⌊|x| + 1 / 2⌋ := Int.floor_nonneg.mpr (by positivity)
  rw [habs, roundAway_of_nonneg (abs_nonneg x)]
  exact Int.natAbs_of_nonneg hnonneg

theorem outOfRange_iff_roundAway {x : ℚ} :
    OutOfRange x ↔ Decimal.capacity ≤ (roundAway x).natAbs := by
  have hcapacity : ((Decimal.capacity : ℤ) : ℚ) = 2 ^ 96 := by norm_num [Decimal.capacity]
  rw [← Int.ofNat_le, natAbs_roundAway, Int.le_floor, hcapacity, OutOfRange, sub_le_iff_le_add]

theorem outOfRange_of_capacity_le {x : ℚ} {n : ℕ} (hn : Decimal.capacity ≤ n) (hx : n ≤ x) :
    OutOfRange x := by
  have hcapacity : (2 : ℚ) ^ 96 ≤ n := by exact_mod_cast hn
  have hx' : (2 : ℚ) ^ 96 ≤ x := hcapacity.trans hx
  rw [OutOfRange, abs_of_nonneg (by linarith)]
  linarith

theorem OutOfRange.at_scale {x : ℚ} {s t : ℕ} (h : OutOfRange (x * 10 ^ s)) (hst : s ≤ t) :
    OutOfRange (x * 10 ^ t) := by
  have hpow : (10 : ℚ) ^ t = 10 ^ s * 10 ^ (t - s) := by rw [← pow_add, Nat.add_sub_cancel' hst]
  rw [hpow, ← mul_assoc]
  exact h.scaled _

def fraction (ds : List Char) : ℚ := Nat.ofDigitChars 10 ds 0 / 10 ^ ds.length

theorem fraction_nil : fraction [] = 0 := by norm_num [fraction, Nat.ofDigitChars]

theorem ofDigitChars_fraction (ds : List Char) (n : ℕ) :
    (Nat.ofDigitChars 10 ds n : ℚ) = (n + fraction ds) * 10 ^ ds.length := by
  rw [Nat.ofDigitChars_eq_ofDigitChars_zero, fraction, add_mul, div_mul_cancel₀ _ (by positivity)]
  push_cast
  ring

theorem fraction_cons (c : Char) (ds : List Char) :
    fraction (c :: ds) * 10 = (c.toNat - '0'.toNat : ℕ) + fraction ds := by
  have h := ofDigitChars_fraction ds (10 * 0 + (c.toNat - '0'.toNat))
  rw [← Nat.ofDigitChars_cons] at h
  rw [fraction, h, List.length_cons, pow_succ]
  field_simp
  simp

theorem fraction_bounds {ds : List Char} (hd : ∀ c ∈ ds, c.isDigit) :
    0 ≤ fraction ds ∧ fraction ds < 1 := by
  have hlt : (Nat.ofDigitChars 10 ds 0 : ℚ) < 10 ^ ds.length := by exact_mod_cast ofDigitChars_lt hd
  constructor
  · exact div_nonneg (Nat.cast_nonneg _) (by positivity)
  · exact (div_lt_one (by positivity)).mpr hlt

/-- What has been read so far, and the digits that are left, do not make a negative number. -/
theorem nonneg_of_scaled {x : ℚ} {m s : ℕ} {ds : List Char} (hd : ∀ c ∈ ds, c.isDigit)
    (hx : x * 10 ^ s = m + fraction ds) : 0 ≤ x := by
  obtain ⟨hlo, _⟩ := fraction_bounds hd
  have hpos : (0 : ℚ) ≤ x * 10 ^ s := by
    rw [hx]
    positivity
  exact nonneg_of_mul_nonneg_left hpos (by positivity)

namespace Decimal

/-- What a number with `places` places is read as: as many of them are kept as fit. -/
structure ReadsAs (x : ℚ) (places : ℕ) (d : Decimal) : Prop where
  sign : d.negative = decide (d.mantissa < 0)
  scale_le : d.scale ≤ places
  rounded : d.mantissa = roundAway (x * 10 ^ d.scale)
  largest : d.scale < places → d.scale < maxScale → OutOfRange (x * 10 ^ (d.scale + 1))

def EndsAs (x : ℚ) (places : ℕ) : Except DecimalError Decimal → Prop
  | .ok d => ReadsAs x places d
  | .error _ => OutOfRange x

theorem mantissa_neg (d : Decimal) : d.neg.mantissa = -d.mantissa := by
  have habs := d.natAbs_mantissa
  change (if decide (0 < d.mantissa) then -(d.magnitude : ℤ) else d.magnitude) = _
  by_cases h : 0 < d.mantissa
  · rw [if_pos (decide_eq_true h)]
    omega
  · rw [if_neg (by simpa using h)]
    omega

namespace ReadsAs

variable {x : ℚ} {places : ℕ} {d : Decimal}

theorem inRange (h : ReadsAs x places d) : ¬ OutOfRange x := by
  intro hout
  have hbig := outOfRange_iff_roundAway.mp (hout.scaled d.scale)
  rw [← h.rounded, natAbs_mantissa] at hbig
  exact absurd d.magnitude_lt (Nat.not_lt.mpr hbig)

theorem neg (h : ReadsAs x places d) : ReadsAs (-x) places d.neg where
  sign := by
    have hneg : d.neg.mantissa < 0 ↔ 0 < d.mantissa := by rw [mantissa_neg, neg_lt_zero]
    exact (decide_eq_decide.mpr hneg).symm
  scale_le := h.scale_le
  rounded := by
    rw [mantissa_neg, neg_mul, roundAway_neg, h.rounded]
    rfl
  largest := by
    intro hp hs
    have hout := h.largest hp hs
    rwa [neg_mul, OutOfRange, abs_neg]

theorem toRat_eq (h : ReadsAs x places d) :
    d.toRat = roundAway (x * 10 ^ d.scale) / 10 ^ d.scale := by
  rw [Decimal.toRat_eq, h.rounded]

section

variable {k : ℤ} (hk : x * 10 ^ places = k)

include hk

theorem scale_eq (h : ReadsAs x places d) (hfits : k.natAbs < capacity) (hp : places ≤ maxScale) :
    d.scale = places := by
  by_contra hne
  have hlt : d.scale < places := lt_of_le_of_ne h.scale_le hne
  have hout : OutOfRange (x * 10 ^ places) := (h.largest hlt (hlt.trans_le hp)).at_scale hlt
  rw [hk, outOfRange_iff_roundAway, roundAway_intCast] at hout
  exact absurd hfits (Nat.not_lt.mpr hout)

theorem exact (h : ReadsAs x places d) (hfits : k.natAbs < capacity) (hp : places ≤ maxScale) :
    d.toRat = x := by
  rw [h.toRat_eq, h.scale_eq hk hfits hp, hk, roundAway_intCast, ← hk]
  exact mul_div_cancel_right₀ x (by positivity)

/-- As little as possible is rounded away. -/
theorem isGreatest (h : ReadsAs x places d) (hfull : ¬ (k.natAbs < capacity ∧ places ≤ maxScale)) :
    IsGreatest {t | t ≤ maxScale ∧ (roundAway (x * 10 ^ t)).natAbs < capacity} d.scale := by
  refine ⟨⟨d.scale_le, ?_⟩, fun t ht => ?_⟩
  · rw [← h.rounded, natAbs_mantissa]
    exact d.magnitude_lt
  obtain ⟨hmax, hroom⟩ := ht
  by_contra hlt
  rw [not_le] at hlt
  have hplaces : d.scale < places := by
    refine lt_of_le_of_ne h.scale_le fun heq => hfull ⟨?_, heq ▸ d.scale_le⟩
    have hround := h.rounded
    rw [heq, hk, roundAway_intCast] at hround
    rw [← hround, natAbs_mantissa]
    exact d.magnitude_lt
  have hout : OutOfRange (x * 10 ^ t) := (h.largest hplaces (hlt.trans_le hmax)).at_scale hlt
  exact absurd hroom (Nat.not_lt.mpr (outOfRange_iff_roundAway.mp hout))

/-- Only what is below half a unit in the last possible place is lost. -/
theorem mantissa_pos_iff (h : ReadsAs x places d) : 0 < d.mantissa ↔ 1 / 2 / 10 ^ maxScale ≤ x := by
  have hunit : 1 / 2 / 10 ^ maxScale ≤ x ↔ 1 / 2 ≤ x * 10 ^ maxScale := div_le_iff₀ (by positivity)
  rw [h.rounded, roundAway_pos_iff, hunit]
  constructor
  · intro hhalf
    have hpos : 0 ≤ x :=
      nonneg_of_mul_nonneg_left (by linarith) (by positivity : (0 : ℚ) < 10 ^ d.scale)
    have hpow : (10 : ℚ) ^ d.scale ≤ 10 ^ maxScale := pow_le_pow_right₀ (by norm_num) d.scale_le
    exact hhalf.trans (mul_le_mul_of_nonneg_left hpow hpos)
  intro hhalf
  have hpos : 0 < x := pos_of_mul_pos_left (one_half_pos.trans_le hhalf) (by positivity)
  rcases d.scale_le.eq_or_lt with heq | hlt
  · rwa [heq]
  rcases h.scale_le.eq_or_lt with heq | hplaces
  · rw [heq, hk]
    have hpos' : (0 : ℚ) < k := by
      rw [← hk]
      positivity
    have hone : (1 : ℚ) ≤ k := by exact_mod_cast hpos'
    linarith
  · have hout := h.largest hplaces hlt
    rw [OutOfRange, abs_of_pos (by positivity), pow_succ (10 : ℚ), ← mul_assoc] at hout
    norm_num at hout ⊢
    linarith

theorem mantissa_neg_iff (h : ReadsAs x places d) :
    d.mantissa < 0 ↔ x ≤ -(1 / 2 / 10 ^ maxScale) := by
  have hk' : -x * 10 ^ places = (-k : ℤ) := by rw [neg_mul, hk, Int.cast_neg]
  rw [le_neg, ← h.neg.mantissa_pos_iff hk', mantissa_neg, Int.neg_pos]

end

theorem of_floor {m s : ℕ} {hm : m < capacity} {hs : s ≤ maxScale} (hx : 0 ≤ x) (hp : s ≤ places)
    (hfloor : ⌊x * 10 ^ s + 1 / 2⌋ = m)
    (hlargest : s < places → s < maxScale → OutOfRange (x * 10 ^ (s + 1))) :
    ReadsAs x places ⟨false, m, s, hm, hs⟩ where
  sign := (decide_eq_false (Int.not_lt.mpr (Int.natCast_nonneg m))).symm
  scale_le := hp
  rounded := by
    rw [roundAway_of_nonneg (by positivity), hfloor]
    rfl
  largest := hlargest

end ReadsAs

theorem EndsAs.neg {x : ℚ} {places : ℕ} {r : Except DecimalError Decimal} (h : EndsAs x places r) :
    EndsAs (-x) places (r.map Decimal.neg) := by
  cases r with
  | ok d => exact ReadsAs.neg h
  | error e =>
    change OutOfRange (-x)
    rw [OutOfRange, abs_neg]
    exact h

theorem ignoring_digits (d : Decimal) {ds : List Char} (hd : ∀ c ∈ ds, c.isDigit) :
    d.ignoring ds = .ok d := by
  have hnone : ds.find? (fun c => (digit? c).isNone && c != '_') = none := by
    rw [List.find?_eq_none]
    intro c hc
    simp [digit?_of_isDigit (hd c hc)]
  rw [ignoring, hnone]

section

variable {x : ℚ} {places m s : ℕ} {hm : m < capacity} {hs : s ≤ maxScale} {c : Char}
  {ds : List Char}

theorem appendDigit?_eq_none {k : ℕ} (hk : capacity ≤ 10 * m + k) :
    appendDigit? ⟨false, m, s, hm, hs⟩ k = none := by
  change ofParts? ((m : ℤ) * 10 + k) s = none
  rw [ofParts?_eq_none_iff hs]
  omega

theorem appendPlace?_eq_none {k : ℕ} (hk : capacity ≤ 10 * m + k) (hs' : s + 1 ≤ maxScale) :
    appendPlace? ⟨false, m, s, hm, hs⟩ k = none := by
  change ofParts? ((m : ℤ) * 10 + k) (s + 1) = none
  rw [ofParts?_eq_none_iff hs']
  omega

theorem stepUp?_eq (hk : m + 1 < capacity) :
    stepUp? ⟨false, m, s, hm, hs⟩ = some ⟨false, m + 1, s, hk, hs⟩ := by
  have hparts : ofParts? ((m : ℤ) + 1) s = some ⟨false, m + 1, s, hk, hs⟩ :=
    ofParts?_natCast (m := m + 1) hk hs
  change (ofParts? ((m : ℤ) + 1) s).orElse _ = _
  rw [hparts, Option.orElse_some]

/-- The greatest magnitude has no successor at its scale, but one with a place less. -/
theorem stepUp?_greatest (hk : m + 1 = capacity) : stepUp? ⟨false, m, s, hm, hs⟩ =
    if s = 0 then none else ofParts? ((m + 5 : ℤ) / 10) (s - 1) := by
  have hparts : ofParts? ((m : ℤ) + 1) s = none := by
    rw [ofParts?_eq_none_iff hs]
    omega
  change (ofParts? ((m : ℤ) + 1) s).orElse _ = _
  rw [hparts, Option.orElse_none]
  rfl

theorem roundBy_digits (d : Decimal) (hc : c.isDigit) (hd : ∀ c ∈ ds, c.isDigit) :
    d.roundBy (c :: ds) =
    if c.toNat - '0'.toNat < 5 then .ok d else d.stepUp?.elim (.error .roundedTooFar) .ok := by
  have hdrop : (c :: ds).dropWhile (· = '_') = c :: ds :=
    List.dropWhile_cons_of_neg (by simpa using ne_of_isDigit hc (by decide))
  rw [roundBy, hdrop]
  dsimp only
  rw [digit?_of_isDigit hc]
  dsimp only
  split
  · exact ignoring_digits d hd
  · cases d.stepUp? with
    | none => rfl
    | some e => exact ignoring_digits e hd

/-- Rounding up may take one more place, and fails only where there is none. -/
theorem stepUp?_endsAs {f : ℚ} (hhalf : 1 / 2 ≤ f) (hlt : f < 1) (hx : x * 10 ^ s = m + f)
    (hnonneg : 0 ≤ x) (hp : s ≤ places) (hfull : s < maxScale → OutOfRange (x * 10 ^ (s + 1))) :
    EndsAs x places ((stepUp? ⟨false, m, s, hm, hs⟩).elim (.error .roundedTooFar) .ok) := by
  by_cases hroom : m + 1 < capacity
  · rw [stepUp?_eq hroom]
    refine ReadsAs.of_floor hnonneg hp ?_ fun _ => hfull
    rw [Int.floor_eq_iff, hx]
    push_cast
    constructor <;> linarith
  have hgreatest : m + 1 = capacity := by omega
  have hmq : (m : ℚ) = 2 ^ 96 - 1 := by
    rw [eq_sub_iff_add_eq]
    exact_mod_cast hgreatest
  have hout : OutOfRange (x * 10 ^ s) := by
    rw [OutOfRange, abs_of_nonneg (by positivity), hx, hmq]
    linarith
  rw [stepUp?_greatest hgreatest]
  cases s with
  | zero => simpa [EndsAs] using hout
  | succ s =>
    have hten : ((m : ℤ) + 5) / 10 = (7922816251426433759354395034 : ℕ) := by
      unfold capacity at hgreatest
      omega
    rw [if_neg (Nat.succ_ne_zero s), hten, Nat.add_sub_cancel,
      ofParts?_natCast (by decide) (Nat.le_of_succ_le hs)]
    refine ReadsAs.of_floor hnonneg (Nat.le_of_succ_le hp) ?_ fun _ _ => hout
    rw [pow_succ, ← mul_assoc] at hx
    rw [Int.floor_eq_iff]
    norm_num at hmq ⊢
    constructor <;> linarith

/-- The first digit that has no room decides. -/
theorem roundBy_endsAs (hc : c.isDigit) (hd : ∀ c ∈ ds, c.isDigit)
    (hx : x * 10 ^ s = m + fraction (c :: ds)) (hp : s ≤ places)
    (hfull : s < maxScale → OutOfRange (x * 10 ^ (s + 1))) :
    EndsAs x places (roundBy ⟨false, m, s, hm, hs⟩ (c :: ds)) := by
  have hall : ∀ b ∈ c :: ds, b.isDigit := List.forall_mem_cons.mpr ⟨hc, hd⟩
  have hcons := fraction_cons c ds
  obtain ⟨hlo, hhi⟩ := fraction_bounds hd
  obtain ⟨hlo', hhi'⟩ := fraction_bounds hall
  have hnonneg : 0 ≤ x := nonneg_of_scaled hall hx
  rw [roundBy_digits _ hc hd]
  split
  next hsmall =>
    have hdigit : ((c.toNat - '0'.toNat : ℕ) : ℚ) ≤ 4 := by exact_mod_cast Nat.le_of_lt_succ hsmall
    refine ReadsAs.of_floor hnonneg hp ?_ fun _ => hfull
    rw [Int.floor_eq_iff, hx, Int.cast_natCast]
    constructor <;> linarith
  next hlarge =>
    have hdigit : (5 : ℚ) ≤ (c.toNat - '0'.toNat : ℕ) := by exact_mod_cast Nat.le_of_not_lt hlarge
    exact stepUp?_endsAs (by linarith) hhi' hx hnonneg hp hfull

/-- Reading goes on while there is room. -/
theorem readPlaces_endsAs (hd : ∀ c ∈ ds, c.isDigit) (hx : x * 10 ^ s = m + fraction ds) :
    EndsAs x (s + ds.length) (readPlaces ⟨false, m, s, hm, hs⟩ true ds) := by
  induction ds generalizing m s with
  | nil =>
    have hnonneg : 0 ≤ x := nonneg_of_scaled hd hx
    rw [fraction_nil, add_zero] at hx
    refine ReadsAs.of_floor hnonneg (Nat.le_refl _) ?_ fun hlt => absurd hlt (Nat.lt_irrefl _)
    rw [Int.floor_eq_iff, hx, Int.cast_natCast]
    constructor <;> linarith
  | cons c ds ih =>
    obtain ⟨hc, hds⟩ := List.forall_mem_cons.mp hd
    obtain ⟨hlo, _⟩ := fraction_bounds hds
    have hnext : x * 10 ^ (s + 1) = (10 * m + (c.toNat - '0'.toNat) : ℕ) + fraction ds := by
      have hcons := fraction_cons c ds
      rw [pow_succ, ← mul_assoc, hx, add_mul, hcons]
      push_cast
      ring
    have hle : s ≤ s + (c :: ds).length := Nat.le_add_right ..
    rw [readPlaces]
    by_cases hmax : s = maxScale
    · rw [if_pos hmax]
      exact roundBy_endsAs hc hds hx hle fun hlt => absurd hmax hlt.ne
    rw [if_neg hmax, digit?_of_isDigit hc]
    dsimp only
    by_cases hroom : 10 * m + (c.toNat - '0'.toNat) < capacity
    · rw [appendPlace?_eq hroom (by omega)]
      dsimp only
      have hrest :
          EndsAs x (s + 1 + ds.length) (readPlaces ⟨false, _, s + 1, hroom, by omega⟩ true ds) :=
        ih hds hnext
      rwa [Nat.add_assoc, Nat.add_comm 1] at hrest
    · rw [appendPlace?_eq_none (Nat.not_lt.mp hroom) (by omega)]
      refine roundBy_endsAs hc hds hx hle fun _ => ?_
      rw [hnext]
      exact outOfRange_of_capacity_le (Nat.not_lt.mp hroom) (le_add_of_nonneg_right hlo)

/-- An integer part that does not fit is not read to its end. -/
theorem readWhole_tooLong (hd : ∀ c ∈ ds, c.isDigit) (hv : capacity ≤ Nat.ofDigitChars 10 ds m)
    (seen : Bool) (rest : List Char) :
    readWhole ⟨false, m, s, hm, hs⟩ seen (ds ++ rest) = .error .tooManyDigits := by
  induction ds generalizing m seen with
  | nil => exact absurd hm (Nat.not_lt.mpr hv)
  | cons c ds ih =>
    obtain ⟨hc, hds⟩ := List.forall_mem_cons.mp hd
    rw [Nat.ofDigitChars_cons] at hv
    rw [List.cons_append, readWhole, digit?_of_isDigit hc]
    dsimp only
    by_cases hroom : 10 * m + (c.toNat - '0'.toNat) < capacity
    · rw [appendDigit?_eq hroom]
      exact ih hds hv true
    · rw [appendDigit?_eq_none (Nat.not_lt.mp hroom)]

end

theorem readWhole_endsAs {whole places : List Char} (hw : whole ≠ [])
    (hwhole : ∀ c ∈ whole, c.isDigit) (hplaces : ∀ c ∈ places, c.isDigit) :
    EndsAs (Nat.ofDigitChars 10 whole 0 + fraction places) places.length
      (readWhole zero false (whole ++ pointed places)) := by
  obtain ⟨hlo, _⟩ := fraction_bounds hplaces
  have hz : zero = ⟨false, 0, 0, by decide, by decide⟩ := rfl
  rw [hz]
  by_cases hfits : Nat.ofDigitChars 10 whole 0 < capacity
  · have hseen : (false || !whole.isEmpty) = true := by simpa using hw
    have hread : EndsAs (Nat.ofDigitChars 10 whole 0 + fraction places) (0 + places.length)
        (readPlaces ⟨false, Nat.ofDigitChars 10 whole 0, 0, hfits, by decide⟩ true places) :=
      readPlaces_endsAs hplaces (by rw [pow_zero, mul_one])
    rw [readWhole_digits hwhole hfits, hseen]
    rw [Nat.zero_add] at hread
    unfold pointed
    by_cases hnil : places = []
    · subst hnil
      rw [if_pos rfl]
      exact hread
    · rw [if_neg hnil, readWhole, digit?_of_not_isDigit (by decide)]
      exact hread
  · rw [readWhole_tooLong hwhole (Nat.not_lt.mp hfits)]
    exact outOfRange_of_capacity_le (Nat.not_lt.mp hfits) (le_add_of_nonneg_right hlo)

/-- A minus sign turns the outcome around. -/
theorem ofChars_endsAs {whole places : List Char} (hw : whole ≠ [])
    (hwhole : ∀ c ∈ whole, c.isDigit) (hplaces : ∀ c ∈ places, c.isDigit) :
    EndsAs (Nat.ofDigitChars 10 whole 0 + fraction places) places.length
      (ofChars (whole ++ pointed places)) ∧
    EndsAs (-(Nat.ofDigitChars 10 whole 0 + fraction places)) places.length
      (ofChars ('-' :: (whole ++ pointed places))) := by
  have hread := readWhole_endsAs hw hwhole hplaces
  refine ⟨?_, hread.neg⟩
  cases whole with
  | nil => exact absurd rfl hw
  | cons c cs =>
    rw [List.cons_append, ofChars_digit (hwhole c (List.mem_cons_self ..))]
    exact hread

def IsNumberChar (c : Char) : Prop := c.isDigit ∨ c ∈ ['.', '_', '-', '+']

theorem isNumberChar_of_digit? {c : Char} {n : ℕ} (h : digit? c = some n) : IsNumberChar c := by
  cases hc : c.isDigit with
  | true => exact Or.inl hc
  | false =>
    rw [digit?_of_not_isDigit hc] at h
    cases h

section

variable {d e : Decimal} {cs : List Char}

/-- The characters that have no effect are looked at all the same. -/
theorem numberChars_of_ignoring (h : d.ignoring cs = .ok e) : ∀ c ∈ cs, IsNumberChar c := by
  intro c hc
  cases hfind : cs.find? (fun c => (digit? c).isNone && c != '_') with
  | some b =>
    rw [ignoring, hfind] at h
    cases h
  | none =>
    have hgood := List.find?_eq_none.mp hfind c hc
    cases hdigit : digit? c with
    | some n => exact isNumberChar_of_digit? hdigit
    | none =>
      have hc' : c = '_' := by simpa [hdigit] using hgood
      exact Or.inr (by simp [hc'])

theorem numberChars_of_roundBy (h : d.roundBy cs = .ok e) : ∀ c ∈ cs, IsNumberChar c := by
  intro c hc
  rw [← List.takeWhile_append_dropWhile (p := fun c => decide (c = '_')) (l := cs)] at hc
  rcases List.mem_append.mp hc with hskipped | hrest
  · have hc' : c = '_' := by simpa using List.mem_takeWhile_imp hskipped
    exact Or.inr (by simp [hc'])
  unfold roundBy at h
  cases hdrop : cs.dropWhile (· = '_') with
  | nil => simp [hdrop] at hrest
  | cons b rest =>
    rw [hdrop] at h hrest
    dsimp only at h
    cases hb : digit? b with
    | none =>
      rw [hb] at h
      cases h
    | some n =>
      rw [hb] at h
      dsimp only at h
      have htail : ∀ c ∈ rest, IsNumberChar c := by
        split at h
        · exact numberChars_of_ignoring h
        split at h
        · exact numberChars_of_ignoring h
        · cases h
      exact List.forall_mem_cons.mpr ⟨isNumberChar_of_digit? hb, htail⟩ c hrest

theorem numberChars_of_readPlaces {seen : Bool} (h : readPlaces d seen cs = .ok e) :
    ∀ c ∈ cs, IsNumberChar c := by
  induction cs generalizing d seen with
  | nil => simp
  | cons c cs ih =>
    rw [readPlaces] at h
    split at h
    · exact numberChars_of_roundBy h
    cases hdigit : digit? c with
    | some n =>
      rw [hdigit] at h
      dsimp only at h
      split at h
      · exact List.forall_mem_cons.mpr ⟨isNumberChar_of_digit? hdigit, ih h⟩
      · exact numberChars_of_roundBy h
    | none =>
      rw [hdigit] at h
      dsimp only at h
      split at h
      next hmark => exact List.forall_mem_cons.mpr ⟨Or.inr (by simp [hmark.1]), ih h⟩
      · cases h

theorem numberChars_of_readWhole {seen : Bool} (h : readWhole d seen cs = .ok e) :
    ∀ c ∈ cs, IsNumberChar c := by
  induction cs generalizing d seen with
  | nil => simp
  | cons c cs ih =>
    rw [readWhole] at h
    cases hdigit : digit? c with
    | some n =>
      rw [hdigit] at h
      dsimp only at h
      split at h
      · exact List.forall_mem_cons.mpr ⟨isNumberChar_of_digit? hdigit, ih h⟩
      · cases h
    | none =>
      rw [hdigit] at h
      dsimp only at h
      split at h
      next hpoint =>
        exact List.forall_mem_cons.mpr ⟨Or.inr (by simp [hpoint]), numberChars_of_readPlaces h⟩
      split at h
      next hmark => exact List.forall_mem_cons.mpr ⟨Or.inr (by simp [hmark.1]), ih h⟩
      · cases h

/-- No digits of other scripts, wherever they stand. -/
theorem numberChars_of_ofChars (h : ofChars cs = .ok e) : ∀ c ∈ cs, IsNumberChar c := by
  unfold ofChars at h
  split at h
  · cases h
  next cs =>
    cases hread : readWhole zero false cs with
    | error => simp [hread, Except.map] at h
    | ok d => exact List.forall_mem_cons.mpr ⟨Or.inr (by decide), numberChars_of_readWhole hread⟩
  · exact List.forall_mem_cons.mpr ⟨Or.inr (by decide), numberChars_of_readWhole h⟩
  · exact numberChars_of_readWhole h

end

end Decimal
end TrailingYear
