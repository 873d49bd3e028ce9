import TrailingYear.Proofs.Decimal.Rounding

/-! # The nearest decimal

A result is rounded at the largest scale at which it fits, so a larger number may lose
places that a smaller one keeps. Rounding keeps the order of numbers all the same, and it
leaves decimals alone. -/

namespace TrailingYear

theorem IsRounded.mono {x y : ℚ} {m n : ℤ} (hm : IsRounded x m) (hn : IsRounded y n) (h : x ≤ y) :
    m ≤ n := by
  obtain ⟨hm, hme⟩ := hm
  obtain ⟨hn, hne⟩ := hn
  by_contra hlt
  have hstep : (n : ℚ) + 1 ≤ m := by exact_mod_cast (by omega : n + 1 ≤ m)
  have hx := (abs_le.mp hm).1
  have hy := (abs_le.mp hn).2
  -- `x` and `y` are both half way between `n` and the next integer, which is `m`
  have hxm : x - m = -(1 / 2) := by linarith
  have hyn : y - n = 1 / 2 := by linarith
  have hem : Even m := hme (by rw [hxm]; norm_num)
  have hen : Even n := hne (by rw [hyn]; norm_num)
  have hnext : m = n + 1 := by
    have hq : (m : ℚ) = n + 1 := by linarith
    exact_mod_cast hq
  rw [hnext, Int.even_add_one] at hem
  exact hem hen

theorem IsRounded.nonneg {x : ℚ} {n : ℤ} (h : IsRounded x n) (hx : 0 ≤ x) : 0 ≤ n :=
  (IsRounded.intCast 0).mono h (by simpa using hx)

theorem exists_isRounded (x : ℚ) : ∃ n, IsRounded x n := by
  have h := isRounded_roundDiv x.num x.den_pos
  rw [Rat.num_div_den] at h
  exact ⟨_, h⟩

namespace Decimal

/-- The nearest decimal to `x` at the largest scale up to `s` at which it fits. -/
structure IsNearest (x : ℚ) (s : ℕ) (c : Decimal) : Prop where
  scale_le : c.scale ≤ s
  rounded : IsRounded (x * 10 ^ c.scale) c.mantissa
  largest : ∀ t, c.scale < t → t ≤ s → ∀ n, IsRounded (x * 10 ^ t) n → capacity ≤ n.natAbs

theorem ofParts?_eq_none_iff {m : ℤ} {s : ℕ} (hs : s ≤ maxScale) :
    ofParts? m s = none ↔ capacity ≤ m.natAbs := by
  rw [ofParts?, dite_eq_right_iff]
  constructor
  · intro h
    by_contra hlt
    exact absurd (h ⟨Nat.lt_of_not_le hlt, hs⟩) (by simp)
  · intro h hfits
    exact absurd hfits.1 (Nat.not_lt.mpr h)

theorem isRounded_at (n : ℤ) {d : ℕ} (hd : 0 < d) (s : ℕ) :
    IsRounded (n / d * 10 ^ s) (roundDiv (n * tenTo s) d) := by
  have h := isRounded_roundDiv (n * tenTo s) hd
  rwa [Int.cast_mul, Int.cast_natCast, cast_tenTo, mul_div_right_comm] at h

theorem isNearest_of_nearest? {n : ℤ} {d s : ℕ} (hd : 0 < d) (hs : s ≤ maxScale) {c : Decimal}
    (h : nearest? n d s = some c) : IsNearest (n / d) s c := by
  have hround := isRounded_at n hd
  induction s with
  | zero =>
    obtain ⟨hm, hcs, _⟩ := ofParts?_eq_some.mp h
    refine ⟨hcs.le, ?_, fun t ht hts => by omega⟩
    rw [hcs, hm]
    simpa [tenTo] using hround 0
  | succ s ih =>
    rw [nearest?] at h
    cases hp : ofParts? (roundDiv (n * tenTo (s + 1)) d) (s + 1) with
    | some e =>
      rw [hp, Option.orElse_some] at h
      cases h
      obtain ⟨hm, hcs, _⟩ := ofParts?_eq_some.mp hp
      refine ⟨hcs.le, ?_, fun t ht hts => by omega⟩
      rw [hcs, hm]
      exact hround (s + 1)
    | none =>
      rw [hp, Option.orElse_none] at h
      have ih := ih (by omega) h
      refine ⟨by have := ih.scale_le; omega, ih.rounded, ?_⟩
      intro t ht hts k hk
      rcases Nat.lt_or_eq_of_le hts with hlt | rfl
      · exact ih.largest t ht (by omega) k hk
      · rw [hk.unique (hround (s + 1))]
        exact (ofParts?_eq_none_iff hs).mp hp

theorem IsNearest.scale_eq {x : ℚ} {s : ℕ} {c : Decimal} {m : ℤ} (h : IsNearest x s c)
    (hm : IsRounded (x * 10 ^ s) m) (hfits : m.natAbs < capacity) :
    c.scale = s := by
  by_contra hne
  have hbig := h.largest s (by have := h.scale_le; omega) le_rfl m hm
  exact absurd hfits (Nat.not_lt.mpr hbig)

theorem nearest?_of_fits {n m : ℤ} {d s t : ℕ} (hd : 0 < d) (hs : s ≤ maxScale) (ht : t ≤ s)
    (hm : IsRounded (n / d * 10 ^ t) m) (hfits : m.natAbs < capacity) :
    ∃ c, nearest? n d s = some c := by
  have hround := isRounded_at n hd
  induction s with
  | zero =>
    obtain rfl : t = 0 := by omega
    obtain ⟨c, hc, _⟩ := ofParts?_fits hfits hs
    refine ⟨c, ?_⟩
    have hround0 := hround 0
    rw [show n * (tenTo 0 : ℕ) = n by simp [tenTo]] at hround0
    rw [nearest?, hround0.unique hm, hc]
  | succ s ih =>
    rw [nearest?]
    cases hp : ofParts? (roundDiv (n * tenTo (s + 1)) d) (s + 1) with
    | some e => exact ⟨e, rfl⟩
    | none =>
      rcases Nat.lt_or_eq_of_le ht with hlt | rfl
      · exact ih (by omega) (by omega)
      · rw [ofParts?_eq_none_iff hs, (hround (s + 1)).unique hm] at hp
        exact absurd hfits (Nat.not_lt.mpr hp)

/-- What becomes of `x` where at most `s` places are kept. -/
def RoundsTo (s : ℕ) (x v : ℚ) : Prop := ∃ c : Decimal, IsNearest x s c ∧ c.toRat = v

theorem RoundsTo.of_nearest? {n : ℤ} {d s : ℕ} (hd : 0 < d) (hs : s ≤ maxScale) {c : Decimal}
    (h : nearest? n d s = some c) : RoundsTo s (n / d) c.toRat :=
  ⟨c, isNearest_of_nearest? hd hs h, rfl⟩

/-- A decimal with no more places than are kept is not rounded. -/
theorem RoundsTo.eq_of_scale_le {s : ℕ} {d : Decimal} {v : ℚ} (h : RoundsTo s d.toRat v)
    (hs : d.scale ≤ s) : v = d.toRat := by
  obtain ⟨c, hc, rfl⟩ := h
  have hscale : d.scale ≤ c.scale := by
    by_contra hlt
    have hd : IsRounded (d.toRat * 10 ^ d.scale) d.mantissa := by
      rw [← mantissa_eq]
      exact IsRounded.intCast _
    have hbig := hc.largest d.scale (by omega) hs _ hd
    rw [natAbs_mantissa] at hbig
    exact absurd d.magnitude_lt (Nat.not_lt.mpr hbig)
  have hm : c.mantissa = d.mantissa * 10 ^ (c.scale - d.scale) := by
    apply hc.rounded.unique
    rw [toRat_mul_pow hscale]
    exact IsRounded.intCast _
  rw [toRat_eq c, hm, ← toRat_mul_pow hscale]
  field_simp

/-- At the edge of what fits, the place that is given up is rounded to at least what fitted. -/
theorem carry_le {x : ℚ} {n : ℤ} {q : ℕ} (hbig : (capacity : ℚ) - 1 / 2 ≤ x * 10 ^ (q + 1))
    (hn : IsRounded (x * 10 ^ q) n) : (capacity - 1 : ℚ) / 10 ^ (q + 1) ≤ n / 10 ^ q := by
  have hedge : IsRounded (7922816251426433759354395033 + 11 / 20) 7922816251426433759354395034 := by
    constructor <;> norm_num [abs_le]
  have hle : 7922816251426433759354395034 ≤ n := by
    apply hedge.mono hn
    rw [pow_succ, ← mul_assoc] at hbig
    norm_num at hbig ⊢
    linarith
  have hq : (7922816251426433759354395034 : ℚ) ≤ n := by exact_mod_cast hle
  rw [pow_succ, div_le_div_iff₀ (by positivity) (by positivity)]
  have hpos : (0 : ℚ) < 10 ^ q := by positivity
  norm_num
  nlinarith

theorem IsNearest.mono {x y : ℚ} {s : ℕ} {a b : Decimal} (ha : IsNearest x s a)
    (hb : IsNearest y s b) (hx : 0 ≤ x) (h : x ≤ y) : a.toRat ≤ b.toRat := by
  have hscaled : ∀ t : ℕ, x * 10 ^ t ≤ y * 10 ^ t := fun t => by gcongr
  rw [toRat_eq, toRat_eq]
  rcases Nat.lt_trichotomy a.scale b.scale with hlt | heq | hgt
  · -- what fits at the scale of `b` for `y` also fits there for `x`
    obtain ⟨n, hn⟩ := exists_isRounded (x * 10 ^ b.scale)
    have hbig := ha.largest b.scale hlt hb.scale_le n hn
    have hle : n ≤ b.mantissa := hn.mono hb.rounded (hscaled _)
    have hnonneg : 0 ≤ n := hn.nonneg (by positivity)
    have hfits := b.magnitude_lt
    rw [← natAbs_mantissa] at hfits
    omega
  · have hle : (a.mantissa : ℚ) ≤ b.mantissa := by
      exact_mod_cast ha.rounded.mono (heq ▸ hb.rounded) (hscaled _)
    rw [heq]
    gcongr
  · obtain ⟨n, hn⟩ := exists_isRounded (y * 10 ^ (b.scale + 1))
    have hbig := hb.largest (b.scale + 1) (by omega) (by have := ha.scale_le; omega) n hn
    have hnonneg : 0 ≤ n := hn.nonneg (by have := hx.trans h; positivity)
    have hcap : (capacity : ℚ) ≤ n := by exact_mod_cast (by omega : (capacity : ℤ) ≤ n)
    have hy : (n : ℚ) - 1 / 2 ≤ y * 10 ^ (b.scale + 1) := by
      have := (abs_le.mp hn.1).1
      linarith
    have hfits := a.magnitude_lt
    rw [← natAbs_mantissa] at hfits
    have hm : (a.mantissa : ℚ) ≤ capacity - 1 := by
      exact_mod_cast (by omega : a.mantissa ≤ (capacity : ℤ) - 1)
    calc (a.mantissa : ℚ) / 10 ^ a.scale
        ≤ (capacity - 1) / 10 ^ a.scale := by gcongr
      _ ≤ (capacity - 1) / 10 ^ (b.scale + 1) := by
          apply div_le_div_of_nonneg_left (by norm_num) (by positivity)
          exact pow_le_pow_right₀ (by norm_num) (by omega)
      _ ≤ b.mantissa / 10 ^ b.scale := carry_le ((sub_le_sub_right hcap _).trans hy) hb.rounded

namespace RoundsTo

variable {x y v w : ℚ} {s : ℕ}

theorem mono (h : RoundsTo s x v) (k : RoundsTo s y w) (hx : 0 ≤ x) (hxy : x ≤ y) : v ≤ w := by
  obtain ⟨a, ha, rfl⟩ := h
  obtain ⟨b, hb, rfl⟩ := k
  exact ha.mono hb hx hxy

theorem nonneg (h : RoundsTo s x v) (hx : 0 ≤ x) : 0 ≤ v := by
  obtain ⟨c, hc, rfl⟩ := h
  have hm : (0 : ℚ) ≤ c.mantissa := by exact_mod_cast hc.rounded.nonneg (by positivity)
  rw [toRat_eq]
  positivity

/-- Up to a number that has room for `t` places, rounding moves by at most half a unit of
the last of them. -/
theorem abs_sub_le {t : ℕ} (h : RoundsTo s x v) (hx : 0 ≤ x) (ht : t ≤ s)
    (hroom : x * 10 ^ t ≤ capacity - 1) : |v - x| ≤ 1 / 2 / 10 ^ t := by
  obtain ⟨c, hc, rfl⟩ := h
  have hscale : t ≤ c.scale := by
    by_contra hlt
    obtain ⟨n, hn⟩ := exists_isRounded (x * 10 ^ t)
    have hbig := hc.largest t (Nat.lt_of_not_le hlt) ht n hn
    have hlo : 0 ≤ n := hn.nonneg (by positivity)
    have hhi : n ≤ (capacity : ℤ) - 1 := by
      apply hn.mono (IsRounded.intCast _)
      exact_mod_cast hroom
    omega
  have hpow : (10 : ℚ) ^ t ≤ 10 ^ c.scale := pow_le_pow_right₀ (by norm_num) hscale
  have hnear : |(c.toRat - x) * 10 ^ c.scale| ≤ 1 / 2 := by
    rw [sub_mul, ← mantissa_eq, abs_sub_comm]
    exact hc.rounded.1
  rw [abs_mul, abs_of_pos (by positivity : (0 : ℚ) < 10 ^ c.scale)] at hnear
  calc |c.toRat - x|
      ≤ 1 / 2 / 10 ^ c.scale := (le_div_iff₀ (by positivity)).mpr hnear
    _ ≤ 1 / 2 / 10 ^ t := by gcongr

end RoundsTo

/-- Every decimal that has its places is its own rounding. -/
theorem roundsTo_self (d : Decimal) {s : ℕ} (hd : d.scale ≤ s) (hs : s ≤ maxScale) :
    RoundsTo s d.toRat d.toRat := by
  have hround : IsRounded ((d.mantissa : ℚ) / tenTo d.scale * 10 ^ d.scale) d.mantissa := by
    rw [cast_tenTo, div_mul_cancel₀ _ (by positivity)]
    exact IsRounded.intCast _
  obtain ⟨c, hc⟩ := nearest?_of_fits (tenTo_pos d.scale) hs hd hround
    (by rw [natAbs_mantissa]; exact d.magnitude_lt)
  have h := RoundsTo.of_nearest? (tenTo_pos _) hs hc
  rw [cast_tenTo, ← toRat_eq] at h
  rwa [h.eq_of_scale_le hd] at h

theorem add_toRat (a b : Decimal) : a.toRat + b.toRat =
    (a.widened b.scale + b.widened a.scale : ℤ) / tenTo (a.scale + b.scale) := by
  push_cast
  rw [cast_widened, cast_widened, cast_tenTo, Nat.add_comm b.scale, ← add_mul]
  field_simp

theorem add?_roundsTo {a b c : Decimal} (h : a.add? b = some c) :
    RoundsTo (max a.scale b.scale) (a.toRat + b.toRat) c.toRat := by
  have hs : max a.scale b.scale ≤ maxScale := max_le a.scale_le b.scale_le
  unfold add? at h
  split at h
  · cases h
    rw [isZero_iff_toRat.mp ‹a.IsZero›, zero_add]
    exact roundsTo_self _ (le_max_right ..) hs
  split at h
  · cases h
    rw [isZero_iff_toRat.mp ‹b.IsZero›, add_zero]
    exact roundsTo_self _ (le_max_left ..) hs
  · rw [add_toRat]
    exact RoundsTo.of_nearest? (tenTo_pos _) hs h

theorem widened_ne_zero {d : Decimal} (h : ¬ d.IsZero) (s : ℕ) : d.widened s ≠ 0 := by
  intro hz
  rcases Int.mul_eq_zero.mp hz with hz | hz
  · exact h hz
  · exact absurd (tenTo_pos s) (by omega)

theorem div_toRat (a : Decimal) {b : Decimal} (hb : ¬ b.IsZero) : a.toRat / b.toRat =
    (b.mantissa.sign * a.widened b.scale : ℤ) / (b.widened a.scale).natAbs := by
  have hsign : b.mantissa.sign = (b.widened a.scale).sign := by
    rw [widened, Int.sign_mul, Int.sign_natCast_of_ne_zero (tenTo_pos _).ne', mul_one]
  have habs : (((b.widened a.scale).natAbs : ℤ) : ℚ) =
      ((b.widened a.scale).sign * b.widened a.scale : ℤ) := by
    rw [Int.sign_mul_self_eq_natAbs]
  have hne : ((b.widened a.scale).sign : ℚ) ≠ 0 := by
    exact_mod_cast fun hz => widened_ne_zero hb _ (Int.sign_eq_zero_iff_zero.mp hz)
  rw [← Int.cast_natCast (b.widened a.scale).natAbs, habs, hsign]
  push_cast
  rw [mul_div_mul_left _ _ hne, cast_widened, cast_widened, Nat.add_comm b.scale,
    mul_div_mul_right _ _ (by positivity)]

theorem isNearest_of_div? {a b c : Decimal} (h : a.div? b = some c) :
    IsNearest (a.toRat / b.toRat) maxScale c := by
  unfold div? at h
  split_ifs at h with hb
  rw [div_toRat a hb]
  exact isNearest_of_nearest? (Int.natAbs_pos.mpr (widened_ne_zero hb _)) le_rfl h

/-- There is a quotient if it fits with all places. -/
theorem div?_of_fits {a b : Decimal} {m : ℤ} (hb : ¬ b.IsZero)
    (hm : IsRounded (a.toRat / b.toRat * 10 ^ maxScale) m) (hfits : m.natAbs < capacity) :
    ∃ c, a.div? b = some c ∧ c.scale = maxScale := by
  have hm' := hm
  rw [div_toRat a hb] at hm'
  obtain ⟨c, hc⟩ :=
    nearest?_of_fits (Int.natAbs_pos.mpr (widened_ne_zero hb _)) le_rfl le_rfl hm' hfits
  have hdiv : a.div? b = some c := by rw [div?, if_neg hb, hc]
  refine ⟨c, hdiv, (isNearest_of_div? hdiv).scale_eq hm hfits⟩

theorem toRat_withSign {d : Decimal} {negative : Bool} (h : negative = true → d.mantissa ≤ 0)
    (h' : negative = false → 0 ≤ d.mantissa) : (d.withSign negative).toRat = d.toRat := by
  have hm : (d.withSign negative).mantissa = d.mantissa := by
    have habs := d.natAbs_mantissa
    rw [mantissa_withSign]
    cases negative
    · have := h' rfl
      simp only [Bool.false_eq_true, if_false]
      omega
    · have := h rfl
      simp only [if_true]
      omega
  rw [toRat_eq, toRat_eq, hm]
  rfl

/-- The sign of a product is that of its nearest decimal, unless that is zero. -/
theorem IsNearest.withSign_mul {a b c : Decimal} {s : ℕ} (h : IsNearest (a.toRat * b.toRat) s c)
    (ha : ¬ a.IsZero) (hb : ¬ b.IsZero) :
    (c.withSign (a.negative != b.negative)).toRat = c.toRat := by
  have hsign : ∀ d : Decimal, ¬ d.IsZero → (d.negative = true ↔ d.toRat < 0) := by
    intro d hd
    rw [negative_iff hd, toRat_eq, div_neg_iff]
    simp only [Int.cast_lt_zero, Int.cast_pos]
    constructor
    · intro hm
      exact Or.inr ⟨hm, by positivity⟩
    · rintro (⟨_, hten⟩ | ⟨hm, _⟩)
      · exact absurd hten (not_lt.mpr (by positivity))
      · exact hm
  have hsa := hsign a ha
  have hsb := hsign b hb
  apply toRat_withSign
  · intro hne
    have hx : a.toRat * b.toRat ≤ 0 := by
      cases hna : a.negative <;> cases hnb : b.negative <;> simp_all
      · exact mul_nonpos_of_nonneg_of_nonpos hsa hsb.le
      · exact mul_nonpos_of_nonpos_of_nonneg hsa.le hsb
    refine h.rounded.mono (IsRounded.intCast 0) ?_
    simpa using mul_nonpos_of_nonpos_of_nonneg hx (by positivity)
  · intro he
    have hx : 0 ≤ a.toRat * b.toRat := by
      cases hna : a.negative <;> cases hnb : b.negative <;> simp_all
      · exact mul_nonneg hsa hsb
      · exact mul_nonneg_of_nonpos_of_nonpos hsa.le hsb.le
    exact h.rounded.nonneg (by positivity)

theorem mul_toRat (a b : Decimal) :
    a.toRat * b.toRat = (a.mantissa * b.mantissa : ℤ) / tenTo (a.scale + b.scale) := by
  push_cast
  rw [toRat_eq, toRat_eq, cast_tenTo, pow_add, div_mul_div_comm]

/-- Two magnitudes of 32 bits over more than 47 places are too small for any place that is kept. -/
theorem roundsTo_zero_of_words {a b : Decimal} (ha : a.magnitude < wordLimit)
    (hb : b.magnitude < wordLimit) (hs : 47 < a.scale + b.scale) :
    RoundsTo maxScale (a.toRat * b.toRat) 0 := by
  have hsmall : |((a.mantissa * b.mantissa : ℤ) : ℚ)| ≤ 2 ^ 64 := by
    have hnat : (a.mantissa * b.mantissa).natAbs ≤ wordLimit * wordLimit := by
      rw [Int.natAbs_mul, natAbs_mantissa, natAbs_mantissa]
      exact Nat.mul_le_mul ha.le hb.le
    have hint : |a.mantissa * b.mantissa| ≤ 2 ^ 64 := by
      rw [Int.abs_eq_natAbs]
      exact_mod_cast hnat
    exact_mod_cast hint
  have htiny : |a.toRat * b.toRat * 10 ^ maxScale| < 1 / 2 := by
    rw [mul_toRat, abs_mul, abs_div, cast_tenTo,
      abs_of_pos (by positivity : (0 : ℚ) < 10 ^ maxScale),
      abs_of_pos (by positivity : (0 : ℚ) < 10 ^ (a.scale + b.scale))]
    calc |((a.mantissa * b.mantissa : ℤ) : ℚ)| / 10 ^ (a.scale + b.scale) * 10 ^ maxScale
        ≤ 2 ^ 64 / 10 ^ 48 * 10 ^ maxScale := by
          gcongr
          · norm_num
          · omega
      _ < 1 / 2 := by norm_num
  have hround : IsRounded (a.toRat * b.toRat * 10 ^ maxScale) 0 := by
    rw [IsRounded, Int.cast_zero, sub_zero]
    exact ⟨htiny.le, fun h => absurd h htiny.ne⟩
  rw [mul_toRat] at hround
  obtain ⟨c, hc⟩ := nearest?_of_fits (tenTo_pos _) le_rfl le_rfl hround (by decide)
  have hc := isNearest_of_nearest? (tenTo_pos _) le_rfl hc
  have hscale : c.scale = maxScale := hc.scale_eq hround (by decide)
  have hm : c.mantissa = 0 := hc.rounded.unique (hscale ▸ hround)
  exact ⟨c, mul_toRat a b ▸ hc, isZero_iff_toRat.mp hm⟩

theorem mul?_roundsTo {a b c : Decimal} (h : a.mul? b = some c) :
    RoundsTo (min (a.scale + b.scale) maxScale) (a.toRat * b.toRat) c.toRat := by
  have hs : min (a.scale + b.scale) maxScale ≤ maxScale := min_le_right ..
  have hzero := roundsTo_self zero (Nat.zero_le (min (a.scale + b.scale) maxScale)) hs
  have hnearest : ∀ d, nearest? (a.mantissa * b.mantissa) (tenTo (a.scale + b.scale))
      (min (a.scale + b.scale) maxScale) = some d →
      IsNearest (a.toRat * b.toRat) (min (a.scale + b.scale) maxScale) d := by
    intro d hd
    rw [mul_toRat]
    exact isNearest_of_nearest? (tenTo_pos _) hs hd
  rw [mul?] at h
  by_cases hz : a.IsZero ∨ b.IsZero
  · rw [if_pos hz] at h
    cases h
    rw [isZero_iff_toRat, isZero_iff_toRat, ← mul_eq_zero] at hz
    rw [hz, toRat_zero]
    rwa [toRat_zero] at hzero
  rw [if_neg hz] at h
  dsimp only at h
  obtain ⟨hza, hzb⟩ := not_or.mp hz
  split_ifs at h with hwords hplaces
  · cases h
    rw [toRat_zero, min_eq_right (by unfold maxScale; omega)]
    exact roundsTo_zero_of_words hwords.1 hwords.2 hplaces
  · exact ⟨c, hnearest c h, rfl⟩
  · obtain ⟨d, hd, rfl⟩ := Option.map_eq_some_iff.mp h
    exact ⟨d, hnearest d hd, ((hnearest d hd).withSign_mul hza hzb).symm⟩

/-- There is a product if it fits as an integer. -/
theorem mul?_of_fits {a b : Decimal} {m : ℤ} (hm : IsRounded (a.toRat * b.toRat) m)
    (hfits : m.natAbs < capacity) : ∃ c, a.mul? b = some c := by
  rw [mul_toRat, ← mul_one (_ / _), ← pow_zero (10 : ℚ)] at hm
  obtain ⟨c, hc⟩ := nearest?_of_fits (s := min (a.scale + b.scale) maxScale) (tenTo_pos _)
    (min_le_right ..) (Nat.zero_le _) hm hfits
  unfold mul?
  split
  · exact ⟨_, rfl⟩
  dsimp only
  rw [hc]
  split
  · split
    · exact ⟨_, rfl⟩
    · exact ⟨_, rfl⟩
  · exact ⟨_, rfl⟩

end Decimal

/-! ## The range of decimals

A product or a sum has no decimal exactly where the exact one is at least half a unit beyond the
greatest integer that fits, whatever the scales: places that have no room are rounded away, and
half a unit beyond the greatest integer the even neighbour is the one that does not fit. -/

/-- At least half a unit beyond the greatest decimal. -/
def OutOfRange (x : ℚ) : Prop := 2 ^ 96 - 1 / 2 ≤ |x|

/-- More places of a number do not bring it into range. -/
theorem OutOfRange.scaled {x : ℚ} (h : OutOfRange x) (s : ℕ) : OutOfRange (x * 10 ^ s) := by
  have hten : (1 : ℚ) ≤ 10 ^ s := one_le_pow₀ (by norm_num)
  rw [OutOfRange, abs_mul, abs_of_pos (by positivity : (0 : ℚ) < 10 ^ s)]
  exact h.trans (le_mul_of_one_le_right (abs_nonneg x) hten)

theorem IsRounded.outOfRange_iff {x : ℚ} {n : ℤ} (h : IsRounded x n) :
    OutOfRange x ↔ Decimal.capacity ≤ n.natAbs := by
  obtain ⟨hnear, heven⟩ := h
  have habs : (n.natAbs : ℚ) = |(n : ℚ)| := by rw [Nat.cast_natAbs, Int.cast_abs]
  constructor
  · intro hx
    by_contra hlt
    have hle : (n.natAbs : ℚ) + 1 ≤ 2 ^ 96 := by exact_mod_cast Nat.lt_of_not_le hlt
    have htri : |x| - |(n : ℚ)| ≤ |x - n| := abs_sub_abs_le_abs_sub x n
    rw [← habs] at htri
    unfold OutOfRange at hx
    -- `x` is half way between the greatest decimal, which is odd, and the next integer
    have hhalf : |x - n| = 1 / 2 := by linarith
    have htop : (n.natAbs : ℚ) + 1 = 2 ^ 96 := by linarith
    have hodd : n.natAbs + 1 = 2 ^ 96 := by exact_mod_cast htop
    have hdiv : Even n.natAbs := Int.natAbs_even.mpr (heven hhalf)
    rw [show n.natAbs = 2 ^ 96 - 1 by omega] at hdiv
    exact absurd hdiv (by decide)
  · intro hn
    have hle : (2 : ℚ) ^ 96 ≤ |(n : ℚ)| := by
      rw [← habs]
      exact_mod_cast hn
    have htri : |(n : ℚ)| - |x| ≤ |(n : ℚ) - x| := abs_sub_abs_le_abs_sub (n : ℚ) x
    rw [abs_sub_comm] at htri
    unfold OutOfRange
    linarith

theorem exists_fits_of_inRange {x : ℚ} (h : ¬ OutOfRange x) :
    ∃ n, IsRounded x n ∧ n.natAbs < Decimal.capacity := by
  obtain ⟨n, hn⟩ := exists_isRounded x
  exact ⟨n, hn, Nat.lt_of_not_le (mt hn.outOfRange_iff.mpr h)⟩

namespace Decimal

theorem inRange_of_isRounded {x : ℚ} {d : Decimal} (h : IsRounded (x * 10 ^ d.scale) d.mantissa) :
    ¬ OutOfRange x := by
  intro hout
  have hbig := h.outOfRange_iff.mp (hout.scaled d.scale)
  rw [natAbs_mantissa] at hbig
  exact absurd d.magnitude_lt (Nat.not_lt.mpr hbig)

theorem inRange (d : Decimal) : ¬ OutOfRange d.toRat := by
  apply inRange_of_isRounded
  rw [← mantissa_eq]
  exact IsRounded.intCast _

theorem nearest?_eq_none_iff {n : ℤ} {d s : ℕ} (hd : 0 < d) (hs : s ≤ maxScale) :
    nearest? n d s = none ↔ OutOfRange (n / d) := by
  cases hc : nearest? n d s with
  | some c =>
    have hin : ¬ OutOfRange (n / d) := inRange_of_isRounded (isNearest_of_nearest? hd hs hc).rounded
    simp [hin]
  | none =>
    refine iff_of_true rfl ?_
    by_contra hin
    obtain ⟨m, hm, hfits⟩ := exists_fits_of_inRange hin
    obtain ⟨c, hsome⟩ := nearest?_of_fits hd hs (Nat.zero_le s) (by simpa using hm) hfits
    rw [hc] at hsome
    cases hsome

theorem add?_eq_none_iff (a b : Decimal) : a.add? b = none ↔ OutOfRange (a.toRat + b.toRat) := by
  by_cases ha : a.IsZero
  · rw [add?, if_pos ha, isZero_iff_toRat.mp ha, zero_add]
    simp [b.inRange]
  by_cases hb : b.IsZero
  · rw [add?, if_neg ha, if_pos hb, isZero_iff_toRat.mp hb, add_zero]
    simp [a.inRange]
  · rw [add?, if_neg ha, if_neg hb, add_toRat]
    exact nearest?_eq_none_iff (tenTo_pos _) (max_le a.scale_le b.scale_le)

/-- The products that are taken for zero without being computed are in range. -/
theorem mul?_eq_none_iff (a b : Decimal) : a.mul? b = none ↔ OutOfRange (a.toRat * b.toRat) := by
  cases hc : a.mul? b with
  | some c =>
    obtain ⟨d, hd, _⟩ := mul?_roundsTo hc
    simp [inRange_of_isRounded hd.rounded]
  | none =>
    refine iff_of_true rfl ?_
    by_contra hin
    obtain ⟨m, hm, hfits⟩ := exists_fits_of_inRange hin
    obtain ⟨c, hsome⟩ := mul?_of_fits hm hfits
    rw [hc] at hsome
    cases hsome

end Decimal

end TrailingYear
