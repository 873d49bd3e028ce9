import TrailingYear.Report
import TrailingYear.Proofs.Decimal.Nearest

/-! # The bars of a report

A bar is rounded three times: its share of the maximum, the share of the width, and the
length itself. Each rounding keeps the order and leaves what needs none, and so does the
length. The first two keep so many places that the length is less than one mark away from the
exact share of the width. -/

namespace TrailingYear

open Decimal (RoundsTo roundsTo_self maxScale capacity)

theorem Decimal.isRounded_toInt (d : Decimal) : IsRounded d.toRat d.toInt := by
  have h := isRounded_roundDiv d.mantissa (tenTo_pos d.scale)
  rwa [cast_tenTo, ← Decimal.toRat_eq] at h

theorem Decimal.ofNat?_fits {n : ℕ} (h : n < capacity) :
    ∃ d, Decimal.ofNat? n = some d ∧ d.toRat = n ∧ d.scale = 0 := by
  obtain ⟨d, hd, hm, hs⟩ := ofParts?_fits (m := n) (s := 0) (by simpa using h) (by decide)
  refine ⟨d, hd, ?_, hs⟩
  rw [toRat_eq, hm, hs]
  simp

namespace Report

def share (total maximum : Decimal) : Decimal := min ((total.div? maximum).getD .one) .one

theorem isRounded_one : IsRounded (1 * 10 ^ maxScale) (10 ^ maxScale : ℤ) := by
  have h := IsRounded.intCast (10 ^ maxScale : ℤ)
  rw [one_mul]
  exact_mod_cast h

/-- A part of the whole has all its places, and more than the whole counts as the whole. -/
theorem share_roundsTo {total maximum : Decimal} (ht : 0 < total.toRat) (hm : 0 < maximum.toRat) :
    RoundsTo maxScale (min (total.toRat / maximum.toRat) 1) (share total maximum).toRat ∧
      (total.toRat ≤ maximum.toRat → (share total maximum).scale = maxScale) := by
  have hmz : ¬ maximum.IsZero := by
    rw [Decimal.isZero_iff_toRat]
    exact hm.ne'
  have hone := roundsTo_self .one (Nat.zero_le maxScale) le_rfl
  rw [Decimal.toRat_one] at hone
  have hpos : 0 ≤ total.toRat / maximum.toRat := (div_pos ht hm).le
  rcases le_or_gt total.toRat maximum.toRat with hle | hgt
  · have hratio : total.toRat / maximum.toRat ≤ 1 := (div_le_one hm).mpr hle
    obtain ⟨n, hn⟩ := exists_isRounded (total.toRat / maximum.toRat * 10 ^ maxScale)
    have hfits : n.natAbs < capacity := by
      have hlo : 0 ≤ n := hn.nonneg (by positivity)
      have hhi : n ≤ 10 ^ maxScale := hn.mono isRounded_one (by gcongr)
      have hcap : (10 ^ maxScale : ℤ) < capacity := by norm_num
      omega
    obtain ⟨q, hq, hscale⟩ := Decimal.div?_of_fits hmz hn hfits
    have hround : RoundsTo maxScale (total.toRat / maximum.toRat) q.toRat :=
      ⟨q, Decimal.isNearest_of_div? hq, rfl⟩
    have hq1 : q ≤ .one := by
      rw [Decimal.le_iff_toRat, Decimal.toRat_one]
      exact hround.mono hone hpos hratio
    have hshare : share total maximum = q := by
      rw [share, hq, Option.getD_some]
      exact if_pos hq1
    rw [hshare, min_eq_left hratio]
    exact ⟨hround, fun _ => hscale⟩
  · have hratio : 1 ≤ total.toRat / maximum.toRat := (one_le_div hm).mpr hgt.le
    have hshare : (share total maximum).toRat = 1 := by
      cases hd : total.div? maximum with
      | none =>
        rw [share, hd, Option.getD_none]
        exact (congrArg _ (ite_self _)).trans Decimal.toRat_one
      | some q =>
        have hround : RoundsTo maxScale (total.toRat / maximum.toRat) q.toRat :=
          ⟨q, Decimal.isNearest_of_div? hd, rfl⟩
        have hq := hone.mono hround zero_le_one hratio
        rw [share, hd, Option.getD_some]
        change (if q ≤ .one then q else .one).toRat = 1
        split
        · have hle := Decimal.le_iff_toRat.mp ‹q ≤ .one›
          rw [Decimal.toRat_one] at hle
          exact le_antisymm hle hq
        · exact Decimal.toRat_one
    rw [hshare, min_eq_right hratio]
    exact ⟨hone, fun h => absurd h (not_le.mpr hgt)⟩

/-- The steps to the length of a bar: the maximum is no divisor of zero, the share of the width
has a decimal, and the length is the nearest integer to that. -/
structure IsComputed (total maximum : Decimal) (width : ℕ) (part : Decimal) : Prop where
  divisor : ¬ maximum.IsZero
  product : ∃ w, Decimal.ofNat? width = some w ∧ (share total maximum).mul? w = some part
  length : (barLength total maximum width : ℤ) = part.toInt

theorem share_bounds {total maximum : Decimal} (ht : 0 < total.toRat) (hm : 0 < maximum.toRat) :
    0 ≤ (share total maximum).toRat ∧ (share total maximum).toRat ≤ 1 := by
  have hround := (share_roundsTo ht hm).1
  have hone := roundsTo_self .one (Nat.zero_le maxScale) le_rfl
  rw [Decimal.toRat_one] at hone
  have hx : 0 ≤ min (total.toRat / maximum.toRat) 1 := le_min (div_pos ht hm).le zero_le_one
  exact ⟨hround.nonneg hx, hround.mono hone hx (min_le_right ..)⟩

theorem isComputed_barLength {total maximum : Decimal} {width : ℕ} (ht : 0 < total.toRat)
    (hm : 0 < maximum.toRat) (hw : width < capacity) :
    ∃ part, IsComputed total maximum width part := by
  obtain ⟨hq0, hq1⟩ := share_bounds ht hm
  obtain ⟨w, hw', hwr, _⟩ := Decimal.ofNat?_fits hw
  have hle : (share total maximum).toRat * width ≤ width :=
    mul_le_of_le_one_left (by positivity) hq1
  obtain ⟨n, hn⟩ := exists_isRounded ((share total maximum).toRat * width)
  have hfits : n.natAbs < capacity := by
    have hlo : 0 ≤ n := hn.nonneg (by positivity)
    have hhi : n ≤ width := hn.mono (IsRounded.intCast width) (by exact_mod_cast hle)
    omega
  obtain ⟨part, hpart⟩ := Decimal.mul?_of_fits (a := share total maximum) (b := w)
    (by rw [hwr]; exact hn) hfits
  refine ⟨part, ?_, ⟨w, hw', hpart⟩, ?_⟩
  · rw [Decimal.isZero_iff_toRat]
    exact hm.ne'
  · have hround := Decimal.mul?_roundsTo hpart
    rw [hwr] at hround
    have hnonneg : 0 ≤ part.toInt :=
      (Decimal.isRounded_toInt part).nonneg (hround.nonneg (by positivity))
    have hbar : barLength total maximum width = part.toInt.toNat := by
      unfold barLength
      rw [if_pos ⟨Decimal.isPositive_iff_toRat.mpr ht, Decimal.isPositive_iff_toRat.mpr hm⟩]
      dsimp only
      rw [hw']
      change (((share total maximum).mul? w).getD .zero).toInt.toNat = _
      rw [hpart, Option.getD_some]
    rw [hbar, Int.toNat_of_nonneg hnonneg]

structure IsBar (total maximum : Decimal) (width length : ℕ) (q v : ℚ) : Prop where
  share : RoundsTo maxScale (min (total.toRat / maximum.toRat) 1) q
  part : RoundsTo maxScale (q * width) v
  length : IsRounded v length

theorem isBar_barLength {total maximum : Decimal} {width : ℕ} (ht : 0 < total.toRat)
    (hm : 0 < maximum.toRat) (hw : width < capacity) :
    ∃ q v, IsBar total maximum width (barLength total maximum width) q v := by
  obtain ⟨hshare, hscale⟩ := share_roundsTo ht hm
  obtain ⟨part, _, ⟨w, hw', hpart⟩, hlength⟩ := isComputed_barLength ht hm hw
  obtain ⟨_, hwsome, hwr, hws⟩ := Decimal.ofNat?_fits hw
  cases hwsome.symm.trans hw'
  have hround := Decimal.mul?_roundsTo hpart
  rw [hwr, hws, Nat.add_zero, min_eq_left (share total maximum).scale_le] at hround
  refine ⟨_, part.toRat, hshare, ?_, ?_⟩
  · -- where the share has fewer places it is the whole, and the whole width needs no rounding
    rcases le_or_gt total.toRat maximum.toRat with hle | hgt
    · rwa [hscale hle] at hround
    · have hmin : min (total.toRat / maximum.toRat) 1 = Decimal.one.toRat := by
        rw [Decimal.toRat_one, min_eq_right ((one_le_div hm).mpr hgt.le)]
      have hwhole : (share total maximum).toRat = 1 := by
        rw [hmin] at hshare
        rw [hshare.eq_of_scale_le (Nat.zero_le _), Decimal.toRat_one]
      have hself := roundsTo_self w (hws.trans_le (Nat.zero_le maxScale)) le_rfl
      rw [hwhole, one_mul, ← hwr] at hround ⊢
      rwa [hround.eq_of_scale_le (hws.trans_le (Nat.zero_le _))]
  · have h := Decimal.isRounded_toInt part
    rw [← hlength] at h
    exact_mod_cast h

namespace IsBar

variable {total total' maximum maximum' : Decimal} {width width' length length' : ℕ} {q q' v v' : ℚ}

theorem share_nonneg (h : IsBar total maximum width length q v) (ht : 0 < total.toRat)
    (hm : 0 < maximum.toRat) : 0 ≤ q :=
  h.share.nonneg (le_min (div_pos ht hm).le zero_le_one)

theorem share_le_one (h : IsBar total maximum width length q v) (ht : 0 < total.toRat)
    (hm : 0 < maximum.toRat) : q ≤ 1 := by
  have hone := roundsTo_self .one (Nat.zero_le maxScale) le_rfl
  rw [Decimal.toRat_one] at hone
  exact h.share.mono hone (le_min (div_pos ht hm).le zero_le_one) (min_le_right ..)

/-- A larger part of the maximum never has the shorter bar in the same or a larger width. -/
theorem length_mono (h : IsBar total maximum width length q v)
    (h' : IsBar total' maximum' width' length' q' v') (ht : 0 < total.toRat)
    (hm : 0 < maximum.toRat) (hle : total.toRat / maximum.toRat ≤ total'.toRat / maximum'.toRat)
    (hw : width ≤ width') :
    length ≤ length' := by
  have hshare : q ≤ q' := by
    apply h.share.mono h'.share (le_min (div_pos ht hm).le zero_le_one)
    gcongr
  have hq := h.share_nonneg ht hm
  have hpart : v ≤ v' := by
    apply h.part.mono h'.part (by positivity)
    gcongr
    exact hq.trans hshare
  have hlength := h.length.mono h'.length hpart
  exact_mod_cast hlength

/-- The share is off by half a unit of its last place at most, and the part of a width that is a
machine word keeps nine places at least. -/
theorem length_near (h : IsBar total maximum width length q v) (ht : 0 < total.toRat)
    (hm : 0 < maximum.toRat) (hle : total.toRat ≤ maximum.toRat) (hw : width < 2 ^ 64) :
    |(length : ℚ) - width * total.toRat / maximum.toRat| < 1 := by
  have hx : 0 ≤ total.toRat / maximum.toRat := (div_pos ht hm).le
  have hx1 : total.toRat / maximum.toRat ≤ 1 := (div_le_one hm).mpr hle
  have hwidth : (width : ℚ) ≤ 2 ^ 64 := by exact_mod_cast hw.le
  have hq := h.share_nonneg ht hm
  have hq1 := h.share_le_one ht hm
  have hround : RoundsTo maxScale (total.toRat / maximum.toRat) q := by
    have hshare := h.share
    rwa [min_eq_left hx1] at hshare
  have hshare : |q - total.toRat / maximum.toRat| ≤ 1 / 2 / 10 ^ maxScale := by
    apply hround.abs_sub_le hx le_rfl
    calc total.toRat / maximum.toRat * 10 ^ maxScale
        ≤ 1 * 10 ^ maxScale := by gcongr
      _ ≤ (capacity : ℚ) - 1 := by norm_num
  have hpart : |v - q * width| ≤ 1 / 2 / 10 ^ 9 := by
    apply h.part.abs_sub_le (by positivity) (by decide)
    calc q * width * 10 ^ 9
        ≤ 1 * 2 ^ 64 * 10 ^ 9 := by gcongr
      _ ≤ (capacity : ℚ) - 1 := by norm_num
  have hscaled : |q * width - width * total.toRat / maximum.toRat| ≤
      1 / 2 / 10 ^ maxScale * 2 ^ 64 := by
    have hfactor : q * width - width * total.toRat / maximum.toRat =
        (q - total.toRat / maximum.toRat) * width := by ring
    rw [hfactor, abs_mul, Nat.abs_cast]
    gcongr
  have hlength : |(length : ℚ) - v| ≤ 1 / 2 := by
    have hnear := h.length.1
    rwa [abs_sub_comm, Int.cast_natCast] at hnear
  calc |(length : ℚ) - width * total.toRat / maximum.toRat|
      ≤ |(length : ℚ) - v| + |v - width * total.toRat / maximum.toRat| := abs_sub_le ..
    _ ≤
      |(length : ℚ) - v| +
        (|v - q * width| + |q * width - width * total.toRat / maximum.toRat|) := by
        gcongr
        exact abs_sub_le ..
    _ ≤ 1 / 2 + (1 / 2 / 10 ^ 9 + 1 / 2 / 10 ^ maxScale * 2 ^ 64) := by gcongr
    _ < 1 := by norm_num

/-- A total that is not below the maximum has the whole width. -/
theorem length_eq_width (h : IsBar total maximum width length q v) (hm : 0 < maximum.toRat)
    (hle : maximum.toRat ≤ total.toRat) (hw : width < capacity) : length = width := by
  obtain ⟨w, _, hwr, hws⟩ := Decimal.ofNat?_fits hw
  have hq : q = 1 := by
    have hshare := h.share
    rw [min_eq_right ((one_le_div hm).mpr hle), ← Decimal.toRat_one] at hshare
    rw [hshare.eq_of_scale_le (Nat.zero_le _), Decimal.toRat_one]
  have hv : v = width := by
    have hpart := h.part
    rw [hq, one_mul, ← hwr] at hpart
    rw [hpart.eq_of_scale_le (hws.trans_le (Nat.zero_le _)), hwr]
  have hlength := h.length
  rw [hv] at hlength
  exact_mod_cast hlength.unique (IsRounded.intCast width)

end IsBar

/-- Nothing is shown for a total or a maximum that is not positive. -/
theorem barLength_of_nonpos {total maximum : Decimal} (width : ℕ)
    (h : total.toRat ≤ 0 ∨ maximum.toRat ≤ 0) : barLength total maximum width = 0 := by
  apply if_neg
  rw [Decimal.isPositive_iff_toRat, Decimal.isPositive_iff_toRat, not_and_or, not_lt, not_lt]
  exact h

/-- A width without a decimal shows nothing either. -/
theorem barLength_of_capacity_le {width : ℕ} (h : capacity ≤ width) (total maximum : Decimal) :
    barLength total maximum width = 0 := by
  have hw : Decimal.ofNat? width = none :=
    (Decimal.ofParts?_eq_none_iff (by decide)).mpr (by simpa using h)
  unfold barLength
  rw [hw]
  exact ite_self _

theorem barLength_mono {total total' : Decimal} (maximum : Decimal) (width : ℕ)
    (h : total.toRat ≤ total'.toRat) :
    barLength total maximum width ≤ barLength total' maximum width := by
  rcases le_or_gt total.toRat 0 with ht | ht
  · rw [barLength_of_nonpos width (Or.inl ht)]
    exact Nat.zero_le _
  rcases le_or_gt maximum.toRat 0 with hm | hm
  · rw [barLength_of_nonpos width (Or.inr hm)]
    exact Nat.zero_le _
  rcases le_or_gt capacity width with hw | hw
  · rw [barLength_of_capacity_le hw]
    exact Nat.zero_le _
  obtain ⟨q, v, hb⟩ := isBar_barLength ht hm hw
  obtain ⟨q', v', hb'⟩ := isBar_barLength (ht.trans_le h) hm hw
  exact hb.length_mono hb' ht hm (by gcongr) le_rfl

/-- A larger maximum never gives the longer bar. -/
theorem barLength_anti (total : Decimal) {maximum maximum' : Decimal} (width : ℕ)
    (hm : 0 < maximum.toRat) (h : maximum.toRat ≤ maximum'.toRat) :
    barLength total maximum' width ≤ barLength total maximum width := by
  rcases le_or_gt total.toRat 0 with ht | ht
  · rw [barLength_of_nonpos width (Or.inl ht)]
    exact Nat.zero_le _
  rcases le_or_gt capacity width with hw | hw
  · rw [barLength_of_capacity_le hw]
    exact Nat.zero_le _
  obtain ⟨q, v, hb⟩ := isBar_barLength ht (hm.trans_le h) hw
  obtain ⟨q', v', hb'⟩ := isBar_barLength ht hm hw
  exact hb.length_mono hb' ht (hm.trans_le h) (by gcongr) le_rfl

/-- A larger width never gives the shorter bar, as long as it has a decimal. -/
theorem barLength_width_mono (total maximum : Decimal) {width width' : ℕ} (h : width ≤ width')
    (hw : width' < capacity) : barLength total maximum width ≤ barLength total maximum width' := by
  rcases le_or_gt total.toRat 0 with ht | ht
  · rw [barLength_of_nonpos width (Or.inl ht)]
    exact Nat.zero_le _
  rcases le_or_gt maximum.toRat 0 with hm | hm
  · rw [barLength_of_nonpos width (Or.inr hm)]
    exact Nat.zero_le _
  obtain ⟨q, v, hb⟩ := isBar_barLength ht hm (h.trans_lt hw)
  obtain ⟨q', v', hb'⟩ := isBar_barLength ht hm hw
  exact hb.length_mono hb' ht hm le_rfl h

theorem barLength_eq_width {total maximum : Decimal} {width : ℕ} (hm : 0 < maximum.toRat)
    (h : maximum.toRat ≤ total.toRat) (hw : width < capacity) :
    barLength total maximum width = width := by
  obtain ⟨q, v, hb⟩ := isBar_barLength (hm.trans_le h) hm hw
  exact hb.length_eq_width hm h hw

/-- No bar is longer than that of the maximum itself. -/
theorem barLength_le_width (total maximum : Decimal) (width : ℕ) :
    barLength total maximum width ≤ width := by
  rcases le_or_gt maximum.toRat 0 with hm | hm
  · rw [barLength_of_nonpos width (Or.inr hm)]
    exact Nat.zero_le _
  rcases le_or_gt capacity width with hw | hw
  · rw [barLength_of_capacity_le hw]
    exact Nat.zero_le _
  rcases le_total total.toRat maximum.toRat with hle | hle
  · calc barLength total maximum width
        ≤ barLength maximum maximum width := barLength_mono maximum width hle
      _ = width := barLength_eq_width hm le_rfl hw
  · rw [barLength_eq_width hm hle hw]

/-- What the bar of a total shows in a chart that gives `width` marks to `maximum`. Where there is
something to show, none of the steps to its length fails. -/
structure Scales (total maximum : Decimal) (width : ℕ) : Prop where
  computed : 0 < total.toRat → 0 < maximum.toRat → ∃ part, IsComputed total maximum width part
  le_width : barLength total maximum width ≤ width
  hidden : total.toRat ≤ 0 ∨ maximum.toRat ≤ 0 → barLength total maximum width = 0
  whole : 0 < maximum.toRat → maximum.toRat ≤ total.toRat → barLength total maximum width = width
  near : 0 < total.toRat → total.toRat ≤ maximum.toRat →
    |(barLength total maximum width : ℚ) - width * total.toRat / maximum.toRat| < 1
  total_mono : ∀ total' : Decimal, total.toRat ≤ total'.toRat →
    barLength total maximum width ≤ barLength total' maximum width
  width_mono : ∀ width', width ≤ width' → width' < 2 ^ 64 →
    barLength total maximum width ≤ barLength total maximum width'
  maximum_anti : ∀ maximum' : Decimal, 0 < maximum.toRat → maximum.toRat ≤ maximum'.toRat →
    barLength total maximum' width ≤ barLength total maximum width

/-- Every bar is to scale whose width is a machine word. -/
theorem bars_to_scale (total maximum : Decimal) {width : ℕ} (hw : width < 2 ^ 64) :
    Scales total maximum width := by
  have hword : ∀ {w : ℕ}, w < 2 ^ 64 → w < capacity := fun h => h.trans (by decide)
  constructor
  · intro ht hm
    exact isComputed_barLength ht hm (hword hw)
  · exact barLength_le_width total maximum width
  · exact barLength_of_nonpos width
  · intro hm h
    exact barLength_eq_width hm h (hword hw)
  · intro ht h
    obtain ⟨q, v, hb⟩ := isBar_barLength ht (ht.trans_le h) (hword hw)
    exact hb.length_near ht (ht.trans_le h) h hw
  · intro total' h
    exact barLength_mono maximum width h
  · intro width' h hw'
    exact barLength_width_mono total maximum h (hword hw')
  · intro maximum' hm h
    exact barLength_anti total width hm h

/-- A third of the greatest width. -/
theorem bars_to_scale_third :
    2 ^ 64 - 1 < 2 ^ 64 ∧ barLength .one (.ofParts 3 0) (2 ^ 64 - 1) = (2 ^ 64 - 1) / 3 ∧
      Scales .one (.ofParts 3 0) (2 ^ 64 - 1) :=
  ⟨by decide, by decide +kernel, bars_to_scale .one (.ofParts 3 0) (by decide)⟩

end Report
end TrailingYear
