import TrailingYear.MonthlySeries
import TrailingYear.Proofs.FirstFailure
import Mathlib.Data.List.Nodup

/-! # Months in order

All months are counted in one order, and the first days of months are ordered as the months are. The
window of an anchor is the twelve months that end with its own; it fails only where it would begin
before the calendar does. -/

namespace TrailingYear

namespace Date

theorem month_bounds (d : Date) : 1 ≤ d.month ∧ d.month ≤ 12 := d.valid.2.1

theorem day_bounds (d : Date) : 1 ≤ d.day ∧ d.day ≤ 31 := by
  have := monthLength_bounds d.year d.month
  exact ⟨d.valid.2.2.1, Nat.le_trans d.valid.2.2.2 this.2⟩

theorem eq_of_parts {a b : Date} (hy : a.year = b.year) (hm : a.month = b.month)
    (hd : a.day = b.day) : a = b := by
  cases a
  cases b
  simp_all

theorem eq_of_rank {a b : Date} (h : a.rank = b.rank) : a = b := by
  have ha := a.month_bounds
  have hb := b.month_bounds
  have ha' := a.day_bounds
  have hb' := b.day_bounds
  unfold rank monthIndex at h
  apply eq_of_parts <;> omega

theorem lt_irrefl (d : Date) : ¬ d < d := fun h => absurd h (Int.lt_irrefl d.rank)

theorem lt_trans {a b c : Date} (h : a < b) (k : b < c) : a < c := Int.lt_trans h k

theorem lt_trichotomy (a b : Date) : a < b ∨ a = b ∨ b < a := by
  rcases Int.lt_trichotomy a.rank b.rank with h | h | h
  · exact Or.inl h
  · exact Or.inr (Or.inl (eq_of_rank h))
  · exact Or.inr (Or.inr h)

theorem nodup_of_ordered {ds : List Date} (h : ds.Pairwise (· < ·)) : ds.Nodup := by
  refine h.imp ?_
  rintro a b hab rfl
  exact lt_irrefl a hab

@[simp] theorem monthIndex_firstOfMonth (d : Date) : d.firstOfMonth.monthIndex = d.monthIndex := rfl
@[simp] theorem day_firstOfMonth (d : Date) : d.firstOfMonth.day = 1 := rfl
@[simp] theorem firstOfMonth_firstOfMonth (d : Date) :
    d.firstOfMonth.firstOfMonth = d.firstOfMonth := rfl

theorem firstOfMonth_of_day {d : Date} (h : d.day = 1) : d.firstOfMonth = d :=
  eq_of_parts rfl rfl h.symm

theorem firstOfMonth_eq_iff {a b : Date} :
    a.firstOfMonth = b.firstOfMonth ↔ a.monthIndex = b.monthIndex := by
  constructor
  · intro h
    rw [← monthIndex_firstOfMonth a, h, monthIndex_firstOfMonth]
  · intro h
    apply eq_of_rank
    simp [rank, h]

theorem firstOfMonth_le_iff {a b : Date} :
    a.firstOfMonth ≤ b.firstOfMonth ↔ a.monthIndex ≤ b.monthIndex := by
  change 31 * a.monthIndex + 1 ≤ 31 * b.monthIndex + 1 ↔ _
  omega

theorem monthIndex_bounds (d : Date) :
    12 * firstYear ≤ d.monthIndex ∧ d.monthIndex < 12 * (lastYear + 1) := by
  have := d.valid.1
  have := d.month_bounds
  unfold monthIndex
  omega

/-- A month is reached exactly if it is one of the calendar. -/
theorem inMonth?_of_calendar (d : Date) {index : Int}
    (h : 12 * firstYear ≤ index ∧ index < 12 * (lastYear + 1)) :
    ∃ e, d.inMonth? index = some e ∧ e.monthIndex = index ∧
      e.day = min d.day (monthLength e.year e.month) := by
  have hy : firstYear ≤ index / 12 ∧ index / 12 ≤ lastYear := by omega
  refine ⟨_, dif_pos hy, ?_, rfl⟩
  simp only [monthIndex]
  omega

theorem inMonth?_of_outside (d : Date) {index : Int}
    (h : ¬ (12 * firstYear ≤ index ∧ index < 12 * (lastYear + 1))) : d.inMonth? index = none := by
  have hy : ¬ (firstYear ≤ index / 12 ∧ index / 12 ≤ lastYear) := by omega
  exact dif_neg hy

def HasWindow (anchor : Date) : Prop := 12 * firstYear ≤ anchor.monthIndex - 11

/-- The month of a day is one of the twelve that end with that of `anchor`. -/
def InWindow (anchor d : Date) : Prop :=
  anchor.monthIndex - 11 ≤ d.monthIndex ∧ d.monthIndex ≤ anchor.monthIndex

instance (anchor : Date) : Decidable anchor.HasWindow := inferInstanceAs (Decidable (_ ≤ _))
instance (anchor d : Date) : Decidable (anchor.InWindow d) := inferInstanceAs (Decidable (_ ∧ _))

theorem inWindow_congr {anchor a b : Date} (h : a.firstOfMonth = b.firstOfMonth) :
    anchor.InWindow a ↔ anchor.InWindow b := by
  unfold InWindow
  rw [firstOfMonth_eq_iff.mp h]

theorem shiftMonths_firstOfMonth {d : Date} {months : Int}
    (h : 12 * firstYear ≤ d.monthIndex + months ∧ d.monthIndex + months < 12 * (lastYear + 1))
    (hd : d.day = 1) :
    ∃ e, d.shiftMonths months = .ok e ∧ e.day = 1 ∧ e.monthIndex = d.monthIndex + months := by
  obtain ⟨e, he, hi, hday⟩ := inMonth?_of_calendar d h
  refine ⟨e, by simp [shiftMonths, he], ?_, hi⟩
  have := monthLength_bounds e.year e.month
  omega

theorem windowStart_ok {anchor : Date} (h : anchor.HasWindow) :
    ∃ start, anchor.windowStart = .ok start ∧ start.day = 1 ∧
      start.monthIndex = anchor.monthIndex - 11 := by
  have := anchor.monthIndex_bounds
  unfold HasWindow at h
  exact shiftMonths_firstOfMonth (d := anchor.firstOfMonth)
    (by simp only [monthIndex_firstOfMonth]; omega) rfl

theorem windowStart_error {anchor : Date} (h : ¬ anchor.HasWindow) :
    anchor.windowStart = .error (.monthOutOfRange anchor.firstOfMonth (-11)) := by
  have hn : anchor.firstOfMonth.inMonth? (anchor.firstOfMonth.monthIndex + -11) = none := by
    apply inMonth?_of_outside
    unfold HasWindow at h
    simp only [monthIndex_firstOfMonth]
    omega
  rw [windowStart, shiftMonths, hn]

/-- Twelve first days of months that follow each other, the last of them in the
month of `anchor`. -/
structure IsWindow (anchor : Date) (periods : List Date) : Prop where
  length : periods.length = windowMonths
  month : ∀ i (h : i < periods.length), periods[i].day = 1 ∧
    periods[i].monthIndex = anchor.monthIndex - 11 + i

theorem windowPeriods_ok {anchor : Date} (h : anchor.HasWindow) :
    ∃ periods, anchor.windowPeriods = .ok periods ∧ IsWindow anchor periods := by
  obtain ⟨start, hs, hd, hm⟩ := windowStart_ok h
  have hb := anchor.monthIndex_bounds
  unfold HasWindow at h
  obtain ⟨periods, hp, hall⟩ := mapM_ok (f := fun i : Nat => start.shiftMonths i)
    (P := fun i e => e.day = 1 ∧ e.monthIndex = start.monthIndex + i)
    (List.range windowMonths) (by
      intro i hi
      have hi : i < 12 := List.mem_range.mp hi
      exact shiftMonths_firstOfMonth (by omega) hd)
  refine ⟨periods, ?_, ?_⟩
  · rw [windowPeriods, hs]
    exact hp
  · have hl : periods.length = windowMonths := by
      rw [← hall.length_eq, List.length_range]
    refine ⟨hl, ?_⟩
    intro i hi
    have hg := hall.get (i := i) (by rw [List.length_range]; omega) hi
    simp only [List.get_eq_getElem, List.getElem_range] at hg
    rw [← hm]
    exact hg

namespace IsWindow

variable {anchor : Date} {periods : List Date}

theorem ordered (h : IsWindow anchor periods) : periods.Pairwise (· < ·) := by
  rw [List.pairwise_iff_getElem]
  intro i j hi hj hij
  have hpi := h.month i hi
  have hpj := h.month j hj
  change rank _ < rank _
  unfold rank
  omega

theorem begins (h : IsWindow anchor periods) {p : Date} (hp : p ∈ periods) :
    p.firstOfMonth = p := by
  obtain ⟨i, hi, rfl⟩ := List.getElem_of_mem hp
  exact firstOfMonth_of_day (h.month i hi).1

theorem start_le (h : IsWindow anchor periods) {start p : Date} (hd : start.day = 1)
    (hm : start.monthIndex = anchor.monthIndex - 11) (hp : p ∈ periods) : start ≤ p := by
  obtain ⟨i, hi, rfl⟩ := List.getElem_of_mem hp
  have hpi := h.month i hi
  change rank _ ≤ rank _
  unfold rank
  omega

/-- No month between the two ends of the window is left out. -/
theorem mem_iff (h : IsWindow anchor periods) (d : Date) :
    d.firstOfMonth ∈ periods ↔ anchor.InWindow d := by
  have hl : periods.length = 12 := h.length
  constructor
  · intro hd
    obtain ⟨i, hi, he⟩ := List.getElem_of_mem hd
    have hm := (h.month i hi).2
    rw [he, monthIndex_firstOfMonth] at hm
    unfold InWindow
    omega
  · rintro ⟨hlo, hhi⟩
    obtain ⟨i, hi⟩ :=
      Int.eq_ofNat_of_zero_le (a := d.monthIndex - (anchor.monthIndex - 11)) (by omega)
    have hlt : i < periods.length := by omega
    have hm := h.month i hlt
    have he : d.firstOfMonth = periods[i] := by
      apply eq_of_rank
      simp only [rank, monthIndex_firstOfMonth, day_firstOfMonth, hm.1]
      omega
    rw [he]
    exact List.getElem_mem hlt

theorem unique {periods' : List Date} (h : IsWindow anchor periods)
    (h' : IsWindow anchor periods') :
    periods = periods' := by
  apply List.ext_getElem (h.length.trans h'.length.symm)
  intro i hi hi'
  apply eq_of_rank
  have hm := h.month i hi
  have hm' := h'.month i hi'
  unfold rank
  omega

end IsWindow
end Date

/-! ## Moving by months

A date is moved along the order of all months. Its day stays, or becomes the last of a month
that is too short for it. Moving keeps the order of dates, and it can be undone where no
month is too short. -/

namespace Date

def IsMonthIndex (index : Int) : Prop :=
  ∃ (year : Int) (month : Nat), (firstYear ≤ year ∧ year ≤ lastYear) ∧ (1 ≤ month ∧ month ≤ 12) ∧
    index = 12 * year + month - 1

theorem isMonthIndex_iff {index : Int} :
    IsMonthIndex index ↔ 12 * firstYear ≤ index ∧ index < 12 * (lastYear + 1) := by
  constructor
  · rintro ⟨year, month, hyear, hmonth, rfl⟩
    omega
  · intro h
    exact ⟨index / 12, (index % 12).toNat + 1, by omega, by omega, by omega⟩

theorem isMonthIndex_monthIndex (d : Date) : IsMonthIndex d.monthIndex :=
  ⟨d.year, d.month, d.valid.1, d.month_bounds, rfl⟩

/-- Years and months are told from the numbers of months. -/
theorem month_of_monthIndex {a b : Date} (h : a.monthIndex = b.monthIndex) :
    a.year = b.year ∧ a.month = b.month := by
  have ha := a.month_bounds
  have hb := b.month_bounds
  simp only [monthIndex] at h
  omega

/-- The days of two dates decide between them only within a month. -/
theorem le_iff_monthIndex {a b : Date} :
    a ≤ b ↔ a.monthIndex < b.monthIndex ∨ a.monthIndex = b.monthIndex ∧ a.day ≤ b.day := by
  have ha := a.day_bounds
  have hb := b.day_bounds
  change 31 * a.monthIndex + a.day ≤ 31 * b.monthIndex + b.day ↔ _
  omega

theorem lt_of_monthIndex {a b : Date} (h : a.monthIndex < b.monthIndex) : a < b := by
  have ha := a.day_bounds
  have hb := b.day_bounds
  change 31 * a.monthIndex + a.day < 31 * b.monthIndex + b.day
  omega

structure IsShift (d : Date) (months : Int) (e : Date) : Prop where
  month : e.monthIndex = d.monthIndex + months
  day : e.day = min d.day (monthLength e.year e.month)

theorem IsShift.unique {d e e' : Date} {months : Int} (h : IsShift d months e)
    (h' : IsShift d months e') : e = e' := by
  obtain ⟨hyear, hmonth⟩ := month_of_monthIndex (h.month.trans h'.month.symm)
  refine eq_of_parts hyear hmonth ?_
  simp [h.day, h'.day, hyear, hmonth]

theorem exists_isShift {d : Date} {months : Int} (h : IsMonthIndex (d.monthIndex + months)) :
    ∃ e, d.shiftMonths months = .ok e ∧ IsShift d months e := by
  obtain ⟨e, he, hmonth, hday⟩ := inMonth?_of_calendar d (isMonthIndex_iff.mp h)
  exact ⟨e, by simp [shiftMonths, he], hmonth, hday⟩

theorem shiftMonths_outside {d : Date} {months : Int} (h : ¬ IsMonthIndex (d.monthIndex + months)) :
    d.shiftMonths months = .error (.monthOutOfRange d months) := by
  have hnone := inMonth?_of_outside d (mt isMonthIndex_iff.mpr h)
  simp [shiftMonths, hnone]

theorem shiftMonths_eq_ok_iff {d e : Date} {months : Int} :
    d.shiftMonths months = .ok e ↔ IsShift d months e := by
  constructor
  · intro h
    by_cases hin : IsMonthIndex (d.monthIndex + months)
    · obtain ⟨e', he', hshift⟩ := exists_isShift hin
      cases h.symm.trans he'
      exact hshift
    · cases h.symm.trans (shiftMonths_outside hin)
  · intro h
    obtain ⟨e', he', hshift⟩ := exists_isShift (h.month ▸ e.isMonthIndex_monthIndex)
    exact h.unique hshift ▸ he'

theorem exists_shiftMonths_iff {d : Date} {months : Int} :
    (∃ e, d.shiftMonths months = .ok e) ↔ IsMonthIndex (d.monthIndex + months) := by
  constructor
  · rintro ⟨e, he⟩
    exact (shiftMonths_eq_ok_iff.mp he).month ▸ e.isMonthIndex_monthIndex
  · intro h
    obtain ⟨e, he, _⟩ := exists_isShift h
    exact ⟨e, he⟩

namespace IsShift

variable {a b a' b' d e f : Date} {m n : Int}

theorem mono (ha : IsShift a m a') (hb : IsShift b m b') (h : a ≤ b) : a' ≤ b' := by
  have hamonth := ha.month
  have hbmonth := hb.month
  rcases le_iff_monthIndex.mp h with hlt | ⟨heq, hday⟩
  · exact le_iff_monthIndex.mpr (Or.inl (by omega))
  · -- both come into one month, which is as short for the one as for the other
    have hsame : a'.monthIndex = b'.monthIndex := by omega
    obtain ⟨hyear, hmonth⟩ := month_of_monthIndex hsame
    refine le_iff_monthIndex.mpr (Or.inr ⟨hsame, ?_⟩)
    have haday := ha.day
    have hbday := hb.day
    simp only [hyear, hmonth] at haday
    omega

theorem strictMono (he : IsShift d m e) (hf : IsShift d n f) (h : m < n) : e < f := by
  have hemonth := he.month
  have hfmonth := hf.month
  exact lt_of_monthIndex (by omega)

/-- No month is too short for the first twenty-eight days. -/
theorem day_eq (h : IsShift d m e) (hd : d.day ≤ 28) : e.day = d.day := by
  have hlength := monthLength_bounds e.year e.month
  have hday := h.day
  omega

theorem add (he : IsShift d m e) (hf : IsShift e n f) (hd : d.day ≤ 28) : IsShift d (m + n) f := by
  have hemonth := he.month
  have hfmonth := hf.month
  refine ⟨by omega, ?_⟩
  have hday := hf.day
  simpa only [he.day_eq hd] using hday

theorem neg (he : IsShift d m e) (hd : d.day ≤ 28) : IsShift e (-m) d := by
  have hemonth := he.month
  have hday := he.day_eq hd
  have hlength := monthLength_bounds d.year d.month
  exact ⟨by omega, by omega⟩

end IsShift

/-- A move by any number of months succeeds exactly where it stays in the calendar. It goes to the
month with that number, keeps the order of dates and of moves, and for the first twenty-eight days
of a month one move after another is a single move. -/
theorem shifts_by_index (d : Date) (months : Int) :
    ((∃ e, d.shiftMonths months = .ok e) ↔ IsMonthIndex (d.monthIndex + months)) ∧
    (∀ e, d.shiftMonths months = .ok e →
      e.monthIndex = d.monthIndex + months ∧ e.day = min d.day (monthLength e.year e.month)) ∧
    (∀ failure, d.shiftMonths months = .error failure ↔
      ¬ IsMonthIndex (d.monthIndex + months) ∧ failure = .monthOutOfRange d months) ∧
    (∀ later e f, d ≤ later → d.shiftMonths months = .ok e → later.shiftMonths months = .ok f →
      e ≤ f) ∧
    (∀ more e f, months < more → d.shiftMonths months = .ok e → d.shiftMonths more = .ok f →
      e < f) ∧
    (d.day ≤ 28 → ∀ e, d.shiftMonths months = .ok e →
      (∀ further f, e.shiftMonths further = .ok f → d.shiftMonths (months + further) = .ok f) ∧
      e.shiftMonths (-months) = .ok d) := by
  refine ⟨exists_shiftMonths_iff, ?_⟩
  simp only [shiftMonths_eq_ok_iff]
  refine ⟨fun e he => ⟨he.month, he.day⟩, ?_, ?_, ?_, ?_⟩
  · intro failure
    by_cases hin : IsMonthIndex (d.monthIndex + months)
    · obtain ⟨e, he⟩ := exists_shiftMonths_iff.mpr hin
      simp [he, hin]
    · simp [shiftMonths_outside hin, hin, eq_comm]
  · exact fun later e f h he hf => he.mono hf h
  · exact fun more e f h he hf => he.strictMono hf h
  · exact fun hd e he => ⟨fun further f hf => he.add hf hd, he.neg hd⟩

/-- A move out of the calendar, one that ends in a shorter month before one that starts later, and
one over the end of the year zero that is taken back. -/
theorem shifts_by_index_february :
    Date.shiftMonths ⟨2024, 1, 31, by decide⟩ (-2147483648) =
        .error (.monthOutOfRange ⟨2024, 1, 31, by decide⟩ (-2147483648)) ∧
      (⟨2024, 2, 29, by decide⟩ : Date) ≤ ⟨2024, 3, 1, by decide⟩ ∧
      (⟨2024, 2, 29, by decide⟩ : Date) < ⟨2024, 3, 31, by decide⟩ ∧
      Date.shiftMonths ⟨-1, 1, 28, by decide⟩ 13 = .ok ⟨0, 2, 28, by decide⟩ := by
  obtain ⟨_, _, hfails, _⟩ := shifts_by_index ⟨2024, 1, 31, by decide⟩ (-2147483648)
  obtain ⟨_, _, _, hmono, hstrict, _⟩ := shifts_by_index ⟨2024, 1, 31, by decide⟩ 1
  obtain ⟨_, _, _, _, _, hundone⟩ := shifts_by_index ⟨0, 2, 28, by decide⟩ (-13)
  refine ⟨(hfails _).mpr ⟨?_, rfl⟩, ?_, ?_, ?_⟩
  · rw [isMonthIndex_iff]
    decide
  · exact hmono ⟨2024, 2, 1, by decide⟩ _ _ (by decide) rfl rfl
  · exact hstrict 2 _ _ (by decide) rfl rfl
  · exact (hundone (by decide) ⟨-1, 1, 28, by decide⟩ rfl).2

end Date

/-! ## The months of a window

A window is known by its two ends. Its months follow each other without a gap from the
first day of the one to the first day of the other, and only the first of them can lie
before the calendar. -/

namespace Date

def firstAnchor : Date := ⟨firstYear, 12, 1, by decide⟩

theorem hasWindow_iff {anchor : Date} : anchor.HasWindow ↔ firstAnchor ≤ anchor := by
  have hday := anchor.day_bounds
  change 12 * firstYear ≤ anchor.monthIndex - 11 ↔
    31 * (12 * firstYear + 12 - 1) + 1 ≤ 31 * anchor.monthIndex + anchor.day
  omega

theorem exists_windowStart_iff {anchor : Date} :
    (∃ start, anchor.windowStart = .ok start) ↔ anchor.HasWindow := by
  by_cases hw : anchor.HasWindow
  · obtain ⟨start, hstart, -, -⟩ := windowStart_ok hw
    simp [hstart, hw]
  · simp [windowStart_error hw, hw]

theorem windowPeriods_error {anchor : Date} (hw : ¬ anchor.HasWindow) :
    anchor.windowPeriods = .error (.monthOutOfRange anchor.firstOfMonth (-11)) := by
  simp only [windowPeriods, windowStart_error hw]
  rfl

/-- With a first month in the calendar the others are in it as well. -/
theorem exists_windowPeriods_iff {anchor : Date} :
    (∃ periods, anchor.windowPeriods = .ok periods) ↔ anchor.HasWindow := by
  by_cases hw : anchor.HasWindow
  · obtain ⟨periods, hperiods, -⟩ := windowPeriods_ok hw
    simp [hperiods, hw]
  · simp [windowPeriods_error hw, hw]

theorem firstOfMonth_congr {a b : Date} (hyear : a.year = b.year) (hmonth : a.month = b.month) :
    a.firstOfMonth = b.firstOfMonth :=
  eq_of_parts hyear hmonth rfl

/-- Of an anchor only the month has a part in its window. -/
theorem windowStart_congr {a b : Date} (h : a.firstOfMonth = b.firstOfMonth) :
    a.windowStart = b.windowStart := by
  simp only [windowStart, h]

theorem windowPeriods_congr {a b : Date} (h : a.firstOfMonth = b.firstOfMonth) :
    a.windowPeriods = b.windowPeriods := by
  simp only [windowPeriods, windowStart_congr h]

structure Enumerates (anchor start : Date) (periods : List Date) : Prop where
  twelve : periods.length = windowMonths
  begins : ∀ p ∈ periods, p.firstOfMonth = p
  ordered : periods.Pairwise (· < ·)
  next : periods.IsChain fun p q => p.shiftMonths 1 = .ok q
  first : periods.head? = some start
  last : periods.getLast? = some anchor.firstOfMonth
  mem_iff : ∀ d : Date,
    start ≤ d.firstOfMonth ∧ d.firstOfMonth ≤ anchor.firstOfMonth ↔ d.firstOfMonth ∈ periods
  once : ∀ d : Date, d.firstOfMonth ∈ periods → periods.count d.firstOfMonth = 1

namespace IsWindow

variable {anchor start : Date} {periods : List Date}

theorem eq_of_month (h : IsWindow anchor periods) {i : ℕ} (hi : i < periods.length) {d : Date}
    (hd : d.day = 1) (hm : d.monthIndex = anchor.monthIndex - 11 + i) : periods[i] = d := by
  obtain ⟨hday, hmonth⟩ := h.month i hi
  apply eq_of_rank
  unfold rank
  omega

theorem next (h : IsWindow anchor periods) :
    periods.IsChain fun p q => p.shiftMonths 1 = .ok q := by
  rw [List.isChain_iff_getElem]
  intro i hi
  obtain ⟨hday, hmonth⟩ := h.month i (by omega)
  obtain ⟨hday', hmonth'⟩ := h.month (i + 1) hi
  have hlength := monthLength_bounds periods[i + 1].year periods[i + 1].month
  exact shiftMonths_eq_ok_iff.mpr ⟨by omega, by omega⟩

theorem first (h : IsWindow anchor periods) (hd : start.day = 1)
    (hm : start.monthIndex = anchor.monthIndex - 11) : periods.head? = some start := by
  have hlength : 0 < periods.length := by simp [h.length]
  have hget : periods[0] = start := h.eq_of_month hlength hd (by simp [hm])
  simp [List.head?_eq_getElem?, List.getElem?_eq_getElem hlength, hget]

theorem last (h : IsWindow anchor periods) : periods.getLast? = some anchor.firstOfMonth := by
  have hlength : 11 < periods.length := by simp [h.length]
  have hget : periods[11] = anchor.firstOfMonth := h.eq_of_month hlength rfl (by simp)
  simp [List.getLast?_eq_getElem?, h.length, hget]

theorem enumerates (h : IsWindow anchor periods) (hd : start.day = 1)
    (hm : start.monthIndex = anchor.monthIndex - 11) : Enumerates anchor start periods where
  twelve := h.length
  begins := fun _ => h.begins
  ordered := h.ordered
  next := h.next
  first := h.first hd hm
  last := h.last
  mem_iff := by
    intro d
    have hstart : start ≤ d.firstOfMonth ↔ start.monthIndex ≤ d.monthIndex := by
      rw [← firstOfMonth_le_iff, firstOfMonth_of_day hd]
    rw [hstart, firstOfMonth_le_iff, hm, h.mem_iff]
    rfl
  once := fun _ => List.count_eq_one_of_mem (nodup_of_ordered h.ordered)

end IsWindow

/-- The months of a window can be enumerated exactly if the first of them lies in the calendar,
which fails only for the first eleven months of all. They are then the twelve months from there to
that of the anchor, and another day of its month gives the same ones or the same failure. -/
theorem window_is_enumerated (anchor : Date) :
    ((∃ periods, anchor.windowPeriods = .ok periods) ↔ ∃ start, anchor.windowStart = .ok start) ∧
    ((∃ start, anchor.windowStart = .ok start) ↔ firstAnchor ≤ anchor) ∧
    (∀ start periods, anchor.windowStart = .ok start → anchor.windowPeriods = .ok periods →
      Enumerates anchor start periods) ∧
    ∀ other : Date, other.year = anchor.year → other.month = anchor.month →
      other.windowStart = anchor.windowStart ∧ other.windowPeriods = anchor.windowPeriods := by
  refine ⟨?_, ?_, ?_, ?_⟩
  · rw [exists_windowPeriods_iff, exists_windowStart_iff]
  · rw [exists_windowStart_iff, hasWindow_iff]
  · intro start periods hstart hperiods
    have hw : anchor.HasWindow := exists_windowStart_iff.mp ⟨start, hstart⟩
    obtain ⟨start', hstart', hday, hmonth⟩ := windowStart_ok hw
    obtain ⟨periods', hperiods', hwindow⟩ := windowPeriods_ok hw
    cases hstart.symm.trans hstart'
    cases hperiods.symm.trans hperiods'
    exact hwindow.enumerates hday hmonth
  · intro other hyear hmonth
    have hfirst := firstOfMonth_congr hyear hmonth
    exact ⟨windowStart_congr hfirst, windowPeriods_congr hfirst⟩

/-- The first year of the calendar is a window, and the last day of it the anchor. -/
theorem window_is_enumerated_first :
    ∃ periods, Date.windowPeriods ⟨-262143, 12, 31, by decide⟩ = .ok periods ∧
      Enumerates ⟨-262143, 12, 31, by decide⟩ ⟨-262143, 1, 1, by decide⟩ periods ∧
      firstAnchor.windowPeriods = .ok periods := by
  obtain ⟨hperiods, hstart, henumerates, hsame⟩ :=
    window_is_enumerated ⟨-262143, 12, 31, by decide⟩
  obtain ⟨periods, hread⟩ := hperiods.mpr (hstart.mpr (by decide))
  obtain ⟨-, hfirst⟩ := hsame firstAnchor rfl rfl
  exact ⟨periods, hread, henumerates _ _ rfl hread, hfirst.trans hread⟩

end Date

end TrailingYear
