import TrailingYear.Rates
import TrailingYear.Proofs.Import.Checks
import TrailingYear.Proofs.Text
import Mathlib.Data.List.Perm.Basic

/-! # The choice of the reporting currency

No code of a checked list stands for two currencies, so neither the order of the list nor a rate
in it has a part in the choice. -/

namespace TrailingYear

theorem find?_eq_of_perm {α : Type} {p : α → Bool} {xs ys : List α} (h : xs.Perm ys)
    (hu : ∀ a ∈ xs, ∀ b ∈ xs, p a → p b → a = b) : xs.find? p = ys.find? p := by
  cases hy : ys.find? p with
  | none =>
    rw [List.find?_eq_none] at hy ⊢
    intro a ha
    exact hy a (h.mem_iff.mp ha)
  | some b =>
    have hb : b ∈ xs := h.mem_iff.mpr (List.mem_of_find?_eq_some hy)
    have hpb : p b := List.find?_some hy
    cases hx : xs.find? p with
    | none => exact absurd hpb (List.find?_eq_none.mp hx b hb)
    | some a => rw [hu a (List.mem_of_find?_eq_some hx) b hb (List.find?_some hx) hpb]

theorem ReportingCurrency.sameCode_iff {a b : String} : sameCode a b ↔ SameLetters a b := by
  rw [sameCode, decide_eq_true_eq, map_toLower_eq_iff, SameLetters]

namespace CodesChecked

variable {currencies : List Currency}

theorem eq_of_code (h : CodesChecked currencies) {c d : Currency} (hc : c ∈ currencies)
    (hd : d ∈ currencies) (he : c.code = d.code) : c = d :=
  List.inj_on_of_nodup_map h.distinct hc hd he

/-- All codes are in capital letters, so equal but for the case means equal. -/
theorem eq_of_sameCode (h : CodesChecked currencies) {code : String} {c d : Currency}
    (hc : c ∈ currencies) (hd : d ∈ currencies) (hcs : ReportingCurrency.sameCode c.code code)
    (hds : ReportingCurrency.sameCode d.code code) : c = d := by
  have hupper : ∀ e ∈ currencies, ∀ letter ∈ e.code.toList, letter.isUpper := by
    intro e he
    have hform := h.form e he
    rw [Field.isCurrencyCode, Bool.and_eq_true, List.all_eq_true] at hform
    exact hform.2
  have hsame : ReportingCurrency.sameCode c.code d.code :=
    decide_eq_true ((of_decide_eq_true hcs).trans (of_decide_eq_true hds).symm)
  exact h.eq_of_code hc hd
    ((ReportingCurrency.sameCode_iff.mp hsame).eq_of_isUpper (hupper c hc) (hupper d hd))

/-- The rest of a currency is not checked here. -/
theorem codes {currencies' : List Currency}
    (hm : currencies.map (·.code) = currencies'.map (·.code)) :
    CodesChecked currencies ↔ CodesChecked currencies' := by
  have hform : ∀ cs : List Currency, (∀ c ∈ cs, Field.isCurrencyCode c.code.toList = true) ↔
      ∀ code ∈ cs.map (·.code), Field.isCurrencyCode code.toList = true := by
    simp
  constructor
  · intro h
    exact ⟨(hform _).mpr (hm ▸ (hform _).mp h.form), hm ▸ h.distinct⟩
  · intro h
    exact ⟨(hform _).mpr (hm ▸ (hform _).mp h.form), hm ▸ h.distinct⟩

theorem perm {currencies' : List Currency} (hp : currencies.Perm currencies') :
    CodesChecked currencies ↔ CodesChecked currencies' := by
  constructor
  · intro h
    exact ⟨fun c hc => h.form c (hp.mem_iff.mpr hc), (hp.map _).nodup_iff.mp h.distinct⟩
  · intro h
    exact ⟨fun c hc => h.form c (hp.mem_iff.mp hc), (hp.map _).nodup_iff.mpr h.distinct⟩

end CodesChecked

namespace ReportingCurrency

theorem find?_perm {currencies currencies' : List Currency} (h : CodesChecked currencies)
    (hp : currencies.Perm currencies') (code : Option String) :
    find? currencies code = find? currencies' code := by
  cases code with
  | none => rfl
  | some code => exact find?_eq_of_perm hp fun c hc d hd hcs hds => h.eq_of_sameCode hc hd hcs hds

theorem ofCodes_perm {currencies currencies' : List Currency} (h : CodesChecked currencies)
    (hp : currencies.Perm currencies') (marketing state : Option String) :
    ofCodes currencies marketing state = ofCodes currencies' marketing state := by
  rw [ofCodes, ofCodes, find?_perm h hp, find?_perm h hp]

def label (c : Currency) : String × String := (c.code, c.name)

theorem choose_congr {m m' s s' : Option Currency} (hm : m.map label = m'.map label)
    (hs : s.map label = s'.map label) : choose m s = choose m' s' := by
  cases m <;> cases m' <;> cases s <;> cases s' <;> simp_all [choose, label]

theorem find?_label {currencies currencies' : List Currency}
    (h : currencies.map label = currencies'.map label) (code : Option String) :
    (find? currencies code).map label = (find? currencies' code).map label := by
  cases code with
  | none => rfl
  | some code =>
    have hfind := congrArg (List.find? fun l : String × String => sameCode l.1 code) h
    rw [List.find?_map, List.find?_map] at hfind
    exact hfind

theorem ofCodes_label {currencies currencies' : List Currency}
    (h : currencies.map label = currencies'.map label) (marketing state : Option String) :
    ofCodes currencies marketing state = ofCodes currencies' marketing state :=
  choose_congr (find?_label h marketing) (find?_label h state)

def StandsFor (currencies : List Currency) (code : Option String) (c : Currency) : Prop :=
  c ∈ currencies ∧ ∃ text, code = some text ∧ SameLetters c.code text

def IsUnknown (currencies : List Currency) (code : Option String) : Prop :=
  ∀ c, ¬ StandsFor currencies code c

theorem standsFor_of_find? {currencies : List Currency} {code : Option String} {c : Currency}
    (h : find? currencies code = some c) : StandsFor currencies code c := by
  cases code with
  | none => cases h
  | some text =>
    have hsame := List.find?_some (p := fun c : Currency => sameCode c.code text) h
    exact ⟨List.mem_of_find?_eq_some h, text, rfl, sameCode_iff.mp hsame⟩

theorem find?_eq_none_iff {currencies : List Currency} {code : Option String} :
    find? currencies code = none ↔ IsUnknown currencies code := by
  constructor
  · rintro h c ⟨hc, text, rfl, hsame⟩
    exact List.find?_eq_none.mp h c hc (sameCode_iff.mpr hsame)
  · intro h
    cases hf : find? currencies code with
    | none => rfl
    | some c => exact absurd (standsFor_of_find? hf) (h c)

/-- Of a checked list the first currency that is found is the only one. -/
theorem find?_eq_some_iff {currencies : List Currency} (h : CodesChecked currencies)
    {code : Option String}
    {c : Currency} : find? currencies code = some c ↔ StandsFor currencies code c := by
  refine ⟨standsFor_of_find?, fun hc => ?_⟩
  cases hf : find? currencies code with
  | none => exact absurd hc (find?_eq_none_iff.mp hf c)
  | some d =>
    obtain ⟨hd, text, rfl, hdsame⟩ := standsFor_of_find? hf
    obtain ⟨hc, _, ⟨⟩, hcsame⟩ := hc
    rw [h.eq_of_sameCode hd hc (sameCode_iff.mpr hdsame) (sameCode_iff.mpr hcsame)]

/-- What two codes choose: the marketing currency if its code is known, then that of the state,
then the dollar. Beside the marketing currency that of the state is only named. -/
structure ChosenBy (currencies : List Currency) (marketing state : Option String)
    (r : ReportingCurrency) : Prop where
  by_marketing : ∀ m, StandsFor currencies marketing m → r.code = m.code ∧ r.rateField = .marketing
  both_named : ∀ m s, StandsFor currencies marketing m → StandsFor currencies state s →
    r.title = m.name ++ " > " ++ s.name
  one_named : ∀ m, StandsFor currencies marketing m → IsUnknown currencies state → r.title = m.name
  by_state : IsUnknown currencies marketing → ∀ s, StandsFor currencies state s →
    r = ⟨s.code, .state, s.name⟩
  by_default : IsUnknown currencies marketing → IsUnknown currencies state →
    r = ⟨"USD", .state, "Default Currency"⟩

theorem chosenBy_ofCodes {currencies : List Currency} (h : CodesChecked currencies)
    (marketing state : Option String) :
    ChosenBy currencies marketing state (ofCodes currencies marketing state) := by
  simp only [ofCodes]
  constructor
  · intro m hm
    rw [(find?_eq_some_iff h).mpr hm]
    cases find? currencies state <;> exact ⟨rfl, rfl⟩
  · intro m s hm hs
    rw [(find?_eq_some_iff h).mpr hm, (find?_eq_some_iff h).mpr hs]
    rfl
  · intro m hm hs
    rw [(find?_eq_some_iff h).mpr hm, find?_eq_none_iff.mpr hs]
    rfl
  · intro hm s hs
    rw [find?_eq_none_iff.mpr hm, (find?_eq_some_iff h).mpr hs]
    rfl
  · intro hm hs
    rw [find?_eq_none_iff.mpr hm, find?_eq_none_iff.mpr hs]
    rfl

inductive Reconfigured (currencies : List Currency) : Option String → Option String → Prop where
  | kept (code : Option String) : Reconfigured currencies code code
  | respelled {text text' : String} : SameLetters text text' →
      Reconfigured currencies (some text) (some text')
  | removed {text : String} : IsUnknown currencies (some text) →
      Reconfigured currencies (some text) none

theorem Reconfigured.find?_eq {currencies : List Currency} {code code' : Option String}
    (h : Reconfigured currencies code code') : find? currencies code' = find? currencies code := by
  cases h with
  | kept => rfl
  | @respelled text text' h =>
    have hsame := map_toLower_eq_iff.mpr h
    simp only [find?, Option.bind_some, sameCode, hsame]
  | removed h => exact (find?_eq_none_iff.mpr h).symm

/-- For a list that was read, a code stands for one currency or for none, and the choice is made
by what the two codes stand for. Neither the order of the list nor the case of a code has a part
in it, and an unknown code counts as none. -/
theorem currency_is_resolved {bytes : List UInt8} {currencies : List Currency}
    (h : Import.currencies bytes = .ok currencies) (marketing state : Option String) :
    (∀ code c, find? currencies code = some c ↔ StandsFor currencies code c) ∧
    (∀ code, (∃! c, StandsFor currencies code c) ∨ IsUnknown currencies code) ∧
    ChosenBy currencies marketing state (ofCodes currencies marketing state) ∧
    ∀ list marketing' state', currencies.Perm list → Reconfigured currencies marketing marketing' →
      Reconfigured currencies state state' →
      ofCodes list marketing' state' = ofCodes currencies marketing state := by
  have hchecked := Import.currencies_codes h
  refine ⟨fun _ _ => find?_eq_some_iff hchecked, ?_, chosenBy_ofCodes hchecked marketing state, ?_⟩
  · intro code
    cases hf : find? currencies code with
    | none => exact .inr (find?_eq_none_iff.mp hf)
    | some c =>
      refine .inl ⟨c, standsFor_of_find? hf, fun d hd => ?_⟩
      rw [(find?_eq_some_iff hchecked).mpr hd] at hf
      exact Option.some.inj hf
  · intro list marketing' state' hperm hmarketing hstate
    rw [← ofCodes_perm hchecked hperm, ofCodes, ofCodes, hmarketing.find?_eq, hstate.find?_eq]

/-- A code in small letters beside an unknown one, and the same without the unknown one for the
list in another order. -/
theorem currency_is_resolved_unknown :
    ∃ euro hryvnia, Import.currencies (Utf8.encode "code,name\nEUR,Euro\nUAH,Hryvnia\n".toList) =
        .ok [euro, hryvnia] ∧
      ofCodes [euro, hryvnia] (some "gbp") (some "uah") = ⟨"UAH", .state, "Hryvnia"⟩ ∧
      ofCodes [hryvnia, euro] none (some "Uah") = ⟨"UAH", .state, "Hryvnia"⟩ := by
  have hread : Import.currencies (Utf8.encode "code,name\nEUR,Euro\nUAH,Hryvnia\n".toList) =
      .ok [⟨"EUR", "Euro", none, none⟩, ⟨"UAH", "Hryvnia", none, none⟩] := by decide +kernel
  obtain ⟨hfind, -, hchosen, hsame⟩ := currency_is_resolved hread (some "gbp") (some "uah")
  have hunknown :
      IsUnknown [⟨"EUR", "Euro", none, none⟩, ⟨"UAH", "Hryvnia", none, none⟩] (some "gbp") :=
    find?_eq_none_iff.mp (by decide +kernel)
  have hstate := hchosen.by_state hunknown _ ((hfind _ _).mp rfl)
  refine ⟨_, _, hread, hstate, ?_⟩
  rw [← hstate]
  exact hsame _ _ _ (.swap ..) (.removed hunknown) (.respelled (sameCode_iff.mp rfl))

end ReportingCurrency
end TrailingYear
