import TrailingYear.Proofs.Decimal.Text
import TrailingYear.Proofs.Toml.Strings
import TrailingYear.Toml.Read

/-! # Reading back TOML documents

A document of tables at the top is read line by line. Each line is a header, or a bare key with a
value, or blank, and each value ends where its line does. -/

namespace TrailingYear

namespace Toml

theorem isDecimalDigit_of_isDigit {c : Char} (h : c.isDigit) : isDecimalDigit c := by
  simp only [Char.isDigit, Bool.and_eq_true, decide_eq_true_eq] at h
  simp only [isDecimalDigit, Bool.and_eq_true, decide_eq_true_eq]
  exact h

theorem hexValue?_of_isDigit {c : Char} (h : c.isDigit) :
    hexValue? c = some (c.toNat - '0'.toNat) := by
  simp only [Char.isDigit, Bool.and_eq_true, decide_eq_true_eq] at h
  exact if_pos h

theorem natIn_natDigits (n : Nat) : natIn 10 (natDigits n) = n := by
  rw [natIn, foldl_digitValue (fun _ => hexValue?_of_isDigit) fun _ => isDigit_of_mem_natDigits,
    ofDigitChars_natDigits]

section

variable {ds rest : List Char}

theorem readRun_cons {c d : Char} {cs : List Char} (hc : c.isDigit) (hd : d ≠ '_') :
    readRun isDecimalDigit (c :: d :: cs) =
      if isDecimalDigit d then
        (readRun isDecimalDigit (d :: cs)).map fun (digits, rest) => (c :: digits, rest)
      else some ([c], d :: cs) := by
  rw [readRun.eq_4 _ _ _ _ hd, if_pos (isDecimalDigit_of_isDigit hc)]

theorem readRun_digits (hd : ∀ c ∈ ds, c.isDigit) (hne : ds ≠ []) :
    readRun isDecimalDigit (ds ++ '\n' :: rest) = some (ds, '\n' :: rest) := by
  induction ds with
  | nil => exact absurd rfl hne
  | cons c ds ih =>
    obtain ⟨hc, hds⟩ := List.forall_mem_cons.mp hd
    cases ds with
    | nil =>
      rw [List.singleton_append, readRun_cons hc (by decide)]
      rfl
    | cons d ds =>
      have hdigit : d.isDigit := hds d (List.mem_cons_self ..)
      have hsep : d ≠ '_' := by
        rintro rfl
        cases hdigit
      have hrest := ih hds (List.cons_ne_nil d ds)
      rw [List.cons_append] at hrest
      rw [List.cons_append, List.cons_append, readRun_cons hc hsep,
        if_pos (isDecimalDigit_of_isDigit hdigit), hrest]
      rfl

/-- What follows some of the digits is one more of them, or the line end. -/
theorem skipChar_digits {c : Char} (hc : c.isDigit = false) (hn : c ≠ '\n')
    (hd : ∀ d ∈ ds, d.isDigit) :
    skipChar c (ds ++ '\n' :: rest) = none := by
  cases ds with
  | nil => exact if_neg (Ne.symm hn)
  | cons d ds => exact if_neg (ne_of_isDigit (hd d (List.mem_cons_self ..)) hc)

theorem readFixed_digits {width n : Nat} {cs : List Char}
    (h : readFixed width (ds ++ '\n' :: rest) = some (n, cs)) :
    cs = ds.drop width ++ '\n' :: rest := by
  unfold readFixed at h
  dsimp only at h
  split at h
  · rename_i hall
    cases h
    have hle : width ≤ ds.length := by
      by_contra hlt
      obtain ⟨k, hk⟩ := Nat.exists_eq_add_one.mpr (Nat.sub_pos_of_lt (Nat.lt_of_not_le hlt))
      have hmem : '\n' ∈ (ds ++ '\n' :: rest).take width := by
        rw [List.take_append, hk, List.take_succ_cons]
        exact List.mem_append_right _ (List.mem_cons_self ..)
      exact absurd (List.all_eq_true.mp hall.2 _ hmem) (by decide)
    rw [List.drop_append_of_le_length hle]
  · cases h

theorem readPart_digits {least most n : Nat} {cs : List Char}
    (h : readPart least most (ds ++ '\n' :: rest) = some (n, cs)) :
    cs = ds.drop 2 ++ '\n' :: rest := by
  obtain ⟨⟨_, _⟩, hfixed, h⟩ := Option.bind_eq_some_iff.mp h
  dsimp only at h
  split at h
  · cases h
    exact readFixed_digits hfixed
  · cases h

/-- Digits up to the end of their line are no date and no time. -/
theorem readMoment_digits (hd : ∀ c ∈ ds, c.isDigit) : readMoment (ds ++ '\n' :: rest) = none := by
  have hskip : ∀ c, c.isDigit = false → c ≠ '\n' → ∀ width,
      skipChar c (ds.drop width ++ '\n' :: rest) = none :=
    fun c hc hn width => skipChar_digits hc hn fun d hd' => hd d (List.mem_of_mem_drop hd')
  have hdate : readDate (ds ++ '\n' :: rest) = none := by
    unfold readDate
    cases hfixed : readFixed 4 (ds ++ '\n' :: rest) with
    | none => rfl
    | some read =>
      obtain ⟨year, cs⟩ := read
      show (skipChar '-' cs >>= _) = none
      rw [readFixed_digits hfixed, hskip '-' (by decide) (by decide)]
      rfl
  have htime : readTime (ds ++ '\n' :: rest) = none := by
    unfold readTime
    cases hpart : readPart 0 23 (ds ++ '\n' :: rest) with
    | none => rfl
    | some read =>
      obtain ⟨hour, cs⟩ := read
      show (skipChar ':' cs >>= _) = none
      rw [readPart_digits hpart, hskip ':' (by decide) (by decide)]
      rfl
  rw [readMoment, hdate]
  exact htime

theorem splitSign_digit {c : Char} (hc : c.isDigit) (cs : List Char) :
    splitSign (c :: cs) = (none, c :: cs) := by
  refine if_neg ?_
  intro hsign
  simp only [isSign, Bool.or_eq_true, decide_eq_true_eq] at hsign
  rcases hsign with rfl | rfl <;> cases hc

theorem readWhole_natDigits (n : Nat) :
    readWhole (natDigits n ++ '\n' :: rest) = some (natDigits n, '\n' :: rest) := by
  have hdigits : ∀ c ∈ natDigits n, c.isDigit := fun _ => isDigit_of_mem_natDigits
  by_cases hzero : ∃ ds, natDigits n = '0' :: ds
  · obtain ⟨ds, hds⟩ := hzero
    rw [hds, natDigits_leading hds]
    rfl
  · rw [readWhole.eq_2, readRun_digits hdigits (natDigits_ne_nil n)]
    intro cs hcs
    obtain ⟨c, ds, hds, _⟩ := natDigits_eq_cons n
    rw [hds, List.cons_append, List.cons.injEq] at hcs
    exact hzero ⟨ds, hds.trans (by rw [hcs.1])⟩

/-- A number without a sign ends where its line does. -/
theorem readNumber_natDigits {n : Nat} (h : (n : Int) < integerLimit) :
    readNumber (natDigits n ++ '\n' :: rest) = some (.integer n, '\n' :: rest) := by
  obtain ⟨c, ds, hds, hc⟩ := natDigits_eq_cons n
  have hbase : ∀ e, e ≠ '\n' → ∀ cs, natDigits n ++ '\n' :: rest = '0' :: e :: cs → False := by
    intro e he cs heq
    rw [hds, List.cons_append, List.cons.injEq] at heq
    obtain ⟨rfl, heq⟩ := heq
    rw [natDigits_leading hds, List.nil_append, List.cons.injEq] at heq
    exact he heq.1.symm
  have hsigned : readSigned (natDigits n ++ '\n' :: rest) =
      (readWhole (natDigits n ++ '\n' :: rest) >>= fun (whole, rest) =>
        if startsFloat rest then readFloat none whole rest
        else integer? (natIn 10 whole) rest) := by
    rw [hds, List.cons_append, readSigned, splitSign_digit hc]
    dsimp only
    split
    · exact absurd (List.cons.inj ‹_›).1 (ne_of_isDigit hc (by decide))
    · exact absurd (List.cons.inj ‹_›).1 (ne_of_isDigit hc (by decide))
    · rfl
  rw [readNumber.eq_4 _ (hbase 'x' (by decide)) (hbase 'o' (by decide)) (hbase 'b' (by decide)),
    hsigned, readWhole_natDigits]
  have hstart : ¬ startsFloat ('\n' :: rest) = true := Bool.false_ne_true
  have hlow : -integerLimit ≤ (n : Int) := by omega
  rw [Option.bind_eq_bind, Option.bind_some]
  dsimp only
  rw [if_neg hstart, natIn_natDigits, integer?, if_pos ⟨hlow, h⟩]

end

def IsValue (text : List Char) (value : Toml) : Prop :=
  ∀ fuel room rest, skipGap (text ++ '\n' :: rest) = text ++ '\n' :: rest ∧
    readValue (fuel + 1) room (text ++ '\n' :: rest) = some (value, '\n' :: rest)

theorem quote_cases (text : String) :
    ∃ c cs, (quote text).toList = c :: cs ∧ (c = '"' ∨ c = '\x27') := by
  rw [quote, String.toList_ofList]
  cases formOf text.toList with
  | basic => exact ⟨_, _, rfl, .inl rfl⟩
  | literal => exact ⟨_, _, rfl, .inr rfl⟩
  | multiBasic => exact ⟨_, _, rfl, .inl rfl⟩
  | multiLiteral => exact ⟨_, _, rfl, .inr rfl⟩

theorem isValue_quote (text : String) : IsValue (quote text).toList (.string text) := by
  intro fuel room rest
  have hread : readString ((quote text).toList ++ '\n' :: rest) =
      some (text.toList, '\n' :: rest) :=
    readString_quote (by simp) (by simp)
  have hvalue : String.ofList text.toList = text := String.ofList_toList
  obtain ⟨c, cs, hcs, rfl | rfl⟩ := quote_cases text <;> rw [hcs] at hread ⊢
  all_goals
    refine ⟨rfl, ?_⟩
    rw [List.cons_append] at hread ⊢
    show (readString _).map _ = _
    rw [hread, Option.map_some]
    dsimp only
    rw [hvalue]

theorem isValue_natural {n : Nat} (h : (n : Int) < integerLimit) :
    IsValue (toString n).toList (.integer n) := by
  intro fuel room rest
  have hread : readNumber (natDigits n ++ '\n' :: rest) = some (.integer n, '\n' :: rest) :=
    readNumber_natDigits h
  have hmoment : readMoment (natDigits n ++ '\n' :: rest) = none :=
    readMoment_digits fun _ => isDigit_of_mem_natDigits
  have htext : (toString n).toList = natDigits n := Nat.toList_repr
  rw [htext]
  obtain ⟨c, ds, hds, hc⟩ := natDigits_eq_cons n
  have hne : ∀ d, d.isDigit = false → c ≠ d := fun d => ne_of_isDigit hc
  rw [hds, List.cons_append] at hread hmoment ⊢
  refine ⟨List.dropWhile_cons_of_neg ?_, ?_⟩
  · simp [isGap, hne]
  · rw [readValue.eq_4, readScalar.eq_3, if_neg (by simp [hne]), hmoment]
    · exact hread
    · exact fun _ ht _ => hne 't' (by decide) ht
    · exact fun _ hf _ => hne 'f' (by decide) hf
    · exact fun _ hcons => hne '[' (by decide) (List.cons.inj hcons).1
    · exact fun _ hcons => hne '\x7b' (by decide) (List.cons.inj hcons).1

structure IsBare (key : List Char) : Prop where
  ne_nil : key ≠ []
  bare : ∀ c ∈ key, isBareKeyChar c

theorem skipGap_bare {c : Char} (hc : isBareKeyChar c) (cs : List Char) :
    skipGap (c :: cs) = c :: cs := by
  refine List.dropWhile_cons_of_neg fun hgap => ?_
  simp only [isGap, Bool.or_eq_true, decide_eq_true_eq] at hgap
  rcases hgap with rfl | rfl <;> cases hc

theorem readKey_bare {key rest : List Char} (hkey : IsBare key) {c : Char}
    (hc : isBareKeyChar c = false) :
    readKey (key ++ c :: rest) = some (String.ofList key, skipGap (c :: rest)) := by
  obtain ⟨d, ds, rfl⟩ := List.exists_cons_of_ne_nil hkey.ne_nil
  have hd : isBareKeyChar d := hkey.bare d (List.mem_cons_self ..)
  have htake : (d :: ds ++ c :: rest).takeWhile isBareKeyChar = d :: ds := by
    rw [List.takeWhile_append_of_pos hkey.bare, List.takeWhile_cons_of_neg (by simp [hc]),
      List.append_nil]
  have hdrop : (d :: ds ++ c :: rest).dropWhile isBareKeyChar = c :: rest := by
    rw [List.dropWhile_append_of_pos hkey.bare, List.dropWhile_cons_of_neg (by simp [hc])]
  have hgap : skipGap (d :: ds ++ c :: rest) = d :: ds ++ c :: rest := skipGap_bare hd _
  unfold readKey
  rw [hgap]
  split
  · rename_i hcons
    obtain rfl := (List.cons.inj hcons).1
    cases hd
  · rename_i hcons
    obtain rfl := (List.cons.inj hcons).1
    cases hd
  · rw [htake, hdrop]
    rfl

theorem readPath_bare {key rest : List Char} (hkey : IsBare key) {c d : Char} {tail : List Char}
    (hc : isBareKeyChar c = false) (hgap : skipGap (c :: rest) = d :: tail) (hd : d ≠ '.') :
    readPath (key ++ c :: rest) = some ([], String.ofList key, d :: tail) := by
  have hkeys : ∀ fuel, readKeys (fuel + 1) (key ++ c :: rest) =
      some ([String.ofList key], d :: tail) := by
    intro fuel
    rw [readKeys, readKey_bare hkey hc, hgap, Option.bind_eq_bind, Option.bind_some]
    dsimp only
    split
    · exact absurd (List.cons.inj ‹_›).1 hd
    · rfl
  rw [readPath, hkeys]
  rfl

inductive Lines : List Char → List Statement → Prop where
  | nil : Lines [] []
  | blank {cs statements} : Lines cs statements → Lines ('\n' :: cs) statements
  | table {key cs statements} : IsBare key → Lines cs statements →
      Lines ('[' :: (key ++ ']' :: '\n' :: cs)) (.table [] (String.ofList key) :: statements)
  | pair {key text value cs statements} : IsBare key → IsValue text value → Lines cs statements →
      Lines (key ++ ' ' :: '=' :: ' ' :: (text ++ '\n' :: cs))
        (.pair [] (String.ofList key) value :: statements)

theorem readHeader_bare {key : List Char} (hkey : IsBare key) (rest : List Char) :
    readHeader (key ++ ']' :: '\n' :: rest) = some (.table [] (String.ofList key), rest) := by
  rw [readHeader, readPath_bare hkey (by decide) rfl (by decide)]
  rfl

theorem readPair_bare {key text : List Char} {value : Toml} (hkey : IsBare key)
    (hvalue : IsValue text value) (rest : List Char) :
    readPair (key ++ ' ' :: '=' :: ' ' :: (text ++ '\n' :: rest)) =
      some (.pair [] (String.ofList key) value, rest) := by
  have hassigned : readAssigned (key ++ ' ' :: '=' :: ' ' :: (text ++ '\n' :: rest)) =
      some ([], String.ofList key, text ++ '\n' :: rest) := by
    rw [readAssigned, readPath_bare hkey (by decide) rfl (by decide)]
    show some ([], String.ofList key, skipGap (text ++ '\n' :: rest)) = _
    rw [(hvalue 0 0 rest).1]
  rw [readPair, hassigned]
  show (readValue _ _ _ >>= _) = _
  rw [(hvalue _ _ rest).2]
  rfl

theorem readStatements_header {c : Char} (hc : c ≠ '[') (fuel : Nat) (cs : List Char) :
    readStatements (fuel + 1) ('[' :: c :: cs) =
      (do let (s, rest) ← readHeader (c :: cs); return s :: (← readStatements fuel rest)) := by
  rw [readStatements]
  have hgap : skipGap ('[' :: c :: cs) = '[' :: c :: cs := rfl
  rw [hgap]
  dsimp only
  rw [if_neg (by decide)]
  split
  · rename_i hcons
    exact absurd (List.cons.inj hcons).1 hc
  · rfl
  · contradiction

theorem readStatements_pair {c : Char} (hc : isBareKeyChar c) (fuel : Nat) (cs : List Char) :
    readStatements (fuel + 1) (c :: cs) =
      (do let (s, rest) ← readPair (c :: cs); return s :: (← readStatements fuel rest)) := by
  rw [readStatements, skipGap_bare hc]
  dsimp only
  have hline : ¬ isLineStart c = true := by
    intro h
    simp only [isLineStart, Bool.or_eq_true, decide_eq_true_eq] at h
    rcases h with (rfl | rfl) | rfl <;> cases hc
  rw [if_neg hline]
  split
  · cases hc
  · cases hc
  · rfl

theorem Lines.read {cs : List Char} {statements : List Statement} (h : Lines cs statements)
    {fuel : Nat} (hf : cs.length < fuel) : readStatements fuel cs = some statements := by
  induction h generalizing fuel with
  | nil =>
    obtain ⟨fuel, rfl⟩ := Nat.exists_eq_add_one.mpr hf
    rfl
  | blank _ ih =>
    obtain ⟨fuel, rfl⟩ := Nat.exists_eq_add_one.mpr (Nat.zero_lt_of_lt hf)
    exact ih (by simpa using hf)
  | @table key cs statements hkey _ ih =>
    obtain ⟨fuel, rfl⟩ := Nat.exists_eq_add_one.mpr (Nat.zero_lt_of_lt hf)
    obtain ⟨c, ds, hds⟩ := List.exists_cons_of_ne_nil hkey.ne_nil
    have hc : c ≠ '[' := by
      rintro rfl
      cases hkey.bare '[' (hds ▸ List.mem_cons_self ..)
    have hread := readHeader_bare hkey cs
    rw [hds, List.cons_append] at hread
    rw [hds, List.cons_append, readStatements_header hc, hread, Option.bind_eq_bind,
      Option.bind_some, ← hds]
    dsimp only
    rw [ih (by simp at hf; omega)]
    rfl
  | @pair key text value cs statements hkey hvalue _ ih =>
    obtain ⟨fuel, rfl⟩ := Nat.exists_eq_add_one.mpr (Nat.zero_lt_of_lt hf)
    obtain ⟨c, ds, hds⟩ := List.exists_cons_of_ne_nil hkey.ne_nil
    have hc : isBareKeyChar c := hkey.bare c (hds ▸ List.mem_cons_self ..)
    have hread := readPair_bare hkey hvalue cs
    rw [hds, List.cons_append] at hread
    rw [hds, List.cons_append, readStatements_pair hc, hread, Option.bind_eq_bind, Option.bind_some,
      ← hds]
    dsimp only
    rw [ih (by simp at hf; omega)]
    rfl

/-- A document that is written line by line is read as what its lines build. -/
theorem Lines.ofChars? {cs : List Char} {statements : List Statement} (h : Lines cs statements)
    (hmark : skipMark cs = cs) : Toml.ofChars? cs = build statements := by
  rw [Toml.ofChars?, hmark, h.read (Nat.lt_succ_self _)]
  rfl

end Toml
end TrailingYear
