import TrailingYear.Proofs.Text
import TrailingYear.Toml.Basic
import Mathlib.Data.List.Basic

/-! # Reading back TOML strings

Whatever form a text is written in, the reader stops at the delimiter that closes it and nowhere
before. Within three quotes up to two more may stand side by side, and those that end the text run
into the ones that close it. -/

namespace TrailingYear
namespace Toml

theorem hexValue?_upperHexDigit : ∀ n < 16, hexValue? (upperHexDigit n) = some n := by decide

/-- The next character may stand for itself, or what follows a backslash stands for it. -/
theorem escaped_cases {c : Char} (hn : c ≠ '\n') :
    (escaped c = [c] ∧ c ≠ '\\' ∧ isControl c = false ∧ c ≠ '\r') ∨
    ∃ tail, escaped c = '\\' :: tail ∧ (∀ rest, escape? (tail ++ rest) = some (c, rest)) ∧
      ∀ rest, joinLines? (tail ++ rest) = none := by
  unfold escaped
  by_cases h1 : c = '\\'
  · subst h1
    exact .inr ⟨['\\'], by decide, fun _ => rfl, fun _ => rfl⟩
  by_cases h2 : c = '\t'
  · subst h2
    exact .inr ⟨['t'], by decide, fun _ => rfl, fun _ => rfl⟩
  by_cases h3 : c = '\r'
  · subst h3
    exact .inr ⟨['r'], by decide, fun _ => rfl, fun _ => rfl⟩
  by_cases h4 : c.toNat = 8
  · obtain rfl : c = '\x08' := Char.toNat_inj.mp h4
    exact .inr ⟨['b'], by decide, fun _ => rfl, fun _ => rfl⟩
  by_cases h5 : c.toNat = 12
  · obtain rfl : c = '\x0c' := Char.toNat_inj.mp h5
    exact .inr ⟨['f'], by decide, fun _ => rfl, fun _ => rfl⟩
  by_cases h6 : isControl c
  · rw [if_neg h1, if_neg h2, if_neg h3, if_neg h4, if_neg h5, if_pos h6]
    have hlt : c.toNat < 256 := by
      unfold isControl at h6
      simp only [Bool.or_eq_true, Bool.and_eq_true, decide_eq_true_eq] at h6
      omega
    refine .inr ⟨_, rfl, ?_, fun _ => rfl⟩
    intro rest
    show (hexNumber? _ >>= fun n => charOf? n >>= fun c => some (c, rest)) = _
    rw [hexNumber?_byte hexValue?_upperHexDigit hlt]
    show (charOf? c.toNat >>= fun c => some (c, rest)) = _
    rw [charOf?_toNat]
    rfl
  · rw [if_neg h1, if_neg h2, if_neg h3, if_neg h4, if_neg h5, if_neg h6]
    exact .inl ⟨rfl, h1, by simpa using h6, h3⟩

theorem plainPiece_of {c : Char} (h : isControl c = false) (rest : List Char) :
    plainPiece c rest = some (.more [c] rest) := by
  simp [plainPiece, h]

theorem basicPiece_escaped {c : Char} (hq : c ≠ '"') (hn : c ≠ '\n') (rest : List Char) :
    basicPiece (escaped c ++ rest) = some (.more [c] rest) := by
  rcases escaped_cases hn with ⟨he, hb, hc, _⟩ | ⟨tail, he, hread, _⟩
  · rw [he, List.singleton_append, basicPiece.eq_4 c rest hq hb, plainPiece_of hc]
  · rw [he, List.cons_append, basicPiece, escapePiece, hread]
    rfl

theorem lineEnd?_of_ne {c : Char} (hn : c ≠ '\n') (hr : c ≠ '\r') (rest : List Char) :
    lineEnd? (c :: rest) = none := by
  apply lineEnd?.eq_3
  · rintro _ ⟨⟩
    exact hn rfl
  · rintro _ ⟨⟩
    exact hr rfl

theorem multiBasicPiece_escaped {c : Char} (hq : c ≠ '"') (hn : c ≠ '\n') (rest : List Char) :
    multiBasicPiece (escaped c ++ rest) = some (.more [c] rest) := by
  rcases escaped_cases hn with ⟨he, hb, hc, hr⟩ | ⟨tail, he, hread, hjoin⟩
  · rw [he, List.singleton_append, multiBasicPiece.eq_4 c rest (fun _ h _ => hq h) hb,
      lineEnd?_of_ne hn hr]
    exact plainPiece_of hc rest
  · rw [he, List.cons_append, multiBasicPiece, hjoin]
    show escapePiece _ = _
    rw [escapePiece, hread]
    rfl

section

variable {piece : List Char → Option Piece} {q : Char}

/-- One piece for each character, and one for the end. -/
theorem collectAll_flatMap {write : Char → List Char} {cs rest : List Char} (hnil : piece [] = none)
    (hclose : ∀ rest, piece (q :: rest) = some (.last [] rest))
    (hw : ∀ c ∈ cs, ∀ more, piece (write c ++ more) = some (.more [c] more)) :
    collectAll piece (cs.flatMap write ++ q :: rest) = some (cs, rest) := by
  have hcollect : ∀ fuel, cs.length < fuel →
      collect piece fuel (cs.flatMap write ++ q :: rest) = some (cs, rest) := by
    clear hnil
    induction cs with
    | nil =>
      intro fuel hf
      obtain ⟨fuel, rfl⟩ := Nat.exists_eq_add_one.mpr hf
      rw [List.flatMap_nil, List.nil_append, collect, hclose]
    | cons c cs ih =>
      intro fuel hf
      obtain ⟨hc, hcs⟩ := List.forall_mem_cons.mp hw
      obtain ⟨fuel, rfl⟩ := Nat.exists_eq_add_one.mpr (Nat.zero_lt_of_lt hf)
      rw [List.flatMap_cons, List.append_assoc, collect, hc]
      dsimp only
      rw [ih hcs fuel (by simpa using hf)]
      rfl
  have hlength : cs.length ≤ (cs.flatMap write).length := by
    clear hcollect
    induction cs with
    | nil => exact Nat.le_refl 0
    | cons c cs ih =>
      obtain ⟨hc, hcs⟩ := List.forall_mem_cons.mp hw
      have hne : write c ≠ [] := by
        intro hempty
        have hread := hc []
        rw [hempty, List.nil_append, hnil] at hread
        cases hread
      have hpos := List.length_pos_of_ne_nil hne
      have hrest := ih hcs
      rw [List.flatMap_cons, List.length_append, List.length_cons]
      omega
  apply hcollect
  rw [List.length_append]
  omega

/-- Such a text cannot be taken for one between three quotes. -/
theorem flatMap_ne_two_quotes {write : Char → List Char} {cs rest : List Char}
    (hclose : ∀ rest, piece (q :: rest) = some (.last [] rest))
    (hw : ∀ c ∈ cs, ∀ more, piece (write c ++ more) = some (.more [c] more))
    (hrest : rest.head? ≠ some q) (more : List Char) :
    cs.flatMap write ++ q :: rest ≠ q :: q :: more := by
  intro heq
  cases cs with
  | nil =>
    obtain rfl : rest = q :: more := by simpa using heq
    exact hrest rfl
  | cons c cs =>
    have hread := hw c (List.mem_cons_self ..) (cs.flatMap write ++ q :: rest)
    rw [← List.append_assoc, ← List.flatMap_cons, heq, hclose] at hread
    cases hread

/-- The text of a body between three quotes, after `n` bare quotes. No more than two of them stand
side by side; another character starts with one that is no quote, even if it is a quote itself. -/
inductive Body (piece : List Char → Option Piece) (q : Char) :
    Nat → List Char → List Char → Prop where
  | nil {n} : Body piece q n [] []
  | quote {n cs body} : n < 2 → Body piece q (n + 1) cs body → Body piece q n (q :: cs) (q :: body)
  | other {n c cs d w body} : d ≠ q →
      (∀ rest, piece (d :: w ++ rest) = some (.more [c] rest)) →
      Body piece q 0 cs body → Body piece q n (c :: cs) (d :: w ++ body)

theorem closing_of_ne {rest : List Char} (h : rest.head? ≠ some q) :
    closing q rest = .last [] rest := by
  match rest with
  | [] => rfl
  | [a] =>
    have ha : a ≠ q := by simpa using h
    rw [closing, if_neg ha]
  | a :: b :: rest =>
    have ha : a ≠ q := by simpa using h
    rw [closing, if_neg ha]

theorem closing_one {rest : List Char} (h : rest.head? ≠ some q) :
    closing q (q :: rest) = .last [q] rest := by
  cases rest with
  | nil => rw [closing, if_pos rfl]
  | cons a rest =>
    have ha : a ≠ q := by simpa using h
    rw [closing, if_pos rfl, if_neg ha]

theorem closing_two (rest : List Char) : closing q (q :: q :: rest) = .last [q, q] rest := by
  rw [closing, if_pos rfl, if_pos rfl]

/-- Two more quotes after a bare one are met only where the text ends. -/
theorem Body.of_two_quotes {n : Nat} {cs body rest more : List Char}
    (h : Body piece q (n + 1) cs body) (heq : body ++ q :: q :: q :: rest = q :: q :: more) :
    (cs = [] ∧ body = []) ∨ (cs = [q] ∧ body = [q]) := by
  cases h with
  | nil => exact .inl ⟨rfl, rfl⟩
  | quote hn hinner =>
    cases hinner with
    | nil => exact .inr ⟨rfl, rfl⟩
    | quote hn' _ => omega
    | other hd _ _ =>
      simp only [List.cons_append, List.cons.injEq] at heq
      exact absurd heq.2.1 hd
  | other hd _ _ =>
    simp only [List.cons_append, List.cons.injEq] at heq
    exact absurd heq.1 hd

theorem Body.collect (hthree : ∀ rest, piece (q :: q :: q :: rest) = some (closing q rest))
    (hbare : ∀ rest, (∀ more, rest ≠ q :: q :: more) → piece (q :: rest) = some (.more [q] rest))
    {n : Nat} {cs body rest : List Char} (h : Body piece q n cs body) (hrest : rest.head? ≠ some q)
    {fuel : Nat} (hf : cs.length < fuel) :
    Toml.collect piece fuel (body ++ q :: q :: q :: rest) = some (cs, rest) := by
  induction h generalizing fuel with
  | nil =>
    obtain ⟨fuel, rfl⟩ := Nat.exists_eq_add_one.mpr hf
    rw [List.nil_append, Toml.collect, hthree, closing_of_ne hrest]
  | @quote n cs body _ hbody ih =>
    obtain ⟨fuel, rfl⟩ := Nat.exists_eq_add_one.mpr (Nat.zero_lt_of_lt hf)
    rw [List.cons_append, Toml.collect]
    by_cases htwo : ∃ more, body ++ q :: q :: q :: rest = q :: q :: more
    · obtain ⟨more, heq⟩ := htwo
      -- the last quotes of the text and those that close it are one run
      rcases hbody.of_two_quotes heq with ⟨rfl, rfl⟩ | ⟨rfl, rfl⟩
      · rw [List.nil_append, hthree, closing_one hrest]
      · rw [List.singleton_append, hthree, closing_two]
    · rw [hbare _ (not_exists.mp htwo)]
      dsimp only
      rw [ih (by simpa using hf)]
      rfl
  | other _ hpiece _ ih =>
    obtain ⟨fuel, rfl⟩ := Nat.exists_eq_add_one.mpr (Nat.zero_lt_of_lt hf)
    rw [List.append_assoc, Toml.collect, hpiece]
    dsimp only
    rw [ih (by simpa using hf)]
    rfl

theorem Body.length_le {n : Nat} {cs body : List Char} (h : Body piece q n cs body) :
    cs.length ≤ body.length := by
  induction h with
  | nil => exact Nat.le_refl _
  | quote _ _ ih => simpa using ih
  | other _ _ _ ih =>
    rw [List.length_append, List.length_cons, List.length_cons]
    omega

end

theorem body_multiBasic {n : Nat} (cs : List Char) :
    Body multiBasicPiece '"' n cs (multiBasicBody n cs) := by
  induction cs generalizing n with
  | nil => exact .nil
  | cons c cs ih =>
    rw [multiBasicBody]
    split_ifs with hquote hroom hline
    · subst c
      exact .quote hroom ih
    · subst c
      exact .other (d := '\\') (w := ['"']) (by decide) (fun _ => rfl) ih
    · subst c
      exact .other (d := '\n') (w := []) (by decide) (fun _ => rfl) ih
    · have hpiece := multiBasicPiece_escaped hquote hline
      rcases escaped_cases hline with ⟨he, _⟩ | ⟨tail, he, _⟩
      · rw [he] at hpiece ⊢
        exact .other (w := []) hquote hpiece ih
      · rw [he] at hpiece ⊢
        exact .other (by decide) hpiece ih

theorem not_control {cs : List Char} (h : needsEscape cs = false) {c : Char} (hc : c ∈ cs)
    (hn : c ≠ '\n') : isControl c = false := by
  rw [needsEscape, List.any_eq_false] at h
  simpa [hn] using h c hc

theorem le_longestRun (q : Char) (n : Nat) (cs : List Char) : n ≤ longestRun q n cs := by
  induction cs generalizing n with
  | nil => exact Nat.le_refl n
  | cons c cs ih =>
    rw [longestRun]
    split
    · exact Nat.le_of_succ_le (ih (n + 1))
    · exact Nat.le_max_left ..

theorem body_multiLiteral {n : Nat} {cs : List Char} (hescape : needsEscape cs = false)
    (hrun : longestRun '\x27' n cs ≤ 2) : Body multiLiteralPiece '\x27' n cs cs := by
  induction cs generalizing n with
  | nil => exact .nil
  | cons c cs ih =>
    have hcs : needsEscape cs = false := by
      rw [needsEscape, List.any_cons, Bool.or_eq_false_iff] at hescape
      exact hescape.2
    rw [longestRun] at hrun
    split_ifs at hrun with hquote
    · subst c
      have hn : n + 1 ≤ 2 := Nat.le_trans (le_longestRun ..) hrun
      exact .quote (by omega) (ih hcs hrun)
    · refine .other (w := []) hquote ?_ (ih hcs (Nat.le_trans (Nat.le_max_right ..) hrun))
      intro rest
      rw [List.singleton_append, multiLiteralPiece.eq_3 c rest fun _ h _ => hquote h]
      by_cases hn : c = '\n'
      · subst hn
        rfl
      · have hcontrol := not_control hescape (List.mem_cons_self ..) hn
        have hr : c ≠ '\r' := by
          rintro rfl
          cases hcontrol
        rw [lineEnd?_of_ne hn hr]
        exact plainPiece_of hcontrol rest

theorem collectAll_multiBasic {rest : List Char} (hrest : rest.head? ≠ some '"') (cs : List Char) :
    collectAll multiBasicPiece (multiBasicBody 0 cs ++ '"' :: '"' :: '"' :: rest) =
      some (cs, rest) := by
  have hbody := body_multiBasic (n := 0) cs
  apply hbody.collect (fun _ => rfl) _ hrest
  · have := hbody.length_le
    rw [List.length_append]
    omega
  · intro rest htwo
    rw [multiBasicPiece.eq_4 _ _ (fun more _ h => htwo more h) (by decide)]
    rfl

theorem collectAll_multiLiteral {cs rest : List Char} (hescape : needsEscape cs = false)
    (hrun : longestRun '\x27' 0 cs ≤ 2) (hrest : rest.head? ≠ some '\x27') :
    collectAll multiLiteralPiece (cs ++ '\x27' :: '\x27' :: '\x27' :: rest) = some (cs, rest) := by
  apply (body_multiLiteral hescape hrun).collect (fun _ => rfl) _ hrest
  · rw [List.length_append]
    omega
  · intro rest htwo
    rw [multiLiteralPiece.eq_3 _ _ (fun more _ h => htwo more h)]
    rfl

/-- The line end before the body is no part of the text. -/
theorem skipLineEnd_ownLine {cs body : List Char} (h : '\n' ∉ cs → lineEnd? body = none) :
    skipLineEnd (ownLine cs ++ body) = body := by
  unfold ownLine
  by_cases hn : '\n' ∈ cs
  · rw [if_pos (List.contains_iff_mem.mpr hn)]
    rfl
  · rw [if_neg (by simpa using hn), List.nil_append, skipLineEnd, h hn]
    rfl

theorem lineEnd?_multiBasicBody {cs : List Char} (h : '\n' ∉ cs) (rest : List Char) :
    lineEnd? (multiBasicBody 0 cs ++ '"' :: rest) = none := by
  cases cs with
  | nil => rfl
  | cons c cs =>
    obtain ⟨hn, _⟩ := List.ne_and_not_mem_of_not_mem_cons h
    rw [multiBasicBody]
    split
    · subst c
      rfl
    rw [if_neg (Ne.symm hn)]
    rcases escaped_cases (Ne.symm hn) with ⟨he, _, _, hr⟩ | ⟨tail, he, _⟩
    · rw [he]
      exact lineEnd?_of_ne (Ne.symm hn) hr _
    · rw [he]
      rfl

theorem lineEnd?_literal {cs : List Char} (hescape : needsEscape cs = false) (h : '\n' ∉ cs)
    (rest : List Char) : lineEnd? (cs ++ '\x27' :: rest) = none := by
  cases cs with
  | nil => rfl
  | cons c cs =>
    obtain ⟨hn, _⟩ := List.ne_and_not_mem_of_not_mem_cons h
    have hcontrol := not_control hescape (List.mem_cons_self ..) (Ne.symm hn)
    apply lineEnd?_of_ne (Ne.symm hn)
    rintro rfl
    cases hcontrol

def basicChar (c : Char) : List Char :=
  if c = '"' then ['\\', '"'] else if c = '\n' then ['\\', 'n'] else escaped c

theorem basicPiece_basicChar (c : Char) (rest : List Char) :
    basicPiece (basicChar c ++ rest) = some (.more [c] rest) := by
  unfold basicChar
  split_ifs with hquote hline
  · subst c
    rfl
  · subst c
    rfl
  · exact basicPiece_escaped hquote hline rest

/-- The two forms that escape what they cannot hold do for every text. -/
theorem formOf_holds (cs : List Char) :
    (formOf cs).holdsPlainly cs = true ∨ formOf cs = .basic ∨ formOf cs = .multiBasic := by
  unfold formOf
  cases hf :
    ([.basic, .literal, .multiBasic, .multiLiteral] : List Form).find? (·.holdsPlainly cs) with
  | some form => exact .inl (List.find?_some hf)
  | none =>
    refine .inr ?_
    rw [Option.getD_none]
    split
    · exact .inr rfl
    · exact .inl rfl

theorem readString_quoteIn {cs rest : List Char} {form : Form}
    (hform : form.holdsPlainly cs = true ∨ form = .basic ∨ form = .multiBasic)
    (hq : rest.head? ≠ some '"') (ha : rest.head? ≠ some '\x27') :
    readString (quoteIn cs form ++ rest) = some (cs, rest) := by
  cases form with
  | basic =>
    have hwrite : ∀ c ∈ cs, ∀ more, basicPiece (basicChar c ++ more) = some (.more [c] more) :=
      fun c _ => basicPiece_basicChar c
    have hread : quoteIn cs .basic ++ rest = '"' :: (cs.flatMap basicChar ++ '"' :: rest) := by
      rw [quoteIn, List.cons_append, List.cons_append, List.append_assoc]
      rfl
    rw [hread, readString.eq_2 _ (flatMap_ne_two_quotes (fun _ => rfl) hwrite hq)]
    exact collectAll_flatMap rfl (fun _ => rfl) hwrite
  | literal =>
    have hplain : (needsEscape cs = false ∧ '\x27' ∉ cs) ∧ '\n' ∉ cs := by
      simpa [Form.holdsPlainly] using hform
    have hwrite : ∀ c ∈ cs, ∀ more, literalPiece ([c] ++ more) = some (.more [c] more) := by
      intro c hc more
      have hn : c ≠ '\n' := fun h => hplain.2 (h ▸ hc)
      rw [List.singleton_append, literalPiece.eq_3 c more fun h => hplain.1.2 (h ▸ hc)]
      exact plainPiece_of (not_control hplain.1.1 hc hn) more
    have hread :
        quoteIn cs .literal ++ rest = '\x27' :: (cs.flatMap (fun c => [c]) ++ '\x27' :: rest) := by
      simp [quoteIn]
    rw [hread, readString.eq_4 _ (flatMap_ne_two_quotes (fun _ => rfl) hwrite ha)]
    exact collectAll_flatMap rfl (fun _ => rfl) hwrite
  | multiBasic =>
    have hread : quoteIn cs .multiBasic ++ rest =
        '"' :: '"' :: '"' ::
          (ownLine cs ++ (multiBasicBody 0 cs ++ '"' :: '"' :: '"' :: rest)) := by
      simp [quoteIn]
    rw [hread, readString, skipLineEnd_ownLine fun h => lineEnd?_multiBasicBody h _,
      collectAll_multiBasic hq]
  | multiLiteral =>
    have hplain : needsEscape cs = false ∧ longestRun '\x27' 0 cs ≤ 2 := by
      simpa [Form.holdsPlainly] using hform
    have hread : quoteIn cs .multiLiteral ++ rest =
        '\x27' :: '\x27' :: '\x27' ::
          (ownLine cs ++ (cs ++ '\x27' :: '\x27' :: '\x27' :: rest)) := by
      simp [quoteIn]
    rw [hread, readString, skipLineEnd_ownLine fun h => lineEnd?_literal hplain.1 h _,
      collectAll_multiLiteral hplain.1 hplain.2 ha]

/-- Every text is read back from its quoted form, if no further quote follows it. -/
theorem readString_quote {text : String} {rest : List Char} (hq : rest.head? ≠ some '"')
    (ha : rest.head? ≠ some '\x27') :
    readString ((quote text).toList ++ rest) = some (text.toList, rest) := by
  rw [quote, String.toList_ofList]
  exact readString_quoteIn (formOf_holds text.toList) hq ha

end Toml
end TrailingYear
