import TrailingYear.Table
import TrailingYear.Text
import Mathlib.Data.List.DropRight
import Mathlib.Data.List.Forall2
import Mathlib.Data.List.Induction

/-! # Texts and what they are written as

Escaped characters and bytes give back what was written. The blanks at the ends and the case of
letters are the only things that reading takes away. -/

namespace TrailingYear

/-! ## Reading back hexadecimal digits

Control characters are written as four hexadecimal digits, which give back their number. -/

theorem charOf?_toNat (c : Char) : charOf? c.toNat = some c := by
  have hvalid : c.toNat.isValidChar := c.valid
  rw [charOf?, if_pos hvalid, Char.ofNat_toNat]

theorem hexValue?_hexDigit : ∀ n < 16, hexValue? (hexDigit n) = some n := by decide

/-- Two digits suffice for a byte, in either case. -/
theorem hexNumber?_byte {digit : Nat → Char} (h : ∀ n < 16, hexValue? (digit n) = some n) {n : Nat}
    (hn : n < 256) : hexNumber? ['0', '0', digit (n / 16), digit (n % 16)] = some n := by
  have hzero : hexValue? '0' = some 0 := by decide
  have hhigh := h (n / 16) (by omega)
  have hlow := h (n % 16) (by omega)
  have hvalue : n / 16 * 16 + n % 16 = n := Nat.div_add_mod' n 16
  simp [hexNumber?, hzero, hhigh, hlow, hvalue]

/-! ## The case of letters

Only the ASCII letters have two forms here. They stand thirty-two places apart. -/

theorem isUpper_iff {c : Char} : c.isUpper ↔ 65 ≤ c.toNat ∧ c.toNat ≤ 90 := decide_eq_true_iff

theorem toNat_toLower (c : Char) :
    c.toLower.toNat = if c.isUpper then c.toNat + 32 else c.toNat := by
  by_cases hc : c.isUpper
  · have hlower : c.toLower.val = c.val + 32 := congrArg Char.val (dif_pos (of_decide_eq_true hc))
    have hbounds := isUpper_iff.mp hc
    rw [if_pos hc, ← Char.toNat_val, hlower, UInt32.toNat_add, Char.toNat_val]
    change (c.toNat + 32) % 4294967296 = _
    omega
  · have hlower : c.toLower = c := dif_neg (mt decide_eq_true hc)
    rw [if_neg hc, hlower]

def SameLetter (c d : Char) : Prop :=
  c = d ∨ c.isUpper ∧ d.toNat = c.toNat + 32 ∨ d.isUpper ∧ c.toNat = d.toNat + 32

theorem toLower_eq_iff {c d : Char} : c.toLower = d.toLower ↔ SameLetter c d := by
  rw [← Char.toNat_inj, toNat_toLower, toNat_toLower, SameLetter, ← Char.toNat_inj]
  simp only [isUpper_iff]
  split <;> split <;> omega

/-- Two capitals that differ do so in any case. -/
theorem SameLetter.eq_of_isUpper {c d : Char} (h : SameLetter c d) (hc : c.isUpper)
    (hd : d.isUpper) :
    c = d := by
  rw [isUpper_iff] at hc hd
  rcases h with h | ⟨-, h⟩ | ⟨-, h⟩
  · exact h
  · omega
  · omega

theorem map_toLower_eq_iff {cs ds : List Char} :
    cs.map Char.toLower = ds.map Char.toLower ↔ List.Forall₂ SameLetter cs ds := by
  rw [← List.forall₂_eq_eq_eq, List.forall₂_map_left_iff, List.forall₂_map_right_iff]
  simp only [toLower_eq_iff]

theorem eq_of_sameLetter {cs ds : List Char} (h : List.Forall₂ SameLetter cs ds)
    (hc : ∀ c ∈ cs, c.isUpper) (hd : ∀ d ∈ ds, d.isUpper) : cs = ds := by
  induction h with
  | nil => rfl
  | cons hletter _ ih =>
    obtain ⟨hc, hcs⟩ := List.forall_mem_cons.mp hc
    obtain ⟨hd, hds⟩ := List.forall_mem_cons.mp hd
    rw [hletter.eq_of_isUpper hc hd, ih hcs hds]

def SameLetters (a b : String) : Prop := List.Forall₂ SameLetter a.toList b.toList

theorem SameLetters.eq_of_isUpper {a b : String} (h : SameLetters a b)
    (ha : ∀ c ∈ a.toList, c.isUpper) (hb : ∀ c ∈ b.toList, c.isUpper) : a = b :=
  String.toList_inj.mp (eq_of_sameLetter h ha hb)

/-! ## Texts and their bytes

Reading gives back exactly the texts that were written: no other bytes are text,
and no text is lost. -/

namespace Utf8

theorem encode_cons (c : Char) (cs : List Char) :
    encode (c :: cs) = String.utf8EncodeChar c ++ encode cs := rfl

theorem encode_append (cs ds : List Char) : encode (cs ++ ds) = encode cs ++ encode ds := by
  simp [encode]

theorem head?_encode (c : Char) (rest : List UInt8) :
    head? (String.utf8EncodeChar c ++ rest) = some c := by
  have hbytes : (ByteArray.mk ((String.utf8EncodeChar c ++ rest).take 4).toArray) =
      (String.utf8EncodeChar c).toByteArray ++ (rest.take (4 - c.utf8Size)).toByteArray := by
    rw [List.take_append, String.length_utf8EncodeChar,
      List.take_of_length_le (by rw [String.length_utf8EncodeChar]; exact c.utf8Size_le_four),
      ← List.toByteArray_append]
    ext1
    rw [List.data_toByteArray]
  rw [head?, hbytes]
  exact ByteArray.utf8DecodeChar?_utf8EncodeChar_append

theorem eq_encode_of_head? {bytes : List UInt8} {c : Char} (h : head? bytes = some c) :
    bytes = String.utf8EncodeChar c ++ bytes.drop c.utf8Size := by
  have hfirst : (bytes.take 4).toByteArray.utf8DecodeChar? 0 = some c := by
    have hmk : (bytes.take 4).toByteArray = ByteArray.mk (bytes.take 4).toArray := by
      ext1
      rw [List.data_toByteArray]
    rw [hmk]
    exact h
  obtain ⟨more, hmore⟩ := ByteArray.exists_of_utf8DecodeChar?_eq_some hfirst
  have hlist : bytes.take 4 = String.utf8EncodeChar c ++ more.data.toList := by
    have hd := congrArg (fun b : ByteArray => b.data.toList) hmore
    simpa using hd
  have hwhole : bytes = String.utf8EncodeChar c ++ (more.data.toList ++ bytes.drop 4) := by
    rw [← List.append_assoc, ← hlist, List.take_append_drop]
  have hrest : bytes.drop c.utf8Size = more.data.toList ++ bytes.drop 4 := by
    calc bytes.drop c.utf8Size
        = (String.utf8EncodeChar c ++ (more.data.toList ++ bytes.drop 4)).drop c.utf8Size :=
          congrArg (List.drop c.utf8Size) hwhole
      _ = more.data.toList ++ bytes.drop 4 := by
          rw [List.drop_append_of_le_length (by simp), List.drop_of_length_le (by simp),
            List.nil_append]
  rw [hrest]
  exact hwhole

theorem utf8EncodeChar_ne_nil (c : Char) : String.utf8EncodeChar c ≠ [] := by
  intro h
  have hlen := congrArg List.length h
  have hpos := c.utf8Size_pos
  rw [String.length_utf8EncodeChar, List.length_nil] at hlen
  omega

theorem decode_encode (cs : List Char) : decode (encode cs) = .ok cs := by
  induction cs with
  | nil => rw [encode, List.flatMap_nil, decode]
  | cons c cs ih =>
    have hpos := c.utf8Size_pos
    have hhead := head?_encode c (encode cs)
    rw [encode_cons]
    cases he : String.utf8EncodeChar c with
    | nil => exact absurd he (utf8EncodeChar_ne_nil c)
    | cons b bs =>
      have hlen : bs.length = c.utf8Size - 1 := by
        have hlen := congrArg List.length he
        rw [String.length_utf8EncodeChar, List.length_cons] at hlen
        omega
      rw [he, List.cons_append] at hhead
      rw [List.cons_append, decode, hhead]
      simp only
      rw [← hlen, List.drop_left, ih]

theorem eq_encode_of_decode {bytes : List UInt8} {cs : List Char} (h : decode bytes = .ok cs) :
    bytes = encode cs := by
  fun_induction decode bytes generalizing cs with
  | case1 =>
    cases h
    rfl
  | case2 => cases h
  | case3 b rest c hc ds hds ih =>
    cases h
    have hpos := c.utf8Size_pos
    have hdrop : (b :: rest).drop c.utf8Size = rest.drop (c.utf8Size - 1) := by
      obtain ⟨n, hn⟩ := Nat.exists_eq_add_one.mpr hpos
      rw [hn]
      rfl
    rw [eq_encode_of_head? hc, hdrop, ih hds, encode_cons]
  | case4 => cases h

theorem utf8EncodeChar_ascii {c : Char} (h : c.toNat < 128) :
    String.utf8EncodeChar c = [UInt8.ofNat c.toNat] := by
  change c.val.toNat < 128 at h
  rw [String.utf8EncodeChar, if_pos (by omega)]
  rfl

/-- The bytes of other characters are none of the ASCII ones. -/
theorem le_of_mem_utf8EncodeChar {c : Char} (h : 128 ≤ c.toNat) {b : UInt8}
    (hb : b ∈ String.utf8EncodeChar c) : 128 ≤ b.toNat := by
  change 128 ≤ c.val.toNat at h
  rw [String.utf8EncodeChar, if_neg (by omega)] at hb
  split at hb
  · simp only [List.mem_cons, List.not_mem_nil, or_false] at hb
    rcases hb with rfl | rfl <;> simp only [UInt8.toNat_ofNat'] <;> omega
  split at hb
  · simp only [List.mem_cons, List.not_mem_nil, or_false] at hb
    rcases hb with rfl | rfl | rfl <;> simp only [UInt8.toNat_ofNat'] <;> omega
  · simp only [List.mem_cons, List.not_mem_nil, or_false] at hb
    rcases hb with rfl | rfl | rfl | rfl <;> simp only [UInt8.toNat_ofNat'] <;> omega

end Utf8

/-! ## Blanks at the ends

Taking off blanks leaves the middle of a text as it is. The ASCII blanks can be taken off the bytes
already, and nothing is changed by that. -/

section

variable {α : Type} {p : α → Bool}

def trimWith (p : α → Bool) (xs : List α) : List α :=
  ((xs.dropWhile p).reverse.dropWhile p).reverse

/-- What is taken off satisfies `p`. -/
theorem trimWith_split (p : α → Bool) (xs : List α) :
    ∃ left right, xs = left ++ trimWith p xs ++ right ∧ (∀ x ∈ left, p x) ∧ ∀ x ∈ right, p x := by
  refine ⟨xs.takeWhile p, ((xs.dropWhile p).reverse.takeWhile p).reverse, ?_, ?_, ?_⟩
  · rw [trimWith, List.append_assoc, ← List.reverse_append, List.takeWhile_append_dropWhile,
      List.reverse_reverse, List.takeWhile_append_dropWhile]
  · exact List.all_eq_true.mp List.all_takeWhile
  · intro x hx
    exact List.all_eq_true.mp List.all_takeWhile x (List.mem_reverse.mp hx)

theorem trimWith_append {left right : List α} (hl : ∀ x ∈ left, p x) (hr : ∀ x ∈ right, p x)
    (xs : List α) : trimWith p (left ++ xs ++ right) = trimWith p xs := by
  unfold trimWith
  rw [List.append_assoc, List.dropWhile_append_of_pos hl, List.dropWhile_append]
  cases hx : xs.dropWhile p with
  | nil =>
    have hright : right.dropWhile p = [] := by
      rw [← List.append_nil right, List.dropWhile_append_of_pos hr, List.dropWhile_nil]
    rw [List.isEmpty_nil, if_pos rfl, hright]
  | cons y ys =>
    have hr' : ∀ x ∈ right.reverse, p x := fun x hx => hr x (List.mem_reverse.mp hx)
    rw [List.isEmpty_cons, if_neg (by decide), List.reverse_append,
      List.dropWhile_append_of_pos hr']

theorem trimWith_trimWith (p : α → Bool) (xs : List α) :
    trimWith p (trimWith p xs) = trimWith p xs := by
  obtain ⟨left, right, hxs, hl, hr⟩ := trimWith_split p xs
  calc trimWith p (trimWith p xs) = trimWith p (left ++ trimWith p xs ++ right) :=
        (trimWith_append hl hr _).symm
    _ = trimWith p xs := by rw [← hxs]

/-- Taking off more does not depend on whether less was taken off before. -/
theorem trimWith_trimWith_of_imp {q : α → Bool} (h : ∀ x, q x → p x) (xs : List α) :
    trimWith p (trimWith q xs) = trimWith p xs := by
  obtain ⟨left, right, hxs, hl, hr⟩ := trimWith_split q xs
  calc trimWith p (trimWith q xs) = trimWith p (left ++ trimWith q xs ++ right) :=
        (trimWith_append (fun x hx => h x (hl x hx)) (fun x hx => h x (hr x hx)) _).symm
    _ = trimWith p xs := by rw [← hxs]

theorem trimWith_of_all {xs : List α} (h : ∀ x ∈ xs, p x) : trimWith p xs = [] := by
  rw [trimWith, List.dropWhile_eq_nil_iff.mpr h]
  rfl

/-- What does not satisfy `p` stops what is taken off, from either side. -/
theorem dropWhile_append_of_none {front : List α} (hne : front ≠ []) (h : ∀ x ∈ front, p x = false)
    (rest : List α) : (front ++ rest).dropWhile p = front ++ rest := by
  cases front with
  | nil => exact absurd rfl hne
  | cons x front => exact List.dropWhile_cons_of_neg (by simp [h x (List.mem_cons_self ..)])

/-- After a front without blanks they are taken off at the end only. -/
theorem trimWith_append_of_none {front : List α} (hne : front ≠ []) (h : ∀ x ∈ front, p x = false)
    (rest : List α) : ∃ kept, trimWith p (front ++ rest) = front ++ kept ∧ kept <+: rest := by
  have hstop := dropWhile_append_of_none (List.reverse_ne_nil_iff.mpr hne)
    (fun x hx => h x (List.mem_reverse.mp hx)) []
  have hend : (rest.reverse ++ front.reverse).dropWhile p =
      rest.reverse.dropWhile p ++ front.reverse := by
    rw [List.append_nil] at hstop
    rw [List.dropWhile_append]
    split
    · rename_i hempty
      rw [hstop, List.isEmpty_iff.mp hempty, List.nil_append]
    · rfl
  refine ⟨rest.rdropWhile p, ?_, List.rdropWhile_prefix p rest⟩
  rw [trimWith, dropWhile_append_of_none hne h, List.reverse_append, hend, List.reverse_append,
    List.reverse_reverse]
  rfl

theorem trimWith_of_none {xs : List α} (h : ∀ x ∈ xs, p x = false) : trimWith p xs = xs := by
  cases xs with
  | nil => rfl
  | cons x xs =>
    obtain ⟨kept, htrim, hkept⟩ := trimWith_append_of_none (List.cons_ne_nil x xs) h []
    rw [List.prefix_nil.mp hkept, List.append_nil] at htrim
    exact htrim

end

theorem toList_trim (text : String) : (trim text).toList = trimWith isBlank text.toList := by
  rw [trim, String.toList_ofList]
  rfl

theorem trim_eq_iff {text text' : String} :
    trim text = text' ↔ trimWith isBlank text.toList = text'.toList := by
  rw [← toList_trim, String.toList_inj]

@[simp] theorem trim_trim (text : String) : trim (trim text) = trim text := by
  rw [trim_eq_iff, toList_trim, trimWith_trimWith]

theorem trim_of_none {text : String} (h : ∀ c ∈ text.toList, isBlank c = false) :
    trim text = text := by
  rw [trim_eq_iff, trimWith_of_none h]

theorem trim_of_blank {text : String} (h : ∀ c ∈ text.toList, isBlank c) : trim text = "" :=
  trim_eq_iff.mpr (trimWith_of_all h)

/-- The visible ASCII characters are no blanks. -/
theorem isBlank_of_visible {c : Char} (h : 33 ≤ c.toNat ∧ c.toNat < 127) : isBlank c = false := by
  rw [Bool.eq_false_iff]
  intro hblank
  simp only [isBlank, Bool.or_eq_true, Bool.and_eq_true, decide_eq_true_eq, beq_iff_eq] at hblank
  omega

theorem visible_of_isDigit {c : Char} (h : c.isDigit) : 33 ≤ c.toNat ∧ c.toNat < 127 := by
  simp only [Char.isDigit, Bool.and_eq_true, decide_eq_true_eq] at h
  have h0 : 48 ≤ c.toNat := h.1
  have h9 : c.toNat ≤ 57 := h.2
  omega

def isBlankAscii (c : Char) : Bool := decide (c.toNat < 128) && isBlankByte (UInt8.ofNat c.toNat)

theorem isBlank_of_isBlankAscii {c : Char} (h : isBlankAscii c) : isBlank c := by
  rw [isBlankAscii, Bool.and_eq_true, decide_eq_true_eq] at h
  obtain ⟨hc, hb⟩ := h
  have hn : (UInt8.ofNat c.toNat).toNat = c.toNat := by
    rw [UInt8.toNat_ofNat']
    omega
  simp only [isBlankByte, Bool.or_eq_true, decide_eq_true_eq, ← UInt8.toNat_inj, hn] at hb
  simp only [isBlank, Bool.or_eq_true, Bool.and_eq_true, decide_eq_true_eq, beq_iff_eq]
  have h10 : (10 : UInt8).toNat = 10 := rfl
  have h12 : (12 : UInt8).toNat = 12 := rfl
  have h13 : (13 : UInt8).toNat = 13 := rfl
  have h9 : (9 : UInt8).toNat = 9 := rfl
  have h32 : (32 : UInt8).toNat = 32 := rfl
  omega

namespace Utf8

theorem bytes_of_isBlankAscii {c : Char} (h : isBlankAscii c) :
    ∃ b, String.utf8EncodeChar c = [b] ∧ isBlankByte b := by
  rw [isBlankAscii, Bool.and_eq_true, decide_eq_true_eq] at h
  exact ⟨_, utf8EncodeChar_ascii h.1, h.2⟩

theorem char_of_isBlankByte {b : UInt8} (h : isBlankByte b) :
    ∃ c, String.utf8EncodeChar c = [b] ∧ isBlankAscii c := by
  simp only [isBlankByte, Bool.or_eq_true, decide_eq_true_eq] at h
  rcases h with (((rfl | rfl) | rfl) | rfl) | rfl
  · exact ⟨' ', by decide, by decide⟩
  · exact ⟨'\t', by decide, by decide⟩
  · exact ⟨'\n', by decide, by decide⟩
  · exact ⟨'\x0c', by decide, by decide⟩
  · exact ⟨'\r', by decide, by decide⟩

theorem not_isBlankByte {c : Char} (h : isBlankAscii c = false) {b : UInt8}
    (hb : b ∈ String.utf8EncodeChar c) : isBlankByte b = false := by
  rcases Nat.lt_or_ge c.toNat 128 with hc | hc
  · rw [utf8EncodeChar_ascii hc, List.mem_singleton] at hb
    rw [isBlankAscii, decide_eq_true hc, Bool.true_and] at h
    rwa [hb]
  · have hbig := le_of_mem_utf8EncodeChar hc hb
    rw [Bool.eq_false_iff]
    intro hblank
    simp only [isBlankByte, Bool.or_eq_true, decide_eq_true_eq] at hblank
    rcases hblank with (((rfl | rfl) | rfl) | rfl) | rfl <;> exact absurd hbig (by decide)

/-- A list of blank bytes is a text of blanks. -/
theorem eq_encode_of_isBlankByte {bytes : List UInt8} (h : ∀ b ∈ bytes, isBlankByte b) :
    ∃ cs, bytes = encode cs ∧ ∀ c ∈ cs, isBlankAscii c := by
  induction bytes with
  | nil => exact ⟨[], rfl, by simp⟩
  | cons b bytes ih =>
    obtain ⟨cs, hcs, hall⟩ := ih fun x hx => h x (List.mem_cons_of_mem _ hx)
    obtain ⟨c, hc, hblank⟩ := char_of_isBlankByte (h b (List.mem_cons_self ..))
    refine ⟨c :: cs, ?_, List.forall_mem_cons.mpr ⟨hblank, hall⟩⟩
    rw [encode_cons, hc, ← hcs]
    rfl

theorem dropWhile_encode (cs : List Char) :
    (encode cs).dropWhile isBlankByte = encode (cs.dropWhile isBlankAscii) := by
  induction cs with
  | nil => rfl
  | cons c cs ih =>
    rw [encode_cons]
    cases h : isBlankAscii c with
    | true =>
      obtain ⟨b, hb, hblank⟩ := bytes_of_isBlankAscii h
      rw [hb, List.dropWhile_cons_of_pos h, ← ih]
      exact List.dropWhile_cons_of_pos hblank
    | false =>
      rw [List.dropWhile_cons_of_neg (by simp [h]), encode_cons]
      exact dropWhile_append_of_none (utf8EncodeChar_ne_nil c) (fun b hb => not_isBlankByte h hb) _

theorem dropWhile_reverse_encode (cs : List Char) :
    ((encode cs).reverse.dropWhile isBlankByte).reverse =
      encode (cs.reverse.dropWhile isBlankAscii).reverse := by
  induction cs using List.reverseRecOn with
  | nil => rfl
  | append_singleton cs c ih =>
    have hlast : encode (cs ++ [c]) = encode cs ++ String.utf8EncodeChar c := by
      rw [encode_append, encode_cons]
      exact congrArg _ (List.append_nil _)
    rw [hlast, List.reverse_append, List.reverse_append, List.reverse_singleton,
      List.singleton_append]
    cases h : isBlankAscii c with
    | true =>
      obtain ⟨b, hb, hblank⟩ := bytes_of_isBlankAscii h
      rw [hb, List.dropWhile_cons_of_pos h, ← ih]
      exact congrArg _ (List.dropWhile_cons_of_pos hblank)
    | false =>
      have hne : (String.utf8EncodeChar c).reverse ≠ [] := by
        rw [ne_eq, List.reverse_eq_nil_iff]
        exact utf8EncodeChar_ne_nil c
      rw [List.dropWhile_cons_of_neg (by simp [h]), List.reverse_cons, List.reverse_reverse, hlast,
        dropWhile_append_of_none hne fun b hb => not_isBlankByte h (List.mem_reverse.mp hb)]
      rw [← List.reverse_append, List.reverse_reverse]

end Utf8

theorem trimBytes_encode (cs : List Char) :
    trimBytes (Utf8.encode cs) = Utf8.encode (trimWith isBlankAscii cs) := by
  rw [trimBytes, Utf8.dropWhile_encode, Utf8.dropWhile_reverse_encode]
  rfl

/-- Bytes are text if they are without their blanks. -/
theorem exists_text_of_trimBytes {bytes : List UInt8} {cs : List Char}
    (h : trimBytes bytes = Utf8.encode cs) : ∃ ds, bytes = Utf8.encode ds := by
  obtain ⟨left, right, hsplit, hl, hr⟩ := trimWith_split isBlankByte bytes
  obtain ⟨ls, hls, _⟩ := Utf8.eq_encode_of_isBlankByte hl
  obtain ⟨rs, hrs, _⟩ := Utf8.eq_encode_of_isBlankByte hr
  refine ⟨ls ++ cs ++ rs, ?_⟩
  rw [Utf8.encode_append, Utf8.encode_append, ← hls, ← hrs, ← h]
  exact hsplit

/-- What is left of a text when the blanks have been taken off its bytes and then off itself. -/
theorem trim_of_trimBytes (cs : List Char) :
    trim (String.ofList (trimWith isBlankAscii cs)) = trim (String.ofList cs) := by
  rw [trim_eq_iff, toList_trim, String.toList_ofList, String.toList_ofList]
  exact trimWith_trimWith_of_imp (fun _ => isBlank_of_isBlankAscii) cs

end TrailingYear
