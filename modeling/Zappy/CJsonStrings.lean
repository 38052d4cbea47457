import Zappy.CJson

/-!
# Strings in JSON texts

`parse_string` reads every text of a string, escaped characters included, and gives the string up to its first zero.
`print_string_ptr` writes a text of its string, and its count of additional characters is right.
-/

namespace Zappy.CJson

open JsonText Reception

variable {s t rest digits : List UInt8} {b : UInt8} {n : Nat} {c : Char}

/-! ### UTF-16 literals -/

private theorem parseHex4_eq (h : codeUnit digits = some n) : parseHex4 digits = n := by
  obtain ⟨ns, hns, rfl⟩ := Option.map_eq_some_iff.1 h
  rw [parseHex4, hns]
  dsimp only
  congr 1
  funext h d
  rw [Nat.shiftLeft_eq]

/-- The low six bits of a code point, marked as a byte that continues it. -/
private theorem continuation_eq (n : Nat) : UInt8.ofNat ((n ||| 0x80) &&& 0xBF) = UInt8.ofNat (n % 64 + 0x80) := by
  have hsmall : ∀ k < 256, (k ||| 0x80) &&& 0xBF = k % 64 + 0x80 := by decide +kernel
  have hmod : ((n ||| 0x80) &&& 0xBF) % 256 = ((n % 256 ||| 0x80) &&& 0xBF) % 256 := by
    rw [show 256 = 2 ^ 8 from rfl, Nat.and_mod_two_pow, Nat.or_mod_two_pow, Nat.and_mod_two_pow,
      Nat.or_mod_two_pow, Nat.mod_mod]
  refine UInt8.toNat_inj.1 ?_
  rw [UInt8.toNat_ofNat', UInt8.toNat_ofNat', hmod, hsmall _ (Nat.mod_lt _ (by decide))]
  omega

/-- The high bits of a code point behind the mark of its length. -/
private theorem first_eq {mark k : Nat} (hmark : mark = 2 ^ 8 - 2 ^ k) (hk : k < 8) (hn : n < 2 ^ k) :
    UInt8.ofNat ((n ||| mark) &&& 0xFF) = UInt8.ofNat (n + mark) := by
  have hmask : (n ||| mark) &&& 0xFF = (n ||| mark) % 2 ^ 8 := Nat.and_two_pow_sub_one_eq_mod _ 8
  have hmul : mark = (2 ^ (8 - k) - 1) * 2 ^ k := by
    rw [hmark, Nat.sub_mul, Nat.one_mul, ← pow_add, Nat.sub_add_cancel hk.le]
  have hor : n ||| mark = n + mark := by
    rw [hmul, Nat.or_comm, Nat.mul_comm, ← Nat.two_pow_add_eq_or_of_lt hn, Nat.add_comm]
  refine UInt8.toNat_inj.1 ?_
  rw [hmask, hor, UInt8.toNat_ofNat', UInt8.toNat_ofNat', Nat.mod_mod]

private theorem shiftRight_six (n : Nat) : n >>> 6 = n / 64 := Nat.shiftRight_eq_div_pow n 6

/-- `utf16_literal_to_utf8` encodes every code point. -/
private theorem encodeUtf8_eq (c : Char) : encodeUtf8 c.toNat = some (String.utf8EncodeChar c) := by
  have hmax : c.toNat ≤ 0x10FFFF := by
    rcases c.valid with h | h
    · exact (Nat.le_of_lt h).trans (by decide)
    · exact Nat.le_of_lt_succ h.2
  have hc : c.val.toNat = c.toNat := rfl
  unfold encodeUtf8 String.utf8EncodeChar
  rw [hc]
  generalize c.toNat = n at hmax
  dsimp only
  by_cases h1 : n < 0x80
  · have hlow : n &&& 0x7F = n := by
      rw [show n &&& 0x7F = n % 2 ^ 7 from Nat.and_two_pow_sub_one_eq_mod _ 7]
      exact Nat.mod_eq_of_lt h1
    rw [if_pos h1, if_pos (Nat.le_of_lt_succ h1), hlow]
  rw [if_neg h1, if_neg (fun h => h1 (Nat.lt_succ_of_le h))]
  by_cases h2 : n < 0x800
  · have hfirst : UInt8.ofNat ((n / 64 ||| 0xC0) &&& 0xFF) = UInt8.ofNat (n / 64 + 0xC0) :=
      first_eq (k := 6) (by decide) (by decide) (by omega)
    rw [if_pos h2, if_pos (Nat.le_of_lt_succ h2), encode, encode, shiftRight_six, continuation_eq, hfirst,
      Nat.mod_eq_of_lt (by omega : n / 64 < 0x20)]
  rw [if_neg h2, if_neg (fun h => h2 (Nat.lt_succ_of_le h))]
  by_cases h3 : n < 0x10000
  · have hfirst : UInt8.ofNat ((n / 64 / 64 ||| 0xE0) &&& 0xFF) = UInt8.ofNat (n / 64 / 64 + 0xE0) :=
      first_eq (k := 5) (by decide) (by decide) (by omega)
    rw [if_pos h3, if_pos (Nat.le_of_lt_succ h3), encode, encode, encode, shiftRight_six, shiftRight_six,
      continuation_eq, continuation_eq, hfirst, Nat.div_div_eq_div_mul, Nat.mod_eq_of_lt (by omega : n / 4096 < 0x10)]
  · have hfirst : UInt8.ofNat ((n / 64 / 64 / 64 ||| 0xF0) &&& 0xFF) = UInt8.ofNat (n / 64 / 64 / 64 + 0xF0) :=
      first_eq (k := 4) (by decide) (by decide) (by omega)
    rw [if_neg h3, if_neg (fun h => h3 (Nat.lt_succ_of_le h)), if_pos hmax, encode, encode, encode, encode,
      shiftRight_six, shiftRight_six, shiftRight_six, continuation_eq, continuation_eq, continuation_eq, hfirst,
      show n / 64 / 64 / 64 = n / 262144 by omega, show n / 64 / 64 = n / 4096 by omega,
      Nat.mod_eq_of_lt (by omega : n / 262144 < 0x08)]

/-- A literal that is no surrogate. -/
private theorem utf16_unit (hlen : digits.length = 4) (h : codeUnit digits = some c.toNat) (rest : List UInt8) :
    utf16LiteralToUtf8 (backslash :: 0x75 :: (digits ++ rest)) = some (String.utf8EncodeChar c, 6) := by
  have hdigits : ((backslash :: 0x75 :: (digits ++ rest)).drop 2).take 4 = digits := by
    rw [List.drop_succ_cons, List.drop_succ_cons, List.drop_zero, ← hlen, List.take_left']
    rfl
  have hlong : ¬(backslash :: 0x75 :: (digits ++ rest)).length < 6 := by
    simp only [List.length_cons, List.length_append, hlen]
    omega
  have hlow : ¬(0xDC00 ≤ c.toNat ∧ c.toNat ≤ 0xDFFF) := by
    rcases c.valid with hv | hv
    · exact fun hs => absurd hs.1 (Nat.not_le.2 (Nat.lt_trans hv (by decide)))
    · exact fun hs => absurd hs.2 (Nat.not_le.2 hv.1)
  have hhigh : ¬(0xD800 ≤ c.toNat ∧ c.toNat ≤ 0xDBFF) := by
    rcases c.valid with hv | hv
    · exact fun hs => absurd hs.1 (Nat.not_le.2 hv)
    · exact fun hs => absurd hs.2 (Nat.not_le.2 (Nat.lt_trans (by decide) hv.1))
  unfold utf16LiteralToUtf8
  dsimp only
  rw [if_neg hlong, hdigits, parseHex4_eq h, if_neg hlow, if_neg hhigh, encodeUtf8_eq, Option.map_some]

/-- Two literals that are surrogates. -/
private theorem utf16_pair {high low : List UInt8} {h l : Nat} (hlen : high.length = 4) (llen : low.length = 4)
    (hhigh : codeUnit high = some h) (hlow : codeUnit low = some l) (hrange : 0xD800 ≤ h ∧ h ≤ 0xDBFF)
    (lrange : 0xDC00 ≤ l ∧ l ≤ 0xDFFF) (hc : c.toNat = 0x10000 + (h - 0xD800) * 0x400 + (l - 0xDC00))
    (rest : List UInt8) :
    utf16LiteralToUtf8 (backslash :: 0x75 :: (high ++ backslash :: 0x75 :: (low ++ rest))) =
      some (String.utf8EncodeChar c, 12) := by
  have hfirst : ((backslash :: 0x75 :: (high ++ backslash :: 0x75 :: (low ++ rest))).drop 2).take 4 = high := by
    rw [List.drop_succ_cons, List.drop_succ_cons, List.drop_zero, ← hlen, List.take_left']
    rfl
  have hsecond : (backslash :: 0x75 :: (high ++ backslash :: 0x75 :: (low ++ rest))).drop 6 =
      backslash :: 0x75 :: (low ++ rest) := by
    rw [List.drop_succ_cons, List.drop_succ_cons, ← hlen, List.drop_left']
    rfl
  have hdigits : ((backslash :: 0x75 :: (low ++ rest)).drop 2).take 4 = low := by
    rw [List.drop_succ_cons, List.drop_succ_cons, List.drop_zero, ← llen, List.take_left']
    rfl
  have hlong : ¬(backslash :: 0x75 :: (high ++ backslash :: 0x75 :: (low ++ rest))).length < 6 := by
    simp only [List.length_cons, List.length_append, hlen]
    omega
  have llong : ¬(backslash :: 0x75 :: (low ++ rest)).length < 6 := by
    simp only [List.length_cons, List.length_append, llen]
    omega
  -- the ten low bits of each surrogate
  have hbits : h &&& 0x3FF = h - 0xD800 := by
    rw [show h &&& 0x3FF = h % 2 ^ 10 from Nat.and_two_pow_sub_one_eq_mod _ 10]
    omega
  have lbits : l &&& 0x3FF = l - 0xDC00 := by
    rw [show l &&& 0x3FF = l % 2 ^ 10 from Nat.and_two_pow_sub_one_eq_mod _ 10]
    omega
  have hcode : 0x10000 + (((h &&& 0x3FF) <<< 10) ||| (l &&& 0x3FF)) = c.toNat := by
    rw [hbits, lbits, ← Nat.shiftLeft_add_eq_or_of_lt (by omega), Nat.shiftLeft_eq, hc]
    omega
  unfold utf16LiteralToUtf8
  dsimp only
  rw [if_neg hlong, hfirst, parseHex4_eq hhigh, if_neg (by omega), if_pos hrange, hsecond, if_neg llong,
    if_neg (fun hne => hne rfl), hdigits, parseHex4_eq hlow, if_neg (by omega), hcode, encodeUtf8_eq, Option.map_some]

/-! ### Reading -/

/-- A byte that is no backslash and no quote is passed. -/
private theorem closing_plain (hquote : b ≠ quote) (hback : b ≠ backslash) (rest : List UInt8) :
    closing (b :: rest) = (closing rest).map fun r => (b :: r.1, r.2) := by
  cases rest with
  | nil => simp [closing, hquote]
  | cons d rest => rw [closing, if_neg hquote, if_neg hback]

private theorem closing_escape (e : UInt8) (rest : List UInt8) :
    closing (backslash :: e :: rest) = (closing rest).map fun r => (backslash :: e :: r.1, r.2) := by
  rw [closing, if_neg (by decide), if_pos rfl]

private theorem hexValue_plain {d : Nat} (h : hexValue b = some d) : b ≠ quote ∧ b ≠ backslash := by
  constructor
  all_goals
    rintro rfl
    cases h

private theorem closing_digits (h : codeUnit digits = some n) (rest : List UInt8) :
    closing (digits ++ rest) = (closing rest).map fun r => (digits ++ r.1, r.2) := by
  obtain ⟨ns, hns, -⟩ := Option.map_eq_some_iff.1 h
  clear h
  induction digits generalizing ns with
  | nil => simp
  | cons d ds ih =>
    rw [List.mapM_cons] at hns
    obtain ⟨k, hk, hrest⟩ := Option.bind_eq_some_iff.1 hns
    obtain ⟨ks, hks, -⟩ := Option.bind_eq_some_iff.1 hrest
    obtain ⟨hquote, hback⟩ := hexValue_plain hk
    rw [List.cons_append, closing_plain hquote hback, ih ks hks, Option.map_map]
    rfl

private theorem closing_char (h : CharText s t) (rest : List UInt8) :
    closing (t ++ rest) = (closing rest).map fun r => (t ++ r.1, r.2) := by
  cases h with
  | plain _ hquote hback => exact closing_plain hquote hback rest
  | short => exact closing_escape _ rest
  | unit _ hunit =>
    rw [List.cons_append, List.cons_append, closing_escape, closing_digits hunit, Option.map_map]
    rfl
  | pair _ _ hhigh hlow =>
    rw [List.cons_append, List.cons_append, closing_escape, List.append_assoc, closing_digits hhigh, List.cons_append,
      List.cons_append, closing_escape, closing_digits hlow, Option.map_map, Option.map_map, Option.map_map]
    congr 1
    funext r
    simp

/-- The first loop stops at the quote behind the text of a string. -/
theorem closing_text (h : StringText s t) (rest : List UInt8) : closing (t ++ quote :: rest) = some (t, rest) := by
  induction h with
  | nil => cases rest <;> rfl
  | cons hchar _ ih =>
    rw [List.append_assoc, closing_char hchar, ih]
    rfl

private theorem unescape_plain (hback : b ≠ backslash) (n : Nat) (rest : List UInt8) :
    unescape (n + 1) (b :: rest) = (unescape n rest).map (b :: ·) := if_pos hback

private theorem unescape_short {e : UInt8} (h : shortEscape e = some b) (n : Nat) (rest : List UInt8) :
    unescape (n + 1) (backslash :: e :: rest) = (unescape n rest).map (b :: ·) := by
  have hu : e ≠ 0x75 := by
    rintro rfl
    cases h
  change (if e = 0x75 then _ else (shortEscape e).bind fun c => (unescape n rest).map (c :: ·)) = _
  rw [if_neg hu, h, Option.bind_some]

private theorem unescape_utf16 {out rest : List UInt8} {k : Nat}
    (h : utf16LiteralToUtf8 (backslash :: 0x75 :: rest) = some (out, k)) (n : Nat) :
    unescape (n + 1) (backslash :: 0x75 :: rest) =
      (unescape n ((backslash :: 0x75 :: rest).drop k)).map (out ++ ·) := by
  change ((utf16LiteralToUtf8 (backslash :: 0x75 :: rest)).bind fun r =>
    (unescape n ((backslash :: 0x75 :: rest).drop r.2)).map (r.1 ++ ·)) = _
  rw [h, Option.bind_some]

/-- One character takes one turn of the second loop. -/
private theorem unescape_char (h : CharText s t) (n : Nat) (rest : List UInt8) :
    unescape (n + 1) (t ++ rest) = (unescape n rest).map (s ++ ·) := by
  cases h with
  | plain _ _ hback => exact unescape_plain hback n rest
  | short he => exact unescape_short he n rest
  | @unit digits _ hlen hunit =>
    have hdrop : (backslash :: 0x75 :: (digits ++ rest)).drop 6 = rest := by
      rw [List.drop_succ_cons, List.drop_succ_cons, ← hlen, List.drop_left']
      rfl
    rw [List.cons_append, List.cons_append, unescape_utf16 (utf16_unit hlen hunit rest), hdrop]
  | @pair high low _ _ _ hlen llen hhigh hlow hrange lrange hc =>
    have hdrop : (backslash :: 0x75 :: (high ++ backslash :: 0x75 :: (low ++ rest))).drop 12 = rest := by
      have hall : (backslash :: 0x75 :: (high ++ backslash :: 0x75 :: low)).length = 12 := by
        simp only [List.length_cons, List.length_append, hlen, llen]
      rw [← hall, show backslash :: 0x75 :: (high ++ backslash :: 0x75 :: (low ++ rest)) =
        (backslash :: 0x75 :: (high ++ backslash :: 0x75 :: low)) ++ rest by simp, List.drop_left']
      rfl
    rw [List.cons_append, List.cons_append, List.append_assoc, List.cons_append, List.cons_append,
      unescape_utf16 (utf16_pair hlen llen hhigh hlow hrange lrange hc rest), hdrop]

private theorem CharText.ne_nil (h : CharText s t) : t ≠ [] := by
  cases h <;> simp

theorem unescape_text (h : StringText s t) (hn : t.length ≤ n) : unescape n t = some s := by
  induction h generalizing n with
  | nil => cases n <;> rfl
  | @cons _ _ t t' hchar _ ih =>
    have hpos := List.length_pos_iff.2 (CharText.ne_nil hchar)
    rw [List.length_append] at hn
    obtain ⟨m, rfl⟩ := Nat.exists_eq_add_of_le' (by omega : 1 ≤ n)
    rw [unescape_char hchar, ih (by omega)]
    rfl

/-- `parse_string` reads the text of a string up to its closing quote. -/
theorem parseString_text (h : StringText s t) (rest : List UInt8) :
    parseString (quote :: (t ++ quote :: rest)) = some (cString s, rest) := by
  rw [parseString, if_neg (fun hne => hne rfl), closing_text h, Option.bind_some, unescape_text h (Nat.le_refl _),
    Option.map_some]

/-! ### Printing -/

private theorem codeUnit_control : ∀ n < 32,
    codeUnit [0x30, 0x30, hexDigit ((UInt8.ofNat n).toNat / 16), hexDigit ((UInt8.ofNat n).toNat % 16)] = some n ∧
      (Char.ofNat n).toNat = n ∧ String.utf8EncodeChar (Char.ofNat n) = [UInt8.ofNat n] := by decide +kernel

/-- Every byte is escaped as a character is. -/
private theorem charText_escape (b : UInt8) : CharText [b] (escape b) := by
  unfold escape
  split_ifs with hplain hback hquote h8 h12 h10 h13 h9
  · exact .plain hplain.1 hplain.2.1 hplain.2.2
  · rw [hback]
    exact .short rfl
  · rw [hquote]
    exact .short rfl
  · rw [h8]
    exact .short rfl
  · rw [h12]
    exact .short rfl
  · rw [h10]
    exact .short rfl
  · rw [h13]
    exact .short rfl
  · rw [h9]
    exact .short rfl
  · have hsmall : b.toNat < 32 := by
      by_contra hlarge
      exact hplain ⟨Nat.not_lt.1 hlarge, hquote, hback⟩
    obtain ⟨hunit, hchar, hutf8⟩ := codeUnit_control b.toNat hsmall
    rw [UInt8.ofNat_toNat] at hunit hutf8
    have hcontrol := CharText.unit (c := Char.ofNat b.toNat) rfl (hunit.trans (congrArg some hchar.symm))
    rwa [hutf8] at hcontrol

theorem stringText_escape (s : List UInt8) : StringText s (s.flatMap escape) := by
  induction s with
  | nil => exact .nil
  | cons b s ih => exact .cons (charText_escape b) ih

private theorem escapeCharacter_eq : ∀ n < 256,
    (escape (UInt8.ofNat n)).length = escapeCharacter (UInt8.ofNat n) + 1 ∧
      (escapeCharacter (UInt8.ofNat n) = 0 → escape (UInt8.ofNat n) = [UInt8.ofNat n]) := by decide +kernel

private theorem length_escape (b : UInt8) : (escape b).length = escapeCharacter b + 1 := by
  have hall := (escapeCharacter_eq b.toNat b.toNat_lt).1
  rwa [UInt8.ofNat_toNat] at hall

private theorem escape_of_zero (h : escapeCharacter b = 0) : escape b = [b] := by
  have hall := (escapeCharacter_eq b.toNat b.toNat_lt).2
  rw [UInt8.ofNat_toNat] at hall
  exact hall h

/-- The count of additional characters is right. -/
private theorem length_flatMap_escape (s : List UInt8) : (s.flatMap escape).length = s.length + escapeCharacters s := by
  induction s with
  | nil => rfl
  | cons b s ih =>
    rw [List.flatMap_cons, List.length_append, ih, length_escape, escapeCharacters, escapeCharacters, List.map_cons,
      List.sum_cons, List.length_cons]
    omega

/-- Nothing is escaped where the count is zero. -/
private theorem flatMap_escape_of_zero (h : escapeCharacters s = 0) : s.flatMap escape = s := by
  induction s with
  | nil => rfl
  | cons b s ih =>
    rw [escapeCharacters, List.map_cons, List.sum_cons, Nat.add_eq_zero_iff] at h
    rw [List.flatMap_cons, escape_of_zero h.1, ih h.2, List.singleton_append]

/-- Both branches of `print_string_ptr` write the string between its quotes. -/
theorem printStringPtr_eq (s : List UInt8) : printStringPtr s = quote :: (s.flatMap escape ++ [quote]) := by
  unfold printStringPtr
  dsimp only
  split
  · rename_i hzero
    rw [flatMap_escape_of_zero hzero]
  · rw [← length_flatMap_escape, List.take_length]

end Zappy.CJson
