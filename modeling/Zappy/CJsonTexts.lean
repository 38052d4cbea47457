import Zappy.CJsonStrings

/-!
# Values and their texts (`cJSON.c`)

`cJSON_Parse` reads every JSON text that is not nested too deeply, and rejects the others.  What `cJSON_Print` and
`cJSON_PrintUnformatted` write is a JSON text for the value, so it is read back as that value.
-/

namespace Zappy.CJson

open JsonText Reception

variable {D : Type*} {lib : CDouble D} {v : Value D} {t rest w : List UInt8} {b : UInt8} {levels : Nat}

/-! ### Blanks -/

/-- What comes next does not go on with a number. -/
def EndsNumber (rest : List UInt8) : Prop := ∀ b ∈ rest.head?, isNumberChar b = false

private theorem endsNumber_cons (h : isNumberChar b = false) (rest : List UInt8) : EndsNumber (b :: rest) := by
  rintro c ⟨⟩
  exact h

/-- Blanks end a number, and so does what comes behind them. -/
private theorem EndsNumber.blank (hrest : EndsNumber rest) (hw : Blank w) : EndsNumber (w ++ rest) := by
  cases w with
  | nil => exact hrest
  | cons b w =>
    rintro c ⟨⟩
    rcases hw b List.mem_cons_self with rfl | rfl | rfl | rfl <;> rfl

private theorem endsNumber_nil : EndsNumber [] := fun _ h => (by cases h)

theorem endsNumber_blank (hw : Blank w) : EndsNumber w := by
  rw [← List.append_nil w]
  exact endsNumber_nil.blank hw

private theorem skipWhitespace_blank (hw : Blank w) (hb : 32 < b) (rest : List UInt8) :
    skipWhitespace (w ++ b :: rest) = b :: rest := by
  have hall : ∀ c ∈ w, decide (c ≤ 32) = true := by
    intro c hc
    rcases hw c hc with rfl | rfl | rfl | rfl <;> rfl
  rw [skipWhitespace, List.dropWhile_append_of_pos hall, List.dropWhile_cons_of_neg]
  simpa using hb

private theorem skipWhitespace_value {num : D → List UInt8 → Prop} (hw : Blank w) (h : Denotes num v t)
    (rest : List UInt8) : skipWhitespace (w ++ (t ++ rest)) = t ++ rest := by
  obtain ⟨b, t', rfl, hb, -⟩ := h.head
  exact skipWhitespace_blank hw hb _

/-! ### Numbers -/

/-- The text is short enough to be copied, and `strtod` takes all of it for the number. -/
def Reads (lib : CDouble D) (d : D) (t : List UInt8) : Prop := t.length < 64 ∧ lib.strtod t = some (d, t.length)

private theorem parseNumber_text {d : D} (ht : NumberText t) (h : Reads lib d t) (hrest : EndsNumber rest) :
    parseNumber lib (t ++ rest) = some (.number d, rest) := by
  have hcopy : ((t ++ rest).take 63).takeWhile isNumberChar = t := by
    rw [List.take_append, List.take_of_length_le (Nat.le_of_lt_succ h.1),
      List.takeWhile_append_of_pos fun b hb => ht.isNumberChar hb]
    refine (congrArg (t ++ ·) ?_).trans (List.append_nil t)
    cases rest with
    | nil => rw [List.take_nil, List.takeWhile_nil]
    | cons b rest =>
      cases 63 - t.length with
      | zero => rfl
      | succ k =>
        rw [List.take_succ_cons, List.takeWhile_cons_of_neg]
        rw [hrest b rfl]
        exact Bool.false_ne_true
  rw [parseNumber, hcopy, h.2, Option.map_some, List.drop_left]

/-! ### What `parse_value` does for each kind of text -/

private theorem parseValue_null (levels : Nat) (rest : List UInt8) :
    parseValue lib levels (nullText ++ rest) = some (.null, rest) := by
  rw [parseValue.eq_def]
  rfl

private theorem parseValue_bool (levels : Nat) (b : Bool) (rest : List UInt8) :
    parseValue lib levels (boolText b ++ rest) = some (.bool b, rest) := by
  rw [parseValue.eq_def]
  cases b <;> rfl

/-- A text that begins with none of the letters of `null`, `false` and `true`. -/
private theorem parseValue_other (hn : b ≠ 0x6E) (hf : b ≠ 0x66) (ht : b ≠ 0x74) (levels : Nat) (rest : List UInt8) :
    parseValue lib levels (b :: rest) =
      if b = quote then (parseString (b :: rest)).map fun r => (.string r.1, r.2)
      else if b = 0x2D ∨ (0x30 ≤ b ∧ b ≤ 0x39) then parseNumber lib (b :: rest)
      else match levels with
        | 0 => none
        | levels + 1 =>
          if b = 0x5B then parseArray (parseValue lib levels) rest
          else if b = 0x7B then parseObject (parseValue lib levels) rest
          else none := by
  have hletter : ∀ c t, c ≠ b → (c :: t).isPrefixOf (b :: rest) = false := by
    intro c t hc
    rw [List.isPrefixOf_cons_cons, beq_eq_false_iff_ne.2 hc, Bool.false_and]
  have hnull : nullText.isPrefixOf (b :: rest) = false := hletter 0x6E _ hn.symm
  have hfalse : (boolText false).isPrefixOf (b :: rest) = false := hletter 0x66 _ hf.symm
  have htrue : (boolText true).isPrefixOf (b :: rest) = false := hletter 0x74 _ ht.symm
  rw [parseValue.eq_def, hnull, hfalse, htrue]
  rfl

private theorem parseValue_string (levels : Nat) (rest : List UInt8) : parseValue lib levels (quote :: rest) =
    (parseString (quote :: rest)).map fun r => (.string r.1, r.2) :=
  parseValue_other (by decide) (by decide) (by decide) levels rest

private theorem parseValue_number (levels : Nat) (hb : b = 0x2D ∨ IsDigit b) (rest : List UInt8) :
    parseValue lib levels (b :: rest) = parseNumber lib (b :: rest) := by
  have hne : ∀ c : UInt8, c ≠ 0x2D → ¬IsDigit c → b ≠ c := by
    rintro c hc hdigit rfl
    exact hb.elim hc hdigit
  rw [parseValue_other (hne _ (by decide) (by decide)) (hne _ (by decide) (by decide)) (hne _ (by decide) (by decide)),
    if_neg (hne _ (by decide) (by decide)), if_pos hb]

private theorem parseValue_array (levels : Nat) (rest : List UInt8) :
    parseValue lib (levels + 1) (0x5B :: rest) = parseArray (parseValue lib levels) rest :=
  parseValue_other (by decide) (by decide) (by decide) (levels + 1) rest

private theorem parseValue_object (levels : Nat) (rest : List UInt8) :
    parseValue lib (levels + 1) (0x7B :: rest) = parseObject (parseValue lib levels) rest :=
  parseValue_other (by decide) (by decide) (by decide) (levels + 1) rest

private theorem parseValue_zero (hb : b = 0x5B ∨ b = 0x7B) (rest : List UInt8) :
    parseValue lib 0 (b :: rest) = none := by
  rcases hb with rfl | rfl
  all_goals exact parseValue_other (by decide) (by decide) (by decide) 0 rest

/-! ### Elements -/

section Elements

variable {α : Type*} {parse : List UInt8 → Option (α × List UInt8)} {close : UInt8} {n : Nat} {x : α}
  {text after : List UInt8}

/-- The last element. -/
private theorem elements_last {p : Prop} [Decidable p]
    (hparse : parse (skipWhitespace text) = if p then some (x, w ++ close :: rest) else none) (hw : Blank w)
    (hclose : 32 < close) (hne : close ≠ comma) (n : Nat) :
    elements parse close (n + 1) text = if p then some ([x], rest) else none := by
  rw [elements, hparse]
  split
  · rw [Option.bind_some, skipWhitespace_blank hw hclose]
    dsimp only
    rw [if_neg hne, if_pos rfl]
  · rfl

/-- An element in front of others. -/
private theorem elements_more {p q : Prop} [Decidable p] [Decidable q] {xs : List α}
    (hparse : parse (skipWhitespace text) = if p then some (x, w ++ comma :: after) else none) (hw : Blank w)
    (hafter : elements parse close n after = if q then some (xs, rest) else none) :
    elements parse close (n + 1) text = if p ∧ q then some (x :: xs, rest) else none := by
  rw [elements, hparse]
  by_cases hp : p
  · rw [if_pos hp, Option.bind_some, skipWhitespace_blank hw (by decide)]
    dsimp only
    rw [if_pos rfl, hafter]
    simp only [hp, true_and]
    split <;> rfl
  · rw [if_neg hp, if_neg (fun h => hp h.1)]
    rfl

private theorem enclosed_nil (hskip : skipWhitespace text = close :: rest) :
    enclosed parse close text = some ([], rest) := by
  rw [enclosed, hskip, List.head?_cons, if_pos rfl, List.tail_cons]

private theorem enclosed_elements (hskip : skipWhitespace text = b :: rest) (hb : b ≠ close) :
    enclosed parse close text = elements parse close text.length text := by
  rw [enclosed, hskip, if_neg]
  rintro ⟨⟩
  exact hb rfl

end Elements

/-- A member of an object is read if its value is. -/
private theorem parseMember_text {parse : List UInt8 → Option (Value D × List UInt8)} {num : D → List UInt8 → Prop}
    {k kt w₁ w₂ : List UInt8} (hw : Blank w) (hk : StringText k kt) (hw₁ : Blank w₁) (hw₂ : Blank w₂)
    (h : Denotes num v t) : parseMember parse (skipWhitespace
        (w ++ (quote :: (kt ++ quote :: (w₁ ++ colon :: (w₂ ++ (t ++ rest))))))) =
      (parse (t ++ rest)).map fun r => ((cString k, r.1), r.2) := by
  rw [skipWhitespace_blank hw (by decide), parseMember, parseString_text hk, Option.bind_some]
  dsimp only
  rw [skipWhitespace_blank hw₁ (by decide)]
  dsimp only
  rw [if_pos rfl, skipWhitespace_value hw₂ h]

/-! ### Reading -/

mutual

/-- `parse_value` reads the text of a value, if arrays and objects may be nested as deeply. -/
private theorem parseValue_text {v : Value D} {t : List UInt8} (h : Denotes (Reads lib) v t) (levels : Nat)
    {rest : List UInt8} (hrest : EndsNumber rest) : parseValue lib levels (t ++ rest) =
      if v.depth ≤ levels then some (v.mapStrings cString, rest) else none := by
  cases h with
  | null => exact parseValue_null levels rest
  | bool b => exact parseValue_bool levels b rest
  | number ht hd =>
    have hparse := parseNumber_text ht hd hrest
    obtain ⟨b, t', rfl, hb⟩ := ht.head
    exact (parseValue_number levels hb (t' ++ rest)).trans hparse
  | string h =>
    rw [List.cons_append, List.append_assoc, parseValue_string, List.singleton_append, parseString_text h]
    rfl
  | @emptyArray w hw =>
    rw [List.cons_append, List.append_assoc, List.singleton_append]
    cases levels with
    | zero => exact parseValue_zero (Or.inl rfl) _
    | succ levels =>
      rw [parseValue_array, parseArray, enclosed_nil (skipWhitespace_blank hw (by decide) rest), if_pos]
      · rfl
      · exact Nat.succ_le_succ (Nat.zero_le levels)
  | @array vs t h =>
    rw [List.cons_append, List.append_assoc, List.singleton_append]
    cases levels with
    | zero => exact parseValue_zero (Or.inl rfl) _
    | succ levels =>
      have hle : vs.length ≤ (t ++ 0x5D :: rest).length := by
        rw [List.length_append]
        exact h.length_le.trans (Nat.le_add_right _ _)
      have helements := elements_items h levels hle rest
      obtain ⟨w, b, t', rfl, hw, hb, hclose⟩ := h.head
      have hskip := skipWhitespace_blank hw hb (t' ++ 0x5D :: rest)
      rw [← List.cons_append, ← List.append_assoc] at hskip
      rw [parseValue_array, parseArray, enclosed_elements hskip hclose, helements]
      simp only [Value.depth, Nat.add_le_add_iff_right]
      split <;> rfl
  | @emptyObject w hw =>
    rw [List.cons_append, List.append_assoc, List.singleton_append]
    cases levels with
    | zero => exact parseValue_zero (Or.inr rfl) _
    | succ levels =>
      rw [parseValue_object, parseObject, enclosed_nil (skipWhitespace_blank hw (by decide) rest), if_pos]
      · rfl
      · exact Nat.succ_le_succ (Nat.zero_le levels)
  | @object ms t h =>
    rw [List.cons_append, List.append_assoc, List.singleton_append]
    cases levels with
    | zero => exact parseValue_zero (Or.inr rfl) _
    | succ levels =>
      have hle : ms.length ≤ (t ++ 0x7D :: rest).length := by
        rw [List.length_append]
        exact h.length_le.trans (Nat.le_add_right _ _)
      have helements := elements_members h levels hle rest
      obtain ⟨w, t', rfl, hw⟩ := h.head
      have hskip := skipWhitespace_blank hw (by decide : 32 < quote) (t' ++ 0x7D :: rest)
      rw [← List.cons_append, ← List.append_assoc] at hskip
      rw [parseValue_object, parseObject, enclosed_elements hskip (by decide), helements]
      simp only [Value.depth, Nat.add_le_add_iff_right]
      split <;> rfl

private theorem elements_items {vs : List (Value D)} {t : List UInt8} (h : DenotesItems (Reads lib) vs t) (levels : Nat)
    {n : Nat} (hn : vs.length ≤ n) (rest : List UInt8) : elements (parseValue lib levels) 0x5D n (t ++ 0x5D :: rest) =
      if depthItems vs ≤ levels then some (mapItems cString vs, rest) else none := by
  cases n with
  | zero =>
    obtain rfl := List.length_eq_zero_iff.1 (Nat.le_zero.1 hn)
    cases h
  | succ n =>
    cases h with
    | @last v w t w' hw h hw' =>
      have hvalue := parseValue_text h levels ((endsNumber_cons (b := 0x5D) rfl rest).blank hw')
      rw [List.append_assoc, List.append_assoc, depthItems, depthItems, Nat.max_zero]
      refine elements_last ?_ hw' (by decide) (by decide) n
      rw [skipWhitespace_value hw h, hvalue]
    | @cons v vs w t w' ts hw h hw' hs =>
      have hvalue := parseValue_text h levels ((endsNumber_cons (b := comma) rfl (ts ++ 0x5D :: rest)).blank hw')
      have hmore := elements_items hs levels (Nat.le_of_succ_le_succ hn) rest
      rw [List.append_assoc, List.append_assoc, List.append_assoc, List.cons_append, depthItems]
      simp only [max_le_iff]
      refine elements_more ?_ hw' hmore
      rw [skipWhitespace_value hw h, hvalue]

private theorem elements_members {ms : List (List UInt8 × Value D)} {t : List UInt8}
    (h : DenotesMembers (Reads lib) ms t) (levels : Nat) {n : Nat} (hn : ms.length ≤ n) (rest : List UInt8) :
    elements (parseMember (parseValue lib levels)) 0x7D n (t ++ 0x7D :: rest) =
      if depthMembers ms ≤ levels then some (mapMembers cString ms, rest) else none := by
  cases n with
  | zero =>
    obtain rfl := List.length_eq_zero_iff.1 (Nat.le_zero.1 hn)
    cases h
  | succ n =>
    cases h with
    | @last k kt v w w₁ w₂ t w' hw hk hw₁ hw₂ h hw' =>
      have hvalue := parseValue_text h levels ((endsNumber_cons (b := 0x7D) rfl rest).blank hw')
      simp only [List.append_assoc, List.cons_append]
      rw [depthMembers, depthMembers, Nat.max_zero]
      refine elements_last ?_ hw' (by decide) (by decide) n
      rw [parseMember_text hw hk hw₁ hw₂ h, hvalue]
      split <;> rfl
    | @cons k kt v ms w w₁ w₂ t w' ts hw hk hw₁ hw₂ h hw' hs =>
      have hvalue := parseValue_text h levels ((endsNumber_cons (b := comma) rfl (ts ++ 0x7D :: rest)).blank hw')
      have hmore := elements_members hs levels (Nat.le_of_succ_le_succ hn) rest
      simp only [List.append_assoc, List.cons_append]
      rw [depthMembers]
      simp only [max_le_iff]
      refine elements_more ?_ hw' hmore
      rw [parseMember_text hw hk hw₁ hw₂ h, hvalue]
      split <;> rfl

end

/-- Neither a blank nor the text of a value begins with a byte order mark. -/
theorem skipUtf8Bom_text {num : D → List UInt8 → Prop} (hw : Blank w) (h : Denotes num v t) (rest : List UInt8) :
    skipUtf8Bom (w ++ (t ++ rest)) = w ++ (t ++ rest) := by
  have hfirst : ∃ c u, w ++ (t ++ rest) = c :: u ∧ c < 0x80 := by
    obtain ⟨b, t', rfl, -, hb, -⟩ := h.head
    cases w with
    | nil => exact ⟨b, _, rfl, hb⟩
    | cons c w =>
      refine ⟨c, _, rfl, ?_⟩
      rcases hw c List.mem_cons_self with rfl | rfl | rfl | rfl <;> decide
  obtain ⟨c, u, hcu, hc⟩ := hfirst
  rw [hcu, skipUtf8Bom, if_neg]
  rintro ⟨-, hprefix⟩
  rw [List.isPrefixOf_cons_cons, Bool.and_eq_true, beq_iff_eq] at hprefix
  rw [← hprefix.1] at hc
  exact absurd hc (by decide)

private theorem skipUtf8Bom_bom {num : D → List UInt8 → Prop} (w : List UInt8) (h : Denotes num v t)
    (rest : List UInt8) : skipUtf8Bom ([0xEF, 0xBB, 0xBF] ++ (w ++ (t ++ rest))) = w ++ (t ++ rest) := by
  have hlong : 4 ≤ ([0xEF, 0xBB, 0xBF] ++ (w ++ (t ++ rest)) : List UInt8).length := by
    obtain ⟨b, t', rfl, -⟩ := h.head
    simp only [List.length_append, List.length_cons, List.length_nil]
    omega
  rw [skipUtf8Bom, if_pos ⟨hlong, by simp⟩]
  rfl

theorem cJSONParse_skip {text : List UInt8} (hskip : skipUtf8Bom text = w ++ (t ++ rest)) (hw : Blank w)
    (h : Denotes (Reads lib) v t) (hrest : EndsNumber rest) :
    cJSONParse lib text = if v.depth ≤ nestingLimit then some (v.mapStrings cString) else none := by
  rw [cJSONParse, hskip, skipWhitespace_value hw h, parseValue_text h nestingLimit hrest]
  split <;> rfl

/-- `cJSON_Parse` reads a JSON text, behind a byte order mark and blanks, if and only if it is not nested too deeply.
Every string is read up to its first zero. -/
theorem cJSONParse_text (lib : CDouble D) {v : Value D} {bom w t rest : List UInt8}
    (hbom : bom = [] ∨ bom = [0xEF, 0xBB, 0xBF]) (hw : Blank w) (h : Denotes (Reads lib) v t)
    (hrest : EndsNumber rest) :
    cJSONParse lib (bom ++ (w ++ (t ++ rest))) =
      if v.depth ≤ nestingLimit then some (v.mapStrings cString) else none := by
  rcases hbom with rfl | rfl
  · exact cJSONParse_skip (skipUtf8Bom_text hw h rest) hw h hrest
  · exact cJSONParse_skip (skipUtf8Bom_bom w h rest) hw h hrest

/-! ### One text, one value -/

section Unique

variable {v' : Value D} {t' r r' s s' : List UInt8}

/-- A text has one beginning that stands for a value, and two values that it stands for differ in what their strings
hold behind a zero at most. -/
private theorem parseValue_inj (h : Denotes (Reads lib) v t) (h' : Denotes (Reads lib) v' t') (hr : EndsNumber r)
    (hr' : EndsNumber r') (he : t ++ r = t' ++ r') :
    t = t' ∧ r = r' ∧ v.mapStrings cString = v'.mapStrings cString := by
  have hread := parseValue_text h (max v.depth v'.depth) hr
  rw [he, parseValue_text h' (max v.depth v'.depth) hr', if_pos (le_max_left _ _), if_pos (le_max_right _ _)] at hread
  obtain ⟨hv, rfl⟩ := Prod.mk.inj (Option.some.inj hread)
  exact ⟨List.append_cancel_right he, rfl, hv.symm⟩

/-- The same behind blanks. -/
private theorem value_inj {w' : List UInt8} (hw : Blank w) (hw' : Blank w') (h : Denotes (Reads lib) v t)
    (h' : Denotes (Reads lib) v' t') (hr : EndsNumber r) (hr' : EndsNumber r') (he : w ++ (t ++ r) = w' ++ (t' ++ r')) :
    t = t' ∧ r = r' := by
  have hskip := congrArg skipWhitespace he
  rw [skipWhitespace_value hw h, skipWhitespace_value hw' h'] at hskip
  obtain ⟨ht, hrest, -⟩ := parseValue_inj h h' hr hr' hskip
  exact ⟨ht, hrest⟩

/-- What comes behind blanks. -/
private theorem blank_inj {w' : List UInt8} {b' : UInt8} (hw : Blank w) (hw' : Blank w') (hb : 32 < b) (hb' : 32 < b')
    (he : w ++ b :: r = w' ++ b' :: r') : b = b' ∧ r = r' := by
  have hskip := congrArg skipWhitespace he
  rw [skipWhitespace_blank hw hb, skipWhitespace_blank hw' hb'] at hskip
  exact List.cons.inj hskip

private theorem stringText_unique (h : StringText s t) (h' : StringText s' t) : s = s' :=
  Option.some.inj ((unescape_text h (Nat.le_refl _)).symm.trans (unescape_text h' (Nat.le_refl _)))

/-- A string ends at its closing quote. -/
private theorem string_inj (h : StringText s t) (h' : StringText s' t') (he : t ++ quote :: r = t' ++ quote :: r') :
    s = s' ∧ r = r' := by
  have hclosing := closing_text h r
  rw [he, closing_text h' r', Option.some.injEq, Prod.mk.injEq] at hclosing
  obtain ⟨rfl, rfl⟩ := hclosing
  exact ⟨stringText_unique h h', rfl⟩

/-- The name of a member, and what comes behind its colon. -/
private theorem name_inj {w' w₁ w₁' : List UInt8} (hw : Blank w) (hw' : Blank w') (h : StringText s t)
    (h' : StringText s' t') (hw₁ : Blank w₁) (hw₁' : Blank w₁')
    (he : w ++ (quote :: (t ++ quote :: (w₁ ++ colon :: r))) =
      w' ++ (quote :: (t' ++ quote :: (w₁' ++ colon :: r')))) : s = s' ∧ r = r' := by
  obtain ⟨-, hname⟩ := blank_inj hw hw' (by decide) (by decide) he
  obtain ⟨rfl, hcolon⟩ := string_inj h h' hname
  obtain ⟨-, hrest⟩ := blank_inj hw₁ hw₁' (by decide) (by decide) hcolon
  exact ⟨rfl, hrest⟩

private theorem comma_notMem (hw : Blank w) : comma ∉ w := by
  intro h
  have hcomma := hw comma h
  revert hcomma
  decide

section More

variable {α : Type*} {denotes : List α → List UInt8 → Prop} {xs : List α}

private theorem endsNumber_more (h : More denotes xs r) : EndsNumber r := by
  rcases h with ⟨-, hw⟩ | ⟨w, ts, rfl, hw, -⟩
  · exact endsNumber_blank hw
  · exact (endsNumber_cons rfl ts).blank hw

/-- Behind the last element there are blanks only. -/
private theorem more_last (hw : Blank w) (h : More denotes xs w) : xs = [] := by
  rcases h with ⟨rfl, -⟩ | ⟨w', ts, rfl, -, -⟩
  · rfl
  · exact absurd (List.mem_append_right w' List.mem_cons_self) (comma_notMem hw)

/-- Behind a comma there are the other elements. -/
private theorem more_cons (hw : Blank w) (h : More denotes xs (w ++ comma :: t)) : denotes xs t := by
  rcases h with ⟨-, hblank⟩ | ⟨w', ts, he, hw', hmore⟩
  · exact absurd (List.mem_append_right w List.mem_cons_self) (comma_notMem hblank)
  · obtain ⟨-, rfl⟩ := blank_inj hw hw' (by decide) (by decide) he
    exact hmore

end More

end Unique

mutual

/-- Two values with one text are the same. -/
theorem denotes_unique {v v' : Value D} {t : List UInt8} (h : Denotes (Reads lib) v t)
    (h' : Denotes (Reads lib) v' t) : v = v' := by
  obtain ⟨-, -, hshape⟩ := parseValue_inj h h' endsNumber_nil endsNumber_nil rfl
  cases h with
  | null => cases v' with
    | null => rfl
    | _ => cases hshape
  | bool b => cases v' with
    | bool => exact hshape
    | _ => cases hshape
  | number => cases v' with
    | number => exact hshape
    | _ => cases hshape
  | string h => cases v' with
    | string s' =>
      obtain ⟨u, hu, h'⟩ := h'.of_string
      obtain rfl := List.append_cancel_right (List.cons.inj hu).2
      rw [stringText_unique h h']
    | _ => cases hshape
  | emptyArray => cases v' with
    | array vs' =>
      cases vs' with
      | nil => rfl
      | cons => cases hshape
    | _ => cases hshape
  | @array vs t h => cases v' with
    | array vs' =>
      obtain ⟨u, hu, rfl | h'⟩ := h'.of_array
      · cases vs with
        | nil => rfl
        | cons => cases hshape
      · obtain rfl := List.append_cancel_right (List.cons.inj hu).2
        rw [denotesItems_unique h h']
    | _ => cases hshape
  | emptyObject => cases v' with
    | object ms' =>
      cases ms' with
      | nil => rfl
      | cons => cases hshape
    | _ => cases hshape
  | @object ms t h => cases v' with
    | object ms' =>
      obtain ⟨u, hu, rfl | h'⟩ := h'.of_object
      · cases ms with
        | nil => rfl
        | cons => cases hshape
      · obtain rfl := List.append_cancel_right (List.cons.inj hu).2
        rw [denotesMembers_unique h h']
    | _ => cases hshape

private theorem denotesItems_unique {vs vs' : List (Value D)} {t : List UInt8} (h : DenotesItems (Reads lib) vs t)
    (h' : DenotesItems (Reads lib) vs' t) : vs = vs' := by
  obtain ⟨v', vs₁', w', t', r', rfl, hu, hw', hv', hmore⟩ := h'.parts
  have hr' := endsNumber_more hmore
  cases h with
  | last hw hv hblank =>
    obtain ⟨rfl, rfl⟩ := value_inj hw hw' hv hv' (endsNumber_blank hblank) hr' hu
    rw [denotes_unique hv hv', more_last hblank hmore]
  | cons hw hv hblank hs =>
    obtain ⟨rfl, rfl⟩ := value_inj hw hw' hv hv' ((endsNumber_cons rfl _).blank hblank) hr' hu
    rw [denotes_unique hv hv', denotesItems_unique hs (more_cons hblank hmore)]

private theorem denotesMembers_unique {ms ms' : List (List UInt8 × Value D)} {t : List UInt8}
    (h : DenotesMembers (Reads lib) ms t) (h' : DenotesMembers (Reads lib) ms' t) : ms = ms' := by
  obtain ⟨k', v', ms₁', w', kt', w₁', w₂', t', r', rfl, hu, hw', hk', hw₁', hw₂', hv', hmore⟩ := h'.parts
  have hr' := endsNumber_more hmore
  cases h with
  | last hw hk hw₁ hw₂ hv hblank =>
    obtain ⟨rfl, hvalue⟩ := name_inj hw hw' hk hk' hw₁ hw₁' hu
    obtain ⟨rfl, rfl⟩ := value_inj hw₂ hw₂' hv hv' (endsNumber_blank hblank) hr' hvalue
    rw [denotes_unique hv hv', more_last hblank hmore]
  | cons hw hk hw₁ hw₂ hv hblank hs =>
    obtain ⟨rfl, hvalue⟩ := name_inj hw hw' hk hk' hw₁ hw₁' hu
    obtain ⟨rfl, rfl⟩ := value_inj hw₂ hw₂' hv hv' ((endsNumber_cons rfl _).blank hblank) hr' hvalue
    rw [denotes_unique hv hv', denotesMembers_unique hs (more_cons hblank hmore)]

end

/-! ### Printing -/

/-- The number is printed as a JSON number that `strtod` reads back. -/
def Exact (lib : CDouble D) (d : D) : Prop := ∃ t, printNumber lib d = some t ∧ NumberText t ∧ Reads lib d t

private theorem blank_tabs (format : Bool) (depth : Nat) : Blank (tabs format depth) := by
  intro b hb
  cases format with
  | false => cases hb
  | true => exact Or.inr (Or.inl (List.eq_of_mem_replicate hb))

private theorem blank_newline (format : Bool) : Blank (newline format) := by
  cases format <;> simp [newline, Blank]

mutual

/-- What `print_value` writes stands for the value. -/
theorem printValue_denotes {v : Value D} (hv : v.All (fun _ => True) (Exact lib)) (format : Bool) (depth : Nat) :
    ∃ t, printValue lib format depth v = some t ∧ Denotes (Reads lib) v t := by
  cases v with
  | null => exact ⟨_, rfl, .null⟩
  | bool b => exact ⟨_, rfl, .bool b⟩
  | number d =>
    obtain ⟨t, ht, hnumber, hreads⟩ := hv
    exact ⟨t, ht, .number hnumber hreads⟩
  | string s =>
    refine ⟨_, rfl, ?_⟩
    rw [printStringPtr_eq]
    exact .string (stringText_escape s)
  | array vs =>
    by_cases hvs : vs = []
    · subst hvs
      exact ⟨_, rfl, .emptyArray .nil⟩
    · obtain ⟨t, ht, hitems⟩ := printArray_denotes hv hvs format (depth + 1)
      exact ⟨_, congrArg (Option.map _) ht, .array (hitems [] .nil)⟩
  | object ms =>
    by_cases hms : ms = []
    · subst hms
      refine ⟨0x7B :: (newline format ++ (tabs format depth ++ [0x7D])), rfl, ?_⟩
      rw [← List.append_assoc]
      exact .emptyObject ((blank_newline format).append (blank_tabs format depth))
    · obtain ⟨t, ht, hmembers⟩ := printObject_denotes hv hms format (depth + 1)
      refine ⟨_, congrArg (Option.map _) ht, ?_⟩
      have hobject := Denotes.object (hmembers (newline format) (tabs format depth) (blank_newline format)
        (blank_tabs format depth))
      simpa only [List.append_assoc] using hobject

private theorem printArray_denotes {vs : List (Value D)} (hvs : AllItems (fun _ => True) (Exact lib) vs) (hne : vs ≠ [])
    (format : Bool) (depth : Nat) : ∃ t, printArray lib format depth vs = some t ∧
      ∀ w, Blank w → DenotesItems (Reads lib) vs (w ++ t) := by
  cases vs with
  | nil => exact absurd rfl hne
  | cons v vs =>
    obtain ⟨t, ht, hdenotes⟩ := printValue_denotes hvs.1 format depth
    by_cases hnil : vs = []
    · subst hnil
      refine ⟨t ++ ([] ++ []), by rw [printArray, ht]; rfl, fun w hw => ?_⟩
      exact .last hw hdenotes .nil
    · obtain ⟨ts, hts, hitems⟩ := printArray_denotes hvs.2 hnil format depth
      have hspace : Blank (if format then [0x20] else []) := by cases format <;> simp [Blank]
      have hmore : vs.isEmpty = false := by simpa using hnil
      refine ⟨_, by rw [printArray, ht, hts, hmore]; rfl, fun w hw => ?_⟩
      exact .cons hw hdenotes .nil (hitems _ hspace)

/-- The members, between the blanks that the braces leave. -/
private theorem printObject_denotes {ms : List (List UInt8 × Value D)} (hms : AllMembers (fun _ => True) (Exact lib) ms)
    (hne : ms ≠ []) (format : Bool) (depth : Nat) : ∃ t, printObject lib format depth ms = some t ∧
      ∀ w w', Blank w → Blank w' → DenotesMembers (Reads lib) ms (w ++ (t ++ w')) := by
  cases ms with
  | nil => exact absurd rfl hne
  | cons m ms =>
    obtain ⟨k, v⟩ := m
    obtain ⟨t, ht, hdenotes⟩ := printValue_denotes hms.2.1 format depth
    have htab : Blank (if format then [0x09] else []) := by cases format <;> simp [Blank]
    by_cases hnil : ms = []
    · subst hnil
      refine ⟨_, by rw [printObject, ht]; rfl, fun w w' hw hw' => ?_⟩
      have hlast := DenotesMembers.last (hw.append (blank_tabs format depth)) (stringText_escape k) .nil htab hdenotes
        ((blank_newline format).append hw')
      simpa [printStringPtr_eq] using hlast
    · obtain ⟨ts, hts, hmembers⟩ := printObject_denotes hms.2.2 hnil format depth
      have hmore : ms.isEmpty = false := by simpa using hnil
      refine ⟨_, by rw [printObject, ht, hts, hmore]; rfl, fun w w' hw hw' => ?_⟩
      have hcons := DenotesMembers.cons (hw.append (blank_tabs format depth)) (stringText_escape k) .nil htab hdenotes
        .nil (hmembers (newline format) w' (blank_newline format) hw')
      simpa [printStringPtr_eq] using hcons

end

theorem cString_of_notMem {s : List UInt8} (h : 0 ∉ s) : cString s = s := by
  rw [cString, List.takeWhile_eq_self_iff]
  intro b hb
  have hne : b ≠ 0 := fun hzero => h (hzero ▸ hb)
  exact decide_eq_true hne

/-- `cJSON_Parse` on a JSON text with nothing around it. -/
private theorem cJSONParse_whole (h : Denotes (Reads lib) v t) :
    cJSONParse lib t = if v.depth ≤ nestingLimit then some (v.mapStrings cString) else none := by
  have hskip := skipUtf8Bom_text Blank.nil h []
  rw [List.nil_append, List.append_nil] at hskip
  exact cJSONParse_skip (hskip.trans (List.append_nil t).symm) Blank.nil h endsNumber_nil

/-- What is printed is a JSON text for the value, which is read back as the value if and only if it is not nested too
deeply. -/
def ReadsBack (lib : CDouble D) (v : Value D) (printed : Option (List UInt8)) : Prop :=
  ∃ t, printed = some t ∧ Denotes (Reads lib) v t ∧
    cJSONParse lib t = if v.depth ≤ nestingLimit then some v else none

theorem printValue_readsBack (hv : v.All (fun s => 0 ∉ s) (Exact lib)) (format : Bool) (depth : Nat) :
    ReadsBack lib v (printValue lib format depth v) := by
  obtain ⟨t, ht, hdenotes⟩ := printValue_denotes (hv.mono fun _ _ => trivial) format depth
  refine ⟨t, ht, hdenotes, ?_⟩
  rw [cJSONParse_whole hdenotes, hv.mapStrings fun s => cString_of_notMem]

/-- What `cJSON_Print` and `cJSON_PrintUnformatted` write is read back, and so is what `print_value` writes at any
depth. -/
theorem cJSONParse_print (lib : CDouble D) {v : Value D} (hv : v.All (fun s => 0 ∉ s) (Exact lib)) :
    ReadsBack lib v (cJSONPrint lib v) ∧ ReadsBack lib v (cJSONPrintUnformatted lib v) ∧
      ∀ format depth, ReadsBack lib v (printValue lib format depth v) :=
  ⟨printValue_readsBack hv true 0, printValue_readsBack hv false 0, printValue_readsBack hv⟩

/-! ### Whole numbers -/

def IsInt (i : Int) : Prop := -2 ^ 31 ≤ i ∧ i < 2 ^ 31

/-- What the C library does with a `double` that is an `int`. -/
structure CDouble.WholeNumbers (lib : CDouble D) : Prop where
  isFinite : ∀ i, IsInt i → lib.isFinite (lib.ofInt i) = true
  toInt : ∀ i, IsInt i → lib.toInt (lib.ofInt i) = i
  eq : ∀ i, IsInt i → lib.eq (lib.ofInt i) (lib.ofInt i) = true
  strtod : ∀ i, IsInt i → lib.strtod (decimal i) = some (lib.ofInt i, (decimal i).length)

private theorem digitChar_digit : ∀ d < 10, IsDigit (Nat.digitChar d).toUInt8 ∧
    (0 < d → (Nat.digitChar d).toUInt8 ≠ 0x30) := by decide

/-- The digits of a number, the first of which is zero for zero only. -/
private theorem toDigits_digits (n : Nat) : (∀ b ∈ ascii (Nat.toDigits 10 n), IsDigit b) ∧
    (0 < n → (ascii (Nat.toDigits 10 n)).head? ≠ some 0x30) := by
  induction n using Nat.strong_induction_on with
  | _ n ih =>
    rw [Nat.toDigits_eq_if (by decide)]
    split
    · rename_i hlt
      obtain ⟨hdigit, hzero⟩ := digitChar_digit n hlt
      refine ⟨fun b hb => ?_, fun hn hhead => hzero hn (Option.some.inj hhead)⟩
      rw [List.mem_singleton.1 hb]
      exact hdigit
    · rename_i hge
      obtain ⟨hdigits, hzero⟩ := ih (n / 10) (by omega)
      have happend : ascii (Nat.toDigits 10 (n / 10) ++ [Nat.digitChar (n % 10)]) =
          ascii (Nat.toDigits 10 (n / 10)) ++ [(Nat.digitChar (n % 10)).toUInt8] := List.map_append
      have hne : ascii (Nat.toDigits 10 (n / 10)) ≠ [] := by simp [ascii]
      rw [happend]
      refine ⟨fun b hb => ?_, fun _ => ?_⟩
      · rcases List.mem_append.1 hb with hb | hb
        · exact hdigits b hb
        · rw [List.mem_singleton.1 hb]
          exact (digitChar_digit _ (Nat.mod_lt _ (by decide))).1
      · rw [List.head?_append_of_ne_nil _ hne]
        exact hzero (by omega)

private theorem decimal_of_nonneg {i : Int} (hi : 0 ≤ i) : decimal i = ascii (Nat.toDigits 10 i.toNat) := by
  rw [decimal, Int.toString_eq_repr, Int.repr_eq_if, if_pos hi, Nat.toList_repr]

private theorem decimal_of_neg {i : Int} (hi : ¬0 ≤ i) : decimal i = 0x2D :: ascii (Nat.toDigits 10 (-i).toNat) := by
  rw [decimal, Int.toString_eq_repr, Int.repr_eq_if, if_neg hi, String.toList_append, Nat.toList_repr]
  rfl

private theorem numberText_toDigits (n : Nat) {sign : List UInt8} (hsign : sign = [] ∨ sign = [0x2D]) :
    NumberText (sign ++ ascii (Nat.toDigits 10 n)) := by
  obtain ⟨hdigits, hzero⟩ := toDigits_digits n
  refine ⟨sign, ascii (Nat.toDigits 10 n), [], [], by simp, hsign, ⟨⟨by simp [ascii], hdigits⟩, fun hhead => ?_⟩,
    Or.inl rfl, Or.inl rfl⟩
  rcases Nat.eq_zero_or_pos n with rfl | hn
  · rfl
  · exact absurd hhead (hzero hn)

private theorem numberText_decimal (i : Int) : NumberText (decimal i) := by
  by_cases hi : 0 ≤ i
  · rw [decimal_of_nonneg hi]
    exact numberText_toDigits i.toNat (Or.inl rfl)
  · rw [decimal_of_neg hi]
    exact numberText_toDigits (-i).toNat (Or.inr rfl)

private theorem length_decimal {i : Int} (hi : IsInt i) : (decimal i).length ≤ 11 := by
  obtain ⟨hmin, hmax⟩ := hi
  have hdigits : ∀ n < 10 ^ 10, (ascii (Nat.toDigits 10 n)).length ≤ 10 := by
    intro n hn
    rw [ascii, List.length_map]
    exact (Nat.length_toDigits_le_iff (by decide) (by decide)).2 hn
  by_cases hi : 0 ≤ i
  · rw [decimal_of_nonneg hi]
    exact (hdigits _ (by omega)).trans (by decide)
  · rw [decimal_of_neg hi, List.length_cons]
    exact Nat.succ_le_succ (hdigits _ (by omega))

/-- A `double` that is an `int` is printed exactly. -/
theorem CDouble.WholeNumbers.exact (h : lib.WholeNumbers) {i : Int} (hi : IsInt i) : Exact lib (lib.ofInt i) := by
  have hlen := length_decimal hi
  refine ⟨decimal i, ?_, numberText_decimal i, by omega, h.strtod i hi⟩
  unfold printNumber
  dsimp only
  rw [h.isFinite i hi, h.toInt i hi, h.eq i hi]
  exact if_neg (by simp only [Bool.not_true, Bool.false_eq_true, if_false, if_true]; omega)

/-! ### The C library on whole numbers -/

/-- The number that digits stand for. -/
def ofDigits (ds : List UInt8) : Nat := ds.foldl (fun n b => 10 * n + (b.toNat - 0x30)) 0

private theorem ofDigits_toDigits (n : Nat) : ofDigits (ascii (Nat.toDigits 10 n)) = n := by
  have hdigit : ∀ d < 10, (Nat.digitChar d).toUInt8.toNat - 0x30 = d := by decide
  induction n using Nat.strong_induction_on with
  | _ n ih =>
    rw [Nat.toDigits_eq_if (by decide)]
    split
    · rename_i hlt
      simp [ascii, ofDigits, hdigit n hlt]
    · rename_i hge
      have happend : ascii (Nat.toDigits 10 (n / 10) ++ [Nat.digitChar (n % 10)]) =
          ascii (Nat.toDigits 10 (n / 10)) ++ [(Nat.digitChar (n % 10)).toUInt8] := List.map_append
      rw [happend, ofDigits, List.foldl_append, ← ofDigits, ih (n / 10) (by omega), List.foldl_cons, List.foldl_nil,
        hdigit _ (Nat.mod_lt _ (by decide)), Nat.div_add_mod]

/-- `strtod`, of a number without a fraction and an exponent. -/
def readWhole : List UInt8 → Option (Int × Nat)
  | [] => none
  | b :: ds => if b = 0x2D then some (-ofDigits ds, ds.length + 1) else some (ofDigits (b :: ds), ds.length + 1)

/-- The library, on numbers of the type `int`. -/
def wholeDouble : CDouble Int where
  isFinite _ := true
  toInt d := max (-2 ^ 31) (min d (2 ^ 31 - 1))
  ofInt i := i
  eq d d' := d == d'
  compareDouble d d' := d == d'
  sprintf _ d := decimal d
  sscanf t := (readWhole t).map Prod.fst
  strtod := readWhole

theorem wholeDouble_wholeNumbers : wholeDouble.WholeNumbers where
  isFinite _ _ := rfl
  toInt i hi := by
    obtain ⟨hmin, hmax⟩ := hi
    change max (-2 ^ 31) (min i (2 ^ 31 - 1)) = i
    omega
  eq i _ := beq_self_eq_true i
  strtod i _ := by
    change readWhole (decimal i) = some (i, (decimal i).length)
    by_cases hi : 0 ≤ i
    · rw [decimal_of_nonneg hi]
      have hvalue := ofDigits_toDigits i.toNat
      obtain ⟨b, ds, hcons⟩ := List.exists_cons_of_ne_nil (l := ascii (Nat.toDigits 10 i.toNat)) (by simp [ascii])
      have hdigit := (toDigits_digits i.toNat).1 b (by rw [hcons]; exact List.mem_cons_self)
      have hminus : b ≠ 0x2D := by
        rintro rfl
        exact absurd hdigit (by decide)
      rw [hcons] at hvalue ⊢
      rw [readWhole, if_neg hminus, hvalue, Int.toNat_of_nonneg hi]
      rfl
    · rw [decimal_of_neg hi, readWhole, if_pos rfl, ofDigits_toDigits]
      have hneg : (-((-i).toNat : Int)) = i := by omega
      rw [hneg]
      rfl

/-- A surrogate pair in an array, behind a byte order mark and a blank. -/
theorem cJSONParse_text_pair : cJSONParse wholeDouble ([0xEF, 0xBB, 0xBF] ++ ([0x20] ++
      (ascii ['[', '"', '\\', 'u', 'd', '8', '3', 'd', '\\', 'u', 'd', 'e', '0', '0', '"', ']'] ++ [0x0A]))) =
    some (.array [.string [0xF0, 0x9F, 0x98, 0x80]]) := by
  have hpair : CharText (String.utf8EncodeChar (Char.ofNat 0x1F600)) (backslash :: 0x75 ::
      (ascii ['d', '8', '3', 'd'] ++ backslash :: 0x75 :: ascii ['d', 'e', '0', '0'])) :=
    .pair rfl rfl rfl rfl (by decide) (by decide) (by decide)
  have hstring : StringText [0xF0, 0x9F, 0x98, 0x80]
      (ascii ['\\', 'u', 'd', '8', '3', 'd', '\\', 'u', 'd', 'e', '0', '0']) :=
    .cons hpair .nil
  have hitems : DenotesItems (Reads wholeDouble) [.string [0xF0, 0x9F, 0x98, 0x80]]
      ([] ++ (quote :: (ascii ['\\', 'u', 'd', '8', '3', 'd', '\\', 'u', 'd', 'e', '0', '0'] ++ [quote]) ++ [])) :=
    .last .nil (.string hstring) .nil
  exact cJSONParse_text wholeDouble (Or.inr rfl) (by simp [Blank]) (.array hitems) (endsNumber_cons rfl [])

/-- A number, and a string of two characters that are escaped. -/
theorem cJSONParse_print_array :
    ReadsBack wholeDouble (.array [.number (-12), .string [0x0A, 0x22]])
      (cJSONPrint wholeDouble (.array [.number (-12), .string [0x0A, 0x22]])) := by
  have hexact : Exact wholeDouble (-12) := wholeDouble_wholeNumbers.exact (i := -12) ⟨by decide, by decide⟩
  have hstring : (0 : UInt8) ∉ [0x0A, 0x22] := by decide
  exact (cJSONParse_print wholeDouble (v := .array [.number (-12), .string [0x0A, 0x22]])
    ⟨hexact, hstring, trivial⟩).1

end Zappy.CJson
