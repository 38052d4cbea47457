import Mathlib.Data.List.Basic
import Mathlib.Data.Char

/-!
# JSON texts

The grammar of JSON over bytes, as a relation between a value and the texts that stand for it.  Strings are byte
strings in UTF-8, and an escaped character stands for its encoding.  What a number stands for is left open: `num`
relates it to the texts that the syntax allows.
-/

namespace Zappy.JsonText

/-- What a JSON text stands for. -/
inductive Value (D : Type*) where
  | null
  | bool (b : Bool)
  | number (d : D)
  | string (s : List UInt8)
  | array (items : List (Value D))
  | object (members : List (List UInt8 × Value D))

variable {D : Type*}

/-! ### Values -/

mutual

/-- How deeply arrays and objects are nested. -/
def Value.depth : Value D → Nat
  | .null | .bool _ | .number _ | .string _ => 0
  | .array items => depthItems items + 1
  | .object members => depthMembers members + 1

def depthItems : List (Value D) → Nat
  | [] => 0
  | v :: vs => max v.depth (depthItems vs)

def depthMembers : List (List UInt8 × Value D) → Nat
  | [] => 0
  | (_, v) :: ms => max v.depth (depthMembers ms)

end

mutual

/-- Every string changed, names of members included. -/
def Value.mapStrings (f : List UInt8 → List UInt8) : Value D → Value D
  | .null => .null
  | .bool b => .bool b
  | .number d => .number d
  | .string s => .string (f s)
  | .array items => .array (mapItems f items)
  | .object members => .object (mapMembers f members)

def mapItems (f : List UInt8 → List UInt8) : List (Value D) → List (Value D)
  | [] => []
  | v :: vs => v.mapStrings f :: mapItems f vs

def mapMembers (f : List UInt8 → List UInt8) : List (List UInt8 × Value D) → List (List UInt8 × Value D)
  | [] => []
  | (k, v) :: ms => (f k, v.mapStrings f) :: mapMembers f ms

end

mutual

/-- What holds of all strings and of all numbers. -/
def Value.All (P : List UInt8 → Prop) (Q : D → Prop) : Value D → Prop
  | .null | .bool _ => True
  | .number d => Q d
  | .string s => P s
  | .array items => AllItems P Q items
  | .object members => AllMembers P Q members

def AllItems (P : List UInt8 → Prop) (Q : D → Prop) : List (Value D) → Prop
  | [] => True
  | v :: vs => v.All P Q ∧ AllItems P Q vs

def AllMembers (P : List UInt8 → Prop) (Q : D → Prop) : List (List UInt8 × Value D) → Prop
  | [] => True
  | (k, v) :: ms => P k ∧ v.All P Q ∧ AllMembers P Q ms

end

section Strings

variable {f : List UInt8 → List UInt8} {P P' : List UInt8 → Prop} {Q : D → Prop}

mutual

theorem Value.All.mono (hP : ∀ s, P s → P' s) : ∀ {v : Value D}, v.All P Q → v.All P' Q
  | .null, _ | .bool _, _ => trivial
  | .number _, h => h
  | .string s, h => hP s h
  | .array _, h => AllItems.mono hP h
  | .object _, h => AllMembers.mono hP h

theorem AllItems.mono (hP : ∀ s, P s → P' s) : ∀ {vs : List (Value D)}, AllItems P Q vs → AllItems P' Q vs
  | [], _ => trivial
  | _ :: _, h => ⟨Value.All.mono hP h.1, AllItems.mono hP h.2⟩

theorem AllMembers.mono (hP : ∀ s, P s → P' s) : ∀ {ms : List (List UInt8 × Value D)}, AllMembers P Q ms →
    AllMembers P' Q ms
  | [], _ => trivial
  | (k, _) :: _, h => ⟨hP k h.1, Value.All.mono hP h.2.1, AllMembers.mono hP h.2.2⟩

end

mutual

/-- A change that leaves every string of a value alone. -/
theorem Value.All.mapStrings (hf : ∀ s, P s → f s = s) : ∀ {v : Value D}, v.All P Q → v.mapStrings f = v
  | .null, _ | .bool _, _ | .number _, _ => rfl
  | .string s, h => congrArg Value.string (hf s h)
  | .array _, h => congrArg Value.array (AllItems.mapItems hf h)
  | .object _, h => congrArg Value.object (AllMembers.mapMembers hf h)

theorem AllItems.mapItems (hf : ∀ s, P s → f s = s) : ∀ {vs : List (Value D)}, AllItems P Q vs →
    JsonText.mapItems f vs = vs
  | [], _ => rfl
  | _ :: _, h => congrArg₂ _ (Value.All.mapStrings hf h.1) (AllItems.mapItems hf h.2)

theorem AllMembers.mapMembers (hf : ∀ s, P s → f s = s) : ∀ {ms : List (List UInt8 × Value D)},
    AllMembers P Q ms → JsonText.mapMembers f ms = ms
  | [], _ => rfl
  | (k, _) :: _, h => congrArg₂ _ (congrArg₂ _ (hf k h.1) (Value.All.mapStrings hf h.2.1))
      (AllMembers.mapMembers hf h.2.2)

end

end Strings

/-! ### Characters -/

abbrev quote : UInt8 := 0x22
abbrev backslash : UInt8 := 0x5C
abbrev comma : UInt8 := 0x2C
abbrev colon : UInt8 := 0x3A

def ascii (cs : List Char) : List UInt8 := cs.map Char.toUInt8

/-- Space, tabulator, line feed and carriage return. -/
def Blank (t : List UInt8) : Prop := ∀ b ∈ t, b = 0x20 ∨ b = 0x09 ∨ b = 0x0A ∨ b = 0x0D

/-- What a letter behind a backslash stands for. -/
def shortEscape (e : UInt8) : Option UInt8 :=
  if e = 0x22 ∨ e = 0x5C ∨ e = 0x2F then some e
  else if e = 0x62 then some 0x08
  else if e = 0x66 then some 0x0C
  else if e = 0x6E then some 0x0A
  else if e = 0x72 then some 0x0D
  else if e = 0x74 then some 0x09
  else none

def hexValue (b : UInt8) : Option Nat :=
  if 0x30 ≤ b ∧ b ≤ 0x39 then some (b.toNat - 0x30)
  else if 0x41 ≤ b ∧ b ≤ 0x46 then some (b.toNat - 0x41 + 10)
  else if 0x61 ≤ b ∧ b ≤ 0x66 then some (b.toNat - 0x61 + 10)
  else none

/-- The code unit that four digits stand for. -/
def codeUnit (digits : List UInt8) : Option Nat :=
  (digits.mapM hexValue).map fun ns => ns.foldl (fun n d => n * 16 + d) 0

/-- One character of a string, and a text for it. -/
inductive CharText : List UInt8 → List UInt8 → Prop
  | plain {b : UInt8} (h : 0x20 ≤ b) (hquote : b ≠ quote) (hback : b ≠ backslash) : CharText [b] [b]
  | short {e b : UInt8} (h : shortEscape e = some b) : CharText [b] [backslash, e]
  | unit {digits : List UInt8} {c : Char} (hlen : digits.length = 4) (h : codeUnit digits = some c.toNat) :
      CharText (String.utf8EncodeChar c) (backslash :: 0x75 :: digits)
  /-- Two surrogates. -/
  | pair {high low : List UInt8} {h l : Nat} {c : Char} (hlen : high.length = 4) (llen : low.length = 4)
      (hhigh : codeUnit high = some h) (hlow : codeUnit low = some l) (hrange : 0xD800 ≤ h ∧ h ≤ 0xDBFF)
      (lrange : 0xDC00 ≤ l ∧ l ≤ 0xDFFF) (hc : c.toNat = 0x10000 + (h - 0xD800) * 0x400 + (l - 0xDC00)) :
      CharText (String.utf8EncodeChar c) (backslash :: 0x75 :: (high ++ backslash :: 0x75 :: low))

/-- A string, and a text for it without its quotes. -/
inductive StringText : List UInt8 → List UInt8 → Prop
  | nil : StringText [] []
  | cons {s s' t t' : List UInt8} (h : CharText s t) (h' : StringText s' t') : StringText (s ++ s') (t ++ t')

/-! ### Numbers -/

abbrev IsDigit (b : UInt8) : Prop := 0x30 ≤ b ∧ b ≤ 0x39

def Digits (t : List UInt8) : Prop := t ≠ [] ∧ ∀ b ∈ t, IsDigit b

/-- An integer without superfluous zeros, a fraction and an exponent, which may both be absent. -/
structure NumberText (t : List UInt8) : Prop where
  parts : ∃ sign int frac exp, t = sign ++ (int ++ (frac ++ exp)) ∧ (sign = [] ∨ sign = [0x2D]) ∧
    (Digits int ∧ (int.head? = some 0x30 → int = [0x30])) ∧
    (frac = [] ∨ ∃ ds, Digits ds ∧ frac = 0x2E :: ds) ∧
    (exp = [] ∨ ∃ e es ds, (e = 0x65 ∨ e = 0x45) ∧ (es = [] ∨ es = [0x2B] ∨ es = [0x2D]) ∧ Digits ds ∧
      exp = e :: (es ++ ds))

/-- The characters that numbers are written with. -/
def isNumberChar (b : UInt8) : Bool :=
  (0x30 ≤ b && b ≤ 0x39) || b == 0x2B || b == 0x2D || b == 0x65 || b == 0x45 || b == 0x2E

theorem Digits.isNumberChar {t : List UInt8} (h : Digits t) {b : UInt8} (hb : b ∈ t) : isNumberChar b = true := by
  have hdigit := h.2 b hb
  simp [JsonText.isNumberChar, hdigit]

theorem NumberText.isNumberChar {t : List UInt8} (h : NumberText t) {b : UInt8} (hb : b ∈ t) :
    isNumberChar b = true := by
  obtain ⟨sign, int, frac, exp, rfl, hsign, hint, hfrac, hexp⟩ := h.parts
  rcases List.mem_append.1 hb with hb | hb
  · rcases hsign with rfl | rfl
    · cases hb
    · rw [List.mem_singleton.1 hb]
      rfl
  rcases List.mem_append.1 hb with hb | hb
  · exact hint.1.isNumberChar hb
  rcases List.mem_append.1 hb with hb | hb
  · rcases hfrac with rfl | ⟨ds, hds, rfl⟩
    · cases hb
    · rcases List.mem_cons.1 hb with rfl | hb
      · rfl
      · exact hds.isNumberChar hb
  · rcases hexp with rfl | ⟨e, es, ds, he, hes, hds, rfl⟩
    · cases hb
    · rcases List.mem_cons.1 hb with rfl | hb
      · rcases he with rfl | rfl <;> rfl
      rcases List.mem_append.1 hb with hb | hb
      · rcases hes with rfl | rfl | rfl
        · cases hb
        all_goals
          rw [List.mem_singleton.1 hb]
          rfl
      · exact hds.isNumberChar hb

/-- A number begins with a digit or a minus sign. -/
theorem NumberText.head {t : List UInt8} (h : NumberText t) : ∃ b t', t = b :: t' ∧ (b = 0x2D ∨ IsDigit b) := by
  obtain ⟨sign, int, frac, exp, rfl, hsign, ⟨⟨hne, hdigits⟩, -⟩, -, -⟩ := h.parts
  obtain ⟨d, ds, rfl⟩ := List.exists_cons_of_ne_nil hne
  rcases hsign with rfl | rfl
  · exact ⟨d, _, rfl, Or.inr (hdigits d List.mem_cons_self)⟩
  · exact ⟨0x2D, _, rfl, Or.inl rfl⟩

/-! ### Values and their texts -/

def nullText : List UInt8 := ascii ['n', 'u', 'l', 'l']

def boolText : Bool → List UInt8
  | true => ascii ['t', 'r', 'u', 'e']
  | false => ascii ['f', 'a', 'l', 's', 'e']

mutual

/-- The text stands for the value. -/
inductive Denotes (num : D → List UInt8 → Prop) : Value D → List UInt8 → Prop
  | null : Denotes num .null nullText
  | bool (b : Bool) : Denotes num (.bool b) (boolText b)
  | number {d : D} {t : List UInt8} (ht : NumberText t) (h : num d t) : Denotes num (.number d) t
  | string {s t : List UInt8} (h : StringText s t) : Denotes num (.string s) (quote :: (t ++ [quote]))
  | emptyArray {w : List UInt8} (hw : Blank w) : Denotes num (.array []) (0x5B :: (w ++ [0x5D]))
  | array {vs : List (Value D)} {t : List UInt8} (h : DenotesItems num vs t) :
      Denotes num (.array vs) (0x5B :: (t ++ [0x5D]))
  | emptyObject {w : List UInt8} (hw : Blank w) : Denotes num (.object []) (0x7B :: (w ++ [0x7D]))
  | object {ms : List (List UInt8 × Value D)} {t : List UInt8} (h : DenotesMembers num ms t) :
      Denotes num (.object ms) (0x7B :: (t ++ [0x7D]))

/-- The text stands for the items of an array that is not empty. -/
inductive DenotesItems (num : D → List UInt8 → Prop) : List (Value D) → List UInt8 → Prop
  | last {v : Value D} {w t w' : List UInt8} (hw : Blank w) (h : Denotes num v t) (hw' : Blank w') :
      DenotesItems num [v] (w ++ (t ++ w'))
  | cons {v : Value D} {vs : List (Value D)} {w t w' ts : List UInt8} (hw : Blank w) (h : Denotes num v t)
      (hw' : Blank w') (hs : DenotesItems num vs ts) : DenotesItems num (v :: vs) (w ++ (t ++ (w' ++ comma :: ts)))

/-- The text stands for the members of an object that is not empty. -/
inductive DenotesMembers (num : D → List UInt8 → Prop) : List (List UInt8 × Value D) → List UInt8 → Prop
  | last {k kt : List UInt8} {v : Value D} {w w₁ w₂ t w' : List UInt8} (hw : Blank w) (hk : StringText k kt)
      (hw₁ : Blank w₁) (hw₂ : Blank w₂) (h : Denotes num v t) (hw' : Blank w') :
      DenotesMembers num [(k, v)] (w ++ (quote :: (kt ++ quote :: (w₁ ++ colon :: (w₂ ++ (t ++ w'))))))
  | cons {k kt : List UInt8} {v : Value D} {ms : List (List UInt8 × Value D)} {w w₁ w₂ t w' ts : List UInt8}
      (hw : Blank w) (hk : StringText k kt) (hw₁ : Blank w₁) (hw₂ : Blank w₂) (h : Denotes num v t) (hw' : Blank w')
      (hs : DenotesMembers num ms ts) : DenotesMembers num ((k, v) :: ms)
        (w ++ (quote :: (kt ++ quote :: (w₁ ++ colon :: (w₂ ++ (t ++ (w' ++ comma :: ts)))))))

end

variable {num : D → List UInt8 → Prop}

/-- The text of a value begins with a visible character that is no closing bracket. -/
theorem Denotes.head {v : Value D} {t : List UInt8} (h : Denotes num v t) :
    ∃ b t', t = b :: t' ∧ 0x20 < b ∧ b < 0x80 ∧ b ≠ 0x5D := by
  cases h with
  | number ht =>
    obtain ⟨b, t', rfl, hb⟩ := ht.head
    refine ⟨b, t', rfl, ?_⟩
    rcases hb with rfl | hb
    · decide
    · refine ⟨Nat.lt_of_lt_of_le (by decide) hb.1, Nat.lt_of_le_of_lt hb.2 (by decide), ?_⟩
      rintro rfl
      exact absurd hb.2 (by decide)
  | bool b => cases b <;> exact ⟨_, _, rfl, by decide⟩
  | null | string | emptyArray | array | emptyObject | object => exact ⟨_, _, rfl, by decide⟩

theorem DenotesItems.head {vs : List (Value D)} {t : List UInt8} (h : DenotesItems num vs t) :
    ∃ w b t', t = w ++ b :: t' ∧ Blank w ∧ 0x20 < b ∧ b ≠ 0x5D := by
  cases h with
  | @last _ w _ _ hw h =>
    obtain ⟨b, t', rfl, hb, -, hne⟩ := h.head
    exact ⟨w, b, _, rfl, hw, hb, hne⟩
  | @cons _ _ w _ _ _ hw h =>
    obtain ⟨b, t', rfl, hb, -, hne⟩ := h.head
    exact ⟨w, b, _, rfl, hw, hb, hne⟩

theorem DenotesMembers.head {ms : List (List UInt8 × Value D)} {t : List UInt8} (h : DenotesMembers num ms t) :
    ∃ w t', t = w ++ quote :: t' ∧ Blank w := by
  cases h with
  | last hw => exact ⟨_, _, rfl, hw⟩
  | cons hw => exact ⟨_, _, rfl, hw⟩

theorem Blank.nil : Blank [] := fun _ h => (by cases h)

theorem Blank.append {w w' : List UInt8} (hw : Blank w) (hw' : Blank w') : Blank (w ++ w') := fun b hb =>
  (List.mem_append.1 hb).elim (hw b) (hw' b)

/-- A text has no fewer characters than items. -/
theorem DenotesItems.length_le {vs : List (Value D)} {t : List UInt8} (h : DenotesItems num vs t) :
    vs.length ≤ t.length := by
  induction vs generalizing t with
  | nil => exact Nat.zero_le _
  | cons v vs ih =>
    cases h with
    | last _ h =>
      obtain ⟨b, t', rfl, -⟩ := h.head
      simp only [List.length_append, List.length_cons, List.length_nil]
      omega
    | cons _ _ _ hs =>
      have hle := ih hs
      simp only [List.length_append, List.length_cons]
      omega

theorem DenotesMembers.length_le {ms : List (List UInt8 × Value D)} {t : List UInt8} (h : DenotesMembers num ms t) :
    ms.length ≤ t.length := by
  induction ms generalizing t with
  | nil => exact Nat.zero_le _
  | cons m ms ih =>
    cases h with
    | last =>
      simp only [List.length_append, List.length_cons, List.length_nil]
      omega
    | cons _ _ _ _ _ _ hs =>
      have hle := ih hs
      simp only [List.length_append, List.length_cons]
      omega

/-! ### The text of a value that is known -/

theorem Denotes.of_string {s t : List UInt8} (h : Denotes num (.string s) t) :
    ∃ u, t = quote :: (u ++ [quote]) ∧ StringText s u := by
  cases h with
  | string h => exact ⟨_, rfl, h⟩

theorem Denotes.of_array {vs : List (Value D)} {t : List UInt8} (h : Denotes num (.array vs) t) :
    ∃ u, t = 0x5B :: (u ++ [0x5D]) ∧ (vs = [] ∨ DenotesItems num vs u) := by
  cases h with
  | emptyArray => exact ⟨_, rfl, Or.inl rfl⟩
  | array h => exact ⟨_, rfl, Or.inr h⟩

theorem Denotes.of_object {ms : List (List UInt8 × Value D)} {t : List UInt8} (h : Denotes num (.object ms) t) :
    ∃ u, t = 0x7B :: (u ++ [0x7D]) ∧ (ms = [] ∨ DenotesMembers num ms u) := by
  cases h with
  | emptyObject => exact ⟨_, rfl, Or.inl rfl⟩
  | object h => exact ⟨_, rfl, Or.inr h⟩

/-- What comes behind an element: blanks, or a comma and the other elements. -/
def More {α : Type*} (denotes : List α → List UInt8 → Prop) (xs : List α) (r : List UInt8) : Prop :=
  xs = [] ∧ Blank r ∨ ∃ w ts, r = w ++ comma :: ts ∧ Blank w ∧ denotes xs ts

/-- The first item and what comes behind it. -/
theorem DenotesItems.parts {vs : List (Value D)} {u : List UInt8} (h : DenotesItems num vs u) :
    ∃ v vs₁ w t r, vs = v :: vs₁ ∧ u = w ++ (t ++ r) ∧ Blank w ∧ Denotes num v t ∧
      More (DenotesItems num) vs₁ r := by
  cases h with
  | last hw h hw' => exact ⟨_, _, _, _, _, rfl, rfl, hw, h, Or.inl ⟨rfl, hw'⟩⟩
  | cons hw h hw' hs => exact ⟨_, _, _, _, _, rfl, rfl, hw, h, Or.inr ⟨_, _, rfl, hw', hs⟩⟩

/-- The first member and what comes behind it. -/
theorem DenotesMembers.parts {ms : List (List UInt8 × Value D)} {u : List UInt8} (h : DenotesMembers num ms u) :
    ∃ k v ms₁ w kt w₁ w₂ t r, ms = (k, v) :: ms₁ ∧
      u = w ++ (quote :: (kt ++ quote :: (w₁ ++ colon :: (w₂ ++ (t ++ r))))) ∧ Blank w ∧ StringText k kt ∧
      Blank w₁ ∧ Blank w₂ ∧ Denotes num v t ∧ More (DenotesMembers num) ms₁ r := by
  cases h with
  | last hw hk hw₁ hw₂ h hw' => exact ⟨_, _, _, _, _, _, _, _, _, rfl, rfl, hw, hk, hw₁, hw₂, h, Or.inl ⟨rfl, hw'⟩⟩
  | cons hw hk hw₁ hw₂ h hw' hs =>
    exact ⟨_, _, _, _, _, _, _, _, _, rfl, rfl, hw, hk, hw₁, hw₂, h, Or.inr ⟨_, _, rfl, hw', hs⟩⟩

/-! ### Lists of items and members -/

section Lists

variable {P : List UInt8 → Prop} {Q : D → Prop} {vs : List (Value D)} {ms : List (List UInt8 × Value D)} {k : Nat}

theorem allItems_iff : AllItems P Q vs ↔ ∀ v ∈ vs, v.All P Q := by
  induction vs with
  | nil => simp [AllItems]
  | cons v vs ih => simp [AllItems, ih]

theorem allMembers_iff : AllMembers P Q ms ↔ ∀ m ∈ ms, P m.1 ∧ m.2.All P Q := by
  induction ms with
  | nil => simp [AllMembers]
  | cons m ms ih => simp [AllMembers, ih, and_assoc]

theorem depthItems_le_iff : depthItems vs ≤ k ↔ ∀ v ∈ vs, v.depth ≤ k := by
  induction vs with
  | nil => simp [depthItems]
  | cons v vs ih =>
    rw [depthItems, Nat.max_le, ih]
    simp

theorem depthMembers_le_iff : depthMembers ms ≤ k ↔ ∀ m ∈ ms, m.2.depth ≤ k := by
  induction ms with
  | nil => simp [depthMembers]
  | cons m ms ih =>
    rw [depthMembers, Nat.max_le, ih]
    simp

end Lists

/-! ### Zeros -/

theorem Blank.zero_notMem {w : List UInt8} (hw : Blank w) : 0 ∉ w := by
  intro h
  have hzero := hw 0 h
  revert hzero
  decide

private theorem codeUnit_zero_notMem {digits : List UInt8} {n : Nat} (h : codeUnit digits = some n) : 0 ∉ digits := by
  obtain ⟨ns, hns, -⟩ := Option.map_eq_some_iff.1 h
  clear h
  induction digits generalizing ns with
  | nil => exact List.not_mem_nil
  | cons d ds ih =>
    rw [List.mapM_cons] at hns
    obtain ⟨k, hk, hrest⟩ := Option.bind_eq_some_iff.1 hns
    obtain ⟨ks, hks, -⟩ := Option.bind_eq_some_iff.1 hrest
    rw [List.mem_cons, not_or]
    refine ⟨?_, ih ks hks⟩
    rintro rfl
    cases hk

theorem CharText.zero_notMem {s t : List UInt8} (h : CharText s t) : 0 ∉ t := by
  cases h with
  | @plain b h =>
    rw [List.mem_singleton]
    rintro rfl
    exact absurd h (by decide)
  | @short e _ h =>
    have he : (0 : UInt8) ≠ e := by
      rintro rfl
      cases h
    simp [backslash, he]
  | unit _ h => simp [backslash, codeUnit_zero_notMem h]
  | pair _ _ hhigh hlow => simp [backslash, codeUnit_zero_notMem hhigh, codeUnit_zero_notMem hlow]

theorem StringText.zero_notMem {s t : List UInt8} (h : StringText s t) : 0 ∉ t := by
  induction h with
  | nil => exact List.not_mem_nil
  | cons h _ ih =>
    rw [List.mem_append, not_or]
    exact ⟨h.zero_notMem, ih⟩

theorem NumberText.zero_notMem {t : List UInt8} (h : NumberText t) : 0 ∉ t := fun hzero =>
  absurd (h.isNumberChar hzero) (by decide)

mutual

/-- A JSON text has no zero. -/
theorem Denotes.zero_notMem {v : Value D} {t : List UInt8} (h : Denotes num v t) : 0 ∉ t := by
  cases h with
  | null => decide
  | bool b => cases b <;> decide
  | number ht => exact ht.zero_notMem
  | string h => simp [quote, h.zero_notMem]
  | emptyArray hw => simp [hw.zero_notMem]
  | array h => simp [DenotesItems.zero_notMem h]
  | emptyObject hw => simp [hw.zero_notMem]
  | object h => simp [DenotesMembers.zero_notMem h]

theorem DenotesItems.zero_notMem {vs : List (Value D)} {t : List UInt8} (h : DenotesItems num vs t) : 0 ∉ t := by
  cases h with
  | last hw h hw' => simp [hw.zero_notMem, Denotes.zero_notMem h, hw'.zero_notMem]
  | cons hw h hw' hs =>
    simp [comma, hw.zero_notMem, Denotes.zero_notMem h, hw'.zero_notMem, DenotesItems.zero_notMem hs]

theorem DenotesMembers.zero_notMem {ms : List (List UInt8 × Value D)} {t : List UInt8}
    (h : DenotesMembers num ms t) : 0 ∉ t := by
  cases h with
  | last hw hk hw₁ hw₂ h hw' =>
    simp [quote, colon, hw.zero_notMem, hk.zero_notMem, hw₁.zero_notMem, hw₂.zero_notMem, Denotes.zero_notMem h,
      hw'.zero_notMem]
  | cons hw hk hw₁ hw₂ h hw' hs =>
    simp [quote, colon, comma, hw.zero_notMem, hk.zero_notMem, hw₁.zero_notMem, hw₂.zero_notMem,
      Denotes.zero_notMem h, hw'.zero_notMem, DenotesMembers.zero_notMem hs]

end

end Zappy.JsonText
