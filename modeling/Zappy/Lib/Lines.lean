import Mathlib.Data.List.Basic

/-!
# Lines read through a buffer

`readUpTo` is the reading of a line into a buffer of fixed size: it stops behind a newline, and when the buffer is
full.  A text read so is not its list of lines but that of their pieces, the lines cut to the size of the buffer.
-/

namespace Zappy.Lines

variable {α : Type*} {n : Nat}

/-! ### Pieces -/

/-- A list cut into pieces of `n` elements, the last one shorter. -/
def cut (n : Nat) (l : List α) : List (List α) :=
  (List.range ((l.length + n - 1) / n)).map fun i => (l.drop (n * i)).take n

@[simp] theorem cut_nil (hn : 0 < n) : cut n ([] : List α) = [] := by
  rw [cut, List.length_nil, Nat.zero_add, Nat.div_eq_of_lt (by omega)]
  rfl

/-- The first piece, and the pieces of the rest. -/
private theorem cut_eq (hn : 0 < n) {l : List α} (hl : l ≠ []) : cut n l = l.take n :: cut n (l.drop n) := by
  have hpos : 0 < l.length := List.length_pos_iff.2 hl
  have hcount : (l.length + n - 1) / n = ((l.drop n).length + n - 1) / n + 1 := by
    rw [← Nat.add_div_right _ hn, List.length_drop]
    by_cases hle : n ≤ l.length
    · congr 1
      omega
    · rw [Nat.div_eq_of_lt_le (m := l.length + n - 1) (k := 1) (by omega) (by omega),
        Nat.div_eq_of_lt_le (k := 1) (by omega) (by omega)]
  rw [cut, hcount, List.range_succ_eq_map, List.map_cons, List.map_map, cut]
  refine congrArg₂ _ (by simp) (List.map_congr_left fun i _ => ?_)
  rw [Function.comp_apply, List.drop_drop, Nat.mul_succ, Nat.add_comm]

theorem cut_short (hn : 0 < n) {l : List α} (hl : l ≠ []) (hle : l.length ≤ n) : cut n l = [l] := by
  rw [cut_eq hn hl, List.take_of_length_le hle, List.drop_eq_nil_of_le hle, cut_nil hn]

/-! ### Reading -/

variable [DecidableEq α] {nl : α}

/-- At most `n` elements and none behind a newline, and what is left. -/
def readUpTo (nl : α) : Nat → List α → List α × List α
  | 0, cs => ([], cs)
  | _ + 1, [] => ([], [])
  | n + 1, c :: cs => if c = nl then ([c], cs) else (c :: (readUpTo nl n cs).1, (readUpTo nl n cs).2)

/-- The pieces of all lines. -/
def pieces (n : Nat) (nl : α) (text : List α) : List (List α) := (text.splitOn nl).flatMap (cut n)

/-- Nothing is lost between what is read and what is left. -/
theorem readUpTo_append (nl : α) (n : Nat) (text : List α) :
    (readUpTo nl n text).1 ++ (readUpTo nl n text).2 = text := by
  induction n generalizing text with
  | zero => rfl
  | succ n ih =>
    cases text with
    | nil => rfl
    | cons c cs =>
      unfold readUpTo
      split
      · rfl
      · rw [List.cons_append, ih]

/-- A line that fills the buffer. -/
private theorem readUpTo_long {content : List α} (hnl : nl ∉ content) (hn : n ≤ content.length) (rest : List α) :
    readUpTo nl n (content ++ rest) = (content.take n, content.drop n ++ rest) := by
  induction content generalizing n with
  | nil =>
    obtain rfl : n = 0 := by simpa using hn
    rfl
  | cons c content ih =>
    rw [List.mem_cons, not_or] at hnl
    cases n with
    | zero => rfl
    | succ n =>
      have hrest := ih hnl.2 (n := n) (by simpa using hn)
      rw [List.cons_append, readUpTo, if_neg (Ne.symm hnl.1), hrest, List.take_succ_cons, List.drop_succ_cons]

/-- A line with its newline, in a buffer with room for both. -/
private theorem readUpTo_line {content : List α} (hnl : nl ∉ content) (hn : content.length < n) (rest : List α) :
    readUpTo nl n (content ++ nl :: rest) = (content ++ [nl], rest) := by
  induction content generalizing n with
  | nil =>
    obtain ⟨m, rfl⟩ : ∃ m, n = m + 1 := ⟨n - 1, by simp at hn; omega⟩
    simp [readUpTo]
  | cons c content ih =>
    rw [List.mem_cons, not_or] at hnl
    obtain ⟨m, rfl⟩ : ∃ m, n = m + 1 := ⟨n - 1, by simp at hn; omega⟩
    have hrest := ih hnl.2 (n := m) (by simp at hn; omega)
    rw [List.cons_append, readUpTo, if_neg (Ne.symm hnl.1), hrest, List.cons_append]

/-- A last line without a newline. -/
private theorem readUpTo_last {content : List α} (hnl : nl ∉ content) (hn : content.length < n) :
    readUpTo nl n content = (content, []) := by
  induction content generalizing n with
  | nil => cases n <;> rfl
  | cons c content ih =>
    rw [List.mem_cons, not_or] at hnl
    obtain ⟨m, rfl⟩ : ∃ m, n = m + 1 := ⟨n - 1, by simp at hn; omega⟩
    have hrest := ih hnl.2 (n := m) (by simp at hn; omega)
    rw [readUpTo, if_neg (Ne.symm hnl.1), hrest]

theorem pieces_nil (hn : 0 < n) : pieces n nl [] = [] := by
  simp [pieces, hn]

private theorem pieces_line {content : List α} (hnl : nl ∉ content) (rest : List α) :
    pieces n nl (content ++ nl :: rest) = cut n content ++ pieces n nl rest := by
  rw [pieces, List.splitOn_append_cons_self, List.splitOn_eq_singleton hnl, List.singleton_append, List.flatMap_cons,
    pieces]

private theorem pieces_last {content : List α} (hnl : nl ∉ content) : pieces n nl content = cut n content := by
  rw [pieces, List.splitOn_eq_singleton hnl, List.flatMap_singleton]

/-- One reading takes a newline alone, or the next piece with or without a newline. -/
theorem readUpTo_pieces (nl : α) (hn : 0 < n) {text : List α} (htext : text ≠ []) :
    (readUpTo nl n text).1 ≠ [] ∧
      ((readUpTo nl n text).1 = [nl] ∧ pieces n nl text = pieces n nl (readUpTo nl n text).2 ∨
        ∃ piece, ((readUpTo nl n text).1 = piece ∨ (readUpTo nl n text).1 = piece ++ [nl]) ∧
          pieces n nl text = piece :: pieces n nl (readUpTo nl n text).2) := by
  obtain ⟨content, hnl, hcontent⟩ : ∃ content, nl ∉ content ∧
      (text = content ∨ ∃ rest, text = content ++ nl :: rest) := by
    by_cases hmem : nl ∈ text
    · obtain ⟨content, rest, h, hnl⟩ := List.eq_append_cons_of_mem hmem
      exact ⟨content, hnl, Or.inr ⟨rest, h⟩⟩
    · exact ⟨text, hmem, Or.inl rfl⟩
  by_cases hlong : n ≤ content.length
  · -- the buffer is full before the end of the line
    have hne : content ≠ [] := by
      rintro rfl
      simp at hlong
      omega
    have htake : content.take n ≠ [] := by simp [hne]; omega
    have hdrop : nl ∉ content.drop n := fun hmem => hnl (List.mem_of_mem_drop hmem)
    rcases hcontent with rfl | ⟨rest, rfl⟩
    · have hread := readUpTo_long hnl hlong []
      rw [List.append_nil, List.append_nil] at hread
      rw [hread]
      exact ⟨htake, Or.inr ⟨_, Or.inl rfl, by rw [pieces_last hnl, pieces_last hdrop, cut_eq hn hne]⟩⟩
    · rw [readUpTo_long hnl hlong]
      exact ⟨htake, Or.inr ⟨_, Or.inl rfl, by
        rw [pieces_line hnl, pieces_line hdrop, cut_eq hn hne, List.cons_append]⟩⟩
  · have hroom : content.length < n := by omega
    rcases hcontent with rfl | ⟨rest, rfl⟩
    · rw [readUpTo_last hnl hroom]
      exact ⟨htext, Or.inr ⟨_, Or.inl rfl, by
        rw [pieces_last hnl, cut_short hn htext (by omega), pieces_nil hn]⟩⟩
    · rw [readUpTo_line hnl hroom]
      refine ⟨by simp, ?_⟩
      by_cases hempty : content = []
      · subst hempty
        exact Or.inl ⟨rfl, by rw [pieces_line hnl, cut_nil hn, List.nil_append]⟩
      · exact Or.inr ⟨_, Or.inr rfl, by rw [pieces_line hnl, cut_short hn hempty (by omega)]; rfl⟩

end Zappy.Lines
