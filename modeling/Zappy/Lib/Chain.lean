import Mathlib.Data.List.Nodup
import Mathlib.Logic.Function.Basic

/-!
# Singly linked chains in a heap

A heap maps addresses to cells and `link` reads the address of the next cell.  `Chain heap link h l` says that the
cells reached from `h` are those of `l`, with their addresses, and that the last one links to nothing.  A chain is
determined by its first address, so that it visits no address twice.  `seek` is the loop that looks for a cell and
remembers the address before it; it ends on every chain, at the first cell that passes the test.
-/

namespace Zappy.Chains

variable {α ν : Type*} {heap heap' : α → Option ν} {link : ν → Option α}

/-- The cells of `l` and their addresses, linked in order from `h`; the last one links to `rest`. -/
def Path (heap : α → Option ν) (link : ν → Option α) : Option α → List (α × ν) → Option α → Prop
  | h, [], rest => h = rest
  | h, x :: l, rest => h = some x.1 ∧ heap x.1 = some x.2 ∧ Path heap link (link x.2) l rest

/-- A path to the end: the last cell links to nothing. -/
def Chain (heap : α → Option ν) (link : ν → Option α) (h : Option α) (l : List (α × ν)) : Prop :=
  Path heap link h l none

theorem Path.cell {h rest : Option α} {l : List (α × ν)} (hp : Path heap link h l rest) {x : α × ν}
    (hx : x ∈ l) : heap x.1 = some x.2 := by
  induction l generalizing h with
  | nil => cases hx
  | cons y l ih =>
    rcases List.mem_cons.1 hx with rfl | hx
    · exact hp.2.1
    · exact ih hp.2.2 hx

theorem Path.congr {h rest : Option α} {l : List (α × ν)} (hp : Path heap link h l rest)
    (hl : ∀ x ∈ l, heap' x.1 = heap x.1) : Path heap' link h l rest := by
  induction l generalizing h with
  | nil => exact hp
  | cons x l ih =>
    obtain ⟨h1, h2, h3⟩ := hp
    refine ⟨h1, (hl x (by simp)).trans h2, ?_⟩
    exact ih h3 fun y hy => hl y (List.mem_cons_of_mem _ hy)

private theorem path_append {h rest : Option α} {l₁ l₂ : List (α × ν)} :
    Path heap link h (l₁ ++ l₂) rest ↔ ∃ mid, Path heap link h l₁ mid ∧ Path heap link mid l₂ rest := by
  induction l₁ generalizing h with
  | nil => simp [Path]
  | cons x l₁ ih => simp [Path, ih, and_assoc]

theorem Chain.unique {h : Option α} {l l' : List (α × ν)} (hc : Chain heap link h l)
    (hc' : Chain heap link h l') : l = l' := by
  induction l generalizing h l' with
  | nil =>
    cases l' with
    | nil => rfl
    | cons y l' => exact absurd (hc.symm.trans hc'.1) (by simp)
  | cons x l ih =>
    cases l' with
    | nil => exact absurd (hc'.symm.trans hc.1) (by simp)
    | cons y l' =>
      have hxy : x.1 = y.1 := Option.some.inj (hc.1.symm.trans hc'.1)
      have hcell : x.2 = y.2 := Option.some.inj (hc.2.1.symm.trans (hxy ▸ hc'.2.1))
      obtain rfl : x = y := Prod.ext hxy hcell
      rw [ih hc.2.2 hc'.2.2]

/-- A chain ends, so it does not come back to a cell it has visited. -/
theorem Chain.nodup {h : Option α} {l : List (α × ν)} (hc : Chain heap link h l) : (l.map Prod.fst).Nodup := by
  induction l generalizing h with
  | nil => exact List.nodup_nil
  | cons x l ih =>
    obtain ⟨rfl, h2, h3⟩ := hc
    rw [List.map_cons, List.nodup_cons]
    refine ⟨?_, ih h3⟩
    intro hx
    obtain ⟨y, hy, hyx⟩ := List.mem_map.1 hx
    obtain ⟨l₁, l₂, rfl⟩ := List.append_of_mem hy
    obtain ⟨mid, -, hmid⟩ := path_append.1 h3
    have hcell : heap x.1 = some y.2 := hyx ▸ hmid.2.1
    obtain rfl : y = x := Prod.ext hyx (Option.some.inj (hcell.symm.trans h2))
    -- the chain from this cell would have two lengths
    have hlong : Chain heap link (some y.1) (y :: (l₁ ++ y :: l₂)) := ⟨rfl, h2, h3⟩
    have hshort : Chain heap link (some y.1) (y :: l₂) := ⟨rfl, h2, hmid.2.2⟩
    have hlen := congrArg List.length (hlong.unique hshort)
    simp only [List.length_cons, List.length_append] at hlen
    omega

/-- The cells of a chain before and after one of them are other cells. -/
theorem Chain.apart {h : Option α} {l₁ l₂ : List (α × ν)} {x : α × ν} (hc : Chain heap link h (l₁ ++ x :: l₂)) :
    ∀ y ∈ l₁ ++ l₂, y.1 ≠ x.1 := by
  have hnd := hc.nodup
  rw [List.map_append, List.map_cons, List.nodup_middle, List.nodup_cons, ← List.map_append] at hnd
  intro y hy hyx
  exact hnd.1 (hyx ▸ List.mem_map_of_mem hy)

section Write

variable [DecidableEq α]

/-- Insertion of a fresh cell at the head. -/
theorem Chain.insert {h : Option α} {l : List (α × ν)} (hc : Chain heap link h l) {a : α} {e : ν}
    (ha : heap a = none) (he : link e = h) :
    Chain (Function.update heap a (some e)) link (some a) ((a, e) :: l) := by
  refine ⟨rfl, Function.update_self .., ?_⟩
  rw [he]
  refine Path.congr hc fun x hx => Function.update_of_ne ?_ _ _
  intro hxa
  have hcell := Path.cell hc hx
  rw [hxa, ha] at hcell
  cases hcell

/-- A cell is written in place. -/
theorem Chain.write {h : Option α} {l₁ l₂ : List (α × ν)} {a : α} {e e' : ν}
    (hc : Chain heap link h (l₁ ++ (a, e) :: l₂)) (he : link e' = link e) :
    Chain (Function.update heap a (some e')) link h (l₁ ++ (a, e') :: l₂) := by
  have hfar : ∀ x ∈ l₁ ++ l₂, Function.update heap a (some e') x.1 = heap x.1 := fun x hx =>
    Function.update_of_ne (hc.apart x hx) _ _
  obtain ⟨mid, h1, h2, -, h4⟩ := path_append.1 hc
  refine path_append.2 ⟨mid, ?_, h2, Function.update_self .., ?_⟩
  · exact h1.congr fun x hx => hfar x (List.mem_append_left _ hx)
  · rw [he]
    exact h4.congr fun x hx => hfar x (List.mem_append_right _ hx)

/-- The first cell is unlinked and freed. -/
theorem Chain.unlink_head {h : Option α} {l : List (α × ν)} {a : α} {e : ν}
    (hc : Chain heap link h ((a, e) :: l)) : Chain (Function.update heap a none) link (link e) l := by
  have hc' : Chain heap link h ([] ++ (a, e) :: l) := hc
  have hfar := hc'.apart
  obtain ⟨-, -, h3⟩ := hc
  exact h3.congr fun x hx => Function.update_of_ne (hfar x hx) _ _

/-- A cell after the first one is unlinked, the cell before it taking its link, and freed. -/
theorem Chain.unlink {h : Option α} {l₁ l₂ : List (α × ν)} {a b : α} {e p p' : ν}
    (hc : Chain heap link h (l₁ ++ (b, p) :: (a, e) :: l₂)) (hp : link p' = link e) :
    Chain (Function.update (Function.update heap b (some p')) a none) link h (l₁ ++ (b, p') :: l₂) := by
  have hnb := hc.apart
  have hna : ∀ y ∈ (l₁ ++ [(b, p)]) ++ l₂, y.1 ≠ a := by
    have hc' : Chain heap link h ((l₁ ++ [(b, p)]) ++ (a, e) :: l₂) := by
      rwa [List.append_assoc, List.singleton_append]
    exact hc'.apart
  have hba : b ≠ a := hna (b, p) (by simp)
  have hfar : ∀ x ∈ l₁ ++ l₂, Function.update (Function.update heap b (some p')) a none x.1 = heap x.1 := by
    intro x hx
    rw [Function.update_of_ne, Function.update_of_ne]
    · refine hnb x ?_
      rcases List.mem_append.1 hx with h1 | h2
      · exact List.mem_append_left _ h1
      · exact List.mem_append_right _ (List.mem_cons_of_mem _ h2)
    · refine hna x ?_
      rcases List.mem_append.1 hx with h1 | h2
      · exact List.mem_append_left _ (List.mem_append_left _ h1)
      · exact List.mem_append_right _ h2
  obtain ⟨mid, h1, h2, -, -, -, h6⟩ := path_append.1 hc
  refine path_append.2 ⟨mid, ?_, h2, ?_, ?_⟩
  · exact h1.congr fun x hx => hfar x (List.mem_append_left _ hx)
  · rw [Function.update_of_ne hba, Function.update_self]
  · rw [hp]
    exact h6.congr fun x hx => hfar x (List.mem_append_right _ hx)

end Write

section Seek

/-- `while (curr) { if (test(curr)) break; prev = curr; curr = curr->next; }`: the values of `prev` and `curr` at
its end.  `none` when it reads a free cell, or when `fuel` cells were passed and the chain goes on. -/
def seek (heap : α → Option ν) (link : ν → Option α) (test : ν → Bool) :
    Nat → Option α → Option α → Option (Option α × Option α)
  | _, prev, none => some (prev, none)
  | 0, _, some _ => none
  | n + 1, prev, some a =>
    (heap a).bind fun e => if test e then some (prev, some a) else seek heap link test n (some a) (link e)

/-- The address that the loop remembers after the cells of `l`. -/
def lastOf (prev : Option α) (l : List (α × ν)) : Option α := (l.getLast?.map Prod.fst).or prev

private theorem lastOf_cons (prev : Option α) (x : α × ν) (l : List (α × ν)) :
    lastOf prev (x :: l) = lastOf (some x.1) l := by
  cases l with
  | nil => rfl
  | cons y l =>
    have hlast : ((y :: l).getLast?).isSome := by simp
    obtain ⟨z, hz⟩ := Option.isSome_iff_exists.1 hlast
    simp [lastOf, List.getLast?_cons_cons, hz]

variable {test : ν → Bool}

/-- The loop passes the cells that fail the test. -/
private theorem seek_path {h rest : Option α} {l : List (α × ν)} (hp : Path heap link h l rest)
    (ht : ∀ x ∈ l, test x.2 = false) (n : Nat) (prev : Option α) :
    seek heap link test (l.length + n) prev h = seek heap link test n (lastOf prev l) rest := by
  induction l generalizing h prev with
  | nil =>
    cases hp
    simp [lastOf]
  | cons x l ih =>
    obtain ⟨rfl, h2, h3⟩ := hp
    have hx := ht x (by simp)
    have hlen : (x :: l).length + n = l.length + n + 1 := by
      rw [List.length_cons]
      omega
    rw [hlen, seek, h2, Option.bind_some, if_neg (by simp [hx]), lastOf_cons]
    exact ih h3 (fun y hy => ht y (List.mem_cons_of_mem _ hy)) (some x.1)

/-- The loop stops at the first cell that passes the test. -/
theorem seek_found {h : Option α} {l₁ l₂ : List (α × ν)} {x : α × ν}
    (hc : Chain heap link h (l₁ ++ x :: l₂)) (ht : ∀ y ∈ l₁, test y.2 = false) (hx : test x.2 = true) {n : Nat}
    (hn : l₁.length < n) (prev : Option α) :
    seek heap link test n prev h = some (lastOf prev l₁, some x.1) := by
  obtain ⟨rest, h1, rfl, h3, -⟩ := path_append.1 hc
  obtain ⟨m, rfl⟩ : ∃ m, n = l₁.length + (m + 1) := ⟨n - l₁.length - 1, by omega⟩
  rw [seek_path h1 ht, seek, h3, Option.bind_some, if_pos hx]

/-- The loop comes to the end of a chain none of whose cells passes the test. -/
theorem seek_missing {h : Option α} {l : List (α × ν)} (hc : Chain heap link h l)
    (ht : ∀ x ∈ l, test x.2 = false) {n : Nat} (hn : l.length ≤ n) (prev : Option α) :
    seek heap link test n prev h = some (lastOf prev l, none) := by
  have hc' : Chain heap link h (l ++ []) := by rwa [List.append_nil]
  obtain ⟨rest, h1, rfl⟩ := path_append.1 hc'
  obtain ⟨m, rfl⟩ : ∃ m, n = l.length + m := ⟨n - l.length, by omega⟩
  rw [seek_path h1 ht]
  cases m <;> rfl

end Seek

end Zappy.Chains
