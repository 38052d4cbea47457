import Zappy.Lib.CircularList
import Zappy.Lib.Run
import Zappy.Structs

/-!
# Circular lists (`ft_list.c`)

All functions of `ft_list.c`, over a memory of list items.  `NULL` is `none`; reading or writing through it has no
result.  The address of the head pointer is never `NULL`.  Appending and taking out keep a ring that spells the list;
the functions for the front take the node after the head for the first.
-/

namespace Zappy.FtList

open CircularList Run

/-! ### The source -/

/-- `list_item_t`. -/
structure ListItem where
  next : Option Addr := none
  prev : Option Addr := none
  deriving DecidableEq, Repr

/-- The list items and the head pointer. -/
structure Memory where
  items : Addr → ListItem
  head : Option Addr := none

/-- The codes of `error_codes.h`. -/
def ok : Int := 1

def failure : Int := -1

def invalidArgs : Int := -2

namespace Memory

def next (m : Memory) (a : Addr) : Option Addr := (m.items a).next

def prev (m : Memory) (a : Addr) : Option Addr := (m.items a).prev

def setNext (m : Memory) (a : Addr) (x : Option Addr) : Memory :=
  { m with items := Function.update m.items a { m.items a with next := x } }

def setPrev (m : Memory) (a : Addr) (x : Option Addr) : Memory :=
  { m with items := Function.update m.items a { m.items a with prev := x } }

def setHead (m : Memory) (x : Option Addr) : Memory := { m with head := x }

end Memory

/-- `ft_list_add_last`. -/
def ftListAddLast (m : Memory) (node : Option Addr) : Option (Int × Memory) :=
  match node, m.head with
  | none, _ => some (invalidArgs, m)
  | some node, none => some (ok, ((m.setHead node).setNext node node).setPrev node node)
  | some node, some head => (m.prev head).map fun last =>
    (ok, (((m.setNext last node).setPrev node last).setNext node head).setPrev head node)

/-- `ft_list_add_first`, with its loop given up after `fuel` turns. -/
def ftListAddFirst (fuel : Nat) (m : Memory) (node : Option Addr) : Option (Int × Memory) :=
  match node, m.head with
  | none, _ => some (invalidArgs, m)
  | some _, none => none
  | some node, some head => (backTo m.prev head fuel head).map fun first =>
    (ok, (m.setPrev first node).setNext node first)

/-- `ft_list_get_next`. -/
def ftListGetNext (m : Memory) (node : Option Addr) : Option Addr :=
  match node, m.head with
  | some node, some head => if m.next node = some head then none else m.next node
  | _, _ => none

/-- `ft_list_get_prev`. -/
def ftListGetPrev (m : Memory) (node : Option Addr) : Option Addr :=
  match node, m.head with
  | some node, some head => if m.prev node = some head then none else m.prev node
  | _, _ => none

/-- The writes of `ft_list_pop` that link the neighbours of `node` to each other; `head` may be one of them. -/
def bypass (m : Memory) (head node prev next : Addr) : Memory :=
  ((m.setNext prev next).setPrev next prev).setHead (if head = node then next else head)

/-- `ft_list_pop`. -/
def ftListPop (m : Memory) (node : Option Addr) : Option (Int × Memory) :=
  match node, m.head with
  | some node, some head =>
    if some node = m.next node ∧ some node = m.prev node then
      some (ok, ((m.setHead none).setNext node none).setPrev node none)
    else (m.prev node).bind fun prev => (m.next node).map fun next =>
      (ok, ((bypass m head node prev next).setNext node none).setPrev node none)
  | _, _ => some (invalidArgs, m)

/-- `ft_list_get_first`. -/
def ftListGetFirst (fuel : Nat) (m : Memory) : Option (Option Addr) :=
  match m.head with
  | none => some none
  | some head => (backTo m.prev head fuel head).map some

/-- `ft_list_get_last`. -/
def ftListGetLast (fuel : Nat) (m : Memory) : Option (Option Addr) :=
  match m.head with
  | none => some none
  | some head => (backTo m.next head fuel head).map some

/-- `ft_list_pop_first`. -/
def ftListPopFirst (fuel : Nat) (m : Memory) : Option (Int × Memory) := (ftListGetFirst fuel m).bind (ftListPop m)

/-- `ft_list_pop_last`. -/
def ftListPopLast (fuel : Nat) (m : Memory) : Option (Int × Memory) := (ftListGetLast fuel m).bind (ftListPop m)

/-- The loop of `ft_list_get_size`. -/
def sizeLoop (m : Memory) (head : Addr) : Nat → Addr → Int → Option Int
  | 0, _, _ => none
  | fuel + 1, current, size => (m.next current).bind fun current =>
    if current = head then some (size + 1) else sizeLoop m head fuel current (size + 1)

/-- `ft_list_get_size`. -/
def ftListGetSize (fuel : Nat) (m : Memory) : Option Int :=
  match m.head with
  | none => some 0
  | some head => sizeLoop m head fuel head 0

/-- The loop of `ft_list_find_node`. -/
def findLoop (m : Memory) (head node : Addr) : Nat → Addr → Int → Option Int
  | 0, _, _ => none
  | fuel + 1, current, index =>
    if current = node then some index
    else (m.next current).bind fun current =>
      if current = head then some failure else findLoop m head node fuel current (index + 1)

/-- `ft_list_find_node`. -/
def ftListFindNode (fuel : Nat) (m : Memory) (node : Option Addr) : Option Int :=
  match node, m.head with
  | some node, some head => findLoop m head node fuel head 0
  | _, _ => some invalidArgs

/-- The nodes met by `ft_list_get_next` from `node` on until `NULL`. -/
def nodesFrom (m : Memory) : Nat → Option Addr → Option (List Addr)
  | _, none => some []
  | 0, some _ => none
  | fuel + 1, some node => (nodesFrom m fuel (ftListGetNext m (some node))).map (node :: ·)

/-! ### Histories -/

inductive ListCall where
  | addLast (node : Addr)
  | pop (node : Addr)
  | popLast
  deriving DecidableEq, Repr

def listStep (fuel : Nat) (m : Memory) : ListCall → Option Memory
  | .addLast node => (ftListAddLast m (some node)).map Prod.snd
  | .pop node => (ftListPop m (some node)).map Prod.snd
  | .popLast => (ftListPopLast fuel m).map Prod.snd

/-- The sequence after a call.  A node is added that is not in it, and a node is taken out that is. -/
def sequenceStep (l : List Addr) : ListCall → Option (List Addr)
  | .addLast node => if node ∈ l then none else some (l ++ [node])
  | .pop node => if node ∈ l then some (l.erase node) else none
  | .popLast => some l.dropLast

/-- The nodes of the ring, read from the head. -/
structure Ring (m : Memory) (l : List Addr) : Prop where
  head : m.head = l.head?
  circle : ∀ h t, l = h :: t → Circle m.next m.prev h t

/-- The ring spells the sequence, its links are inverse to each other, and the functions agree with the sequence. -/
structure Agrees (fuel : Nat) (m : Memory) (l : List Addr) : Prop where
  ring : Ring m l
  inverse : ∀ a ∈ l, (m.next a).bind m.prev = some a ∧ (m.prev a).bind m.next = some a
  size : ftListGetSize fuel m = some (l.length : Int)
  last : ftListGetLast fuel m = some l.getLast?
  find : ∀ node, ftListFindNode fuel m (some node) =
    some (if node ∈ l then (l.idxOf node : Int) else if l = [] then invalidArgs else failure)
  nodes : nodesFrom m fuel m.head = some l

/-! ### Writes -/

namespace Memory

variable (m : Memory) (a b : Addr) (x : Option Addr)

@[simp] theorem head_setNext : (m.setNext a x).head = m.head := rfl

@[simp] theorem head_setPrev : (m.setPrev a x).head = m.head := rfl

@[simp] theorem head_setHead : (m.setHead x).head = x := rfl

@[simp] theorem next_setHead : (m.setHead x).next = m.next := rfl

@[simp] theorem prev_setHead : (m.setHead x).prev = m.prev := rfl

@[simp] theorem next_setNext : (m.setNext a x).next b = if b = a then x else m.next b := by
  by_cases hb : b = a
  · simp [next, setNext, hb]
  · simp [next, setNext, hb]

@[simp] theorem prev_setPrev : (m.setPrev a x).prev b = if b = a then x else m.prev b := by
  by_cases hb : b = a
  · simp [prev, setPrev, hb]
  · simp [prev, setPrev, hb]

@[simp] theorem prev_setNext : (m.setNext a x).prev b = m.prev b := by
  by_cases hb : b = a
  · simp [prev, setNext, hb]
  · simp [prev, setNext, hb]

@[simp] theorem next_setPrev : (m.setPrev a x).next b = m.next b := by
  by_cases hb : b = a
  · simp [next, setPrev, hb]
  · simp [next, setPrev, hb]

end Memory

/-! ### The ring -/

variable {m : Memory} {l : List Addr} {node : Addr}

theorem Ring.nil (hhead : m.head = none) : Ring m [] := ⟨hhead, fun h t he => by cases he⟩

theorem Ring.cons {h : Addr} {t : List Addr} (hhead : m.head = some h) (hcircle : Circle m.next m.prev h t) :
    Ring m (h :: t) := by
  refine ⟨hhead, fun h' t' he => ?_⟩
  cases he
  exact hcircle

theorem Ring.nodup (hr : Ring m l) : l.Nodup := by
  cases l with
  | nil => exact List.nodup_nil
  | cons h t => exact (hr.circle h t rfl).nodup

/-- The memory after appending to a ring with head `h` and last node `last`. -/
def appended (m : Memory) (h last node : Addr) : Memory :=
  (((m.setNext last node).setPrev node last).setNext node h).setPrev h node

private theorem next_appended (h last a : Addr) :
    (appended m h last node).next a = if a = node then some h else if a = last then some node else m.next a := by
  simp [appended]

private theorem prev_appended (h last a : Addr) :
    (appended m h last node).prev a = if a = h then some node else if a = node then some last else m.prev a := by
  simp [appended]

/-- `ft_list_add_last` appends. -/
theorem ftListAddLast_ring (hr : Ring m l) (hnode : node ∉ l) :
    ∃ m', ftListAddLast m (some node) = some (ok, m') ∧ Ring m' (l ++ [node]) := by
  cases l with
  | nil =>
    have hhead : m.head = none := hr.head
    refine ⟨_, by unfold ftListAddLast; rw [hhead], ?_⟩
    exact Ring.cons rfl (Circle.singleton (by simp) (by simp))
  | cons h t =>
    have hhead : m.head = some h := hr.head
    have hcircle := hr.circle h t rfl
    have hprev := hcircle.links.prev_end
    have hmem : t.getLastD h ∈ h :: t := List.getLastD_mem_cons
    have hne : ∀ a ∈ h :: t, a ≠ node := fun a ha he => hnode (he ▸ ha)
    have hht : h ∉ t := (List.nodup_cons.1 hcircle.nodup).1
    refine ⟨appended m h (t.getLastD h) node, ?_, Ring.cons hhead (hcircle.concat hnode ?_ ?_ ?_ ?_ ?_ ?_)⟩
    · unfold ftListAddLast
      rw [hhead]
      simp only [hprev, Option.map_some]
      rfl
    · intro a ha hal
      rw [next_appended, if_neg (hne a ha), if_neg hal]
    · intro a ha
      rw [prev_appended, if_neg (fun he : a = h => hht (he ▸ ha)), if_neg (hne a (List.mem_cons_of_mem _ ha))]
    · rw [next_appended, if_neg (hne _ hmem), if_pos rfl]
    · rw [prev_appended, if_neg (hne h List.mem_cons_self).symm, if_pos rfl]
    · rw [next_appended, if_pos rfl]
    · rw [prev_appended, if_pos rfl]

/-- The memory after `ft_list_pop` of a node with other neighbours. -/
def popped (m : Memory) (head node prev next : Addr) : Memory :=
  ((bypass m head node prev next).setNext node none).setPrev node none

private theorem next_popped (head prev next a : Addr) : (popped m head node prev next).next a =
    if a = node then none else if a = prev then some next else m.next a := by
  simp [popped, bypass]

private theorem prev_popped (head prev next a : Addr) : (popped m head node prev next).prev a =
    if a = node then none else if a = next then some prev else m.prev a := by
  simp [popped, bypass]

/-- A node after `h` is taken out of the circle. -/
private theorem popped_circle {h : Addr} {t t' : List Addr} (head : Addr)
    (hcircle : Circle m.next m.prev h (t ++ node :: t')) :
    Circle (popped m head node (t.getLastD h) (t'.headD h)).next
      (popped m head node (t.getLastD h) (t'.headD h)).prev h (t ++ t') := by
  have hnode : node ∉ h :: (t ++ t') := by
    have hperm : (h :: (t ++ node :: t')).Perm (node :: h :: (t ++ t')) :=
      (List.perm_middle.cons h).trans (List.Perm.swap node h _)
    exact (List.nodup_cons.1 (hperm.nodup_iff.1 hcircle.nodup)).1
  have hlast : t.getLastD h ≠ node := by
    intro he
    have hmem : t.getLastD h ∈ h :: t := List.getLastD_mem_cons
    exact hnode (List.mem_append_left t' (he ▸ hmem))
  have hfirst : t'.headD h ≠ node := by
    cases t' with
    | nil => exact fun he : h = node => hnode (he ▸ List.mem_cons_self)
    | cons y t' =>
      exact fun he : y = node => hnode (he ▸ List.mem_cons_of_mem _ (List.mem_append_right _ List.mem_cons_self))
  refine hcircle.remove ?_ ?_ ?_ ?_
  · intro y hy hyl
    rw [next_popped, if_neg hy, if_neg hyl]
  · intro y hy hyf
    rw [prev_popped, if_neg hy, if_neg hyf]
  · rw [next_popped, if_neg hlast, if_pos rfl]
  · rw [prev_popped, if_neg hfirst, if_pos rfl]

/-- `ft_list_pop` of a node that has other neighbours than itself. -/
private theorem ftListPop_eq {head prev next : Addr} (hhead : m.head = some head) (hprev : m.prev node = some prev)
    (hnext : m.next node = some next) (hne : node ≠ next) :
    ftListPop m (some node) = some (ok, popped m head node prev next) := by
  have hother : ¬ (some node = some next ∧ some node = some prev) := fun he => hne (Option.some.inj he.1)
  unfold ftListPop
  rw [hhead]
  simp only [hprev, hnext, if_neg hother, Option.bind_some, Option.map_some]
  rfl

/-- `ft_list_pop` takes out a node of the ring. -/
private theorem ftListPop_ring (hr : Ring m l) (hnode : node ∈ l) :
    ∃ m', ftListPop m (some node) = some (ok, m') ∧ Ring m' (l.erase node) := by
  cases l with
  | nil => exact absurd hnode List.not_mem_nil
  | cons h t =>
    have hhead : m.head = some h := hr.head
    have hcircle := hr.circle h t rfl
    by_cases hh : h = node
    · subst hh
      rw [List.erase_cons_head]
      cases t with
      | nil =>
        -- the only node is linked to itself
        have hself : some h = m.next h ∧ some h = m.prev h := ⟨hcircle.links.1.symm, hcircle.links.2.symm⟩
        refine ⟨((m.setHead none).setNext h none).setPrev h none, ?_, Ring.nil rfl⟩
        unfold ftListPop
        rw [hhead]
        simp only [if_pos hself]
      | cons x t =>
        -- the head is the last node of the circle seen from the node after it
        have hrotated := hcircle.rotate
        have hnext : m.next h = some x := hcircle.links.1
        have hprev : m.prev h = some (t.getLastD x) := by
          have hend := hcircle.links.prev_end
          rwa [List.getLastD_cons] at hend
        have hne : h ≠ x := fun he => (List.nodup_cons.1 hcircle.nodup).1 (he ▸ List.mem_cons_self)
        refine ⟨_, ftListPop_eq hhead hprev hnext hne, Ring.cons ?_ ?_⟩
        · simp [popped, bypass]
        · have hpopped := popped_circle h hrotated
          rwa [List.append_nil] at hpopped
    · rw [List.erase_cons_tail (by simpa using hh)]
      have htail : node ∈ t := (List.mem_cons.1 hnode).resolve_left (fun he => hh he.symm)
      obtain ⟨before, after, -, rfl, herase⟩ := List.exists_erase_eq htail
      obtain ⟨hto, hfrom⟩ := links_append_cons.1 hcircle.links
      have hne : node ≠ after.headD h := by
        intro he
        cases after with
        | nil => exact hh he.symm
        | cons y after =>
          have hsplit := (List.nodup_append.1 (List.nodup_cons.1 hcircle.nodup).2).2.1
          exact (List.nodup_cons.1 hsplit).1 (he ▸ List.mem_cons_self)
      refine ⟨_, ftListPop_eq hhead hto.prev_end hfrom.next_eq hne, ?_⟩
      rw [herase]
      refine Ring.cons ?_ (popped_circle h hcircle)
      simp [popped, bypass, hh]

/-! ### Loops -/

/-- Reading the ring forward from a node to the end. -/
private theorem sizeLoop_eq {h a : Addr} {t : List Addr} (hlinks : Links m.next m.prev a t h) (hh : h ∉ t) {fuel : Nat}
    (hfuel : t.length < fuel) (size : Int) : sizeLoop m h fuel a size = some (size + t.length + 1) := by
  induction t generalizing a fuel size with
  | nil =>
    obtain ⟨fuel, rfl⟩ : ∃ n, fuel = n + 1 := ⟨fuel - 1, by omega⟩
    simp [sizeLoop, hlinks.1]
  | cons x t ih =>
    obtain ⟨fuel, rfl⟩ : ∃ n, fuel = n + 1 := ⟨fuel - 1, by omega⟩
    have hx : x ≠ h := fun he => hh (he ▸ List.mem_cons_self)
    rw [List.length_cons] at hfuel
    rw [sizeLoop, hlinks.1, Option.bind_some, if_neg hx,
      ih hlinks.2.2 (fun hmem => hh (List.mem_cons_of_mem _ hmem)) (by omega)]
    rw [List.length_cons]
    push_cast
    congr 1
    omega

private theorem findLoop_eq (node : Addr) {h a : Addr} {t : List Addr} (hlinks : Links m.next m.prev a t h)
    (hh : h ∉ t) {fuel : Nat} (hfuel : t.length < fuel) (index : Int) :
    findLoop m h node fuel a index =
      some (if node ∈ a :: t then index + (a :: t).idxOf node else failure) := by
  induction t generalizing a fuel index with
  | nil =>
    obtain ⟨fuel, rfl⟩ : ∃ n, fuel = n + 1 := ⟨fuel - 1, by omega⟩
    by_cases ha : a = node
    · simp [findLoop, ha]
    · simp [findLoop, ha, Ne.symm ha, hlinks.1]
  | cons x t ih =>
    obtain ⟨fuel, rfl⟩ : ∃ n, fuel = n + 1 := ⟨fuel - 1, by omega⟩
    have hx : x ≠ h := fun he => hh (he ▸ List.mem_cons_self)
    rw [List.length_cons] at hfuel
    by_cases ha : a = node
    · simp [findLoop, ha]
    · rw [findLoop, if_neg ha, hlinks.1, Option.bind_some, if_neg hx,
        ih hlinks.2.2 (fun hmem => hh (List.mem_cons_of_mem _ hmem)) (by omega),
        List.idxOf_cons_ne _ ha]
      have hmem : node ∈ a :: x :: t ↔ node ∈ x :: t := by
        rw [List.mem_cons]
        exact or_iff_right (Ne.symm ha)
      simp only [hmem]
      push_cast
      congr 2
      omega

private theorem nodesFrom_eq {h a : Addr} {t : List Addr} (hhead : m.head = some h) (hlinks : Links m.next m.prev a t h)
    (hh : h ∉ t) {fuel : Nat} (hfuel : t.length < fuel) : nodesFrom m fuel (some a) = some (a :: t) := by
  induction t generalizing a fuel with
  | nil =>
    obtain ⟨fuel, rfl⟩ : ∃ n, fuel = n + 1 := ⟨fuel - 1, by omega⟩
    have hnext : ftListGetNext m (some a) = none := by
      unfold ftListGetNext
      rw [hhead]
      simp only [hlinks.1, if_true]
    rw [nodesFrom, hnext]
    cases fuel <;> rfl
  | cons x t ih =>
    obtain ⟨fuel, rfl⟩ : ∃ n, fuel = n + 1 := ⟨fuel - 1, by omega⟩
    have hx : x ≠ h := fun he => hh (he ▸ List.mem_cons_self)
    have hnext : ftListGetNext m (some a) = some x := by
      unfold ftListGetNext
      rw [hhead]
      simp only [hlinks.1, Option.some.injEq, if_neg hx]
    rw [List.length_cons] at hfuel
    rw [nodesFrom, hnext, ih hlinks.2.2 (fun hmem => hh (List.mem_cons_of_mem _ hmem)) (by omega), Option.map_some]

private theorem ftListGetLast_eq (hr : Ring m l) {fuel : Nat} (hfuel : l.length ≤ fuel) :
    ftListGetLast fuel m = some l.getLast? := by
  unfold ftListGetLast
  cases l with
  | nil =>
    have hhead : m.head = none := hr.head
    rw [hhead]
    rfl
  | cons h t =>
    have hhead : m.head = some h := hr.head
    -- going forward is going back in the reversed circle
    have hreverse := (hr.circle h t rfl).reverse
    rw [List.length_cons] at hfuel
    rw [hhead]
    simp only [hreverse.backTo_head (show t.reverse.length < fuel by rw [List.length_reverse]; omega), Option.map_some]
    rw [List.getLast?_cons]
    cases t using List.reverseRecOn <;> simp

/-! ### Histories keep the ring -/

/-- The functions agree with the ring. -/
private theorem Ring.agrees (hr : Ring m l) {fuel : Nat} (hfuel : l.length ≤ fuel) : Agrees fuel m l := by
  refine ⟨hr, ?_, ?_, ftListGetLast_eq hr hfuel, ?_, ?_⟩
  · intro a ha
    cases l with
    | nil => exact absurd ha List.not_mem_nil
    | cons h t =>
      have hcircle := hr.circle h t rfl
      have hback : a ∈ h :: t.reverse := by simpa using ha
      exact ⟨hcircle.links.prev_next ha, hcircle.links.reverse.prev_next hback⟩
  · unfold ftListGetSize
    rw [hr.head]
    cases l with
    | nil => rfl
    | cons h t =>
      have hcircle := hr.circle h t rfl
      have hsize := sizeLoop_eq hcircle.links (List.nodup_cons.1 hcircle.nodup).1 hfuel 0
      simp only [List.head?_cons, hsize, List.length_cons]
      push_cast
      congr 1
      omega
  · intro node
    unfold ftListFindNode
    rw [hr.head]
    cases l with
    | nil => simp
    | cons h t =>
      have hcircle := hr.circle h t rfl
      have hfind := findLoop_eq node hcircle.links (List.nodup_cons.1 hcircle.nodup).1 hfuel 0
      simp [hfind]
  · rw [hr.head]
    cases l with
    | nil => cases fuel <;> rfl
    | cons h t =>
      have hcircle := hr.circle h t rfl
      exact nodesFrom_eq hr.head hcircle.links (List.nodup_cons.1 hcircle.nodup).1 hfuel

private theorem sequenceStep_cases {call : ListCall} {l' : List Addr} (h : sequenceStep l call = some l') :
    (∃ node, call = .addLast node ∧ node ∉ l ∧ l' = l ++ [node]) ∨
      (∃ node, call = .pop node ∧ node ∈ l ∧ l' = l.erase node) ∨ call = .popLast ∧ l' = l.dropLast := by
  cases call with
  | addLast node =>
    simp only [sequenceStep] at h
    split at h
    · cases h
    · rename_i hnode
      exact Or.inl ⟨node, rfl, hnode, (Option.some.inj h).symm⟩
  | pop node =>
    simp only [sequenceStep] at h
    split at h
    · rename_i hnode
      exact Or.inr (Or.inl ⟨node, rfl, hnode, (Option.some.inj h).symm⟩)
    · cases h
  | popLast => exact Or.inr (Or.inr ⟨rfl, (Option.some.inj h).symm⟩)

/-- `ft_list_pop_last` takes out the last node, if there is one. -/
private theorem ftListPopLast_ring (hr : Ring m l) {fuel : Nat} (hfuel : l.length ≤ fuel) :
    ∃ code m', ftListPopLast fuel m = some (code, m') ∧ Ring m' l.dropLast := by
  have hlast := ftListGetLast_eq hr hfuel
  unfold ftListPopLast
  rw [hlast, Option.bind_some]
  rcases List.eq_nil_or_concat l with rfl | ⟨t, x, rfl⟩
  · exact ⟨invalidArgs, m, rfl, hr⟩
  · rw [List.concat_eq_append] at *
    have hx : x ∉ t := by
      intro hmem
      exact (List.nodup_append.1 hr.nodup).2.2 x hmem x (List.mem_singleton_self x) rfl
    obtain ⟨m', hpop, hr'⟩ := ftListPop_ring hr (List.mem_append_right t (List.mem_singleton_self x))
    rw [List.erase_append_right _ hx, List.erase_cons_head, List.append_nil] at hr'
    rw [List.getLast?_concat, List.dropLast_concat]
    exact ⟨ok, m', hpop, hr'⟩

/-- A call on the ring does what the call on the sequence does. -/
private theorem listStep_ring (hr : Ring m l) {call : ListCall} {l' : List Addr} (hcall : sequenceStep l call = some l')
    {fuel : Nat} (hfuel : l.length ≤ fuel) : ∃ m', listStep fuel m call = some m' ∧ Ring m' l' := by
  rcases sequenceStep_cases hcall with ⟨node, rfl, hnode, rfl⟩ | ⟨node, rfl, hnode, rfl⟩ | ⟨rfl, rfl⟩
  · obtain ⟨m', hadd, hr'⟩ := ftListAddLast_ring hr hnode
    exact ⟨m', by rw [listStep, hadd, Option.map_some], hr'⟩
  · obtain ⟨m', hpop, hr'⟩ := ftListPop_ring hr hnode
    exact ⟨m', by rw [listStep, hpop, Option.map_some], hr'⟩
  · obtain ⟨code, m', hpop, hr'⟩ := ftListPopLast_ring hr hfuel
    exact ⟨m', by rw [listStep, hpop, Option.map_some], hr'⟩

private theorem length_sequenceStep {call : ListCall} {l' : List Addr} (hcall : sequenceStep l call = some l') :
    l'.length ≤ l.length + 1 := by
  rcases sequenceStep_cases hcall with ⟨node, -, -, rfl⟩ | ⟨node, -, -, rfl⟩ | ⟨-, rfl⟩
  · simp
  · exact Nat.le_succ_of_le List.length_erase_le
  · rw [List.length_dropLast]
    omega

/-- What one call keeps, a history keeps. -/
private theorem run_ring (hr : Ring m l) {calls : List ListCall} {l' : List Addr}
    (hrun : run sequenceStep l calls = some l') {fuel : Nat} (hfuel : l.length + calls.length ≤ fuel) :
    ∃ m', run (listStep fuel) m calls = some m' ∧ Ring m' l' ∧ l'.length ≤ fuel := by
  induction calls generalizing m l with
  | nil =>
    cases hrun
    exact ⟨m, rfl, hr, by omega⟩
  | cons call calls ih =>
    simp only [run, Option.bind_eq_some_iff] at hrun
    obtain ⟨l₁, hcall, hrest⟩ := hrun
    rw [List.length_cons] at hfuel
    obtain ⟨m₁, hstep, hr₁⟩ := listStep_ring hr hcall (show l.length ≤ fuel by omega)
    have hlen := length_sequenceStep hcall
    obtain ⟨m', hrun', hr', hle⟩ := ih hr₁ hrest (by omega)
    exact ⟨m', by rw [run, hstep, Option.bind_some, hrun'], hr', hle⟩

/-- After every history of an empty list the functions for the end of the list agree with the sequence. -/
theorem ft_list_spells_sequence (items : Addr → ListItem) {calls : List ListCall} {l : List Addr}
    (hrun : run sequenceStep [] calls = some l) {fuel : Nat} (hfuel : calls.length ≤ fuel) :
    ∃ m, run (listStep fuel) ⟨items, none⟩ calls = some m ∧ Agrees fuel m l := by
  obtain ⟨m, hm, hr, hle⟩ := run_ring (Ring.nil rfl : Ring ⟨items, none⟩ []) hrun (by simpa using hfuel)
  exact ⟨m, hm, hr.agrees hle⟩

/-- Three nodes are appended, the head is taken out, and then the last one. -/
theorem ft_list_spells_sequence_three :
    ∃ m, run (listStep 5) ⟨fun _ => {}, none⟩ [.addLast 7, .addLast 8, .addLast 9, .pop 7, .popLast] = some m ∧
      Agrees 5 m [8] :=
  ft_list_spells_sequence (fun _ => {}) (by decide) (by decide)

/-! ### The front of the list -/

/-- What the functions for the front do on a ring: nothing that `ft_list_add_first` does makes a node the first, and
the node after the head is taken for the first. -/
structure FrontExactly (fuel : Nat) (m : Memory) (l : List Addr) : Prop where
  addFirst : ∀ node, node ∉ l → ¬ ∃ code m', ftListAddFirst fuel m (some node) = some (code, m') ∧ Ring m' (node :: l)
  getFirst : ftListGetFirst fuel m = some l.head? ↔ l.length ≤ 1
  popFirst : (∃ code m', ftListPopFirst fuel m = some (code, m') ∧ Ring m' l.tail) ↔ l.length ≤ 1
  getPrev : ∀ before node after, l = before ++ node :: after →
    (ftListGetPrev m (some node) = before.getLast? ↔ l.length = 1 ∨ 2 ≤ before.length)

/-- The head does not change. -/
private theorem ftListAddFirst_head {fuel : Nat} {code : Int} {m' : Memory}
    (h : ftListAddFirst fuel m (some node) = some (code, m')) : m'.head = m.head ∧ m.head ≠ none := by
  unfold ftListAddFirst at h
  cases hhead : m.head with
  | none =>
    rw [hhead] at h
    cases h
  | some head =>
    rw [hhead] at h
    obtain ⟨first, -, heq⟩ := Option.map_eq_some_iff.1 h
    cases heq
    exact ⟨hhead, by simp⟩

/-- The loop of `ft_list_get_first` ends at the node after the head. -/
private theorem ftListGetFirst_eq {h : Addr} {t : List Addr} (hr : Ring m (h :: t)) {fuel : Nat}
    (hfuel : t.length < fuel) : ftListGetFirst fuel m = some (some (t.headD h)) := by
  have hhead : m.head = some h := hr.head
  unfold ftListGetFirst
  rw [hhead]
  simp only [(hr.circle h t rfl).backTo_head hfuel, Option.map_some]

private theorem ftListGetPrev_eq {h a : Addr} (hhead : m.head = some h) (hprev : m.prev node = some a) :
    ftListGetPrev m (some node) = if a = h then none else some a := by
  unfold ftListGetPrev
  rw [hhead]
  simp only [hprev, Option.some.injEq]

/-- The head stays, so the node that was added is not the first one. -/
private theorem ftListAddFirst_never (hr : Ring m l) {fuel : Nat} (hnode : node ∉ l) :
    ¬ ∃ code m', ftListAddFirst fuel m (some node) = some (code, m') ∧ Ring m' (node :: l) := by
  rintro ⟨code, m', hadd, hr'⟩
  obtain ⟨hsame, hne⟩ := ftListAddFirst_head hadd
  have hhead : m'.head = some node := hr'.head
  rw [hsame, hr.head] at hhead
  exact hnode (List.mem_of_mem_head? hhead)

private theorem ftListGetFirst_nil (hr : Ring m []) (fuel : Nat) : ftListGetFirst fuel m = some none := by
  have hhead : m.head = none := hr.head
  unfold ftListGetFirst
  rw [hhead]

private theorem Ring.second_ne {h x : Addr} {t : List Addr} (hr : Ring m (h :: x :: t)) : x ≠ h := fun he =>
  (List.nodup_cons.1 hr.nodup).1 (he ▸ List.mem_cons_self)

/-- The node after the head is the head itself in a ring of one node only. -/
private theorem ftListGetFirst_iff (hr : Ring m l) {fuel : Nat} (hfuel : l.length ≤ fuel) :
    ftListGetFirst fuel m = some l.head? ↔ l.length ≤ 1 := by
  cases l with
  | nil =>
    rw [ftListGetFirst_nil hr]
    simp
  | cons h t =>
    rw [ftListGetFirst_eq hr hfuel]
    cases t with
    | nil => simp
    | cons x t => simp [hr.second_ne]

/-- Of two nodes or more the second is taken out, and the head stays. -/
private theorem ftListPopFirst_iff (hr : Ring m l) {fuel : Nat} (hfuel : l.length ≤ fuel) :
    (∃ code m', ftListPopFirst fuel m = some (code, m') ∧ Ring m' l.tail) ↔ l.length ≤ 1 := by
  cases l with
  | nil =>
    refine iff_of_true ⟨invalidArgs, m, ?_, hr⟩ (Nat.zero_le _)
    rw [ftListPopFirst, ftListGetFirst_nil hr]
    rfl
  | cons h t =>
    rw [ftListPopFirst, ftListGetFirst_eq hr hfuel, Option.bind_some]
    cases t with
    | nil =>
      obtain ⟨m', hpop, hr'⟩ := ftListPop_ring hr List.mem_cons_self
      rw [List.erase_cons_head] at hr'
      exact iff_of_true ⟨ok, m', hpop, hr'⟩ (Nat.le_refl _)
    | cons x t =>
      -- what is left does not begin with the second node
      have hne : h ≠ x := hr.second_ne.symm
      refine iff_of_false ?_ (by simp)
      rintro ⟨code, m', hpop, hr'⟩
      obtain ⟨m'', hpop', hr''⟩ := ftListPop_ring hr (List.mem_cons_of_mem h List.mem_cons_self)
      rw [List.headD_cons, hpop'] at hpop
      cases hpop
      rw [List.erase_cons_tail (by simpa using hne)] at hr''
      have hsame : some x = some h := hr'.head.symm.trans hr''.head
      exact hne (Option.some.inj hsame).symm

/-- The node before a node is given, unless it is the head. -/
private theorem ftListGetPrev_iff {before after : List Addr} (hr : Ring m (before ++ node :: after)) :
    ftListGetPrev m (some node) = before.getLast? ↔ (before ++ node :: after).length = 1 ∨ 2 ≤ before.length := by
  cases before with
  | nil =>
    rw [List.nil_append] at hr ⊢
    have hcircle := hr.circle node after rfl
    rw [ftListGetPrev_eq hr.head hcircle.links.prev_end]
    cases after with
    | nil => simp
    | cons y after =>
      have hne : (y :: after).getLastD node ≠ node := by
        intro he
        have hmem : after.getLastD y ∈ y :: after := List.getLastD_mem_cons
        rw [List.getLastD_cons] at he
        exact (List.nodup_cons.1 hcircle.nodup).1 (he ▸ hmem)
      rw [if_neg hne]
      simp
  | cons h before =>
    rw [List.cons_append] at hr ⊢
    have hcircle := hr.circle h _ rfl
    rw [ftListGetPrev_eq hr.head hcircle.links.prev_mid]
    rcases List.eq_nil_or_concat before with rfl | ⟨l, y, rfl⟩
    · simp
    · rw [List.concat_eq_append] at *
      have hne : y ≠ h := by
        rintro rfl
        exact (List.nodup_cons.1 hcircle.nodup).1 (by simp)
      rw [List.getLastD_concat, if_neg hne, ← List.cons_append, List.getLast?_concat]
      simp

/-- On every ring the functions for the front do exactly this. -/
theorem front_exactly (hr : Ring m l) {fuel : Nat} (hfuel : l.length ≤ fuel) : FrontExactly fuel m l := by
  constructor
  case addFirst => exact fun node hnode => ftListAddFirst_never hr hnode
  case getFirst => exact ftListGetFirst_iff hr hfuel
  case popFirst => exact ftListPopFirst_iff hr hfuel
  case getPrev =>
    rintro before node after rfl
    exact ftListGetPrev_iff hr

/-- Two nodes are appended. -/
theorem front_exactly_two :
    ∃ m, run (listStep 2) ⟨fun _ => {}, none⟩ [.addLast 7, .addLast 8] = some m ∧ FrontExactly 2 m [7, 8] := by
  obtain ⟨m, hm, hr, -⟩ := run_ring (Ring.nil rfl : Ring ⟨fun _ => {}, none⟩ [])
    (show run sequenceStep [] [.addLast 7, .addLast 8] = some [7, 8] by decide) (Nat.le_refl 2)
  exact ⟨m, hm, front_exactly hr (Nat.le_refl 2)⟩

/-- Adding to the front of an empty list writes through `NULL`; of the two nodes the second is returned for the first,
and it has no predecessor. -/
theorem second_taken_for_first :
    ftListAddFirst 2 ⟨fun _ => {}, none⟩ (some 7) = none ∧
      ∃ m, run (listStep 2) ⟨fun _ => {}, none⟩ [.addLast 7, .addLast 8] = some m ∧ Ring m [7, 8] ∧
        ftListGetFirst 2 m = some (some 8) ∧ ftListGetPrev m (some 8) = none ∧ ftListGetPrev m (some 7) = some 8 := by
  obtain ⟨m, hm, hr, -⟩ := run_ring (Ring.nil rfl : Ring ⟨fun _ => {}, none⟩ [])
    (show run sequenceStep [] [.addLast 7, .addLast 8] = some [7, 8] by decide) (Nat.le_refl 2)
  have hreads : ((run (listStep 2) ⟨fun _ => {}, none⟩ [.addLast 7, .addLast 8]).map fun m =>
      (ftListGetFirst 2 m, ftListGetPrev m (some 8), ftListGetPrev m (some 7))) =
        some (some (some 8), none, some 8) := by decide
  rw [hm, Option.map_some, Option.some.injEq, Prod.mk.injEq, Prod.mk.injEq] at hreads
  exact ⟨rfl, m, hm, hr, hreads⟩

end Zappy.FtList
