import Zappy.Lib.CircularList
import Zappy.Lib.Run
import Zappy.FtList
import Zappy.Network

/-!
# The queue of deaths (`server.c`, `ft_list.c`)

`server_remove_client` puts a node with the descriptor in the circular list `m_clients`; `m_remove_clients` walks it
from `FT_LIST_GET_FIRST` on, runs `REMOVE_CLIENT` and frees the nodes.  The functions are written over any state that
`REMOVE_CLIENT` changes.  Reading, writing or releasing a node that is not allocated has no result.
-/

namespace Zappy

open CircularList

/-- `client_list_t`. -/
structure ClientNode where
  next : Addr
  prev : Addr
  fd : Int
  deriving DecidableEq, Repr

def ClientNode.setNext (next : Addr) (n : ClientNode) : ClientNode := { n with next := next }

def ClientNode.setPrev (prev : Addr) (n : ClientNode) : ClientNode := { n with prev := prev }

/-- The allocated nodes. -/
abbrev NodeHeap := Addr → Option ClientNode

namespace NodeHeap

def next (heap : NodeHeap) (node : Addr) : Option Addr := (heap node).map ClientNode.next

def prev (heap : NodeHeap) (node : Addr) : Option Addr := (heap node).map ClientNode.prev

def fd (heap : NodeHeap) (node : Addr) : Option Int := (heap node).map ClientNode.fd

def modify (heap : NodeHeap) (node : Addr) (f : ClientNode → ClientNode) : NodeHeap :=
  fun a => if a = node then (heap a).map f else heap a

/-- A write to a node. -/
def store (heap : NodeHeap) (node : Addr) (f : ClientNode → ClientNode) : Option NodeHeap :=
  if (heap node).isSome then some (heap.modify node f) else none

end NodeHeap

/-- `ft_list_add_last`: the nodes and the head after it. -/
def ftListAddLast (heap : NodeHeap) (head : Option Addr) (node : Addr) : Option (NodeHeap × Option Addr) :=
  match head with
  | none => do
    let heap ← heap.store node (.setNext node)
    let heap ← heap.store node (.setPrev node)
    return (heap, some node)
  | some h => do
    let last ← heap.prev h
    let heap ← heap.store last (.setNext node)
    let heap ← heap.store node (.setPrev last)
    let heap ← heap.store node (.setNext h)
    let heap ← heap.store h (.setPrev node)
    return (heap, some h)

/-- `ft_list_get_next`; the inner `none` is `NULL`. -/
def ftListGetNext (heap : NodeHeap) (head : Option Addr) (node : Addr) : Option (Option Addr) :=
  match head with
  | none => some none
  | some h => (heap.next node).map fun next => if next = h then none else some next

/-- `ft_list_get_first`, with its loop given up after `fuel` turns. -/
def ftListGetFirst (fuel : Nat) (heap : NodeHeap) (head : Option Addr) : Option (Option Addr) :=
  match head with
  | none => some none
  | some h => (backTo heap.prev h fuel h).map some

/-- The part of the server that the queue is about, with a ghost: the nodes queued since the last drain and their
descriptors. -/
structure DeathQueue (σ : Type) where
  state : σ
  maxFd : Int
  heap : NodeHeap := fun _ => none
  mClients : Option Addr := none
  queued : List (Addr × Int) := []

variable {σ : Type} (removeClient : Int → σ → σ)

/-- `server_remove_client`, when `malloc` returns `node`; the links of a new node are not set yet.  `ERROR` changes
nothing. -/
def DeathQueue.serverRemoveClient (s : DeathQueue σ) (fd : Int) (node : Addr) : Option (DeathQueue σ) :=
  if fd < 0 ∨ fd > s.maxFd then some s
  else if (s.heap node).isSome then none
  else (ftListAddLast (Function.update s.heap node (some ⟨0, 0, fd⟩)) s.mClients node).map fun p =>
    { s with heap := p.1, mClients := p.2, queued := s.queued ++ [(node, fd)] }

/-- The loop of `m_remove_clients`, given up after `fuel` turns. -/
def removeLoop : Nat → DeathQueue σ → Option Addr → Option (DeathQueue σ)
  | _, s, none => some s
  | 0, _, some _ => none
  | fuel + 1, s, some client =>
    (ftListGetNext s.heap s.mClients client).bind fun next =>
      (s.heap.fd client).bind fun fd =>
        removeLoop fuel { s with
          state := removeClient fd s.state
          heap := Function.update s.heap client none } next

/-- `m_remove_clients`. -/
def mRemoveClients (fuel : Nat) (s : DeathQueue σ) : Option (DeathQueue σ) :=
  (ftListGetFirst fuel s.heap s.mClients).bind fun first =>
    (removeLoop removeClient fuel s first).map fun s => { s with mClients := none, queued := [] }

/-- Calls of `server_remove_client`, each with the address that `malloc` returns. -/
def DeathQueue.removeAll (s : DeathQueue σ) (calls : List (Int × Addr)) : Option (DeathQueue σ) :=
  calls.foldlM (fun s call => s.serverRemoveClient call.1 call.2) s

/-! ### Queueing -/

namespace NodeHeap

variable {heap : NodeHeap} {node a : Addr} {f : ClientNode → ClientNode}

private theorem store_eq (h : (heap node).isSome) : heap.store node f = some (heap.modify node f) := if_pos h

private theorem isSome_of_fd {fd : Int} (h : heap.fd node = some fd) : (heap node).isSome := by
  rw [← Option.isSome_map (f := ClientNode.fd)]
  exact Option.isSome_iff_exists.2 ⟨fd, h⟩

@[simp] theorem isSome_modify : (heap.modify node f a).isSome = (heap a).isSome := by
  unfold modify
  split <;> simp

/-- A write to the links keeps the descriptors. -/
private theorem store_fd {heap' : NodeHeap} (h : heap.store node f = some heap') (hf : ∀ n, (f n).fd = n.fd) :
    heap'.fd a = heap.fd a := by
  unfold store at h
  split at h
  · cases h
    unfold fd modify
    split
    · rw [Option.map_map]
      exact congrArg (fun g => (heap a).map g) (funext hf)
    · rfl
  · cases h

end NodeHeap

/-! ### The functions of `ft_list.c` -/

/-- The allocated nodes as list items. -/
def NodeHeap.memory (heap : NodeHeap) (head : Option Addr) : FtList.Memory where
  items a := ((heap a).map fun n => ⟨some n.next, some n.prev⟩).getD {}
  head := head

section Memory

variable {heap heap' : NodeHeap} {head head' : Option Addr} {node x : Addr}

private theorem NodeHeap.memory_next (heap : NodeHeap) (head : Option Addr) : (heap.memory head).next = heap.next := by
  funext a
  simp only [FtList.Memory.next, NodeHeap.memory, NodeHeap.next]
  cases heap a <;> rfl

private theorem NodeHeap.memory_prev (heap : NodeHeap) (head : Option Addr) : (heap.memory head).prev = heap.prev := by
  funext a
  simp only [FtList.Memory.prev, NodeHeap.memory, NodeHeap.prev]
  cases heap a <;> rfl

/-- A write to an allocated node is the write to its item. -/
private theorem NodeHeap.memory_store {f : ClientNode → ClientNode} {g : FtList.ListItem → FtList.ListItem}
    (hfg : ∀ n, g ⟨some n.next, some n.prev⟩ = ⟨some (f n).next, some (f n).prev⟩)
    (h : heap.store node f = some heap') (head : Option Addr) : (heap'.memory head).items =
      Function.update (heap.memory head).items node (g ((heap.memory head).items node)) := by
  unfold NodeHeap.store at h
  split at h
  · rename_i hnode
    obtain ⟨n, hn⟩ := Option.isSome_iff_exists.1 hnode
    cases h
    funext a
    by_cases ha : a = node
    · rw [ha, Function.update_self]
      simp [NodeHeap.memory, NodeHeap.modify, hn, hfg]
    · rw [Function.update_of_ne ha]
      simp [NodeHeap.memory, NodeHeap.modify, ha]
  · cases h

private theorem NodeHeap.memory_setNext (h : heap.store node (.setNext x) = some heap') (head : Option Addr) :
    heap'.memory head = (heap.memory head).setNext node (some x) :=
  congrArg (FtList.Memory.mk · head) (memory_store (g := fun i => { i with next := some x }) (fun _ => rfl) h head)

private theorem NodeHeap.memory_setPrev (h : heap.store node (.setPrev x) = some heap') (head : Option Addr) :
    heap'.memory head = (heap.memory head).setPrev node (some x) :=
  congrArg (FtList.Memory.mk · head) (memory_store (g := fun i => { i with prev := some x }) (fun _ => rfl) h head)

/-- Where no freed node is touched, `ft_list_add_last` is that of all memories. -/
private theorem ftListAddLast_memory (h : ftListAddLast heap head node = some (heap', head')) :
    FtList.ftListAddLast (heap.memory head) (some node) = some (FtList.ok, heap'.memory head') := by
  unfold ftListAddLast at h
  cases head with
  | none =>
    simp only [Option.bind_eq_bind, Option.bind_eq_some_iff, Option.pure_def, Option.some.injEq, Prod.mk.injEq] at h
    obtain ⟨heap₁, h₁, heap₂, h₂, rfl, rfl⟩ := h
    rw [NodeHeap.memory_setPrev h₂, NodeHeap.memory_setNext h₁]
    rfl
  | some first =>
    simp only [Option.bind_eq_bind, Option.bind_eq_some_iff, Option.pure_def, Option.some.injEq, Prod.mk.injEq] at h
    obtain ⟨last, hlast, heap₁, h₁, heap₂, h₂, heap₃, h₃, heap₄, h₄, rfl, rfl⟩ := h
    rw [NodeHeap.memory_setPrev h₄, NodeHeap.memory_setNext h₃, NodeHeap.memory_setPrev h₂,
      NodeHeap.memory_setNext h₁]
    have hprev : (heap.memory (some first)).prev first = some last := by rw [NodeHeap.memory_prev, hlast]
    change ((heap.memory (some first)).prev first).map _ = _
    rw [hprev]
    rfl

theorem ftListGetNext_memory {next : Option Addr} (h : ftListGetNext heap head node = some next) :
    FtList.ftListGetNext (heap.memory head) (some node) = next := by
  unfold ftListGetNext at h
  cases head with
  | none =>
    cases h
    rfl
  | some first =>
    obtain ⟨next', hnext, rfl⟩ := Option.map_eq_some_iff.1 h
    have hmemory : (heap.memory (some first)).next node = some next' := by rw [NodeHeap.memory_next, hnext]
    change (if (heap.memory (some first)).next node = some first then none else _) = _
    rw [hmemory]
    by_cases hback : next' = first
    · rw [if_pos hback, if_pos (congrArg some hback)]
    · rw [if_neg hback, if_neg fun he => hback (Option.some.inj he)]

theorem ftListGetFirst_memory (fuel : Nat) (heap : NodeHeap) (head : Option Addr) :
    FtList.ftListGetFirst fuel (heap.memory head) = ftListGetFirst fuel heap head := by
  unfold FtList.ftListGetFirst ftListGetFirst
  rw [NodeHeap.memory_prev]
  cases head <;> rfl

end Memory

/-- The nodes queued since the last drain make up the ring at `m_clients`, in the order of the calls. -/
structure Spells (heap : NodeHeap) (mClients : Option Addr) (queued : List (Addr × Int)) : Prop where
  fds : ∀ e ∈ queued, heap.fd e.1 = some e.2
  ring : FtList.Ring (heap.memory mClients) (queued.map Prod.fst)

theorem Spells.head {heap : NodeHeap} {mClients : Option Addr} {queued : List (Addr × Int)}
    (h : Spells heap mClients queued) : mClients = queued.head?.map Prod.fst := by
  rw [← List.head?_map]
  exact h.ring.head

theorem Spells.circle {heap : NodeHeap} {mClients : Option Addr} {queued l : List (Addr × Int)} {e : Addr × Int}
    (h : Spells heap mClients queued) (hl : queued = e :: l) :
    Circle heap.next heap.prev e.1 (l.map Prod.fst) := by
  have hcircle := h.ring.circle e.1 (l.map Prod.fst) (by rw [hl, List.map_cons])
  rwa [NodeHeap.memory_next, NodeHeap.memory_prev] at hcircle

theorem Spells.isSome {heap : NodeHeap} {mClients : Option Addr} {queued : List (Addr × Int)}
    (h : Spells heap mClients queued) {a : Addr} (ha : a ∈ queued.map Prod.fst) : (heap a).isSome := by
  obtain ⟨e, he, rfl⟩ := List.mem_map.1 ha
  exact NodeHeap.isSome_of_fd (h.fds e he)

def DeathQueue.Linked (s : DeathQueue σ) : Prop := Spells s.heap s.mClients s.queued

/-- `ft_list_add_last` writes to links only. -/
private theorem ftListAddLast_fd {heap heap' : NodeHeap} {head head' : Option Addr} {node : Addr}
    (h : ftListAddLast heap head node = some (heap', head')) (a : Addr) : heap'.fd a = heap.fd a := by
  unfold ftListAddLast at h
  cases head with
  | none =>
    simp only [Option.bind_eq_bind, Option.bind_eq_some_iff, Option.pure_def, Option.some.injEq, Prod.mk.injEq] at h
    obtain ⟨heap₁, h₁, heap₂, h₂, rfl, -⟩ := h
    rw [NodeHeap.store_fd h₂ fun _ => rfl, NodeHeap.store_fd h₁ fun _ => rfl]
  | some first =>
    simp only [Option.bind_eq_bind, Option.bind_eq_some_iff, Option.pure_def, Option.some.injEq, Prod.mk.injEq] at h
    obtain ⟨last, -, heap₁, h₁, heap₂, h₂, heap₃, h₃, heap₄, h₄, rfl, -⟩ := h
    rw [NodeHeap.store_fd h₄ fun _ => rfl, NodeHeap.store_fd h₃ fun _ => rfl,
      NodeHeap.store_fd h₂ fun _ => rfl, NodeHeap.store_fd h₁ fun _ => rfl]

/-- It has a result when the node, the head and the last node are allocated. -/
private theorem ftListAddLast_isSome {heap : NodeHeap} {head : Option Addr} {node : Addr} (hnode : (heap node).isSome)
    (hhead : ∀ first ∈ head, (heap first).isSome ∧ ∃ last, heap.prev first = some last ∧ (heap last).isSome) :
    ∃ heap' head', ftListAddLast heap head node = some (heap', head') := by
  cases head with
  | none =>
    simp only [ftListAddLast, Option.bind_eq_bind, NodeHeap.store_eq hnode, Option.bind_some,
      NodeHeap.store_eq (NodeHeap.isSome_modify.trans hnode)]
    exact ⟨_, _, rfl⟩
  | some first =>
    obtain ⟨hfirst, last, hprev, hlast⟩ := hhead first rfl
    have hstore : ∀ {heap₁ : NodeHeap} {a : Addr} {f : ClientNode → ClientNode},
        (∀ b, (heap₁ b).isSome = (heap b).isSome) → (heap a).isSome →
        ∃ heap₂, heap₁.store a f = some heap₂ ∧ ∀ b, (heap₂ b).isSome = (heap b).isSome := by
      intro heap₁ a f hsame ha
      exact ⟨_, NodeHeap.store_eq ((hsame a).trans ha), fun b => NodeHeap.isSome_modify.trans (hsame b)⟩
    -- the four writes
    obtain ⟨heap₁, h₁, hsame₁⟩ := hstore (f := .setNext node) (fun _ => rfl) hlast
    obtain ⟨heap₂, h₂, hsame₂⟩ := hstore (f := .setPrev last) hsame₁ hnode
    obtain ⟨heap₃, h₃, hsame₃⟩ := hstore (f := .setNext first) hsame₂ hnode
    obtain ⟨heap₄, h₄, -⟩ := hstore (f := .setPrev node) hsame₃ hfirst
    refine ⟨heap₄, some first, ?_⟩
    simp only [ftListAddLast, Option.bind_eq_bind, hprev, Option.bind_some, h₁, h₂, h₃, h₄]
    rfl

/-- Allocating a node leaves the queue alone. -/
private theorem Spells.alloc {heap : NodeHeap} {mClients : Option Addr} {queued : List (Addr × Int)}
    (h : Spells heap mClients queued) {node : Addr} (hnew : node ∉ queued.map Prod.fst) (n : ClientNode) :
    Spells (Function.update heap node (some n)) mClients queued := by
  have hold : ∀ a ∈ queued.map Prod.fst, Function.update heap node (some n) a = heap a := by
    intro a ha
    rw [Function.update_of_ne]
    rintro rfl
    exact hnew ha
  refine ⟨fun e he => ?_, h.ring.head, fun a t hl => ?_⟩
  · rw [NodeHeap.fd, hold _ (List.mem_map_of_mem he)]
    exact h.fds e he
  · have hcircle := h.ring.circle a t hl
    rw [NodeHeap.memory_next, NodeHeap.memory_prev] at hcircle ⊢
    rw [hl] at hold
    refine ⟨hcircle.links.congr ?_ ?_ ?_, hcircle.nodup⟩
    · exact fun a ha => congrArg (Option.map ClientNode.next) (hold a ha)
    · exact fun a ha => congrArg (Option.map ClientNode.prev) (hold a (List.mem_cons_of_mem _ ha))
    · exact congrArg (Option.map ClientNode.prev) (hold a List.mem_cons_self)

/-- `ft_list_add_last` appends a node that is not in the queue yet. -/
private theorem ftListAddLast_spells {heap : NodeHeap} {mClients : Option Addr} {queued : List (Addr × Int)}
    (h : Spells heap mClients queued) {node : Addr} {fd : Int} (hfd : heap.fd node = some fd)
    (hnew : node ∉ queued.map Prod.fst) :
    ∃ heap' head, ftListAddLast heap mClients node = some (heap', head) ∧
      Spells heap' head (queued ++ [(node, fd)]) := by
  have hends : ∀ first ∈ mClients, (heap first).isSome ∧
      ∃ last, heap.prev first = some last ∧ (heap last).isSome := by
    intro first hfirst
    cases queued with
    | nil => cases hfirst.symm.trans h.head
    | cons e l =>
      obtain rfl : first = e.1 := Option.some.inj (hfirst.symm.trans h.head)
      have hprev := (h.circle rfl).links.prev_end
      exact ⟨h.isSome List.mem_cons_self, _, hprev, h.isSome List.getLastD_mem_cons⟩
  obtain ⟨heap', head, hadd⟩ := ftListAddLast_isSome (NodeHeap.isSome_of_fd hfd) hends
  obtain ⟨m', hadd', hring⟩ := FtList.ftListAddLast_ring h.ring hnew
  rw [ftListAddLast_memory hadd, Option.some.injEq, Prod.mk.injEq] at hadd'
  obtain ⟨-, rfl⟩ := hadd'
  refine ⟨heap', head, hadd, fun e he => ?_, ?_⟩
  · rw [ftListAddLast_fd hadd]
    rcases List.mem_append.1 he with he | he
    · exact h.fds e he
    · obtain rfl := List.mem_singleton.1 he
      exact hfd
  · rw [List.map_append]
    exact hring

/-- Queueing a death keeps the shape of the queue. -/
private theorem serverRemoveClient_linked {s s' : DeathQueue σ} {fd : Int} {node : Addr} (hs : s.Linked)
    (h : s.serverRemoveClient fd node = some s') : s'.Linked := by
  unfold DeathQueue.serverRemoveClient at h
  split at h
  · cases h
    exact hs
  split at h
  · cases h
  rename_i hfree
  have hnew : node ∉ s.queued.map Prod.fst := fun hmem => hfree (hs.isSome hmem)
  have hfd : NodeHeap.fd (Function.update s.heap node (some ⟨0, 0, fd⟩)) node = some fd := by
    rw [NodeHeap.fd, Function.update_self]
    rfl
  obtain ⟨heap', head, hadd, hspells⟩ := ftListAddLast_spells (hs.alloc hnew ⟨0, 0, fd⟩) hfd hnew
  rw [hadd, Option.map_some, Option.some.injEq] at h
  rw [← h]
  exact hspells

private theorem removeAll_linked {s s' : DeathQueue σ} {calls : List (Int × Addr)} (hs : s.Linked)
    (h : s.removeAll calls = some s') : s'.Linked :=
  Run.foldlM_invariant (fun _ _ _ _ hstep hlinked => serverRemoveClient_linked hlinked hstep) h hs

/-! ### Draining -/

/-- The walk from `e` to the end of the circle runs `REMOVE_CLIENT` for the nodes it meets and frees them. -/
private theorem removeLoop_spec {p : Addr → Option Addr} {h : Addr} {s : DeathQueue σ} (hhead : s.mClients = some h)
    {e : Addr × Int} {l : List (Addr × Int)} (hlinks : Links s.heap.next p e.1 (l.map Prod.fst) h)
    (hnodup : (e.1 :: l.map Prod.fst).Nodup) (hh : h ∉ l.map Prod.fst) (hfds : ∀ x ∈ e :: l, s.heap.fd x.1 = some x.2)
    {fuel : Nat} (hfuel : l.length < fuel) :
    removeLoop removeClient fuel s (some e.1) = some { s with
      state := (e :: l).foldl (fun state x => removeClient x.2 state) s.state
      heap := fun a => if a ∈ (e :: l).map Prod.fst then none else s.heap a } := by
  induction l generalizing e s fuel with
  | nil =>
    obtain ⟨fuel, rfl⟩ : ∃ n, fuel = n + 1 := ⟨fuel - 1, by omega⟩
    have hnext : ftListGetNext s.heap s.mClients e.1 = some none := by
      simp [ftListGetNext, hhead, hlinks.next_eq]
    have hheap : Function.update s.heap e.1 none = fun a => if a ∈ [e].map Prod.fst then none else s.heap a := by
      funext a
      simp [Function.update_apply]
    simp only [removeLoop, hnext, hfds e (by simp), Option.bind_some, List.foldl_cons, List.foldl_nil, hheap]
  | cons y l ih =>
    obtain ⟨fuel, rfl⟩ : ∃ n, fuel = n + 1 := ⟨fuel - 1, by omega⟩
    have hyh : y.1 ≠ h := fun he => hh (by simp [he])
    have hnext : ftListGetNext s.heap s.mClients e.1 = some (some y.1) := by
      simp [ftListGetNext, hhead, hlinks.next_eq, hyh]
    have hnd := List.nodup_cons.1 hnodup
    have hne : ∀ a ∈ (y :: l).map Prod.fst, a ≠ e.1 := fun a ha he => hnd.1 (he ▸ ha)
    have hold : ∀ a ∈ (y :: l).map Prod.fst, Function.update s.heap e.1 none a = s.heap a :=
      fun a ha => Function.update_of_ne (hne a ha) ..
    have hlinks' : Links (NodeHeap.next (Function.update s.heap e.1 none)) p y.1 (l.map Prod.fst) h :=
      hlinks.2.2.congr (fun a ha => congrArg (Option.map ClientNode.next) (hold a ha)) (fun _ _ => rfl) rfl
    have hfds' : ∀ x ∈ y :: l, NodeHeap.fd (Function.update s.heap e.1 none) x.1 = some x.2 := by
      intro x hx
      rw [NodeHeap.fd, hold x.1 (List.mem_map_of_mem hx)]
      exact hfds x (List.mem_cons_of_mem _ hx)
    have hheap : (fun a => if a ∈ (y :: l).map Prod.fst then none else Function.update s.heap e.1 none a) =
        fun a => if a ∈ (e :: y :: l).map Prod.fst then none else s.heap a := by
      funext a
      by_cases hae : a = e.1
      · simp [hae]
      · simp only [List.map_cons, List.mem_cons, hae, false_or, Function.update_of_ne hae]
    rw [removeLoop, hnext, Option.bind_some, hfds e (by simp), Option.bind_some,
      ih (s := { s with
        state := removeClient e.2 s.state
        heap := Function.update s.heap e.1 none }) hhead hlinks' hnd.2
        (fun hm => hh (List.mem_cons_of_mem _ hm)) hfds' (by simpa using hfuel)]
    simp only [List.foldl_cons, hheap]

/-- With enough fuel `m_remove_clients` returns: it has removed the clients of all nodes but the first, or of the
only one, and `m_clients` is `NULL`. -/
private theorem mRemoveClients_spec {s : DeathQueue σ} (hs : s.Linked) {fuel : Nat} (hfuel : s.queued.length ≤ fuel) :
    mRemoveClients removeClient fuel s = some { s with
      state := (drainOrder s.queued).foldl (fun state x => removeClient x.2 state) s.state
      heap := fun a => if a ∈ (drainOrder s.queued).map Prod.fst then none else s.heap a
      mClients := none
      queued := [] } := by
  have hhead := hs.head
  cases hq : s.queued with
  | nil =>
    rw [hq] at hhead
    have hfirst : ftListGetFirst fuel s.heap s.mClients = some none := by rw [hhead]; rfl
    have hloop : removeLoop removeClient fuel s none = some s := by cases fuel <;> rfl
    simp [mRemoveClients, hfirst, hloop, drainOrder]
  | cons e l =>
    rw [hq] at hhead hfuel
    have hcircle := hs.circle hq
    have hlt : (l.map Prod.fst).length < fuel := by
      rw [List.length_map]
      exact hfuel
    have hback := hcircle.backTo_head hlt
    have hfirst : ftListGetFirst fuel s.heap s.mClients = some (some ((l.map Prod.fst).headD e.1)) := by
      rw [hhead]
      change (backTo s.heap.prev e.1 fuel e.1).map some = _
      rw [hback]
      rfl
    have hnd := hcircle.nodup
    have hfds : ∀ x ∈ e :: l, s.heap.fd x.1 = some x.2 := fun x hx => hs.fds x (by rw [hq]; exact hx)
    cases l with
    | nil =>
      have hloop := removeLoop_spec removeClient hhead (e := e) (l := []) hcircle.links hnd (by simp) hfds hlt
      simp only [mRemoveClients, hfirst, Option.bind_some]
      change Option.map _ (removeLoop removeClient fuel s (some e.1)) = _
      rw [hloop]
      rfl
    | cons y l =>
      have hloop := removeLoop_spec removeClient hhead (e := y) (l := l) hcircle.links.2.2 (List.nodup_cons.1 hnd).2
        (fun hm => (List.nodup_cons.1 hnd).1 (List.mem_cons_of_mem _ hm))
        (fun x hx => hfds x (List.mem_cons_of_mem _ hx)) (Nat.lt_of_succ_le (Nat.le_of_succ_le hfuel))
      simp only [mRemoveClients, hfirst, Option.bind_some]
      change Option.map _ (removeLoop removeClient fuel s (some y.1)) = _
      rw [hloop]
      rfl

/-- `REMOVE_CLIENT`, as an entry of a log. -/
def logRemoval (fd : Int) (log : List Int) : List Int := log ++ [fd]

/-- `m_remove_clients` returns, has run `REMOVE_CLIENT` once for every queued descriptor, has freed the queued
nodes and no others, and the queue is empty. -/
def DrainsAll (s : DeathQueue (List Int)) : Prop :=
  ∃ enough, ∀ fuel ≥ enough, ∃ s', mRemoveClients logRemoval fuel s = some s' ∧
    s'.state.Perm (s.state ++ s.queued.map Prod.snd) ∧
    (∀ a, s'.heap a = if a ∈ s.queued.map Prod.fst then none else s.heap a) ∧ s'.mClients = none

private theorem foldl_logRemoval (l : List (Addr × Int)) (log : List Int) :
    l.foldl (fun log x => logRemoval x.2 log) log = log ++ l.map Prod.snd := by
  induction l generalizing log with
  | nil => simp
  | cons x l ih => rw [List.foldl_cons, ih, logRemoval, List.append_assoc]; rfl

private theorem drainOrder_eq_self_iff {α : Type} (l : List α) : (drainOrder l).length = l.length ↔ l.length ≤ 1 := by
  match l with
  | [] => simp [drainOrder]
  | [_] => simp [drainOrder]
  | _ :: _ :: l => simp [drainOrder]

private theorem drainsAll_iff_length {s : DeathQueue (List Int)} (hs : s.Linked) :
    DrainsAll s ↔ s.queued.length ≤ 1 := by
  constructor
  · rintro ⟨enough, hdrain⟩
    obtain ⟨s', hrun, hperm, -, -⟩ := hdrain (max enough s.queued.length) (by omega)
    rw [mRemoveClients_spec logRemoval hs (by omega)] at hrun
    cases hrun
    rw [← drainOrder_eq_self_iff]
    have hlength := hperm.length_eq
    simp only [foldl_logRemoval, List.length_append, List.length_map] at hlength
    omega
  · intro hle
    have hself : drainOrder s.queued = s.queued := by
      match hq : s.queued with
      | [] => rfl
      | [_] => rfl
      | _ :: _ :: _ => rw [hq] at hle; simp at hle
    refine ⟨s.queued.length, fun fuel hfuel => ⟨_, mRemoveClients_spec logRemoval hs hfuel, ?_, ?_, rfl⟩⟩
    · rw [hself, foldl_logRemoval]
    · intro a
      rw [hself]

/-- `server_remove_client` queues the descriptor. -/
def accepted (maxFd : Int) (call : Int × Addr) : Bool := 0 ≤ call.1 ∧ call.1 ≤ maxFd

private theorem serverRemoveClient_queued {s s' : DeathQueue σ} {call : Int × Addr}
    (h : s.serverRemoveClient call.1 call.2 = some s') : s'.maxFd = s.maxFd ∧
      s'.queued = s.queued ++ if accepted s.maxFd call then [(call.2, call.1)] else [] := by
  unfold DeathQueue.serverRemoveClient at h
  split at h
  · rename_i hrefused
    cases h
    have hacc : accepted s.maxFd call = false := by
      simp only [accepted, decide_eq_false_iff_not]
      omega
    simp [hacc]
  split at h
  · cases h
  rename_i hkept _
  rw [Option.map_eq_some_iff] at h
  obtain ⟨p, -, rfl⟩ := h
  have hacc : accepted s.maxFd call = true := by
    simp only [accepted, decide_eq_true_eq]
    omega
  simp [hacc]

private theorem removeAll_length {s s' : DeathQueue σ} {calls : List (Int × Addr)} (h : s.removeAll calls = some s') :
    s'.queued.length = s.queued.length + (calls.filter (accepted s.maxFd)).length := by
  induction calls generalizing s with
  | nil => cases h; rfl
  | cons call calls ih =>
    simp only [DeathQueue.removeAll, List.foldlM_cons, Option.bind_eq_bind, Option.bind_eq_some_iff] at h
    obtain ⟨s₁, hcall, hcalls⟩ := h
    obtain ⟨hmax, hqueued⟩ := serverRemoveClient_queued hcall
    rw [ih hcalls, hqueued, hmax]
    by_cases hacc : accepted s.maxFd call
    · simp only [hacc, if_true, List.length_append, List.filter_cons_of_pos, List.length_cons, List.length_nil]
      omega
    · simp [hacc]

/-- No node is queued. -/
private theorem linked_nil {s : DeathQueue σ} (hlist : s.mClients = none) (hqueued : s.queued = []) : s.Linked := by
  refine ⟨?_, ?_⟩
  · rw [hqueued]
    exact fun e he => absurd he List.not_mem_nil
  · rw [hqueued]
    exact FtList.Ring.nil hlist

/-- After a drain has left `m_clients` empty, any number of calls of `server_remove_client`: the next drain removes
and frees all that was queued exactly when at most one call was accepted. -/
theorem drains_all_iff {s₀ s : DeathQueue (List Int)} (hlist : s₀.mClients = none) (hqueued : s₀.queued = [])
    {calls : List (Int × Addr)} (h : s₀.removeAll calls = some s) :
    DrainsAll s ↔ (calls.filter (accepted s₀.maxFd)).length ≤ 1 := by
  have hlength := removeAll_length h
  rw [hqueued, List.length_nil, Nat.zero_add] at hlength
  rw [drainsAll_iff_length (removeAll_linked (linked_nil hlist hqueued) h), hlength]

/-- Before the first death, with descriptors up to 10. -/
def noDeaths : DeathQueue (List Int) := { state := [], maxFd := 10 }

/-- A client on a descriptor that is too large is refused; one death is drained. -/
theorem drains_all_one : ∃ s, noDeaths.removeAll [(11, 1), (5, 1)] = some s ∧ DrainsAll s := by
  have hsome : (noDeaths.removeAll [(11, 1), (5, 1)]).isSome := by decide
  obtain ⟨s, hs⟩ := Option.isSome_iff_exists.1 hsome
  exact ⟨s, hs, (drains_all_iff rfl rfl hs).2 (by decide)⟩

/-- Two players starve in one pass: the first one queued is not removed, and its node is lost. -/
theorem two_deaths_not_drained : ∃ s, noDeaths.removeAll [(5, 1), (6, 2)] = some s ∧ ¬ DrainsAll s := by
  have hsome : (noDeaths.removeAll [(5, 1), (6, 2)]).isSome := by decide
  obtain ⟨s, hs⟩ := Option.isSome_iff_exists.1 hsome
  refine ⟨s, hs, fun hdrain => ?_⟩
  have hle := (drainsAll_iff_length (removeAll_linked (linked_nil rfl rfl) hs)).1 hdrain
  rw [removeAll_length hs] at hle
  exact absurd hle (by decide)

/-! ### The drain of the machine -/

private theorem drainOrder_map {α β : Type} (f : α → β) (l : List α) : drainOrder (l.map f) = (drainOrder l).map f := by
  match l with
  | [] => rfl
  | [_] => rfl
  | _ :: _ :: _ => rfl

private theorem remove_run (cfg : Config) (m : Machine) (todo : List (Fd × Conn)) :
    Run.run (machineStep cfg) { m with phase := .drain todo } (List.replicate todo.length .remove) =
      some { todo.foldl (fun m e => m.removeClient e.1) m with phase := .drain [] } := by
  induction todo generalizing m with
  | nil => rfl
  | cons e todo ih =>
    rw [List.length_cons, List.replicate_succ, List.foldl_cons, ← ih]
    rfl

/-- The steps of the machine between `scanEnd` and `drainEnd` are `m_remove_clients` on the list of nodes. -/
theorem mRemoveClients_machine (cfg : Config) {s : DeathQueue Machine} (hs : s.Linked)
    {removeList : List (Fd × Conn)} (hqueue : s.queued.map Prod.snd = removeList.map fun e => (e.1 : Int))
    {fuel : Nat} (hfuel : s.queued.length ≤ fuel) :
    ∃ s', mRemoveClients (fun fd m => m.removeClient fd.toNat) fuel s = some s' ∧
      Run.run (machineStep cfg) { s.state with phase := .drain (drainOrder removeList) }
        (List.replicate (drainOrder removeList).length .remove) = some { s'.state with phase := .drain [] } := by
  refine ⟨_, mRemoveClients_spec _ hs hfuel, ?_⟩
  have hfds : (drainOrder s.queued).map Prod.snd = (drainOrder removeList).map fun e => (e.1 : Int) := by
    rw [← drainOrder_map, hqueue, drainOrder_map]
  have hfold : (drainOrder s.queued).foldl (fun m x => m.removeClient x.2.toNat) s.state =
      ((drainOrder s.queued).map Prod.snd).foldl (fun m fd => m.removeClient fd.toNat) s.state :=
    (List.foldl_map (f := Prod.snd) (g := fun (m : Machine) (fd : Int) => m.removeClient fd.toNat)).symm
  rw [remove_run]
  dsimp only
  rw [hfold, hfds, List.foldl_map]
  rfl

end Zappy
