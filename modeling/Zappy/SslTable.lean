import Zappy.Lib.Chain
import Zappy.Lib.Run
import Zappy.Messages

/-!
# The table of TLS handles (`ssl_table.c`)

A hash table with separate chaining from descriptors to `SSL *`.  The entries live in a heap of their own; a call
of `ssl_table_add` carries what `malloc` would return for it, any address that is not an entry, a freed one
included.  The loops take their number of turns as an argument and have no result when it does not suffice.
Between `ssl_table_init` and `ssl_table_free` the table represents a finite map from descriptors to handles: the
handle of the last `ssl_table_add` of a descriptor, unless it was removed since.
-/

namespace Zappy

open Chains Run

/-! ### The code -/

/-- `SSL *`; `none` is `NULL`. -/
abbrev SslPtr := Option Addr

structure SslEntry where
  fd : Int
  ssl : SslPtr
  next : Option Addr
  deriving DecidableEq, Repr

structure SslTable where
  buckets : List (Option Addr)
  bucketCount : Nat
  /-- The heap of the entries. -/
  entries : Addr → Option SslEntry := fun _ => none
  /-- `ssl_table_initialized`. -/
  initialized : Bool := false

def initialBucketCount : Nat := 128

/-- `hash_fd`. -/
def hashFd (t : SslTable) (fd : Int) : Nat := u64 fd % t.bucketCount

/-- `ssl_table_init`, when `calloc` succeeds. -/
def sslTableInit : SslTable where
  buckets := List.replicate initialBucketCount none
  bucketCount := initialBucketCount
  initialized := true

/-- The loop over a chain that looks for the entry of `fd`: the address before it and its own. -/
def SslTable.seekFd (t : SslTable) (fuel : Nat) (fd : Int) (head : Option Addr) :
    Option (Option Addr × Option Addr) :=
  seek t.entries SslEntry.next (fun e => e.fd == fd) fuel none head

/-- `ssl_table_add`; `malloc` is what the call of `malloc` returns if it is made. -/
def sslTableAdd (fuel : Nat) (t : SslTable) (fd : Int) (ssl : SslPtr) (malloc : Option Addr) :
    Option (Ret × SslTable) :=
  if !t.initialized then some (.error, t)
  else
    let index := hashFd t fd
    t.buckets[index]?.bind fun head => (t.seekFd fuel fd head).bind fun found =>
      match found.2 with
      | some e =>
        some (.success, { t with
          entries := Function.update t.entries e ((t.entries e).map fun r => { r with ssl := ssl }) })
      | none =>
        match malloc with
        | none => some (.error, t)
        | some newEntry =>
          some (.success, { t with
            entries := Function.update t.entries newEntry (some ⟨fd, ssl, head⟩)
            buckets := t.buckets.set index (some newEntry) })

/-- `ssl_table_get`. -/
def sslTableGet (fuel : Nat) (t : SslTable) (fd : Int) : Option SslPtr :=
  if !t.initialized then some none
  else
    t.buckets[hashFd t fd]?.bind fun head => (t.seekFd fuel fd head).bind fun found =>
      match found.2 with
      | some e => (t.entries e).map SslEntry.ssl
      | none => some none

/-- `ssl_table_remove`. -/
def sslTableRemove (fuel : Nat) (t : SslTable) (fd : Int) : Option SslTable :=
  if !t.initialized then some t
  else
    let index := hashFd t fd
    t.buckets[index]?.bind fun head => (t.seekFd fuel fd head).bind fun found =>
      match found.2 with
      | some curr => (t.entries curr).map fun e =>
        let t₁ : SslTable := match found.1 with
          | some prev =>
            { t with
              entries := Function.update t.entries prev ((t.entries prev).map fun r => { r with next := e.next }) }
          | none => { t with buckets := t.buckets.set index e.next }
        { t₁ with entries := Function.update t₁.entries curr none }
      | none => some t

/-- A call of the table's interface. -/
inductive SslCall where
  | add (fd : Int) (ssl : SslPtr) (malloc : Option Addr)
  | get (fd : Int)
  | remove (fd : Int)
  deriving DecidableEq, Repr

/-- The table after a call. -/
def sslCall (fuel : Nat) (t : SslTable) : SslCall → Option SslTable
  | .add fd ssl malloc => (sslTableAdd fuel t fd ssl malloc).map Prod.snd
  | .get fd => (sslTableGet fuel t fd).map fun _ => t
  | .remove fd => sslTableRemove fuel t fd

/-- Allocation succeeds: `malloc` returns an address that is not an entry of the table. -/
def Allocates (t : SslTable) : SslCall → Prop
  | .add _ _ (some a) => t.entries a = none
  | .add _ _ none => False
  | .get _ => True
  | .remove _ => True

instance (t : SslTable) : (call : SslCall) → Decidable (Allocates t call)
  | .add _ _ (some a) => inferInstanceAs (Decidable (t.entries a = none))
  | .add _ _ none => inferInstanceAs (Decidable False)
  | .get _ => inferInstanceAs (Decidable True)
  | .remove _ => inferInstanceAs (Decidable True)

/-! ### The map it stands for -/

/-- What `ssl_table_get` of `fd` is to return after a call that concerns `fd`. -/
def SslCall.leaves (fd : Int) : SslCall → Option SslPtr
  | .add fd' ssl _ => if fd' = fd then some ssl else none
  | .get _ => none
  | .remove fd' => if fd' = fd then some none else none

/-- The handle of the latest `ssl_table_add` of `fd` that no `ssl_table_remove` of `fd` follows, `NULL` if there is
none. -/
def registeredHandle (calls : List SslCall) (fd : Int) : SslPtr :=
  (calls.reverse.findSome? (SslCall.leaves fd)).getD none

/-- The descriptor a call is about. -/
def SslCall.fd : SslCall → Int
  | .add fd _ _ => fd
  | .get fd => fd
  | .remove fd => fd

/-- What a chain stores: descriptors with their handles. -/
def contents (chain : List (Addr × SslEntry)) : List (Int × SslPtr) := chain.map fun x => (x.2.fd, x.2.ssl)

/-- The table with the chain `chains i` in bucket `i` represents the map `m`. -/
structure SslTable.Represents (t : SslTable) (chains : Nat → List (Addr × SslEntry)) (m : Int → Option SslPtr) :
    Prop where
  ready : t.initialized = true
  buckets : t.buckets.length = t.bucketCount
  hash_lt : ∀ fd, hashFd t fd < t.bucketCount
  chain : ∀ i head, t.buckets[i]? = some head → Chain t.entries SslEntry.next head (chains i)
  /-- An entry is in the bucket of its descriptor. -/
  home : ∀ i, ∀ x ∈ contents (chains i), hashFd t x.1 = i
  /-- A descriptor has one entry at most. -/
  once : ∀ i, ((contents (chains i)).map Prod.fst).Nodup
  /-- No entry is lost. -/
  reached : ∀ a e, t.entries a = some e → (a, e) ∈ chains (hashFd t e.fd)
  stored : ∀ fd, m fd = (contents (chains (hashFd t fd))).lookup fd

@[simp] theorem contents_nil : contents [] = [] := rfl

@[simp] theorem contents_append (l₁ l₂ : List (Addr × SslEntry)) :
    contents (l₁ ++ l₂) = contents l₁ ++ contents l₂ := List.map_append

@[simp] theorem contents_cons (x : Addr × SslEntry) (l : List (Addr × SslEntry)) :
    contents (x :: l) = (x.2.fd, x.2.ssl) :: contents l := rfl

/-- An entry of a list that stores no descriptor twice is found by its descriptor. -/
private theorem lookup_middle {c₁ c₂ : List (Int × SslPtr)} {fd : Int} {ssl : SslPtr}
    (h : ((c₁ ++ (fd, ssl) :: c₂).map Prod.fst).Nodup) : (c₁ ++ (fd, ssl) :: c₂).lookup fd = some ssl := by
  rw [List.map_append, List.map_cons, List.nodup_middle, List.nodup_cons, ← List.map_append] at h
  have hnone : c₁.lookup fd = none := by
    rw [List.lookup_eq_none_iff]
    intro x hx
    have hmem : x.1 ∈ (c₁ ++ c₂).map Prod.fst := List.mem_map_of_mem (List.mem_append_left _ hx)
    have hne : fd ≠ x.1 := fun he => h.1 (he ▸ hmem)
    simpa using hne
  rw [List.lookup_append, hnone, List.lookup_cons_self, Option.none_or]

/-- An entry of another descriptor does not matter to a lookup. -/
private theorem lookup_other {c₁ c₂ : List (Int × SslPtr)} {fd fd' : Int} (ssl : SslPtr) (h : fd' ≠ fd) :
    (c₁ ++ (fd, ssl) :: c₂).lookup fd' = (c₁ ++ c₂).lookup fd' := by
  have hbeq : (fd' == fd) = false := by simpa using h
  rw [List.lookup_append, List.lookup_append, List.lookup_cons, hbeq]

private theorem set_same {buckets : List (Option Addr)} {i : Nat} {head : Option Addr} (h : buckets[i]? = some head) :
    buckets.set i head = buckets := by
  obtain ⟨hlt, rfl⟩ := List.getElem?_eq_some_iff.1 h
  exact List.set_getElem_self hlt

/-- Writing a cell matters only to the entries it held and holds. -/
private theorem update_off {entries : Addr → Option SslEntry} {b : Addr} {v : Option SslEntry} {P : SslEntry → Prop}
    (hold : ∀ e, entries b = some e → ¬P e) (hnew : ∀ e, v = some e → ¬P e) (a : Addr) (e : SslEntry) (he : P e) :
    Function.update entries b v a = some e ↔ entries a = some e := by
  by_cases hab : a = b
  · subst hab
    rw [Function.update_self]
    exact ⟨fun hv => absurd he (hnew e hv), fun hv => absurd he (hold e hv)⟩
  · rw [Function.update_of_ne hab]

namespace SslTable.Represents

variable {t : SslTable} {chains : Nat → List (Addr × SslEntry)} {m : Int → Option SslPtr}

private theorem usable (h : t.Represents chains m) : (!t.initialized) = false := by
  rw [h.ready]
  rfl

/-- Each descriptor has a bucket. -/
private theorem bucket (h : t.Represents chains m) (fd : Int) : ∃ head, t.buckets[hashFd t fd]? = some head := by
  have hlt := h.hash_lt fd
  rw [← h.buckets] at hlt
  exact ⟨_, List.getElem?_eq_getElem hlt⟩

/-- Either the chain of a bucket has one entry for the descriptor or none of its entries is for it. -/
theorem split (h : t.Represents chains m) (fd : Int) :
    (∃ l₁ x l₂, chains (hashFd t fd) = l₁ ++ x :: l₂ ∧ x.2.fd = fd ∧ ∀ y ∈ l₁, y.2.fd ≠ fd) ∨
      ∀ x ∈ chains (hashFd t fd), x.2.fd ≠ fd := by
  by_cases hall : ∀ x ∈ chains (hashFd t fd), x.2.fd ≠ fd
  · exact Or.inr hall
  · left
    push Not at hall
    obtain ⟨x, hx, hxfd⟩ := hall
    obtain ⟨l₁, l₂, he⟩ := List.append_of_mem hx
    refine ⟨l₁, x, l₂, he, hxfd, fun y hy hyfd => ?_⟩
    have hnd := h.once (hashFd t fd)
    rw [he, contents_append, contents_cons, List.map_append, List.map_cons, List.nodup_middle,
      List.nodup_cons] at hnd
    refine hnd.1 (List.mem_append_left _ ?_)
    have hmem : y.2.fd ∈ (contents l₁).map Prod.fst := List.mem_map_of_mem (List.mem_map_of_mem hy)
    rwa [hyfd, ← hxfd] at hmem

/-- The chain of bucket `i` is replaced by `l`, and the entries of the other buckets stay. -/
private theorem set_bucket (h : t.Represents chains m) (m' : Int → Option SslPtr) (i : Nat)
    (entries : Addr → Option SslEntry) (head : Option Addr) (l : List (Addr × SslEntry))
    (hchain : Chain entries SslEntry.next head l)
    (hoff : ∀ a e, hashFd t e.fd ≠ i → (entries a = some e ↔ t.entries a = some e))
    (hon : ∀ a e, hashFd t e.fd = i → entries a = some e → (a, e) ∈ l) (hhome : ∀ x ∈ contents l, hashFd t x.1 = i)
    (honce : ((contents l).map Prod.fst).Nodup)
    (hstored : ∀ fd, m' fd = if hashFd t fd = i then (contents l).lookup fd else m fd) :
    ({ t with entries := entries, buckets := t.buckets.set i head } : SslTable).Represents
      (Function.update chains i l) m' := by
  refine ⟨h.ready, ?_, h.hash_lt, ?_, ?_, ?_, ?_, ?_⟩
  · rw [List.length_set, h.buckets]
  · intro j head' hj
    rw [List.getElem?_set] at hj
    by_cases hij : i = j
    · subst hij
      rw [Function.update_self]
      by_cases hlt : i < t.buckets.length
      · rw [if_pos rfl, if_pos hlt] at hj
        cases hj
        exact hchain
      · rw [if_pos rfl, if_neg hlt] at hj
        cases hj
    · rw [if_neg hij] at hj
      have hold := h.chain j head' hj
      rw [Function.update_of_ne (Ne.symm hij)]
      refine Path.congr hold fun x hx => ?_
      have hcell := Path.cell hold hx
      have hxj : hashFd t x.2.fd = j := h.home j (x.2.fd, x.2.ssl) (List.mem_map_of_mem hx)
      exact ((hoff x.1 x.2 (by rw [hxj]; exact Ne.symm hij)).2 hcell).trans hcell.symm
  · intro j x hx
    by_cases hij : j = i
    · subst hij
      rw [Function.update_self] at hx
      exact hhome x hx
    · rw [Function.update_of_ne hij] at hx
      exact h.home j x hx
  · intro j
    by_cases hij : j = i
    · subst hij
      rwa [Function.update_self]
    · rw [Function.update_of_ne hij]
      exact h.once j
  · intro a e hae
    change (a, e) ∈ Function.update chains i l (hashFd t e.fd)
    by_cases hi : hashFd t e.fd = i
    · rw [hi, Function.update_self]
      exact hon a e hi hae
    · rw [Function.update_of_ne hi]
      exact h.reached a e ((hoff a e hi).1 hae)
  · intro fd
    change m' fd = (contents (Function.update chains i l (hashFd t fd))).lookup fd
    rw [hstored]
    by_cases hfi : hashFd t fd = i
    · rw [if_pos hfi, hfi, Function.update_self]
    · rw [if_neg hfi, Function.update_of_ne hfi]
      exact h.stored fd

/-- The loop finds the entry of a descriptor, and the one before it. -/
private theorem seekFd_found (h : t.Represents chains m) {fuel : Nat} {fd : Int} {head : Option Addr}
    (hhead : t.buckets[hashFd t fd]? = some head) {l₁ l₂ : List (Addr × SslEntry)} {x : Addr × SslEntry}
    (he : chains (hashFd t fd) = l₁ ++ x :: l₂) (hx : x.2.fd = fd) (hl₁ : ∀ y ∈ l₁, y.2.fd ≠ fd)
    (hfuel : (chains (hashFd t fd)).length ≤ fuel) : t.seekFd fuel fd head = some (lastOf none l₁, some x.1) := by
  have hc := h.chain _ _ hhead
  rw [he] at hc hfuel
  have hlen : l₁.length < fuel := by
    rw [List.length_append, List.length_cons] at hfuel
    omega
  exact seek_found hc (fun y hy => by simpa using hl₁ y hy) (by simpa using hx) hlen none

private theorem seekFd_missing (h : t.Represents chains m) {fuel : Nat} {fd : Int} {head : Option Addr}
    (hhead : t.buckets[hashFd t fd]? = some head) (hno : ∀ x ∈ chains (hashFd t fd), x.2.fd ≠ fd)
    (hfuel : (chains (hashFd t fd)).length ≤ fuel) :
    ∃ prev, t.seekFd fuel fd head = some (prev, none) :=
  ⟨_, seek_missing (h.chain _ _ hhead) (fun x hx => by simpa using hno x hx) hfuel none⟩

theorem get (h : t.Represents chains m) {fuel : Nat} (fd : Int)
    (hfuel : (chains (hashFd t fd)).length ≤ fuel) : sslTableGet fuel t fd = some (m fd).join := by
  obtain ⟨head, hhead⟩ := h.bucket fd
  have hready := h.usable
  rw [sslTableGet, hready, if_neg (by simp), hhead, Option.bind_some, h.stored]
  rcases h.split fd with ⟨l₁, x, l₂, he, hx, hl₁⟩ | hno
  · have hcell := Path.cell (h.chain _ _ hhead) (x := x) (by rw [he]; simp)
    have hnd := h.once (hashFd t fd)
    rw [h.seekFd_found hhead he hx hl₁ hfuel, Option.bind_some]
    rw [he, contents_append, contents_cons, hx] at hnd
    rw [he, contents_append, contents_cons, hx, lookup_middle hnd]
    simp [hcell]
  · obtain ⟨prev, hs⟩ := h.seekFd_missing hhead hno hfuel
    have hnone : (contents (chains (hashFd t fd))).lookup fd = none := by
      rw [List.lookup_eq_none_iff]
      intro y hy
      obtain ⟨x, hx, rfl⟩ := List.mem_map.1 hy
      simpa using Ne.symm (hno x hx)
    rw [hs, hnone]
    rfl

/-- Every cell of a chain has the bucket of the chain. -/
private theorem hash_cell (h : t.Represents chains m) {i : Nat} {x : Addr × SslEntry} (hx : x ∈ chains i) :
    hashFd t x.2.fd = i :=
  h.home i (x.2.fd, x.2.ssl) (List.mem_map_of_mem hx)

/-- `ssl_table_add` of a descriptor that has an entry writes its handle. -/
private theorem add_found (h : t.Represents chains m) {fuel : Nat} {fd : Int} (ssl : SslPtr) (malloc : Option Addr)
    {l₁ l₂ : List (Addr × SslEntry)} {x : Addr × SslEntry} (he : chains (hashFd t fd) = l₁ ++ x :: l₂)
    (hx : x.2.fd = fd) (hl₁ : ∀ y ∈ l₁, y.2.fd ≠ fd) (hfuel : (chains (hashFd t fd)).length ≤ fuel) :
    ∃ t', sslTableAdd fuel t fd ssl malloc = some (.success, t') ∧
      t'.Represents (Function.update chains (hashFd t fd) (l₁ ++ (x.1, { x.2 with ssl := ssl }) :: l₂))
        (Function.update m fd (some ssl)) := by
  obtain ⟨head, hhead⟩ := h.bucket fd
  have hready := h.usable
  have hc := h.chain _ _ hhead
  have hmem : x ∈ chains (hashFd t fd) := by rw [he]; simp
  have hcell := Path.cell hc hmem
  have hxi : hashFd t x.2.fd = hashFd t fd := h.hash_cell hmem
  have hhome := h.home (hashFd t fd)
  have honce := h.once (hashFd t fd)
  have hstored := h.stored
  rw [he, contents_append, contents_cons] at hhome honce
  rw [he] at hc
  refine ⟨{ t with entries := Function.update t.entries x.1 (some { x.2 with ssl := ssl }) }, ?_, ?_⟩
  · simp only [sslTableAdd, hready, Bool.false_eq_true, if_false, hhead, Option.bind_some,
      h.seekFd_found hhead he hx hl₁ hfuel, hcell, Option.map_some]
  · have hnew := h.set_bucket (Function.update m fd (some ssl)) (hashFd t fd)
      (Function.update t.entries x.1 (some { x.2 with ssl := ssl })) head
      (l₁ ++ (x.1, { x.2 with ssl := ssl }) :: l₂) (Chain.write hc rfl)
    rw [set_same hhead] at hnew
    refine hnew (update_off ?_ ?_) ?_ ?_ ?_ ?_
    · intro e hxe
      cases hcell.symm.trans hxe
      simpa using hxi
    · intro e hxe
      cases hxe
      simpa using hxi
    · intro a e hi ha
      by_cases hax : a = x.1
      · subst hax
        rw [Function.update_self] at ha
        cases ha
        simp
      · rw [Function.update_of_ne hax] at ha
        have hold := h.reached a e ha
        rw [hi, he, List.mem_append, List.mem_cons] at hold
        rw [List.mem_append, List.mem_cons]
        rcases hold with h1 | rfl | h2
        · exact Or.inl h1
        · exact absurd rfl hax
        · exact Or.inr (Or.inr h2)
    · rw [contents_append, contents_cons]
      intro y hy
      rw [List.mem_append, List.mem_cons] at hy
      rcases hy with h1 | rfl | h2
      · exact hhome y (List.mem_append_left _ h1)
      · exact hxi
      · exact hhome y (List.mem_append_right _ (List.mem_cons_of_mem _ h2))
    · rw [contents_append, contents_cons]
      rw [List.map_append, List.map_cons] at honce ⊢
      exact honce
    · intro fd'
      by_cases hfd : fd' = fd
      · subst hfd
        rw [Function.update_self, if_pos rfl, contents_append, contents_cons, hx]
        refine (lookup_middle ?_).symm
        rw [hx, List.map_append, List.map_cons] at honce
        rwa [List.map_append, List.map_cons]
      · rw [Function.update_of_ne hfd]
        by_cases hi : hashFd t fd' = hashFd t fd
        · rw [if_pos hi, h.stored, hi, he, contents_append, contents_append, contents_cons, contents_cons, hx,
            lookup_other _ hfd, lookup_other _ hfd]
        · rw [if_neg hi]

/-- `ssl_table_add` of a descriptor that has no entry puts one at the head of its bucket. -/
private theorem add_missing (h : t.Represents chains m) {fuel : Nat} {fd : Int} (ssl : SslPtr) {a : Addr}
    (ha : t.entries a = none) (hno : ∀ x ∈ chains (hashFd t fd), x.2.fd ≠ fd)
    (hfuel : (chains (hashFd t fd)).length ≤ fuel) :
    ∃ t' next, sslTableAdd fuel t fd ssl (some a) = some (.success, t') ∧
      t'.Represents (Function.update chains (hashFd t fd) ((a, ⟨fd, ssl, next⟩) :: chains (hashFd t fd)))
        (Function.update m fd (some ssl)) := by
  obtain ⟨head, hhead⟩ := h.bucket fd
  obtain ⟨prev, hseek⟩ := h.seekFd_missing hhead hno hfuel
  have hready := h.usable
  have hc := h.chain _ _ hhead
  refine ⟨_, head, ?_, h.set_bucket (Function.update m fd (some ssl)) (hashFd t fd)
    (Function.update t.entries a (some ⟨fd, ssl, head⟩)) (some a) _ (hc.insert ha rfl) (update_off ?_ ?_) ?_ ?_ ?_ ?_⟩
  · simp only [sslTableAdd, hready, Bool.false_eq_true, if_false, hhead, Option.bind_some, hseek]
  · intro e hae
    cases ha.symm.trans hae
  · intro e hae
    cases hae
    simp
  · intro b e hi hb
    by_cases hba : b = a
    · subst hba
      rw [Function.update_self] at hb
      cases hb
      exact List.mem_cons_self
    · rw [Function.update_of_ne hba] at hb
      have hold := h.reached b e hb
      rw [hi] at hold
      exact List.mem_cons_of_mem _ hold
  · intro y hy
    rcases List.mem_cons.1 hy with rfl | hy
    · rfl
    · exact h.home _ y hy
  · rw [contents_cons, List.map_cons, List.nodup_cons]
    refine ⟨?_, h.once _⟩
    intro hmem
    obtain ⟨y, hy, hyfd⟩ := List.mem_map.1 hmem
    obtain ⟨x, hx, rfl⟩ := List.mem_map.1 hy
    exact hno x hx hyfd
  · intro fd'
    by_cases hfd : fd' = fd
    · subst hfd
      rw [Function.update_self, if_pos rfl, contents_cons, List.lookup_cons_self]
    · rw [Function.update_of_ne hfd]
      by_cases hi : hashFd t fd' = hashFd t fd
      · have hbeq : (fd' == fd) = false := by simpa using hfd
        rw [if_pos hi, h.stored, hi, contents_cons, List.lookup_cons, hbeq]
      · rw [if_neg hi]

/-- `ssl_table_remove` of the first entry of a bucket. -/
private theorem unlink_first (h : t.Represents chains m) {fuel : Nat} {fd : Int} {head : Option Addr}
    (hhead : t.buckets[hashFd t fd]? = some head) {l₂ : List (Addr × SslEntry)} {x : Addr × SslEntry}
    (he : chains (hashFd t fd) = x :: l₂) (hx : x.2.fd = fd) (hfuel : (chains (hashFd t fd)).length ≤ fuel) :
    let entries := Function.update t.entries x.1 none
    sslTableRemove fuel t fd =
        some { t with entries := entries, buckets := t.buckets.set (hashFd t fd) x.2.next } ∧
      Chain entries SslEntry.next x.2.next l₂ ∧
      (∀ a e, hashFd t e.fd ≠ hashFd t fd → (entries a = some e ↔ t.entries a = some e)) ∧
      ∀ a e, hashFd t e.fd = hashFd t fd → entries a = some e → (a, e) ∈ l₂ := by
  have hready := h.usable
  have hc := h.chain _ _ hhead
  rw [he] at hc
  have hcell : t.entries x.1 = some x.2 := hc.2.1
  have he' : chains (hashFd t fd) = [] ++ x :: l₂ := he
  have hseek := h.seekFd_found hhead he' hx (by simp) hfuel
  refine ⟨?_, hc.unlink_head, update_off ?_ (by simp), ?_⟩
  · simp only [sslTableRemove, hready, Bool.false_eq_true, if_false, hhead, Option.bind_some, hseek, hcell,
      Option.map_some]
    rfl
  · intro e hxe
    cases hcell.symm.trans hxe
    simp [hx]
  · intro a e hi ha
    by_cases hax : a = x.1
    · subst hax
      rw [Function.update_self] at ha
      cases ha
    · rw [Function.update_of_ne hax] at ha
      have hold := h.reached a e ha
      rw [hi, he, List.mem_cons] at hold
      rcases hold with rfl | h2
      · exact absurd rfl hax
      · exact h2

/-- `ssl_table_remove` of an entry after another one, which takes its link. -/
private theorem unlink_later (h : t.Represents chains m) {fuel : Nat} {fd : Int} {head : Option Addr}
    (hhead : t.buckets[hashFd t fd]? = some head) {l₁ l₂ : List (Addr × SslEntry)} {x y : Addr × SslEntry}
    (he : chains (hashFd t fd) = l₁ ++ y :: x :: l₂) (hx : x.2.fd = fd) (hl₁ : ∀ z ∈ l₁ ++ [y], z.2.fd ≠ fd)
    (hfuel : (chains (hashFd t fd)).length ≤ fuel) :
    let p : SslEntry := { y.2 with next := x.2.next }
    let entries := Function.update (Function.update t.entries y.1 (some p)) x.1 none
    sslTableRemove fuel t fd = some { t with entries := entries } ∧
      Chain entries SslEntry.next head (l₁ ++ (y.1, p) :: l₂) ∧
      (∀ a e, hashFd t e.fd ≠ hashFd t fd → (entries a = some e ↔ t.entries a = some e)) ∧
      ∀ a e, hashFd t e.fd = hashFd t fd → entries a = some e → (a, e) ∈ l₁ ++ (y.1, p) :: l₂ := by
  have hready := h.usable
  have he' : chains (hashFd t fd) = (l₁ ++ [y]) ++ x :: l₂ := by
    rw [he, List.append_assoc, List.singleton_append]
  have hymem : y ∈ chains (hashFd t fd) := by rw [he]; simp
  have hxmem : x ∈ chains (hashFd t fd) := by rw [he]; simp
  have hc := h.chain _ _ hhead
  have hycell := Path.cell hc hymem
  have hxcell := Path.cell hc hxmem
  have hxi := h.hash_cell hxmem
  have hyi := h.hash_cell hymem
  have hseek := h.seekFd_found hhead he' hx hl₁ hfuel
  have hlast : lastOf none (l₁ ++ [y]) = some y.1 := by simp [lastOf]
  rw [he'] at hc
  have hyx : y.1 ≠ x.1 := hc.apart y (by simp)
  rw [← he', he] at hc
  refine ⟨?_, hc.unlink rfl, ?_, ?_⟩
  · simp only [sslTableRemove, hready, Bool.false_eq_true, if_false, hhead, Option.bind_some, hseek, hlast,
      hxcell, hycell, Option.map_some]
  · intro a e hi
    have hne : ∀ e' : SslEntry, hashFd t e'.fd = hashFd t fd → ¬hashFd t e'.fd ≠ hashFd t fd :=
      fun _ h1 h2 => h2 h1
    rw [update_off (P := fun e => hashFd t e.fd ≠ hashFd t fd) ?_ (by simp) a e hi]
    · refine update_off (P := fun e => hashFd t e.fd ≠ hashFd t fd) ?_ ?_ a e hi
      · intro e' hye
        cases hycell.symm.trans hye
        exact hne _ hyi
      · intro e' hye
        cases hye
        exact hne _ hyi
    · intro e' hxe
      rw [Function.update_of_ne (Ne.symm hyx)] at hxe
      cases hxcell.symm.trans hxe
      exact hne _ hxi
  · intro a e hi ha
    by_cases hax : a = x.1
    · subst hax
      rw [Function.update_self] at ha
      cases ha
    · rw [Function.update_of_ne hax] at ha
      by_cases hay : a = y.1
      · subst hay
        rw [Function.update_self] at ha
        cases ha
        simp
      · rw [Function.update_of_ne hay] at ha
        have hold := h.reached a e ha
        rw [hi, he, List.mem_append, List.mem_cons, List.mem_cons] at hold
        rw [List.mem_append, List.mem_cons]
        rcases hold with h1 | rfl | rfl | h2
        · exact Or.inl h1
        · exact absurd rfl hay
        · exact absurd rfl hax
        · exact Or.inr (Or.inr h2)

/-- The bucket of a descriptor after its entry is gone. -/
private theorem drop_entry (h : t.Represents chains m) {fd : Int} {l₁ l₂ l : List (Addr × SslEntry)}
    {x : Addr × SslEntry} (he : chains (hashFd t fd) = l₁ ++ x :: l₂) (hx : x.2.fd = fd)
    (hl : contents l = contents l₁ ++ contents l₂) {entries : Addr → Option SslEntry} {head : Option Addr}
    (hchain : Chain entries SslEntry.next head l)
    (hoff : ∀ a e, hashFd t e.fd ≠ hashFd t fd → (entries a = some e ↔ t.entries a = some e))
    (hon : ∀ a e, hashFd t e.fd = hashFd t fd → entries a = some e → (a, e) ∈ l) :
    ({ t with entries := entries, buckets := t.buckets.set (hashFd t fd) head } : SslTable).Represents
      (Function.update chains (hashFd t fd) l) (Function.update m fd none) := by
  have hhome := h.home (hashFd t fd)
  have honce := h.once (hashFd t fd)
  rw [he, contents_append, contents_cons, hx] at hhome honce
  rw [List.map_append, List.map_cons, List.nodup_middle, List.nodup_cons, ← List.map_append] at honce
  refine h.set_bucket _ _ entries head l hchain hoff hon ?_ ?_ ?_
  · intro y hy
    rw [hl, List.mem_append] at hy
    rcases hy with h1 | h2
    · exact hhome y (List.mem_append_left _ h1)
    · exact hhome y (List.mem_append_right _ (List.mem_cons_of_mem _ h2))
  · rw [hl]
    exact honce.2
  · intro fd'
    by_cases hfd : fd' = fd
    · subst hfd
      rw [Function.update_self, if_pos rfl, hl, eq_comm, List.lookup_eq_none_iff]
      intro y hy
      have hmem : y.1 ∈ (contents l₁ ++ contents l₂).map Prod.fst := List.mem_map_of_mem hy
      have hne : fd' ≠ y.1 := fun heq => honce.1 (heq ▸ hmem)
      simpa using hne
    · rw [Function.update_of_ne hfd]
      by_cases hi : hashFd t fd' = hashFd t fd
      · rw [if_pos hi, h.stored, hi, he, contents_append, contents_cons, hx, lookup_other _ hfd, hl]
      · rw [if_neg hi]

/-- `ssl_table_add`: the descriptor has the new handle, in a chain at most one entry longer. -/
theorem add (h : t.Represents chains m) {fuel : Nat} (fd : Int) (ssl : SslPtr) {a : Addr}
    (ha : t.entries a = none) (hfuel : (chains (hashFd t fd)).length ≤ fuel) :
    ∃ t' l, sslTableAdd fuel t fd ssl (some a) = some (.success, t') ∧
      l.length ≤ (chains (hashFd t fd)).length + 1 ∧
      t'.Represents (Function.update chains (hashFd t fd) l) (Function.update m fd (some ssl)) := by
  rcases h.split fd with ⟨l₁, x, l₂, he, hx, hl₁⟩ | hno
  · obtain ⟨t', hadd, hrep⟩ := h.add_found ssl (some a) he hx hl₁ hfuel
    refine ⟨t', _, hadd, ?_, hrep⟩
    rw [he, List.length_append, List.length_append, List.length_cons, List.length_cons]
    omega
  · obtain ⟨t', next, hadd, hrep⟩ := h.add_missing ssl ha hno hfuel
    exact ⟨t', _, hadd, Nat.le_of_eq List.length_cons, hrep⟩

/-- `ssl_table_remove`: the descriptor has no handle, in a chain that is no longer. -/
theorem remove (h : t.Represents chains m) {fuel : Nat} (fd : Int)
    (hfuel : (chains (hashFd t fd)).length ≤ fuel) :
    ∃ t' l, sslTableRemove fuel t fd = some t' ∧
      l.length ≤ (chains (hashFd t fd)).length ∧
      t'.Represents (Function.update chains (hashFd t fd) l) (Function.update m fd none) := by
  obtain ⟨head, hhead⟩ := h.bucket fd
  rcases h.split fd with ⟨l₁, x, l₂, he, hx, hl₁⟩ | hno
  · rcases List.eq_nil_or_concat l₁ with rfl | ⟨l₀, y, rfl⟩
    · obtain ⟨hrem, hchain, hoff, hon⟩ := h.unlink_first hhead he hx hfuel
      refine ⟨_, l₂, hrem, ?_, h.drop_entry he hx rfl hchain hoff hon⟩
      rw [he, List.nil_append, List.length_cons]
      omega
    · have he' : chains (hashFd t fd) = l₀ ++ y :: x :: l₂ := by
        rw [he, List.concat_eq_append, List.append_assoc, List.singleton_append]
      rw [List.concat_eq_append] at hl₁
      obtain ⟨hrem, hchain, hoff, hon⟩ := h.unlink_later hhead he' hx hl₁ hfuel
      have hrep := h.drop_entry he hx (by simp) hchain hoff hon
      rw [set_same hhead] at hrep
      refine ⟨_, _, hrem, ?_, hrep⟩
      rw [he', List.length_append, List.length_append, List.length_cons, List.length_cons, List.length_cons]
      omega
  · have hready := h.usable
    obtain ⟨prev, hseek⟩ := h.seekFd_missing hhead hno hfuel
    refine ⟨t, chains (hashFd t fd), ?_, Nat.le_refl _, ?_⟩
    · simp only [sslTableRemove, hready, Bool.false_eq_true, if_false, hhead, Option.bind_some, hseek]
    · have hm : Function.update m fd none = m := by
        rw [Function.update_eq_self_iff, h.stored, eq_comm, List.lookup_eq_none_iff]
        intro y hy
        obtain ⟨x, hx, rfl⟩ := List.mem_map.1 hy
        simpa using Ne.symm (hno x hx)
      rwa [hm, Function.update_eq_self]

/-- A descriptor is in one entry of the heap at most. -/
private theorem entry_unique (h : t.Represents chains m) {a b : Addr} {e e' : SslEntry} (ha : t.entries a = some e)
    (hb : t.entries b = some e') (hfd : e.fd = e'.fd) : a = b := by
  have hma := h.reached a e ha
  have hmb := h.reached b e' hb
  rw [← hfd] at hmb
  have honce := h.once (hashFd t e.fd)
  rw [contents, List.map_map] at honce
  exact congrArg Prod.fst (List.inj_on_of_nodup_map honce hma hmb hfd)

end SslTable.Represents

/-! ### Runs -/

/-- What a call does to the map. -/
def SslCall.apply (m : Int → Option SslPtr) : SslCall → Int → Option SslPtr
  | .add fd ssl _ => Function.update m fd (some ssl)
  | .get _ => m
  | .remove fd => Function.update m fd none

/-- One call of the interface. -/
private theorem sslCall_represents {fuel n : Nat} {t : SslTable} {chains : Nat → List (Addr × SslEntry)}
    {m : Int → Option SslPtr} (h : t.Represents chains m) (hn : ∀ i, (chains i).length ≤ n) (hfuel : n ≤ fuel)
    {call : SslCall} (hcall : Allocates t call) :
    ∃ t' chains', sslCall fuel t call = some t' ∧
      t'.Represents chains' (call.apply m) ∧ ∀ i, (chains' i).length ≤ n + 1 := by
  have hlen : ∀ fd, (chains (hashFd t fd)).length ≤ fuel := fun fd => Nat.le_trans (hn _) hfuel
  have hupd : ∀ fd l, l.length ≤ n + 1 → ∀ i, (Function.update chains (hashFd t fd) l i).length ≤ n + 1 := by
    intro fd l hl i
    by_cases hi : i = hashFd t fd
    · subst hi
      rwa [Function.update_self]
    · rw [Function.update_of_ne hi]
      exact Nat.le_succ_of_le (hn i)
  cases call with
  | add fd ssl malloc =>
    cases malloc with
    | none => cases hcall
    | some a =>
      obtain ⟨t', l, hadd, hl, hrep⟩ := h.add fd ssl hcall (hlen fd)
      have hbound := hn (hashFd t fd)
      exact ⟨t', _, by rw [sslCall, hadd]; rfl, hrep, hupd fd l (by omega)⟩
  | get fd =>
    exact ⟨t, chains, by rw [sslCall, h.get fd (hlen fd)]; rfl, h, fun i => Nat.le_succ_of_le (hn i)⟩
  | remove fd =>
    obtain ⟨t', l, hrem, hl, hrep⟩ := h.remove fd (hlen fd)
    have hbound := hn (hashFd t fd)
    exact ⟨t', _, by rw [sslCall, hrem], hrep, hupd fd l (by omega)⟩

/-- A call has a result whatever `malloc` returns. -/
private theorem sslCall_isSome {fuel : Nat} {t : SslTable} {chains : Nat → List (Addr × SslEntry)}
    {m : Int → Option SslPtr} (h : t.Represents chains m) (hfuel : ∀ i, (chains i).length ≤ fuel) (call : SslCall) :
    ∃ t', sslCall fuel t call = some t' := by
  cases call with
  | add fd ssl malloc =>
    rcases h.split fd with ⟨l₁, x, l₂, he, hx, hl₁⟩ | hno
    · obtain ⟨t', hadd, -⟩ := h.add_found ssl malloc he hx hl₁ (hfuel _)
      exact ⟨t', by rw [sslCall, hadd]; rfl⟩
    · obtain ⟨head, hhead⟩ := h.bucket fd
      obtain ⟨prev, hseek⟩ := h.seekFd_missing hhead hno (hfuel _)
      have hready := h.usable
      simp only [sslCall, sslTableAdd, hready, Bool.false_eq_true, if_false, hhead, Option.bind_some, hseek]
      cases malloc with
      | none => exact ⟨_, rfl⟩
      | some a => exact ⟨_, rfl⟩
  | get fd => exact ⟨t, by rw [sslCall, h.get fd (hfuel _)]; rfl⟩
  | remove fd =>
    obtain ⟨t', l, hrem, -, -⟩ := h.remove fd (hfuel _)
    exact ⟨t', hrem⟩

private theorem sslTableInit_represents : sslTableInit.Represents (fun _ => []) fun _ => none := by
  refine ⟨rfl, rfl, ?_, ?_, by simp, by simp, ?_, fun _ => rfl⟩
  · intro fd
    exact Nat.mod_lt _ (by decide)
  · intro i head hi
    rw [sslTableInit, List.getElem?_replicate] at hi
    by_cases hlt : i < initialBucketCount
    · rw [if_pos hlt] at hi
      cases hi
      rfl
    · rw [if_neg hlt] at hi
      cases hi
  · intro a e ha
    cases ha

/-- A run of calls with enough turns for its loops has a result, which represents the map the calls make. -/
private theorem run_represents {fuel n : Nat} {t : SslTable} {chains : Nat → List (Addr × SslEntry)}
    {m : Int → Option SslPtr} (h : t.Represents chains m) (hn : ∀ i, (chains i).length ≤ n) {calls : List SslCall}
    (hfuel : n + calls.length ≤ fuel) (halloc : Guarded (sslCall fuel) Allocates t calls) :
    ∃ t' chains', run (sslCall fuel) t calls = some t' ∧
      t'.Represents chains' (calls.foldl SslCall.apply m) ∧ ∀ i, (chains' i).length ≤ n + calls.length := by
  induction calls generalizing n t chains m with
  | nil => exact ⟨t, chains, rfl, h, hn⟩
  | cons call calls ih =>
    rw [List.length_cons] at hfuel
    have hnf : n ≤ fuel := by omega
    obtain ⟨t₂, hs₂⟩ := sslCall_isSome h (fun i => Nat.le_trans (hn i) hnf) call
    obtain ⟨t₁, chains₁, hs, hrep, hlen⟩ := sslCall_represents h hn hnf (halloc t₂ hs₂).1
    obtain ⟨t', chains', hrun, hrep', hlen'⟩ := ih hrep hlen (by omega) (halloc t₁ hs).2
    refine ⟨t', chains', by rw [run_cons hs, hrun], hrep', fun i => ?_⟩
    have hi := hlen' i
    rw [List.length_cons]
    omega

private theorem SslCall.apply_of_ne {call : SslCall} {fd : Int} (hfd : fd ≠ call.fd) (m : Int → Option SslPtr) :
    call.apply m fd = m fd := by
  cases call with
  | add fd' ssl malloc => exact Function.update_of_ne hfd _ _
  | get fd' => rfl
  | remove fd' => exact Function.update_of_ne hfd _ _

/-- The handle after a call is the one the call leaves, if it leaves one. -/
private theorem SslCall.join_apply (call : SslCall) (fd : Int) (m : Int → Option SslPtr) :
    (call.apply m fd).join = (call.leaves fd).getD (m fd).join := by
  by_cases hfd : fd = call.fd
  · subst hfd
    cases call <;> simp [SslCall.apply, SslCall.leaves, SslCall.fd]
  · rw [SslCall.apply_of_ne hfd]
    cases call <;> simp_all [SslCall.leaves, SslCall.fd, eq_comm]

/-- The map that the calls make has for each descriptor the handle of its latest call. -/
private theorem join_foldl_apply (calls : List SslCall) (m : Int → Option SslPtr) (fd : Int) :
    (calls.foldl SslCall.apply m fd).join = (calls.reverse.findSome? (SslCall.leaves fd)).getD (m fd).join := by
  induction calls generalizing m with
  | nil => rfl
  | cons call calls ih =>
    rw [List.foldl_cons, ih, SslCall.join_apply, List.reverse_cons, List.findSome?_append, List.findSome?_singleton]
    cases calls.reverse.findSome? (SslCall.leaves fd) <;> rfl

/-- Between `ssl_table_init` and `ssl_table_free` the table is a finite map, after any calls: its chains end and
visit no entry twice, a descriptor is in one entry at most and in its own bucket, `ssl_table_get` returns the latest
handle, and a further call leaves the answers for the other descriptors alone. -/
theorem ssl_table_refines_map {fuel : Nat} {calls : List SslCall} (hfuel : calls.length < fuel)
    (halloc : Guarded (sslCall fuel) Allocates sslTableInit calls) :
    ∃ t chains, run (sslCall fuel) sslTableInit calls = some t ∧
      t.Represents chains (calls.foldl SslCall.apply fun _ => none) ∧
      (∀ i, ((chains i).map Prod.fst).Nodup) ∧
      (∀ a b e e', t.entries a = some e → t.entries b = some e' → e.fd = e'.fd → a = b) ∧
      (∀ fd, sslTableGet fuel t fd = some (registeredHandle calls fd)) ∧
      ∀ call, Allocates t call → ∃ t', sslCall fuel t call = some t' ∧
        ∀ fd, fd ≠ call.fd → sslTableGet fuel t' fd = sslTableGet fuel t fd := by
  obtain ⟨t, chains, hrun, hrep, hlen⟩ :=
    run_represents (n := 0) sslTableInit_represents (by simp) (by omega) halloc
  have hlen' : ∀ i, (chains i).length ≤ fuel := fun i => by
    have hi := hlen i
    omega
  have hget : ∀ fd, sslTableGet fuel t fd = some (registeredHandle calls fd) := by
    intro fd
    rw [hrep.get fd (hlen' _), join_foldl_apply]
    rfl
  refine ⟨t, chains, hrun, hrep, fun i => ?_, fun a b e e' => hrep.entry_unique, hget, ?_⟩
  · by_cases hi : i < t.bucketCount
    · rw [← hrep.buckets] at hi
      exact (hrep.chain i _ (List.getElem?_eq_getElem hi)).nodup
    · have hnil : chains i = [] := by
        rw [List.eq_nil_iff_forall_not_mem]
        intro x hx
        exact hi (hrep.hash_cell hx ▸ hrep.hash_lt _)
      rw [hnil]
      exact List.nodup_nil
  · intro call hcall
    have hbound₀ : 0 + calls.length ≤ fuel := by omega
    obtain ⟨t', chains', hs, hrep', hlen''⟩ := sslCall_represents hrep hlen hbound₀ hcall
    refine ⟨t', hs, fun fd hfd => ?_⟩
    have hbound : ∀ i, (chains' i).length ≤ fuel := fun i => by
      have hi := hlen'' i
      omega
    rw [hrep'.get fd (hbound _), hrep.get fd (hlen' _), SslCall.apply_of_ne hfd]

/-- Two descriptors of one bucket, a handle replaced, an entry removed behind another one and its address used
again. -/
theorem ssl_table_refines_map_collisions :
    let calls : List SslCall :=
      [.add 5 (some 50) (some 0), .add 133 (some 51) (some 1), .add 5 (some 52) (some 2), .remove 5,
        .add (-1) (some 53) (some 0)]
    ∃ t, run (sslCall 6) sslTableInit calls = some t ∧ sslTableGet 6 t 133 = some (some 51) ∧
      sslTableGet 6 t 5 = some none ∧ sslTableGet 6 t (-1) = some (some 53) := by
  intro calls
  have htest : testGuard (sslCall 6) (fun t call => decide (Allocates t call)) sslTableInit calls = true := by
    decide +kernel
  have hguard : Guarded (sslCall 6) Allocates sslTableInit calls :=
    Guarded.of_test (fun t call h => of_decide_eq_true h) htest
  have hfuel : calls.length < 6 := by decide
  obtain ⟨t, chains, hrun, -, -, -, hget, -⟩ := ssl_table_refines_map hfuel hguard
  exact ⟨t, hrun, hget 133, hget 5, hget (-1)⟩

end Zappy
