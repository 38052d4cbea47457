import Zappy.Lib.Run
import Zappy.Framing

/-!
# Readiness (`server_select`)

A pass of `server_select` reads one frame from every descriptor that `select` reports, and `select` reports the
records in the kernel socket only: what `SSL_read` keeps of a record begun is not seen.  The sockets block, so a call
that needs more bytes waits for the next record.  No command waits unseen when no record holds, after the end of a
frame, the whole of the next one (`no_frame_waits`).
-/

namespace Zappy

open WebSocket

/-- The text frames of a client, and the records in which it sends them. -/
structure Packing where
  frames : List Frame
  records : List (List UInt8)
  text : ∀ f ∈ frames, f.fin = true ∧ f.opcode = 1 ∧ f.mask.isSome
  nonempty : ∀ record ∈ records, record ≠ []
  whole : records.flatten = frames.flatMap Frame.bytes

inductive LinkStatus where
  | connected
  /-- Removed since `ws_read` returned no bytes. -/
  | refused
  /-- Removed by the game, or since a message was not accepted. -/
  | dismissed
  deriving DecidableEq, Repr

/-- A descriptor: its session, the records that have not reached the server, and the messages handed to
`m_handle_client_message`. -/
structure Link where
  packing : Packing
  tls : Tls
  toCome : List (List UInt8)
  handed : List (List UInt8)
  status : LinkStatus

namespace Link

def start (p : Packing) : Link := ⟨p, {}, p.records, [], .connected⟩

/-- The descriptor is watched and `select` finds data in the kernel socket. -/
def Readable (l : Link) : Prop := l.status = .connected ∧ l.tls.kernel ≠ []

instance : DecidablePred Readable := fun l =>
  inferInstanceAs (Decidable (l.status = .connected ∧ l.tls.kernel ≠ []))

/-- The session when all records have come: what a call sees that waits for those it needs. -/
def stream (l : Link) : Tls := { l.tls with kernel := l.tls.kernel ++ l.toCome }

/-- The next record reaches the server. -/
def arrive (l : Link) : Link :=
  match l.toCome with
  | [] => l
  | record :: rest => { l with tls := { l.tls with kernel := l.tls.kernel ++ [record] }, toCome := rest }

/-- The number of bytes that have reached the server. -/
def arrived (l : Link) : Nat := l.packing.records.flatten.length - l.toCome.flatten.length

/-- Every frame that has come whole was handed on. -/
def HandsAll (l : Link) : Prop :=
  ∀ k ≤ l.packing.frames.length, ((l.packing.frames.take k).flatMap Frame.bytes).length ≤ l.arrived →
    (l.packing.frames.take k).map Frame.payload <+: l.handed

end Link

/-- `m_handle_client_event`.  The records that the call did not wait for are still to come. -/
def mHandleClientEvent (l : Link) : Link :=
  let r := wsRead 4096 [] l.stream
  let left := r.tls.kernel.length - l.toCome.length
  let read := { l with tls := { r.tls with kernel := r.tls.kernel.take left }, toCome := r.tls.kernel.drop left }
  if r.ret ≤ 0 then { read with status := .refused }
  else { read with handed := l.handed ++ [r.buf.take r.ret.toNat] }

/-- `server_select`. -/
def serverSelect (links : List Link) : List Link := links.map fun l => if l.Readable then mHandleClientEvent l else l

inductive LinkAction where
  | arrive (i : Nat)
  | select
  | dismiss (i : Nat)
  deriving DecidableEq, Repr

def linkStep (links : List Link) : LinkAction → List Link
  | .arrive i => links.modify i Link.arrive
  | .select => serverSelect links
  | .dismiss i => links.modify i fun l => { l with status := .dismissed }

/-- When a pass finds no descriptor readable, all complete frames have been handed on. -/
def NoneWaits (links : List Link) : Prop :=
  (∀ l ∈ links, ¬ l.Readable) → ∀ l ∈ links, l.status ≠ .dismissed → l.HandsAll

/-! ### Packings that are read in time -/

namespace Packing

/-- The session, with all records. -/
def session (p : Packing) : Tls := { kernel := p.records }

/-- The number of bytes before frame `j`. -/
def position (p : Packing) (j : Nat) : Nat := ((p.frames.take j).flatMap Frame.bytes).length

/-- The frames are not empty and fit the buffer, their lengths and masks are not cut, and what a record holds after
the end of a frame is less than the next frame. -/
structure Spread (p : Packing) : Prop where
  sizes : ∀ f ∈ p.frames, 1 ≤ f.payload.length ∧ f.payload.length ≤ 4096
  lengths : ∀ j (_ : j < p.frames.length),
    p.frames[j].form.extra ≤ (p.session.skip (p.position j + 2)).available
  masks : ∀ j (_ : j < p.frames.length),
    4 ≤ (p.session.skip (p.position j + 2 + p.frames[j].form.extra)).available
  ends : ∀ j (_ : j < p.frames.length), (p.session.skip (p.position j)).memory.length < p.frames[j].bytes.length

private theorem position_succ (p : Packing) {j : Nat} (hj : j < p.frames.length) :
    p.position (j + 1) = p.position j + p.frames[j].bytes.length := by
  unfold position
  rw [List.take_succ_eq_append_getElem hj, List.flatMap_append, List.length_append]
  simp

private theorem proper (p : Packing) : p.session.Proper := p.nonempty

/-- After the first `j` frames the others are there to be read. -/
private theorem unread_position (p : Packing) (j : Nat) :
    (p.session.skip (p.position j)).unread = (p.frames.drop j).flatMap Frame.bytes := by
  have hsplit : p.session.unread =
      (p.frames.take j).flatMap Frame.bytes ++ (p.frames.drop j).flatMap Frame.bytes := by
    rw [← List.flatMap_append, List.take_append_drop]
    exact p.whole
  rw [Tls.unread_skip, hsplit, position, List.drop_left]

end Packing

/-! ### Links in step -/

/-- The first `j` frames were handed on, and the session is at the next one. -/
structure Link.At (l : Link) (j : Nat) : Prop where
  le : j ≤ l.packing.frames.length
  handed : l.handed = (l.packing.frames.take j).map Frame.payload
  stream : l.stream = l.packing.session.skip (l.packing.position j)
  kept : l.status ≠ .refused

/-- What every run keeps of a link. -/
def Link.InStep (l : Link) : Prop := l.packing.Spread ∧ ∃ j, l.At j

private theorem Link.start_inStep {p : Packing} (h : p.Spread) : (Link.start p).InStep := by
  refine ⟨h, 0, Nat.zero_le _, rfl, ?_, LinkStatus.noConfusion⟩
  change p.session = p.session.skip (p.position 0)
  have hzero : p.position 0 = 0 := rfl
  rw [hzero, Tls.skip_zero]

private theorem Link.arrive_inStep {l : Link} (h : l.InStep) : l.arrive.InStep := by
  obtain ⟨hspread, j, hat⟩ := h
  unfold Link.arrive
  split
  · exact ⟨hspread, j, hat⟩
  · next record rest hcome =>
    refine ⟨hspread, j, hat.le, hat.handed, ?_, hat.kept⟩
    have hstream := hat.stream
    unfold Link.stream at *
    rw [hcome] at hstream
    simpa using hstream

private theorem Link.dismiss_inStep {l : Link} (h : l.InStep) : ({ l with status := .dismissed } : Link).InStep := by
  obtain ⟨hspread, j, hat⟩ := h
  exact ⟨hspread, j, hat.le, hat.handed, hat.stream, LinkStatus.noConfusion⟩

/-- A call on a readable descriptor hands the next frame on. -/
private theorem mHandleClientEvent_inStep {l : Link} (hread : l.Readable) (h : l.InStep) :
    (mHandleClientEvent l).InStep := by
  obtain ⟨hspread, j, hat⟩ := h
  have hproper : l.stream.Proper := by
    rw [hat.stream]
    exact l.packing.proper.skip _
  have hunread : l.stream.unread = (l.packing.frames.drop j).flatMap Frame.bytes := by
    rw [hat.stream, l.packing.unread_position]
  have hj : j < l.packing.frames.length := by
    have hkernel : l.stream.kernel ≠ [] := List.append_ne_nil_of_left_ne_nil hread.2 _
    have hne := Tls.unread_ne_nil hproper hkernel
    -- the kernel holds a record, so a frame is still to come
    by_contra hle
    rw [hunread, List.drop_eq_nil_of_le (Nat.le_of_not_lt hle)] at hne
    exact hne rfl
  obtain ⟨hfin, hop, hmasked⟩ := l.packing.text _ (List.getElem_mem hj)
  obtain ⟨key, hmask⟩ := Option.isSome_iff_exists.1 hmasked
  obtain ⟨hpos, hfits⟩ := hspread.sizes _ (List.getElem_mem hj)
  have hnext : l.stream.unread =
      l.packing.frames[j].bytes ++ (l.packing.frames.drop (j + 1)).flatMap Frame.bytes := by
    rw [hunread, List.drop_eq_getElem_cons hj, List.flatMap_cons]
  have hlength : l.packing.frames[j].form.extra ≤ (l.stream.skip 2).available := by
    rw [hat.stream, Tls.skip_skip]
    exact hspread.lengths j hj
  have hkey : 4 ≤ (l.stream.skip (2 + l.packing.frames[j].form.extra)).available := by
    rw [hat.stream, Tls.skip_skip, ← Nat.add_assoc]
    exact hspread.masks j hj
  have hcall := wsRead_whole hproper hnext hop hmask hfits hlength hkey []
  rw [toInt_length (by decide) hfits, hat.stream, Tls.skip_skip, ← l.packing.position_succ hj, ← hat.stream] at hcall
  unfold mHandleClientEvent
  rw [hcall]
  dsimp only
  rw [if_neg (by omega), List.drop_nil, List.append_nil, Int.toNat_natCast, List.take_length]
  refine ⟨hspread, j + 1, hj, ?_, ?_, hat.kept⟩
  · change l.handed ++ [l.packing.frames[j].payload] = (l.packing.frames.take (j + 1)).map Frame.payload
    rw [hat.handed, List.take_succ_eq_append_getElem hj, List.map_append]
    rfl
  · unfold Link.stream
    dsimp only
    rw [List.take_append_drop]

private theorem modify_inStep {links : List Link} {f : Link → Link} (hf : ∀ l, l.InStep → (f l).InStep)
    (h : ∀ l ∈ links, l.InStep) (i : Nat) : ∀ l ∈ links.modify i f, l.InStep := by
  intro l hmem
  rw [List.mem_iff_getElem] at hmem
  obtain ⟨k, hk, rfl⟩ := hmem
  rw [List.getElem_modify]
  rw [List.length_modify] at hk
  have hkeep := h _ (List.getElem_mem hk)
  split
  · exact hf _ hkeep
  · exact hkeep

private theorem linkStep_inStep {links : List Link} (h : ∀ l ∈ links, l.InStep) (a : LinkAction) :
    ∀ l ∈ linkStep links a, l.InStep := by
  cases a with
  | arrive i => exact modify_inStep (fun l => Link.arrive_inStep) h i
  | dismiss i => exact modify_inStep (fun l => Link.dismiss_inStep) h i
  | select =>
    intro l hmem
    obtain ⟨l₀, hmem₀, rfl⟩ := List.mem_map.1 hmem
    by_cases hread : l₀.Readable
    · rw [if_pos hread]
      exact mHandleClientEvent_inStep hread (h l₀ hmem₀)
    · rw [if_neg hread]
      exact h l₀ hmem₀

private theorem run_inStep {links : List Link} (h : ∀ l ∈ links, l.InStep) (actions : List LinkAction) :
    ∀ l ∈ actions.foldl linkStep links, l.InStep := by
  induction actions generalizing links with
  | nil => exact h
  | cons a actions ih => exact ih (linkStep_inStep h a)

private theorem Packing.position_mono (p : Packing) {j k : Nat} (h : j ≤ k) : p.position j ≤ p.position k := by
  obtain ⟨d, rfl⟩ := Nat.exists_eq_add_of_le h
  unfold position
  rw [List.take_add, List.flatMap_append, List.length_append]
  exact Nat.le_add_right _ _

/-- With no record left in the kernel socket, what is unread is less than a frame. -/
private theorem Link.handsAll {l : Link} (h : l.InStep) (hkernel : l.tls.kernel = []) : l.HandsAll := by
  obtain ⟨hspread, j, hat⟩ := h
  intro k hk hcome
  -- frame `j` cannot have come whole: the memory holds less than it, and the kernel nothing
  have hkj : k ≤ j := by
    by_contra hlt
    have hj : j < l.packing.frames.length := by omega
    have hpos : l.packing.position (j + 1) ≤ l.packing.position k := l.packing.position_mono (by omega)
    have hstream := hat.stream
    unfold Link.stream at hstream
    rw [hkernel, List.nil_append] at hstream
    have hmemory : l.tls.memory.length < l.packing.frames[j].bytes.length := by
      have hends := hspread.ends j hj
      rwa [← hstream] at hends
    have hunread : l.tls.memory.length + l.toCome.flatten.length =
        l.packing.records.flatten.length - l.packing.position j := by
      have hlen := congrArg (fun t => t.unread.length) hstream
      dsimp only at hlen
      rw [Tls.unread_skip, List.length_drop] at hlen
      rw [← List.length_append]
      exact hlen
    rw [l.packing.position_succ hj] at hpos
    have hcome' : l.packing.position k ≤ l.packing.records.flatten.length - l.toCome.flatten.length := hcome
    omega
  rw [hat.handed]
  exact (List.take_prefix_take_left hkj).map _

/-- In every run of arrivals, passes and removals no complete frame waits unseen, when the frames are spread over the
records as `Packing.Spread` says. -/
theorem no_frame_waits (packings : List Packing) (h : ∀ p ∈ packings, p.Spread) (actions : List LinkAction) :
    NoneWaits (actions.foldl linkStep (packings.map Link.start)) := by
  have hstart : ∀ l ∈ packings.map Link.start, l.InStep := by
    intro l hmem
    obtain ⟨p, hp, rfl⟩ := List.mem_map.1 hmem
    exact Link.start_inStep (h p hp)
  intro hquiet l hmem hkept
  have hstep := run_inStep hstart actions l hmem
  have hconnected : l.status = .connected := by
    obtain ⟨-, j, hat⟩ := hstep
    cases hstatus : l.status with
    | connected => rfl
    | refused => exact absurd hstatus hat.kept
    | dismissed => exact absurd hstatus hkept
  apply Link.handsAll hstep
  by_contra hkernel
  exact hquiet l hmem ⟨hconnected, hkernel⟩

/-- Two texts. -/
def twoTexts (records : List (List UInt8)) (nonempty : ∀ record ∈ records, record ≠ [])
    (whole : records.flatten = helloFrame.bytes ++ helloFrame.bytes) : Packing where
  frames := [helloFrame, helloFrame]
  records := records
  text := by
    intro f hf
    rw [List.mem_pair] at hf
    rcases hf with rfl | rfl <;> exact ⟨rfl, rfl, rfl⟩
  nonempty := nonempty
  whole := by
    rw [whole]
    simp

/-- Each in a record of its own. -/
def twoRecords : Packing :=
  twoTexts [helloFrame.bytes, helloFrame.bytes] (by decide +kernel) (by simp)

/-- Both in one record. -/
def oneRecord : Packing := twoTexts [helloFrame.bytes ++ helloFrame.bytes] (by decide +kernel) (by simp)

theorem no_frame_waits_twoRecords :
    NoneWaits ([.arrive 0, .arrive 0, .select, .select].foldl linkStep ([twoRecords].map Link.start)) :=
  no_frame_waits [twoRecords]
    (List.forall_mem_singleton.2
      { sizes := by decide +kernel
        lengths := by decide +kernel
        masks := by decide +kernel
        ends := by decide +kernel })
    [.arrive 0, .arrive 0, .select, .select]

/-- The second of two texts in one record waits until other data arrives. -/
theorem second_text_waits :
    ¬ NoneWaits ([.arrive 0, .select].foldl linkStep ([oneRecord].map Link.start)) := by
  have hrun : [.arrive 0, .select].foldl linkStep ([oneRecord].map Link.start) =
      [mHandleClientEvent (Link.start oneRecord).arrive] := by
    have hread : (Link.start oneRecord).arrive.Readable := by decide +kernel
    change serverSelect [(Link.start oneRecord).arrive] = _
    unfold serverSelect
    rw [List.map_singleton, if_pos hread]
  rw [hrun]
  intro h
  have hquiet : ¬ (mHandleClientEvent (Link.start oneRecord).arrive).Readable := by decide +kernel
  have hall := h (List.forall_mem_singleton.2 hquiet) _ List.mem_cons_self (by decide +kernel) 2 (by decide)
    (by decide +kernel)
  exact absurd hall.length_le (by decide +kernel)

end Zappy
