import Zappy.Framing

/-!
# Sequences of frames (`ssl_al.c`)

A client sends texts and pings in any order, all of them masked.  The branch of `ws_read` for a ping reads as many
bytes as the payload has, but not the mask before it: it takes four bytes too few, and the answer carries the mask and
the beginning of the masked payload.  So the calls keep in step with the frames exactly until a ping comes
(`frames_in_step_iff`).
-/

namespace Zappy

open Bytes WebSocket

/-- A text or a ping from a client. -/
structure ClientFrame (bufsize : Nat) extends Frame where
  final : fin = true
  key : MaskKey
  masked : mask = some key
  kind : opcode = 1 ∧ payload.length ≤ bufsize ∨ opcode = 9 ∧ payload.length ≤ 125 ∧ form = .seven

/-- The answer to a ping. -/
def pongFrame (payload : List UInt8) (h : payload.length ≤ 125) : Frame where
  fin := true
  opcode := 10
  mask := none
  form := .seven
  payload := payload
  fits := Nat.lt_succ_of_le h

variable {bufsize : Nat}

def streamBytes (fs : List (ClientFrame bufsize)) : List UInt8 := fs.flatMap fun f => f.bytes

/-- The call takes the frame `f`, answers it if it is a ping and delivers it if it is a text. -/
structure Served (f : ClientFrame bufsize) (buf : List UInt8) (t : Tls) : Prop where
  taken : (wsRead bufsize buf t).tls.unread = t.unread.drop f.bytes.length
  ping : ∀ _ : f.opcode = 9, ∀ h : f.payload.length ≤ 125, (wsRead bufsize buf t).ret = 1 ∧
    (wsRead bufsize buf t).tls.written = t.written ++ (pongFrame f.payload h).bytes
  text : f.opcode = 1 → (wsRead bufsize buf t).ret = (f.payload.length : Int).bmod (2 ^ 32) ∧
    (wsRead bufsize buf t).buf.take f.payload.length = f.payload ∧ (wsRead bufsize buf t).tls.written = t.written

/-- Repeated calls serve the frames one after the other. -/
def InStep : List (ClientFrame bufsize) → List UInt8 → Tls → Prop
  | [], _, _ => True
  | f :: fs, buf, t => Served f buf t ∧ InStep fs (wsRead bufsize buf t).buf (wsRead bufsize buf t).tls

/-- A ping takes the two bytes of its header and as many as its payload has. -/
theorem wsRead_ping (bufsize : Nat) {f : Frame} {t : Tls} {rest : List UInt8} (h : t.Proper)
    (ht : t.unread = f.bytes ++ rest) (hop : f.opcode = 9) (hform : f.form = .seven) (hsmall : f.payload.length ≤ 125)
    (hwhole : f.payload.length ≤ (t.skip 2).available) (buf : List UInt8) :
    wsRead bufsize buf t = ⟨1, buf, (t.skip (2 + f.payload.length)).write
      ([0x8A, UInt8.ofNat f.payload.length] ++ (t.unread.drop 2).take f.payload.length)⟩ := by
  have hopcode : f.header.getD 0 0 &&& 0x0F = 9 := by
    rw [f.first_and_15, hop]
    rfl
  have hlength : ((f.header.getD 1 0 &&& 0x7F).toUInt64).toNat = f.payload.length := by
    rw [f.second_and_127, hform]
    rfl
  have hanswer : wsAnswerPing (f.header.getD 1 0 &&& 0x7F).toUInt64 (t.skip 2) =
      (t.skip (2 + f.payload.length)).write
        ([0x8A, UInt8.ofNat f.payload.length] ++ (t.unread.drop 2).take f.payload.length) := by
    have hpos : 0 < (f.header.getD 1 0 &&& 0x7F).toUInt64 ↔ 0 < f.payload.length := by
      rw [UInt64.lt_iff_toNat_lt, hlength]
      rfl
    have hle : (f.header.getD 1 0 &&& 0x7F).toUInt64 ≤ 125 ↔ f.payload.length ≤ 125 := by
      rw [UInt64.le_iff_toNat_le, hlength]
      rfl
    unfold wsAnswerPing
    simp only [hpos, hle, hlength]
    by_cases hempty : f.payload.length = 0
    -- nothing is read for an empty ping
    · rw [if_neg (by omega), hempty]
      rfl
    · have hread : (t.skip 2).read f.payload.length =
          ((t.unread.drop 2).take f.payload.length, t.skip (2 + f.payload.length)) := by
        rw [Tls.read_eq _ (by omega) (h.skip 2), Nat.min_eq_left hwhole, Tls.unread_skip, Tls.skip_skip]
      have hlen : ((t.unread.drop 2).take f.payload.length).length = f.payload.length := by
        have hle := Tls.available_le (t.skip 2)
        rw [Tls.unread_skip] at hle
        rw [List.length_take]
        omega
      rw [if_pos ⟨by omega, hsmall⟩, hread, if_neg (by rw [hlen]; exact fun hne => hne rfl), wsSendControlFrame,
        if_neg (by rw [hlen]; omega), hlen]
      rfl
  unfold wsRead
  simp only [(readHeader_eq h ht).1, f.length_header, hopcode, hanswer]
  rfl

section Step

variable (f : ClientFrame bufsize) (rest written : List UInt8)

/-- The session that holds a frame and what follows it. -/
private theorem holds_frame : (⟨f.bytes ++ rest, [], written⟩ : Tls).Proper ∧
    (⟨f.bytes ++ rest, [], written⟩ : Tls).unread = f.bytes ++ rest ∧
    ∀ n k, n + k ≤ f.bytes.length → k ≤ ((⟨f.bytes ++ rest, [], written⟩ : Tls).skip n).available := by
  refine ⟨fun record hmem => absurd hmem (List.not_mem_nil), List.append_nil _, ?_⟩
  intro n k hle
  rw [Tls.skip_memory, Tls.available_memory, List.length_drop, List.length_append]
  omega

/-- A text is served. -/
private theorem served_text (hop : f.opcode = 1) (buf : List UInt8) :
    Served f buf ⟨f.bytes ++ rest, [], written⟩ ∧
      (wsRead bufsize buf ⟨f.bytes ++ rest, [], written⟩).tls = ⟨rest, [], written⟩ := by
  have hfits : f.payload.length ≤ bufsize := by
    rcases f.kind with ⟨-, hle⟩ | ⟨hping, -⟩
    · exact hle
    · rw [hop] at hping
      exact absurd hping (by decide)
  have hlen := length_bytes f.masked
  obtain ⟨hproper, hunread, havailable⟩ := holds_frame f rest written
  have hread := wsRead_whole hproper hunread hop f.masked hfits (havailable 2 _ (by omega))
    (havailable (2 + f.form.extra) 4 (by omega)) buf
  rw [Tls.skip_memory, List.drop_left] at hread
  refine ⟨⟨?_, ?_, ?_⟩, by rw [hread]⟩
  · rw [hread, hunread, List.drop_left]
    exact List.append_nil rest
  · intro hping
    rw [hop] at hping
    exact absurd hping (by decide)
  · intro _
    rw [hread]
    dsimp only
    exact ⟨rfl, List.take_left, rfl⟩

/-- A ping is not: the four bytes of a mask are left. -/
private theorem not_served_ping (hop : f.opcode = 9) (buf : List UInt8) :
    ¬ Served f buf ⟨f.bytes ++ rest, [], written⟩ := by
  intro hserved
  obtain ⟨hsmall, hform⟩ : f.payload.length ≤ 125 ∧ f.form = .seven := by
    rcases f.kind with ⟨htext, -⟩ | ⟨-, hping⟩
    · rw [hop] at htext
      exact absurd htext (by decide)
    · exact hping
  have hlen := length_bytes f.masked
  obtain ⟨hproper, hunread, havailable⟩ := holds_frame f rest written
  have hread := wsRead_ping bufsize hproper hunread hop hform hsmall (havailable 2 _ (by omega)) buf
  -- the bytes left are four more than those after the frame
  have htaken := congrArg List.length hserved.taken
  rw [hread, Tls.unread, Tls.write, Tls.skip_memory, hunread] at htaken
  simp only [List.length_append, List.length_drop, List.flatten_nil, List.length_nil] at htaken
  omega

end Step

/-- The calls keep in step with the frames of one record exactly when no frame is a ping. -/
theorem frames_in_step_iff (fs : List (ClientFrame bufsize)) (buf rest written : List UInt8) :
    InStep fs buf ⟨streamBytes fs ++ rest, [], written⟩ ↔ ∀ f ∈ fs, f.opcode ≠ 9 := by
  induction fs generalizing buf with
  | nil => simp [InStep]
  | cons f fs ih =>
    have hstream : streamBytes (f :: fs) ++ rest = f.bytes ++ (streamBytes fs ++ rest) := by
      simp [streamBytes]
    rw [hstream, InStep, List.forall_mem_cons]
    by_cases hping : f.opcode = 9
    · constructor
      · exact fun h => absurd h.1 (not_served_ping f _ written hping buf)
      · exact fun h => absurd hping h.1
    · have htext : f.opcode = 1 := by
        rcases f.kind with ⟨htext, -⟩ | ⟨hop, -⟩
        · exact htext
        · exact absurd hop hping
      obtain ⟨hserved, hnext⟩ := served_text f (streamBytes fs ++ rest) written htext buf
      rw [hnext, ih]
      exact ⟨fun h => ⟨hping, h.2⟩, fun h => ⟨hserved, h.2⟩⟩

/-- A ping with the payload "hi". -/
def pingHi : ClientFrame 4096 where
  fin := true
  opcode := 9
  mask := some sampleKey
  form := .seven
  payload := asciiBytes "hi"
  fits := by decide
  final := rfl
  key := sampleKey
  masked := rfl
  kind := .inr ⟨rfl, by decide, rfl⟩

/-- A text after it. -/
def textHello : ClientFrame 4096 where
  toFrame := helloFrame
  final := rfl
  key := sampleKey
  masked := rfl
  kind := .inl ⟨rfl, by decide⟩

theorem ping_out_of_step :
    ¬ InStep [pingHi, textHello] [] ⟨streamBytes [pingHi, textHello] ++ [], [], []⟩ := by
  intro h
  have htaken := h.1.taken
  revert htaken
  decide +kernel

end Zappy
