import Mathlib.Data.List.TakeWhile
import Zappy.Framing

/-!
# Receiving a message (`server.c`)

What `m_handle_client_event` passes on of a frame.  `ws_read` leaves at most as many bytes as the buffer holds, and
`m_handle_client_message` ends them with a zero before they are parsed.  The value of `ws_read` is also 1 after a
ping, for which nothing is written to the buffer.
-/

namespace Zappy.Reception

open Bytes WebSocket

/-- The size of the buffer. -/
def bufferSize : Nat := 4096

/-- The bytes before the first zero, which are what `cJSON_Parse` reads. -/
def cString (buffer : List UInt8) : List UInt8 := buffer.takeWhile (· ≠ 0)

/-- The beginning of `m_handle_client_message`: the index of the terminating zero and the bytes that are parsed. -/
def mHandleClientMessage (buffer : List UInt8) (bytes : Nat) : Nat × List UInt8 :=
  (bytes, cString (buffer.set bytes 0))

/-- `m_handle_client_event`; `none` when the client is removed without a message. -/
def mHandleClientEvent (buffer : List UInt8) (t : Tls) : Option (Nat × List UInt8) :=
  let r := wsRead bufferSize buffer t
  if r.ret ≤ 0 then none else some (mHandleClientMessage r.buf r.ret.toNat)

/-- What is passed on of a frame fits the buffer and is its payload. -/
def PassesPayload (f : Frame) (passed : Option (Nat × List UInt8)) : Prop :=
  ∀ index text, passed = some (index, text) → index < bufferSize ∧ f.opcode = 1 ∧ text = f.payload

/-! ### Texts that end with a zero -/

private theorem cString_of_zero {payload : List UInt8} (tail : List UInt8) (h : (0 : UInt8) ∉ payload) :
    cString (payload ++ 0 :: tail) = payload := by
  unfold cString
  have hall : ∀ b ∈ payload, decide (b ≠ 0) = true := by
    intro b hb
    have hne : b ≠ 0 := fun heq => h (heq ▸ hb)
    exact decide_eq_true hne
  rw [List.takeWhile_append_of_pos hall]
  simp

private theorem zero_notMem_cString (buffer : List UInt8) : (0 : UInt8) ∉ cString buffer := by
  intro h
  have hne := List.mem_takeWhile_imp h
  simp at hne

/-- The zero is written behind `text`. -/
private theorem set_append {n : Nat} {text buffer : List UInt8} (htext : text.length = n) (h : n < buffer.length) :
    (text ++ buffer.drop n).set n 0 = text ++ 0 :: buffer.drop (n + 1) := by
  rw [List.set_append_right _ _ (by omega), htext, Nat.sub_self, List.drop_eq_getElem_cons h, List.set_cons_zero]

/-- A text of `n` bytes that is cut at the first zero is whole if and only if it has none. -/
theorem cString_eq_iff {n : Nat} {text payload buffer : List UInt8} (htext : text.length = n)
    (hpayload : payload.length = n) (h : n < buffer.length) :
    cString ((text ++ buffer.drop n).set n 0) = payload ↔ text = payload ∧ (0 : UInt8) ∉ payload := by
  rw [set_append htext h]
  constructor
  · intro heq
    have hzero : (0 : UInt8) ∉ payload := heq ▸ zero_notMem_cString _
    -- the payload is the beginning of what was read, up to a zero, and as long as the text
    have hbegins : payload <+: text ++ 0 :: buffer.drop (n + 1) := heq ▸ List.takeWhile_prefix _
    have htake : payload = text := by
      have hlen : payload.length = text.length := by omega
      exact (List.prefix_of_prefix_length_le hbegins (List.prefix_append _ _) hlen.le).eq_of_length hlen
    exact ⟨htake.symm, hzero⟩
  · rintro ⟨rfl, hzero⟩
    exact cString_of_zero _ hzero

/-! ### What `ws_read` makes of a frame -/

/-- The loops that read on do not return more than is there. -/
private theorem readLoop_length_le (fuel want : Nat) (received : List UInt8) (t : Tls) :
    (readLoop fuel want received t).1.length ≤ received.length + t.unread.length := by
  induction fuel generalizing received t with
  | zero => exact Nat.le_add_right _ _
  | succ fuel ih =>
    rw [readLoop]
    by_cases hlt : received.length < want
    · have hparts : (t.read (want - received.length)).1.length +
          (t.read (want - received.length)).2.unread.length = t.unread.length := by
        rw [← Tls.unread_load t]
        unfold Tls.read Tls.unread
        rw [← List.length_append, ← List.append_assoc, List.take_append_drop]
      rw [if_pos hlt]
      by_cases hnone : (t.read (want - received.length)).1 = []
      · simp only [if_pos hnone]
        exact Nat.le_add_right _ _
      · simp only [if_neg hnone]
        have hle := ih (received ++ (t.read (want - received.length)).1) (t.read (want - received.length)).2
        rw [List.length_append] at hle
        omega
    · rw [if_neg hlt]
      exact Nat.le_add_right _ _

variable {f : Frame} {rest : List UInt8} {t : Tls}

/-- The bytes after the length of a frame. -/
def afterLength (f : Frame) (rest : List UInt8) : List UInt8 := f.keyBytes ++ (f.maskedPayload ++ rest)

/-- What `ws_read` makes of the payload.  It takes four bytes for the mask, whether the frame is masked or not. -/
def unmasked (f : Frame) (rest : List UInt8) : List UInt8 :=
  applyMask ((afterLength f rest).take 4) (((afterLength f rest).drop 4).take f.payload.length)

/-- The payload is not empty and fits the buffer, no record ends in the length or in the four bytes after it, and
what is taken for the payload is there. -/
structure Delivered (f : Frame) (rest : List UInt8) (t : Tls) : Prop where
  size : 0 < f.payload.length ∧ f.payload.length ≤ bufferSize
  length : f.form.extra ≤ (t.skip 2).available
  mask : 4 ≤ (t.skip (2 + f.form.extra)).available
  enough : f.mask = none → 4 ≤ rest.length

private theorem length_afterLength (f : Frame) (rest : List UInt8) :
    (afterLength f rest).length = (if f.mask.isSome then 4 else 0) + f.payload.length + rest.length := by
  unfold afterLength
  rw [List.length_append, List.length_append, f.length_keyBytes, f.length_maskedPayload, Nat.add_assoc]

private theorem enough_iff (f : Frame) (rest : List UInt8) :
    4 + f.payload.length ≤ (afterLength f rest).length ↔ (f.mask = none → 4 ≤ rest.length) := by
  rw [length_afterLength]
  cases f.mask with
  | none =>
    simp only [Option.isSome_none, Bool.false_eq_true, if_false, forall_const]
    omega
  | some key =>
    simp only [Option.isSome_some, if_true, reduceCtorEq, false_imp_iff, iff_true]
    omega

/-- Of a masked frame the payload is made. -/
theorem unmasked_of_mask {key : MaskKey} (hmask : f.mask = some key) : unmasked f rest = f.payload := by
  have hkey : f.keyBytes = key.1 := by
    unfold Frame.keyBytes
    rw [hmask]
    rfl
  have hdata : f.maskedPayload = applyMask key.1 f.payload := by
    unfold Frame.maskedPayload
    rw [hmask]
    rfl
  unfold unmasked afterLength
  rw [hkey, hdata, List.take_left' key.2, List.drop_left' key.2, List.take_left' (length_applyMask _ _),
    applyMask_applyMask]

private theorem unread_afterLength (h : t.Proper) (ht : t.unread = f.bytes ++ rest) :
    (t.skip (2 + f.form.extra)).unread = afterLength f rest := by
  rw [← Tls.skip_skip, Tls.unread_skip, (readHeader_eq h ht).2, List.drop_left' (length_toBE _ _)]
  rfl

theorem length_unmasked (henough : f.mask = none → 4 ≤ rest.length) :
    (unmasked f rest).length = f.payload.length := by
  have hlen := (enough_iff f rest).2 henough
  unfold unmasked
  rw [length_applyMask, List.length_take, List.length_drop]
  omega

private theorem wsRead_delivered (buffer : List UInt8) (h : t.Proper) (ht : t.unread = f.bytes ++ rest)
    (hop : f.opcode = 1) (hd : Delivered f rest t) :
    (wsRead bufferSize buffer t).ret = f.payload.length ∧
      (wsRead bufferSize buffer t).buf = unmasked f rest ++ buffer.drop f.payload.length := by
  have hafter := unread_afterLength h ht
  have hlen := (enough_iff f rest).2 hd.enough
  have hmade := length_unmasked hd.enough
  -- the four bytes taken for the mask, and what they make of the bytes after them
  let key : MaskKey := ⟨(afterLength f rest).take 4, by rw [List.length_take]; omega⟩
  have hstream : (t.skip (2 + f.form.extra)).unread =
      key.1 ++ (applyMask key (unmasked f rest) ++ ((afterLength f rest).drop 4).drop f.payload.length) := by
    have hdata : applyMask key (unmasked f rest) = ((afterLength f rest).drop 4).take f.payload.length :=
      applyMask_applyMask _ _
    rw [hafter, hdata, List.take_append_drop, List.take_append_drop]
  have hsize : (unmasked f rest).length ≤ bufferSize := hmade ▸ hd.size.2
  rw [wsRead_length h ht hop hd.length,
    wsReadPayload_whole (h.skip _) ((toNat_length f).trans hmade.symm) hsize hstream hd.mask, hmade]
  have hbuf : bufferSize < 2 ^ 31 := by decide
  dsimp only
  exact ⟨toInt_length hbuf hd.size.2, rfl⟩

/-- A text that is not delivered leaves no positive value. -/
private theorem wsRead_undelivered (buffer : List UInt8) (h : t.Proper) (ht : t.unread = f.bytes ++ rest)
    (hop : f.opcode = 1) (hd : ¬ Delivered f rest t) : (wsRead bufferSize buffer t).ret ≤ 0 := by
  by_cases hlength : f.form.extra ≤ (t.skip 2).available
  · by_cases hlarge : bufferSize < f.payload.length
    · rw [wsRead_length h ht hop hlength, wsReadPayload_tooLarge (by rw [toNat_length]; exact hlarge)]
      exact Int.neg_ofNat_le_ofNat 1 0
    have hfits : f.payload.length ≤ bufferSize := Nat.le_of_not_lt hlarge
    by_cases hkey : 4 ≤ (t.skip (2 + f.form.extra)).available
    · have hread : (t.skip (2 + f.form.extra)).read 4 =
          ((afterLength f rest).take 4, t.skip (2 + f.form.extra + 4)) := by
        rw [Tls.read_eq _ (by decide) (h.skip _), Nat.min_eq_left hkey, unread_afterLength h ht, Tls.skip_skip]
      have hfour : ((afterLength f rest).take 4).length = 4 := by
        have hle := Tls.available_le (t.skip (2 + f.form.extra))
        rw [unread_afterLength h ht] at hle
        rw [List.length_take]
        omega
      rw [wsRead_length h ht hop hlength]
      unfold wsReadPayload
      rw [toNat_length, if_neg (Nat.not_lt_of_le hfits), hread, if_neg (fun hne => hne hfour)]
      by_cases hempty : f.payload.length = 0
      · rw [hempty]
        exact Int.le_refl 0
      · -- the payload is not there to read
        have hshort : ¬ 4 + f.payload.length ≤ (afterLength f rest).length := fun henough =>
          hd ⟨⟨Nat.pos_of_ne_zero hempty, hfits⟩, hlength, hkey, (enough_iff f rest).1 henough⟩
        have hle := readLoop_length_le f.payload.length f.payload.length [] (t.skip (2 + f.form.extra + 4))
        have hleft : (t.skip (2 + f.form.extra + 4)).unread.length = (afterLength f rest).length - 4 := by
          rw [← Tls.skip_skip, Tls.unread_skip, unread_afterLength h ht, List.length_drop]
        have hless : (readLoop f.payload.length f.payload.length [] (t.skip (2 + f.form.extra + 4))).1.length <
            f.payload.length := by
          rw [hleft, List.length_nil] at hle
          rw [List.length_take] at hfour
          omega
        simp only [if_pos hless]
        exact Int.neg_ofNat_le_ofNat 1 0
    · rw [wsRead_maskCut h ht hop hfits hlength (Nat.lt_of_not_le hkey)]
  · rw [wsRead_lengthCut h ht hop (Nat.lt_of_not_le hlength)]
    exact Int.neg_ofNat_le_ofNat 1 0

/-- A ping is answered and leaves the value 1. -/
theorem wsRead_ping (buffer : List UInt8) (h : t.Proper) (ht : t.unread = f.bytes ++ rest) (hop : f.opcode = 9) :
    (wsRead bufferSize buffer t).ret = 1 := by
  have hopcode : f.header.getD 0 0 &&& 0x0F = 9 := by
    rw [f.first_and_15, hop]
    rfl
  unfold wsRead
  simp only [(readHeader_eq h ht).1, f.length_header, hopcode]
  rfl

/-- After every other frame that is not a text the client is removed. -/
private theorem wsRead_unsupported (buffer : List UInt8) (h : t.Proper) (ht : t.unread = f.bytes ++ rest)
    (htext : f.opcode ≠ 1) (hping : f.opcode ≠ 9) : (wsRead bufferSize buffer t).ret = 0 := by
  have hbyte : ∀ n : Fin 16, f.opcode ≠ n → UInt8.ofNat f.opcode ≠ UInt8.ofNat n := by
    intro n hne heq
    have hnat := congrArg UInt8.toNat heq
    rw [toNat_ofNat_of_lt (by omega), toNat_ofNat_of_lt (by omega)] at hnat
    exact hne (Fin.ext hnat)
  unfold wsRead
  simp only [(readHeader_eq h ht).1, f.length_header, f.first_and_15]
  have hnine : ¬ UInt8.ofNat f.opcode = 0x9 := hbyte 9 hping
  have hone : UInt8.ofNat f.opcode ≠ 0x1 := hbyte 1 htext
  rw [if_neg (by decide)]
  by_cases hclose : UInt8.ofNat f.opcode = 0x8
  · rw [if_pos hclose]
  · rw [if_neg hclose, if_neg hnine, if_pos hone]

/-! ### What is passed on -/

/-- The payload is shorter than the buffer and has no zero byte, and if the frame is not masked, the bytes that are
taken for the mask and for the payload make the payload. -/
structure Clean (f : Frame) (rest : List UInt8) : Prop where
  short : f.payload.length < bufferSize
  noZero : (0 : UInt8) ∉ f.payload
  masked : f.mask = none → unmasked f rest = f.payload

private theorem Clean.unmasked_eq (hc : Clean f rest) : unmasked f rest = f.payload := by
  cases hmask : f.mask with
  | none => exact hc.masked hmask
  | some key => exact unmasked_of_mask hmask

theorem mHandleClientEvent_delivered (buffer : List UInt8) (h : t.Proper) (ht : t.unread = f.bytes ++ rest)
    (hop : f.opcode = 1) (hd : Delivered f rest t) : mHandleClientEvent buffer t =
      some (f.payload.length,
        cString ((unmasked f rest ++ buffer.drop f.payload.length).set f.payload.length 0)) := by
  obtain ⟨hret, hbuf⟩ := wsRead_delivered buffer h ht hop hd
  have hpos := hd.size.1
  unfold mHandleClientEvent mHandleClientMessage
  simp only [hret, hbuf]
  rw [if_neg (by omega), Int.toNat_natCast]

private theorem mHandleClientEvent_none {buffer : List UInt8} (hret : (wsRead bufferSize buffer t).ret ≤ 0) :
    mHandleClientEvent buffer t = none := by
  unfold mHandleClientEvent
  simp only [if_pos hret]

/-- Of a frame that a client sends, what is passed on fits the buffer and is the payload of a text if and only if the
frame is no ping and, when it is a text that is delivered, clean. -/
theorem passes_payload_iff {buffer : List UInt8} (h : t.Proper) (ht : t.unread = f.bytes ++ rest)
    (hbuffer : buffer.length = bufferSize) :
    PassesPayload f (mHandleClientEvent buffer t) ↔
      f.opcode ≠ 9 ∧ (f.opcode = 1 → Delivered f rest t → Clean f rest) := by
  by_cases hping : f.opcode = 9
  · have hne : ¬ (1 : Fin 16) = 9 := by decide
    have hpassed : mHandleClientEvent buffer t =
        some (mHandleClientMessage (wsRead bufferSize buffer t).buf 1) := by
      unfold mHandleClientEvent
      simp only [wsRead_ping buffer h ht hping]
      rfl
    constructor
    · intro hpass
      have hop := (hpass _ _ hpassed).2.1
      exact absurd (hop.symm.trans hping) hne
    · exact fun hcond => absurd hping hcond.1
  by_cases hop : f.opcode = 1
  · by_cases hd : Delivered f rest t
    · have hmade := length_unmasked hd.enough
      rw [mHandleClientEvent_delivered buffer h ht hop hd]
      constructor
      · intro hpass
        obtain ⟨hshort, -, htext⟩ := hpass _ _ rfl
        obtain ⟨hsame, hzero⟩ := (cString_eq_iff hmade rfl (hbuffer ▸ hshort)).1 htext
        exact ⟨hping, fun _ _ => ⟨hshort, hzero, fun _ => hsame⟩⟩
      · rintro ⟨-, hclean⟩ index text hpassed
        have hc := hclean hop hd
        cases hpassed
        exact ⟨hc.short, hop, (cString_eq_iff hmade rfl (hbuffer ▸ hc.short)).2 ⟨hc.unmasked_eq, hc.noZero⟩⟩
    · rw [mHandleClientEvent_none (wsRead_undelivered buffer h ht hop hd)]
      constructor
      · exact fun _ => ⟨hping, fun _ hd' => absurd hd' hd⟩
      · exact fun _ index text hpassed => by cases hpassed
  · rw [mHandleClientEvent_none (wsRead_unsupported buffer h ht hop hping).le]
    constructor
    · exact fun _ => ⟨hping, fun hop' => absurd hop' hop⟩
    · exact fun _ index text hpassed => by cases hpassed

/-- A text in one record. -/
theorem passes_payload_iff_hello :
    PassesPayload helloFrame (mHandleClientEvent (List.replicate 4096 0) helloSession) ↔
      helloFrame.opcode ≠ 9 ∧ (helloFrame.opcode = 1 → Delivered helloFrame [] helloSession → Clean helloFrame []) :=
  passes_payload_iff (by decide) (by decide +kernel) List.length_replicate

/-- A text of `n` letters. -/
def longText (n : Nat) (h : n < 2 ^ 16) : Frame where
  fin := true
  opcode := 1
  mask := some sampleKey
  form := .sixteen
  payload := List.replicate n 65
  fits := by rw [List.length_replicate]; exact h

/-- A ping without a payload. -/
def emptyPing : Frame where
  fin := true
  opcode := 9
  mask := some sampleKey
  form := .seven
  payload := []
  fits := by decide

/-- A masked text of which nothing is cut is delivered. -/
private theorem delivered_of_record {key : MaskKey} (hmask : f.mask = some key) (hpos : 0 < f.payload.length)
    (hfits : f.payload.length ≤ bufferSize) : Delivered f [] { memory := f.bytes } := by
  have hlen := length_bytes hmask
  refine ⟨⟨hpos, hfits⟩, ?_, ?_, fun hnone => by rw [hmask] at hnone; cases hnone⟩
  · rw [Tls.skip_memory, Tls.available_memory, List.length_drop]
    omega
  · rw [Tls.skip_memory, Tls.available_memory, List.length_drop]
    omega

/-- After a text of 4096 bytes the zero is written behind the buffer, and after a ping the old contents of the buffer
are parsed. -/
theorem ping_and_full_buffer_passed :
    ¬ PassesPayload (longText 4096 (by decide))
        (mHandleClientEvent (List.replicate 4096 0) { memory := (longText 4096 (by decide)).bytes }) ∧
      ¬ PassesPayload emptyPing (mHandleClientEvent (List.replicate 4096 0) { memory := emptyPing.bytes }) := by
  constructor
  · have hn : (4096 : Nat) < 2 ^ 16 := by decide
    have hlen : (longText 4096 hn).payload.length = 4096 := List.length_replicate
    have hd : Delivered (longText 4096 hn) [] { memory := (longText 4096 hn).bytes } :=
      delivered_of_record rfl (by rw [hlen]; decide) (by rw [hlen]; decide)
    have hproper : ({ memory := (longText 4096 hn).bytes } : Tls).Proper := fun record hmem => by cases hmem
    have hpassed := mHandleClientEvent_delivered (List.replicate 4096 0) hproper rfl rfl hd
    intro hpass
    have hshort := (hpass _ _ hpassed).1
    rw [hlen] at hshort
    exact absurd hshort (by decide)
  · intro hpass
    have hping := hpass 1 [] (by decide +kernel)
    exact absurd hping.2.1 (by decide)

end Zappy.Reception
