import Zappy.Lib.WebSocketFrame

/-!
# WebSocket over TLS (`ssl_al.c`)

`ws_read` and `ws_send`, for a descriptor whose session is in the table.  What the peer has sent comes in records.
`SSL_read` takes a record from the kernel when it has none begun, returns at most as many bytes of it as are asked
for, and keeps the rest in memory; it fails when there is nothing to read.  Every way of cutting a stream into the
results of successive calls comes from such records.  `SSL_write` takes all that it is given.
-/

namespace Zappy

open Bytes WebSocket

/-- The two directions of a TLS session. -/
structure Tls where
  /-- The rest of the record that `SSL_read` has begun. -/
  memory : List UInt8 := []
  /-- The records in the kernel socket. -/
  kernel : List (List UInt8) := []
  written : List UInt8 := []
  deriving DecidableEq, Repr

namespace Tls

/-- The session with a record begun, if there is one. -/
def load (t : Tls) : Tls :=
  match t.memory, t.kernel with
  | [], record :: rest => { t with memory := record, kernel := rest }
  | _, _ => t

/-- `SSL_read`: the bytes it returns, none for a result that is not positive. -/
def read (t : Tls) (n : Nat) : List UInt8 × Tls :=
  (t.load.memory.take n, { t.load with memory := t.load.memory.drop n })

/-- `SSL_write`. -/
def write (t : Tls) (bytes : List UInt8) : Tls := { t with written := t.written ++ bytes }

end Tls

/-- The loops that read on until `want` bytes are there; they stop at the first call that fails.  Every turn reads a
byte, so that `want` turns are enough. -/
def readLoop : Nat → Nat → List UInt8 → Tls → List UInt8 × Tls
  | 0, _, received, t => (received, t)
  | fuel + 1, want, received, t =>
    if received.length < want then
      let r := t.read (want - received.length)
      if r.1 = [] then (received, r.2) else readLoop fuel want (received ++ r.1) r.2
    else (received, t)

/-- The bytes of a text in ASCII. -/
def asciiBytes (text : String) : List UInt8 := text.toList.map fun c => UInt8.ofNat c.toNat

/-- `ws_send_close`. -/
def wsSendClose (t : Tls) (code : UInt16) (reason : String) : Tls :=
  let frame := [(code >>> 8).toUInt8, code.toUInt8] ++ (asciiBytes reason).take 123
  (t.write [0x88, UInt8.ofNat frame.length]).write frame

/-- `m_ws_send_control_frame`. -/
def wsSendControlFrame (t : Tls) (opcode : UInt8) (data : List UInt8) : Tls :=
  if data.length > 125 then t else t.write ([0x80 ||| opcode, UInt8.ofNat data.length] ++ data)

/-! ### `ws_read` -/

/-- The value returned, the buffer and the session. -/
structure WsResult where
  ret : Int
  buf : List UInt8
  tls : Tls
  deriving DecidableEq, Repr

/-- The branch for a ping. -/
def wsAnswerPing (payloadLen : UInt64) (t : Tls) : Tls :=
  if 0 < payloadLen ∧ payloadLen ≤ 125 then
    let r := t.read payloadLen.toNat
    if r.1.length ≠ payloadLen.toNat then wsSendControlFrame r.2 0xA [] else wsSendControlFrame r.2 0xA r.1
  else wsSendControlFrame t 0xA []

/-- The extended payload length; `none` when it is not read in one call. -/
def wsReadLength (payloadLen : UInt64) (t : Tls) : Option UInt64 × Tls :=
  if payloadLen = 126 then
    let r := t.read 2
    if r.1.length ≠ 2 then (none, r.2) else (some (shiftIn (r.1.getD 0 0).toUInt64 (r.1.getD 1 0)), r.2)
  else if payloadLen = 127 then
    let r := t.read 8
    if r.1.length ≠ 8 then (none, r.2) else (some (r.1.foldl shiftIn 0), r.2)
  else (some payloadLen, t)

/-- The mask and the payload. -/
def wsReadPayload (bufsize : Nat) (buf : List UInt8) (payloadLen : UInt64) (t : Tls) : WsResult :=
  let n := payloadLen.toNat
  if n > bufsize then ⟨-1, buf, t⟩
  else
    let r := t.read 4
    if r.1.length ≠ 4 then ⟨0, buf, wsSendClose r.2 1002 "Malformed frame"⟩
    else
      let p := readLoop n n [] r.2
      if p.1.length < n then ⟨-1, p.1 ++ buf.drop p.1.length, p.2⟩
      else ⟨(n : Int).bmod (2 ^ 32), applyMask r.1 p.1 ++ buf.drop n, p.2⟩

/-- `ws_read`. -/
def wsRead (bufsize : Nat) (buf : List UInt8) (t : Tls) : WsResult :=
  let r := readLoop 2 2 [] t
  if r.1.length < 2 then ⟨-1, buf, r.2⟩
  else
    let header₀ := r.1.getD 0 0
    let payloadLen := (r.1.getD 1 0 &&& 0x7F).toUInt64
    let opcode := header₀ &&& 0x0F
    if opcode = 0x8 then ⟨0, buf, wsSendClose r.2 1000 "Bye!"⟩
    else if opcode = 0x9 then ⟨1, buf, wsAnswerPing payloadLen r.2⟩
    else if opcode ≠ 0x1 then ⟨0, buf, wsSendClose r.2 1002 "Protocol error: unsupported opcode"⟩
    else
      match wsReadLength payloadLen r.2 with
      | (none, t₁) => ⟨-1, buf, t₁⟩
      | (some payloadLen, t₁) => wsReadPayload bufsize buf payloadLen t₁

/-! ### `ws_send` -/

/-- `frame_size`, for `len` bytes. -/
def frameSize (len : UInt64) : UInt64 :=
  if len < 126 then 2 + len else if len ≤ 0xFFFF then 2 + (2 + len) else 2 + (8 + len)

/-- The header that `ws_send` writes. -/
def wsSendHeader (len : UInt64) : List UInt8 :=
  0x81 ::
    if len < 126 then [len.toUInt8]
    else if len ≤ 0xFFFF then [126, ((len >>> 8) &&& 0xFF).toUInt8, (len &&& 0xFF).toUInt8]
    else 127 :: [7, 6, 5, 4, 3, 2, 1, 0].map fun i => ((len >>> UInt64.ofNat (8 * i)) &&& 0xFF).toUInt8

/-- `ws_send`: the session and the number of bytes written. -/
def wsSend (t : Tls) (buf : List UInt8) : Tls × Nat :=
  let frame := wsSendHeader (UInt64.ofNat buf.length) ++ buf
  (t.write frame, frame.length)

/-- The frame that carries `buf` to a client. -/
def serverFrame (buf : List UInt8) (h : buf.length < 2 ^ 64) : Frame where
  fin := true
  opcode := 1
  mask := none
  form := .shortest buf.length
  payload := buf
  fits := LengthForm.lt_capacity_shortest h

private theorem wsSendHeader_eq {n : Nat} (h : n < 2 ^ 64) : wsSendHeader (UInt64.ofNat n) =
    [0x81, UInt8.ofNat ((LengthForm.shortest n).indicator n)] ++ toBE (LengthForm.shortest n).extra n := by
  have hn : (UInt64.ofNat n).toNat = n := by rw [UInt64.toNat_ofNat', Nat.mod_eq_of_lt h]
  have hbyte : ∀ i < 8, ((UInt64.ofNat n >>> UInt64.ofNat (8 * i)) &&& 0xFF).toUInt8 = UInt8.ofNat (n / 256 ^ i) := by
    intro i hi
    rw [toUInt8_and_255, shiftOut_eq _ hi, hn]
  have hlow : ((UInt64.ofNat n) &&& 0xFF).toUInt8 = UInt8.ofNat n := by
    simpa using hbyte 0 (by decide)
  unfold wsSendHeader LengthForm.shortest
  by_cases h126 : n < 126
  · rw [if_pos (by rw [UInt64.lt_iff_toNat_lt, hn]; exact h126), if_pos h126, ← toUInt8_and_255, hlow]
    rfl
  rw [if_neg (by rw [UInt64.lt_iff_toNat_lt, hn]; exact h126), if_neg h126]
  by_cases h16 : n < 2 ^ 16
  · rw [if_pos (by rw [UInt64.le_iff_toNat_le, hn]; exact Nat.le_of_lt_succ h16), if_pos h16]
    have hhigh := hbyte 1 (by decide)
    simp only [LengthForm.indicator, LengthForm.extra, toBE, pow_one, pow_zero, Nat.div_one, hlow]
    rw [pow_one] at hhigh
    rw [← hhigh]
    rfl
  · rw [if_neg (by rw [UInt64.le_iff_toNat_le, hn]; exact fun hle => h16 (Nat.lt_succ_of_le hle)), if_neg h16]
    simp only [LengthForm.indicator, LengthForm.extra, toBE, List.map_cons, List.map_nil]
    -- eight shifts, as the source writes them out
    rw [hbyte 7 (by decide), hbyte 6 (by decide), hbyte 5 (by decide), hbyte 4 (by decide), hbyte 3 (by decide),
      hbyte 2 (by decide), hbyte 1 (by decide), hbyte 0 (by decide)]
    rfl

/-- What `ws_send` writes is a frame. -/
private theorem wsSend_written (t : Tls) {buf : List UInt8} (h : buf.length < 2 ^ 64) :
    (wsSend t buf).1.written = t.written ++ (serverFrame buf h).bytes := by
  unfold wsSend Tls.write
  rw [wsSendHeader_eq h]
  simp [serverFrame, Frame.bytes, Frame.header, Frame.keyBytes, Frame.maskedPayload]

private theorem frameSize_eq {n : Nat} (h : n + 10 < 2 ^ 31) :
    (frameSize (UInt64.ofNat n)).toNat = 2 + (LengthForm.shortest n).extra + n := by
  have hn : (UInt64.ofNat n).toNat = n := by rw [UInt64.toNat_ofNat', Nat.mod_eq_of_lt (by omega)]
  have h126 : UInt64.ofNat n < 126 ↔ n < 126 := by
    rw [UInt64.lt_iff_toNat_lt, hn]
    rfl
  have h16 : UInt64.ofNat n ≤ 0xFFFF ↔ n < 2 ^ 16 := by
    rw [UInt64.le_iff_toNat_le, hn]
    exact Nat.lt_succ_iff.symm
  have htwo : (2 : UInt64).toNat = 2 := rfl
  have height : (8 : UInt64).toNat = 8 := rfl
  unfold frameSize LengthForm.shortest
  simp only [h126, h16]
  split
  · rw [UInt64.toNat_add, hn, htwo]
    simp only [LengthForm.extra]
    omega
  · split
    · rw [UInt64.toNat_add, UInt64.toNat_add, hn, htwo]
      simp only [LengthForm.extra]
      omega
    · rw [UInt64.toNat_add, UInt64.toNat_add, hn, htwo, height]
      simp only [LengthForm.extra]
      omega

/-- The bytes that `ws_send` writes are one frame for a client, with the text as its payload, and as many as were
allocated for them. -/
theorem ws_send_one_frame (t : Tls) {buf : List UInt8} (hlen : buf.length + 10 < 2 ^ 31) :
    ∃ bytes f, (wsSend t buf).1.written = t.written ++ bytes ∧ parse bytes = some (f, []) ∧
      f.fin = true ∧ f.opcode = 1 ∧ f.mask = none ∧ f.payload = buf ∧
      (∀ form : LengthForm, buf.length < form.capacity → f.form.extra ≤ form.extra) ∧
      bytes.length = (wsSend t buf).2 ∧ (wsSend t buf).2 = (frameSize (UInt64.ofNat buf.length)).toNat := by
  have h64 : buf.length < 2 ^ 64 := by omega
  have hbytes : (serverFrame buf h64).bytes.length = 2 + (LengthForm.shortest buf.length).extra + buf.length := by
    simp [serverFrame, Frame.bytes, Frame.keyBytes, Frame.maskedPayload]
    omega
  have hwritten : (wsSend t buf).2 = 2 + (LengthForm.shortest buf.length).extra + buf.length := by
    simp only [wsSend, wsSendHeader_eq h64, List.length_append, List.length_cons, List.length_nil, length_toBE]
  refine ⟨_, serverFrame buf h64, wsSend_written t h64, ?_, rfl, rfl, rfl, rfl, ?_, ?_, ?_⟩
  · have hparse := parse_bytes (serverFrame buf h64) []
    rwa [List.append_nil] at hparse
  · exact fun form hform => LengthForm.extra_shortest_le hform
  · rw [hbytes, hwritten]
  · rw [hwritten, frameSize_eq hlen]

/-- An answer of 200 bytes. -/
theorem ws_send_one_frame_medium :
    ∃ bytes f, (wsSend {} (List.replicate 200 65)).1.written = bytes ∧ parse bytes = some (f, []) ∧
      f.fin = true ∧ f.opcode = 1 ∧ f.mask = none ∧ f.payload = List.replicate 200 65 ∧
      (∀ form : LengthForm, (List.replicate 200 (65 : UInt8)).length < form.capacity →
        f.form.extra ≤ form.extra) ∧
      bytes.length = (wsSend {} (List.replicate 200 65)).2 ∧
      (wsSend {} (List.replicate 200 65)).2 =
        (frameSize (UInt64.ofNat (List.replicate 200 (65 : UInt8)).length)).toNat :=
  ws_send_one_frame {} (by rw [List.length_replicate]; decide)

end Zappy
