import Zappy.Lib.Records
import Zappy.WebSocket

/-!
# Reading frames (`ssl_al.c`)

How `ws_read` takes a frame out of the records of a session.  The first two bytes and the payload are read by loops,
which do not see where the records end; the extended length and the mask are read by one call each, which returns
less than was asked for where a record ends (`wsRead_text`).
-/

namespace Zappy

open Bytes WebSocket

namespace Tls

/-- The bytes that have come and were not read. -/
def unread (t : Tls) : List UInt8 := t.memory ++ t.kernel.flatten

/-- The session when the next `n` bytes are read. -/
def skip (n : Nat) (t : Tls) : Tls :=
  { t with memory := (Records.skip n t.memory t.kernel).1, kernel := (Records.skip n t.memory t.kernel).2 }

/-- The number of bytes that the next record holds, or the rest of the one begun. -/
def available (t : Tls) : Nat := t.load.memory.length

/-- No record is empty. -/
def Proper (t : Tls) : Prop := ∀ record ∈ t.kernel, record ≠ []

instance : DecidablePred Proper := fun t => inferInstanceAs (Decidable (∀ record ∈ t.kernel, record ≠ []))

@[simp] theorem skip_zero (t : Tls) : t.skip 0 = t := by simp [skip]

theorem skip_skip (m n : Nat) (t : Tls) : (t.skip m).skip n = t.skip (m + n) := by
  unfold skip
  simp only [Records.skip_skip]

theorem unread_skip (n : Nat) (t : Tls) : (t.skip n).unread = t.unread.drop n :=
  Records.append_flatten_skip n t.memory t.kernel

theorem Proper.skip {t : Tls} (h : t.Proper) (n : Nat) : (t.skip n).Proper :=
  fun record hmem => h record ((Records.skip_suffix n t.memory t.kernel).mem hmem)

/-- Beginning a record does not change what is there to read. -/
theorem unread_load (t : Tls) : t.load.unread = t.unread := by
  obtain ⟨memory, kernel, written⟩ := t
  cases memory with
  | nil =>
    cases kernel with
    | nil => rfl
    | cons record rest => rfl
  | cons b memory => rfl

private theorem available_pos {t : Tls} (h : t.Proper) (hunread : t.unread ≠ []) : 0 < t.available := by
  obtain ⟨memory, kernel, written⟩ := t
  unfold available
  rw [List.length_pos_iff]
  cases memory with
  | nil =>
    cases kernel with
    | nil => exact absurd rfl hunread
    | cons record rest => exact h record List.mem_cons_self
  | cons b memory => exact List.cons_ne_nil _ _

theorem unread_ne_nil {t : Tls} (h : t.Proper) (hkernel : t.kernel ≠ []) : t.unread ≠ [] := by
  obtain ⟨record, hmem⟩ := List.exists_mem_of_ne_nil _ hkernel
  obtain ⟨b, hb⟩ := List.exists_mem_of_ne_nil _ (h record hmem)
  exact List.ne_nil_of_mem (List.mem_append_right _ (List.mem_flatten_of_mem hmem hb))

theorem available_le (t : Tls) : t.available ≤ t.unread.length := by
  rw [← unread_load t, unread, List.length_append]
  exact Nat.le_add_right _ _

/-- What `SSL_read` returns is the beginning of what is there. -/
theorem read_eq (t : Tls) {n : Nat} (hn : 0 < n) (h : t.Proper) :
    t.read n = (t.unread.take (min n t.available), t.skip (min n t.available)) := by
  have hbytes : t.load.memory.take n = t.unread.take (min n t.available) := by
    rw [← unread_load t, unread, available, List.take_append_of_le_length (Nat.min_le_right _ _),
      List.take_eq_take_iff]
    omega
  have hdrop : ∀ record : List UInt8, record.drop n = record.drop (min n record.length) := by
    intro record
    by_cases hle : n ≤ record.length
    · rw [Nat.min_eq_left hle]
    · rw [Nat.min_eq_right (by omega), List.drop_length, List.drop_eq_nil_of_le (by omega)]
  have hrest : ({ t.load with memory := t.load.memory.drop n } : Tls) = t.skip (min n t.available) := by
    obtain ⟨memory, kernel, written⟩ := t
    cases memory with
    | nil =>
      cases kernel with
      | nil => simp [load, skip, available]
      | cons record rest =>
        have hpos : 0 < record.length := List.length_pos_iff.2 (h record List.mem_cons_self)
        change (⟨record.drop n, rest, written⟩ : Tls) =
          ⟨(Records.skip (min n record.length) [] (record :: rest)).1,
            (Records.skip (min n record.length) [] (record :: rest)).2, written⟩
        rw [Records.skip_of_lt (by rw [List.length_nil]; omega), List.length_nil, Nat.sub_zero,
          Records.skip_of_le (Nat.min_le_right _ _), hdrop record]
    | cons b memory =>
      change (⟨(b :: memory).drop n, kernel, written⟩ : Tls) =
        ⟨(Records.skip (min n (b :: memory).length) (b :: memory) kernel).1,
          (Records.skip (min n (b :: memory).length) (b :: memory) kernel).2, written⟩
      rw [Records.skip_of_le (Nat.min_le_right _ _), hdrop (b :: memory)]
  unfold read
  rw [hbytes, hrest]

/-- A record that is no longer than what is asked for is the result of one call: every division of a stream into
results is given by records. -/
theorem read_record {record : List UInt8} {n : Nat} (hlen : record.length ≤ n) (rest : List (List UInt8))
    (written : List UInt8) :
    (⟨[], record :: rest, written⟩ : Tls).read n = (record, ⟨[], rest, written⟩) := by
  change (record.take n, (⟨record.drop n, rest, written⟩ : Tls)) = _
  rw [List.take_of_length_le hlen, List.drop_eq_nil_of_le hlen]

/-- In one record nothing cuts a call short. -/
theorem skip_memory (memory written : List UInt8) (n : Nat) :
    (⟨memory, [], written⟩ : Tls).skip n = ⟨memory.drop n, [], written⟩ := rfl

theorem available_memory (memory written : List UInt8) : (⟨memory, [], written⟩ : Tls).available = memory.length := by
  cases memory <;> rfl

end Tls

/-- The loops that read on are not stopped by the end of a record. -/
private theorem readLoop_eq {fuel want : Nat} {received : List UInt8} {t : Tls} (h : t.Proper)
    (hlen : received.length ≤ want) (hfuel : want - received.length ≤ fuel)
    (henough : want - received.length ≤ t.unread.length) :
    readLoop fuel want received t =
      (received ++ t.unread.take (want - received.length), t.skip (want - received.length)) := by
  -- on the fuel: every call returns a byte at least, so as many turns as bytes are enough
  induction fuel generalizing received t with
  | zero =>
    have hdone : want - received.length = 0 := by omega
    rw [hdone]
    simp [readLoop]
  | succ fuel ih =>
    rw [readLoop]
    by_cases hlt : received.length < want
    · rw [if_pos hlt]
      have hunread : t.unread ≠ [] := by
        rw [← List.length_pos_iff]
        omega
      have hpos := Tls.available_pos h hunread
      have hle := Tls.available_le t
      simp only [Tls.read_eq t (show 0 < want - received.length by omega) h]
      -- the call returns `k` bytes, and the loop goes on with the others
      set k := min (want - received.length) t.available with hk
      have hkpos : 0 < k := by omega
      have hkle : k ≤ t.unread.length := by omega
      have htake : (t.unread.take k).length = k := by
        rw [List.length_take]
        omega
      have hne : t.unread.take k ≠ [] := by
        rw [← List.length_pos_iff, htake]
        exact hkpos
      have hreceived : (received ++ t.unread.take k).length = received.length + k := by
        rw [List.length_append, htake]
      have hrest : want - (received.length + k) = want - received.length - k := by omega
      have hsum : k + (want - received.length - k) = want - received.length := by omega
      rw [if_neg hne, ih (h.skip k) (by omega) (by omega) (by rw [Tls.unread_skip, List.length_drop]; omega),
        hreceived, hrest, Tls.unread_skip, Tls.skip_skip, hsum, List.append_assoc, ← List.take_add, hsum]
    · rw [if_neg hlt, show want - received.length = 0 by omega]
      simp

private theorem readLoop_nil {n : Nat} {t : Tls} (h : t.Proper) (henough : n ≤ t.unread.length) :
    readLoop n n [] t = (t.unread.take n, t.skip n) := by
  have hloop : readLoop n n [] t = ([] ++ t.unread.take n, t.skip n) :=
    readLoop_eq h (Nat.zero_le n) (Nat.le_refl n) henough
  rwa [List.nil_append] at hloop

/-! ### The header -/

namespace WebSocket.Frame

variable (f : Frame)

theorem first_and_15 : f.header.getD 0 0 &&& 0x0F = UInt8.ofNat f.opcode := by
  have hop := f.opcode.isLt
  apply UInt8.toNat_inj.1
  rw [UInt8.toNat_and, f.first_toNat, toNat_ofNat_of_lt (by omega), show (0x0F : UInt8).toNat = 2 ^ 4 - 1 from rfl,
    Nat.and_two_pow_sub_one_eq_mod]
  split <;> omega

theorem second_and_127 : ((f.header.getD 1 0 &&& 0x7F).toUInt64).toNat = f.form.indicator f.payload.length := by
  have hind := LengthForm.indicator_lt f.fits
  rw [UInt8.toNat_toUInt64, UInt8.toNat_and, f.second_toNat, show (0x7F : UInt8).toNat = 2 ^ 7 - 1 from rfl,
    Nat.and_two_pow_sub_one_eq_mod]
  split <;> omega

end WebSocket.Frame

/-- The first two bytes are read, in whatever pieces they come. -/
theorem readHeader_eq {t : Tls} {f : Frame} {rest : List UInt8} (h : t.Proper) (ht : t.unread = f.bytes ++ rest) :
    readLoop 2 2 [] t = (f.header, t.skip 2) ∧
      (t.skip 2).unread = toBE f.form.extra f.payload.length ++ (f.keyBytes ++ (f.maskedPayload ++ rest)) := by
  have hbytes : t.unread = f.header ++ (toBE f.form.extra f.payload.length ++
      (f.keyBytes ++ (f.maskedPayload ++ rest))) := by
    rw [ht, Frame.bytes]
    simp only [List.append_assoc]
  have hlong : 2 ≤ t.unread.length := by
    rw [hbytes, List.length_append, f.length_header]
    omega
  constructor
  · rw [readLoop_nil h hlong, hbytes, List.take_left' f.length_header]
  · rw [Tls.unread_skip, hbytes, List.drop_left' f.length_header]

/-- Both longer forms are read in one call, the highest byte first. -/
private theorem wsReadLength_eq {form : LengthForm} {n : Nat} {length : UInt64} (hfits : n < form.capacity)
    (hlength : length.toNat = form.indicator n) (t : Tls) :
    wsReadLength length t =
      if form = .seven then (some length, t)
      else if (t.read form.extra).1.length ≠ form.extra then (none, (t.read form.extra).2)
      else (some ((t.read form.extra).1.foldl shiftIn 0), (t.read form.extra).2) := by
  have h126 : length = 126 ↔ form.indicator n = 126 := by
    rw [← UInt64.toNat_inj, hlength]
    rfl
  have h127 : length = 127 ↔ form.indicator n = 127 := by
    rw [← UInt64.toNat_inj, hlength]
    rfl
  unfold wsReadLength
  cases form with
  | seven =>
    have hlt : n < 126 := hfits
    have hne₁ : ¬ length = 126 := fun heq => absurd (h126.1 heq) (Nat.ne_of_lt hlt)
    have hne₂ : ¬ length = 127 := fun heq => absurd (h127.1 heq) (Nat.ne_of_lt (Nat.lt_succ_of_lt hlt))
    rw [if_neg hne₁, if_neg hne₂, if_pos rfl]
  | sixteen =>
    have hseven : ¬ LengthForm.sixteen = .seven := by decide
    rw [if_pos (h126.2 rfl), if_neg hseven]
    by_cases hread : (t.read 2).1.length = 2
    · obtain ⟨high, low, hbytes⟩ := List.length_eq_two.1 hread
      have hvalue : shiftIn ((t.read 2).1.getD 0 0).toUInt64 ((t.read 2).1.getD 1 0) =
          (t.read 2).1.foldl shiftIn 0 := by
        rw [hbytes]
        simp [shiftIn_zero]
      simp only [hvalue]
      rfl
    · simp only [LengthForm.extra, ne_eq, hread, not_false_eq_true, if_true]
  | sixtyFour =>
    have hseven : ¬ LengthForm.sixtyFour = .seven := by decide
    have hne : ¬ length = 126 := fun heq => absurd (h126.1 heq) (show ¬ 127 = 126 by decide)
    rw [if_neg hne, if_pos (h127.2 rfl), if_neg hseven]
    rfl

/-- The extended length, when its bytes come together. -/
private theorem wsReadLength_whole {t : Tls} {form : LengthForm} {n : Nat} {length : UInt64} {rest : List UInt8}
    (h : t.Proper) (hfits : n < form.capacity) (hlength : length.toNat = form.indicator n)
    (ht : t.unread = toBE form.extra n ++ rest) (hwhole : form.extra ≤ t.available) :
    wsReadLength length t = (some (UInt64.ofNat n), t.skip form.extra) := by
  have hn : (UInt64.ofNat n).toNat = n := by
    rw [UInt64.toNat_ofNat', Nat.mod_eq_of_lt (Nat.lt_of_lt_of_le hfits form.capacity_le)]
  rw [wsReadLength_eq hfits hlength]
  by_cases hseven : form = .seven
  · subst hseven
    have hself : length = UInt64.ofNat n := UInt64.toNat_inj.1 (hlength.trans hn.symm)
    rw [if_pos rfl, hself]
    simp [LengthForm.extra]
  · have hread : t.read form.extra = (toBE form.extra n, t.skip form.extra) := by
      rw [Tls.read_eq t (LengthForm.extra_pos hseven) h, Nat.min_eq_left hwhole, ht, List.take_left' (length_toBE _ _)]
    have hvalue : (toBE form.extra n).foldl shiftIn 0 = UInt64.ofNat n := by
      apply UInt64.toNat_inj.1
      rw [hn, foldl_shiftIn_eq (by rw [length_toBE]; exact form.extra_le),
        ofBE_toBE (LengthForm.lt_pow_extra hfits hseven)]
    rw [if_neg hseven, hread, if_neg (by rw [length_toBE]; exact fun hne => hne rfl), hvalue]

/-- The extended length, when a record ends in it. -/
private theorem wsReadLength_cut {t : Tls} {form : LengthForm} {n : Nat} {length : UInt64} (h : t.Proper)
    (hfits : n < form.capacity) (hlength : length.toNat = form.indicator n) (hcut : t.available < form.extra) :
    wsReadLength length t = (none, t.skip t.available) := by
  have hseven : form ≠ .seven := by
    rintro rfl
    exact Nat.not_lt_zero _ hcut
  have hread : t.read form.extra = (t.unread.take t.available, t.skip t.available) := by
    rw [Tls.read_eq t (LengthForm.extra_pos hseven) h, Nat.min_eq_right hcut.le]
  have hshort : (t.unread.take t.available).length ≠ form.extra := by
    rw [List.length_take, Nat.min_eq_left t.available_le]
    omega
  rw [wsReadLength_eq hfits hlength, if_neg hseven, hread, if_pos hshort]

/-! ### Mask and payload -/

theorem wsReadPayload_tooLarge {bufsize : Nat} {length : UInt64} (hlarge : bufsize < length.toNat) (buf : List UInt8)
    (t : Tls) : wsReadPayload bufsize buf length t = ⟨-1, buf, t⟩ := by
  unfold wsReadPayload
  rw [if_pos hlarge]

/-- A mask in which a record ends. -/
private theorem wsReadPayload_cut {bufsize : Nat} {length : UInt64} {t : Tls} (h : t.Proper)
    (hfits : length.toNat ≤ bufsize) (hcut : t.available < 4) (buf : List UInt8) :
    wsReadPayload bufsize buf length t = ⟨0, buf, wsSendClose (t.skip t.available) 1002 "Malformed frame"⟩ := by
  have hread : t.read 4 = (t.unread.take t.available, t.skip t.available) := by
    rw [Tls.read_eq t (by decide) h, Nat.min_eq_right hcut.le]
  have hshort : (t.unread.take t.available).length ≠ 4 := by
    rw [List.length_take, Nat.min_eq_left t.available_le]
    omega
  unfold wsReadPayload
  rw [if_neg (Nat.not_lt_of_le hfits), hread, if_pos hshort]

/-- Mask and payload, when the bytes of the mask come together. -/
theorem wsReadPayload_whole {bufsize : Nat} {length : UInt64} {t : Tls} {key : MaskKey} {payload rest : List UInt8}
    (h : t.Proper) (hlength : length.toNat = payload.length) (hfits : payload.length ≤ bufsize)
    (ht : t.unread = key.1 ++ (applyMask key payload ++ rest)) (hwhole : 4 ≤ t.available) (buf : List UInt8) :
    wsReadPayload bufsize buf length t =
      ⟨(payload.length : Int).bmod (2 ^ 32), payload ++ buf.drop payload.length, t.skip (4 + payload.length)⟩ := by
  have hread : t.read 4 = (key.1, t.skip 4) := by
    rw [Tls.read_eq t (by decide) h, Nat.min_eq_left hwhole, ht, List.take_left' key.2]
  have hafter : (t.skip 4).unread = applyMask key payload ++ rest := by
    rw [Tls.unread_skip, ht, List.drop_left' key.2]
  have hloop : readLoop payload.length payload.length [] (t.skip 4) =
      (applyMask key payload, t.skip (4 + payload.length)) := by
    have henough : payload.length ≤ (t.skip 4).unread.length := by
      rw [hafter, List.length_append, length_applyMask]
      omega
    rw [readLoop_nil (h.skip 4) henough, hafter, List.take_left' (length_applyMask _ _), Tls.skip_skip]
  unfold wsReadPayload
  rw [if_neg (by rw [hlength]; exact Nat.not_lt_of_le hfits), hread, if_neg (by rw [key.2]; exact fun hne => hne rfl),
    hlength, hloop, if_neg (by rw [length_applyMask]; exact Nat.lt_irrefl _), applyMask_applyMask]

/-! ### Text frames -/

section Text

variable {f : Frame} {key : MaskKey} {t : Tls} {rest : List UInt8} {bufsize : Nat}

/-- The value that the extended length has for the frame. -/
theorem toNat_length (f : Frame) : (UInt64.ofNat f.payload.length).toNat = f.payload.length := by
  rw [UInt64.toNat_ofNat', Nat.mod_eq_of_lt (Nat.lt_of_lt_of_le f.fits f.form.capacity_le)]

/-- A length below 2^31 is an `int`. -/
theorem toInt_length {n : Nat} (hbuf : bufsize < 2 ^ 31) (hn : n ≤ bufsize) : (n : Int).bmod (2 ^ 32) = n := by
  have hlow : -(((2 ^ 32 : Nat) : Int) / 2) ≤ (n : Int) := by omega
  have hhigh : (n : Int) < (((2 ^ 32 : Nat) : Int) + 1) / 2 := by omega
  exact Int.bmod_eq_of_le hlow hhigh

/-- For a text frame `ws_read` goes on to the length. -/
private theorem wsRead_text (h : t.Proper) (ht : t.unread = f.bytes ++ rest) (hop : f.opcode = 1) (buf : List UInt8) :
    wsRead bufsize buf t =
      match wsReadLength (f.header.getD 1 0 &&& 0x7F).toUInt64 (t.skip 2) with
      | (none, t₁) => ⟨-1, buf, t₁⟩
      | (some length, t₁) => wsReadPayload bufsize buf length t₁ := by
  have hopcode : f.header.getD 0 0 &&& 0x0F = 1 := by
    rw [f.first_and_15, hop]
    rfl
  unfold wsRead
  simp only [(readHeader_eq h ht).1, f.length_header, hopcode]
  rfl

/-- A record ends in the extended length. -/
theorem wsRead_lengthCut (h : t.Proper) (ht : t.unread = f.bytes ++ rest) (hop : f.opcode = 1)
    (hcut : (t.skip 2).available < f.form.extra) (buf : List UInt8) :
    wsRead bufsize buf t = ⟨-1, buf, t.skip (2 + (t.skip 2).available)⟩ := by
  rw [wsRead_text h ht hop, wsReadLength_cut (h.skip 2) f.fits f.second_and_127 hcut, Tls.skip_skip]

/-- The length is read whole. -/
theorem wsRead_length (h : t.Proper) (ht : t.unread = f.bytes ++ rest) (hop : f.opcode = 1)
    (hwhole : f.form.extra ≤ (t.skip 2).available) (buf : List UInt8) :
    wsRead bufsize buf t =
      wsReadPayload bufsize buf (UInt64.ofNat f.payload.length) (t.skip (2 + f.form.extra)) := by
  rw [wsRead_text h ht hop, wsReadLength_whole (h.skip 2) f.fits f.second_and_127 (readHeader_eq h ht).2 hwhole,
    Tls.skip_skip]

/-- A record ends in the mask. -/
theorem wsRead_maskCut (h : t.Proper) (ht : t.unread = f.bytes ++ rest) (hop : f.opcode = 1)
    (hfits : f.payload.length ≤ bufsize) (hwhole : f.form.extra ≤ (t.skip 2).available)
    (hcut : (t.skip (2 + f.form.extra)).available < 4) (buf : List UInt8) :
    wsRead bufsize buf t = ⟨0, buf, wsSendClose
      (t.skip (2 + f.form.extra + (t.skip (2 + f.form.extra)).available)) 1002 "Malformed frame"⟩ := by
  rw [wsRead_length h ht hop hwhole, wsReadPayload_cut (h.skip _) (by rw [toNat_length]; exact hfits) hcut,
    Tls.skip_skip]

theorem length_bytes (hmask : f.mask = some key) : f.bytes.length = 2 + f.form.extra + 4 + f.payload.length := by
  simp only [Frame.bytes, List.length_append, f.length_header, length_toBE, f.length_keyBytes,
    f.length_maskedPayload, hmask, Option.isSome_some, if_true]

/-- Length and mask are read whole. -/
theorem wsRead_whole (h : t.Proper) (ht : t.unread = f.bytes ++ rest) (hop : f.opcode = 1)
    (hmask : f.mask = some key) (hfits : f.payload.length ≤ bufsize) (hlength : f.form.extra ≤ (t.skip 2).available)
    (hkey : 4 ≤ (t.skip (2 + f.form.extra)).available) (buf : List UInt8) :
    wsRead bufsize buf t = ⟨(f.payload.length : Int).bmod (2 ^ 32), f.payload ++ buf.drop f.payload.length,
      t.skip f.bytes.length⟩ := by
  have hafter : (t.skip (2 + f.form.extra)).unread = key.1 ++ (applyMask key f.payload ++ rest) := by
    rw [← Tls.skip_skip, Tls.unread_skip, (readHeader_eq h ht).2, List.drop_left' (length_toBE _ _), Frame.keyBytes,
      Frame.maskedPayload, hmask]
    rfl
  rw [wsRead_length h ht hop hlength, wsReadPayload_whole (h.skip _) (toNat_length f) hfits hafter hkey,
    Tls.skip_skip, length_bytes hmask, Nat.add_assoc (2 + f.form.extra)]

/-- A text from a client. -/
def clientText (key : MaskKey) (text : List UInt8) (h : text.length < 126) : Frame where
  fin := true
  opcode := 1
  mask := some key
  form := .seven
  payload := text
  fits := h

def sampleKey : MaskKey := ⟨[1, 2, 3, 4], rfl⟩

def helloFrame : Frame := clientText sampleKey (asciiBytes "hello") (by decide)

/-- The frame in one record. -/
def helloSession : Tls := { kernel := [helloFrame.bytes] }

/-- The frame in two records, the first of `n` bytes. -/
def cutSession (n : Nat) : Tls := { kernel := [helloFrame.bytes.take n, helloFrame.bytes.drop n] }

/-- Decoding undoes encoding, for every form of the length, when the calls for the extended length and for the mask
return all that they ask for; a payload that does not fit is refused and the buffer kept. -/
theorem ws_read_undoes_encoding (hbuf : bufsize < 2 ^ 31) (buf : List UInt8) (h : t.Proper)
    (ht : t.unread = f.bytes ++ rest) (hop : f.opcode = 1) (hmask : f.mask = some key)
    (hlength : f.form.extra ≤ (t.skip 2).available) (hkey : 4 ≤ (t.skip (2 + f.form.extra)).available) :
    (f.payload.length ≤ bufsize →
      (wsRead bufsize buf t).ret = f.payload.length ∧
      (wsRead bufsize buf t).buf.take f.payload.length = f.payload ∧
      (wsRead bufsize buf t).tls.unread = rest) ∧
    (bufsize < f.payload.length → (wsRead bufsize buf t).ret = -1 ∧ (wsRead bufsize buf t).buf = buf) := by
  constructor
  · intro hfits
    have hret := toInt_length hbuf hfits
    rw [wsRead_whole h ht hop hmask hfits hlength hkey]
    dsimp only
    refine ⟨hret, ?_, ?_⟩
    · rw [List.take_left]
    · rw [Tls.unread_skip, ht, List.drop_left]
  · intro hlarge
    rw [wsRead_length h ht hop hlength, wsReadPayload_tooLarge (by rw [toNat_length]; exact hlarge)]
    exact ⟨rfl, rfl⟩

/-- The frame in one record. -/
theorem ws_read_undoes_encoding_hello :
    (helloFrame.payload.length ≤ 4096 →
      (wsRead 4096 [] helloSession).ret = helloFrame.payload.length ∧
      (wsRead 4096 [] helloSession).buf.take helloFrame.payload.length = helloFrame.payload ∧
      (wsRead 4096 [] helloSession).tls.unread = []) ∧
    (4096 < helloFrame.payload.length →
      (wsRead 4096 [] helloSession).ret = -1 ∧ (wsRead 4096 [] helloSession).buf = []) :=
  ws_read_undoes_encoding (by decide) [] (by decide) (by decide +kernel) rfl rfl (by decide +kernel)
    (by decide +kernel)

/-! ### Divisions of the stream -/

/-- The bytes of the extended length and of the mask that one call each returns; the mask is read after a whole
length only. -/
def lengthAndMask (extra : Nat) (t : Tls) : Nat :=
  if t.available < extra then t.available else extra + min 4 (t.skip extra).available

/-- Value, buffer and number of bytes taken, when the calls for the extended length and the mask return `k` bytes. -/
def textResult (f : Frame) (buf : List UInt8) (k : Nat) : Int × List UInt8 × Nat :=
  if k < f.form.extra then (-1, buf, 2 + k)
  else if k < f.form.extra + 4 then (0, buf, 2 + k)
  else ((f.payload.length : Int).bmod (2 ^ 32), f.payload ++ buf.drop f.payload.length, f.bytes.length)

private theorem wsRead_divided (h : t.Proper) (ht : t.unread = f.bytes ++ rest) (hop : f.opcode = 1)
    (hmask : f.mask = some key) (hfits : f.payload.length ≤ bufsize) (buf : List UInt8) :
    ∃ tls, wsRead bufsize buf t = ⟨(textResult f buf (lengthAndMask f.form.extra (t.skip 2))).1,
        (textResult f buf (lengthAndMask f.form.extra (t.skip 2))).2.1, tls⟩ ∧
      tls.unread = t.unread.drop (textResult f buf (lengthAndMask f.form.extra (t.skip 2))).2.2 := by
  unfold lengthAndMask textResult
  by_cases hlength : (t.skip 2).available < f.form.extra
  · rw [if_pos hlength, if_pos hlength, wsRead_lengthCut h ht hop hlength]
    exact ⟨_, rfl, Tls.unread_skip _ _⟩
  rw [if_neg hlength, if_neg (by omega), Tls.skip_skip]
  by_cases hkey : (t.skip (2 + f.form.extra)).available < 4
  · rw [Nat.min_eq_right hkey.le, if_pos (by omega), wsRead_maskCut h ht hop hfits (by omega) hkey, ← Nat.add_assoc]
    exact ⟨_, rfl, Tls.unread_skip _ _⟩
  · rw [Nat.min_eq_left (by omega), if_neg (by omega), wsRead_whole h ht hop hmask hfits (by omega) (by omega)]
    dsimp only
    exact ⟨_, rfl, Tls.unread_skip _ _⟩

private theorem lengthAndMask_le (extra : Nat) (t : Tls) : lengthAndMask extra t ≤ extra + 4 := by
  unfold lengthAndMask
  split <;> omega

/-- The number of bytes taken tells how many the calls returned. -/
private theorem textResult_taken_inj {k k' : Nat} (buf : List UInt8) (hmask : f.mask = some key)
    (hk : k ≤ f.form.extra + 4) (hk' : k' ≤ f.form.extra + 4)
    (h : (textResult f buf k).2.2 = (textResult f buf k').2.2) : k = k' := by
  have hlen := length_bytes hmask
  have htaken : ∀ j, (textResult f buf j).2.2 = if j < f.form.extra + 4 then 2 + j else f.bytes.length := by
    intro j
    unfold textResult
    split
    · rw [if_pos (by omega)]
    · split <;> rfl
  -- from the end of the mask on, all of the frame is taken
  rw [htaken, htaken] at h
  split at h <;> split at h <;> omega

private theorem textResult_taken_le (buf : List UInt8) (k : Nat) (hmask : f.mask = some key) :
    (textResult f buf k).2.2 ≤ f.bytes.length := by
  have hlen := length_bytes hmask
  unfold textResult
  split
  · dsimp only
    omega
  · split <;> dsimp only <;> omega

/-- Two divisions of a frame give the same value, buffer and unread bytes if and only if the calls for the extended
length and for the mask return as many bytes in both. -/
theorem divisions_agree_iff {t' : Tls} (buf : List UInt8) (h : t.Proper) (h' : t'.Proper)
    (ht : t.unread = f.bytes ++ rest) (ht' : t'.unread = f.bytes ++ rest) (hop : f.opcode = 1)
    (hmask : f.mask = some key) (hfits : f.payload.length ≤ bufsize) :
    ((wsRead bufsize buf t).ret = (wsRead bufsize buf t').ret ∧
      (wsRead bufsize buf t).buf = (wsRead bufsize buf t').buf ∧
      (wsRead bufsize buf t).tls.unread = (wsRead bufsize buf t').tls.unread) ↔
    lengthAndMask f.form.extra (t.skip 2) = lengthAndMask f.form.extra (t'.skip 2) := by
  obtain ⟨tls, hread, htls⟩ := wsRead_divided h ht hop hmask hfits buf
  obtain ⟨tls', hread', htls'⟩ := wsRead_divided h' ht' hop hmask hfits buf
  rw [hread, hread']
  dsimp only
  constructor
  · rintro ⟨-, -, hunread⟩
    rw [htls, htls', ht, ht'] at hunread
    -- what is left tells how much was taken
    have hlen := congrArg List.length hunread
    have hle := textResult_taken_le buf (lengthAndMask f.form.extra (t.skip 2)) hmask
    have hle' := textResult_taken_le buf (lengthAndMask f.form.extra (t'.skip 2)) hmask
    rw [List.length_drop, List.length_drop, List.length_append] at hlen
    exact textResult_taken_inj buf hmask (lengthAndMask_le _ _) (lengthAndMask_le _ _) (by omega)
  · intro hsame
    rw [htls, htls', ht, ht', hsame]
    exact ⟨rfl, rfl, rfl⟩

end Text

/-- The text in one record, and with a record that ends after the first byte of the mask. -/
theorem divisions_agree_iff_hello :
    ((wsRead 4096 [] helloSession).ret = (wsRead 4096 [] (cutSession 3)).ret ∧
      (wsRead 4096 [] helloSession).buf = (wsRead 4096 [] (cutSession 3)).buf ∧
      (wsRead 4096 [] helloSession).tls.unread = (wsRead 4096 [] (cutSession 3)).tls.unread) ↔
    lengthAndMask helloFrame.form.extra (helloSession.skip 2) =
      lengthAndMask helloFrame.form.extra ((cutSession 3).skip 2) :=
  divisions_agree_iff [] (by decide) (by decide +kernel)
    (show helloSession.unread = helloFrame.bytes ++ [] by decide +kernel) (by decide +kernel) rfl
    (show helloFrame.mask = some sampleKey from rfl) (by decide)

/-- When a record ends after the first byte of the mask, the frame is not read. -/
theorem cut_mask_refused :
    ¬ ((wsRead 4096 [] helloSession).ret = (wsRead 4096 [] (cutSession 3)).ret ∧
      (wsRead 4096 [] helloSession).buf = (wsRead 4096 [] (cutSession 3)).buf ∧
      (wsRead 4096 [] helloSession).tls.unread = (wsRead 4096 [] (cutSession 3)).tls.unread) := by
  decide +kernel

end Zappy
