import Zappy.Lib.Bytes

/-!
# Frames of the WebSocket protocol

The base framing of RFC 6455: two bytes with the final bit, the opcode, the mask bit and a short length, a length of
two or eight bytes where the short one says so, the masking key, and the payload.  `Frame.bytes` writes a frame and
`parse` reads one; each undoes the other.
-/

namespace Zappy.WebSocket

open Bytes

/-- The three encodings of a payload length. -/
inductive LengthForm where
  | seven | sixteen | sixtyFour
  deriving DecidableEq, Repr

namespace LengthForm

/-- The lengths below this number can be encoded. -/
def capacity : LengthForm → Nat
  | seven => 126
  | sixteen => 2 ^ 16
  | sixtyFour => 2 ^ 64

/-- The number of bytes after the first two. -/
def extra : LengthForm → Nat
  | seven => 0
  | sixteen => 2
  | sixtyFour => 8

/-- The seven bits of the second byte, for a payload of `n` bytes. -/
def indicator (n : Nat) : LengthForm → Nat
  | seven => n
  | sixteen => 126
  | sixtyFour => 127

/-- The form that seven bits announce. -/
def ofIndicator (i : Nat) : LengthForm := if i = 126 then sixteen else if i = 127 then sixtyFour else seven

/-- The shortest form for a payload of `n` bytes. -/
def shortest (n : Nat) : LengthForm := if n < 126 then seven else if n < 2 ^ 16 then sixteen else sixtyFour

theorem extra_shortest_le {n : Nat} {form : LengthForm} (h : n < form.capacity) :
    (shortest n).extra ≤ form.extra := by
  unfold shortest
  cases form with
  | seven => rw [if_pos (show n < 126 from h)]
  | sixteen =>
    split
    · decide
    · rw [if_pos (show n < 2 ^ 16 from h)]
  | sixtyFour =>
    split
    · decide
    · split <;> decide

theorem lt_capacity_shortest {n : Nat} (h : n < 2 ^ 64) : n < (shortest n).capacity := by
  unfold shortest
  split
  · assumption
  · split
    · assumption
    · exact h

theorem capacity_le (form : LengthForm) : form.capacity ≤ 2 ^ 64 := by cases form <;> decide

theorem extra_le (form : LengthForm) : form.extra ≤ 8 := by cases form <;> decide

theorem extra_pos {form : LengthForm} (h : form ≠ seven) : 0 < form.extra := by
  cases form with
  | seven => exact absurd rfl h
  | sixteen => exact show 0 < 2 by decide
  | sixtyFour => exact show 0 < 8 by decide

theorem indicator_lt {n : Nat} {form : LengthForm} (h : n < form.capacity) : form.indicator n < 128 := by
  cases form with
  | seven => exact Nat.lt_of_lt_of_le h (by decide)
  | sixteen => exact show 126 < 128 by decide
  | sixtyFour => exact show 127 < 128 by decide

private theorem ofIndicator_indicator {n : Nat} {form : LengthForm} (h : n < form.capacity) :
    ofIndicator (form.indicator n) = form := by
  cases form with
  | seven =>
    have hlt : n < 126 := h
    change ofIndicator n = seven
    unfold ofIndicator
    rw [if_neg (by omega), if_neg (by omega)]
  | sixteen => rfl
  | sixtyFour => rfl

/-- The bytes after the first two hold the length in the longer forms. -/
theorem lt_pow_extra {n : Nat} {form : LengthForm} (h : n < form.capacity) (hform : form ≠ seven) :
    n < 256 ^ form.extra := by
  cases form with
  | seven => exact absurd rfl hform
  | sixteen => exact h
  | sixtyFour => exact h

end LengthForm

instance neZero_sixteen : NeZero 16 := ⟨by decide⟩

/-- A masking key. -/
abbrev MaskKey := { key : List UInt8 // key.length = 4 }

structure Frame where
  fin : Bool
  opcode : Fin 16
  mask : Option MaskKey
  form : LengthForm
  payload : List UInt8
  fits : payload.length < form.capacity

namespace Frame

variable (f : Frame)

/-- The first two bytes. -/
def header : List UInt8 :=
  [UInt8.ofNat ((if f.fin then 128 else 0) + f.opcode),
    UInt8.ofNat ((if f.mask.isSome then 128 else 0) + f.form.indicator f.payload.length)]

def keyBytes : List UInt8 := f.mask.elim [] Subtype.val

/-- The payload as it is sent. -/
def maskedPayload : List UInt8 := f.mask.elim f.payload fun key => applyMask key f.payload

/-- The bytes of a frame. -/
def bytes : List UInt8 := f.header ++ toBE f.form.extra f.payload.length ++ f.keyBytes ++ f.maskedPayload

@[simp] theorem length_header : f.header.length = 2 := rfl

@[simp] theorem length_maskedPayload : f.maskedPayload.length = f.payload.length := by
  unfold maskedPayload
  cases f.mask <;> simp

end Frame

/-- The first `n` bytes and the rest, if there are so many. -/
def split? (n : Nat) (bytes : List UInt8) : Option (List UInt8 × List UInt8) :=
  if n ≤ bytes.length then some (bytes.take n, bytes.drop n) else none

/-- A frame and what follows it; `none` for bytes that no frame starts.  The three bits between the final bit and the
opcode are zero. -/
def parse (bytes : List UInt8) : Option (Frame × List UInt8) := do
  let (header, rest) ← split? 2 bytes
  let b₀ := (header.getD 0 0).toNat
  let b₁ := (header.getD 1 0).toNat
  if b₀ / 16 % 8 ≠ 0 then none
  let form := LengthForm.ofIndicator (b₁ % 128)
  let (ext, rest) ← split? form.extra rest
  let length := if form = .seven then b₁ % 128 else ofBE ext
  let (key, rest) ← split? (if 128 ≤ b₁ then 4 else 0) rest
  let (data, rest) ← split? length rest
  let mask : Option MaskKey := if h : key.length = 4 then some ⟨key, h⟩ else none
  let payload := mask.elim data fun key => applyMask key data
  if h : payload.length < form.capacity then
    return (⟨128 ≤ b₀, Fin.ofNat 16 (b₀ % 16), mask, form, payload, h⟩, rest)
  else none

private theorem split?_append {n : Nat} {bytes rest : List UInt8} (h : bytes.length = n) :
    split? n (bytes ++ rest) = some (bytes, rest) := by
  unfold split?
  rw [if_pos (by simp [h]), ← h, List.take_left, List.drop_left]

theorem toNat_ofNat_of_lt {n : Nat} (h : n < 256) : (UInt8.ofNat n).toNat = n := by
  rw [UInt8.toNat_ofNat', Nat.mod_eq_of_lt h]

namespace Frame

variable (f : Frame)

theorem first_toNat : (f.header.getD 0 0).toNat = (if f.fin then 128 else 0) + f.opcode := by
  have hop := f.opcode.isLt
  apply toNat_ofNat_of_lt
  split <;> omega

theorem second_toNat : (f.header.getD 1 0).toNat =
    (if f.mask.isSome then 128 else 0) + f.form.indicator f.payload.length := by
  have hind := LengthForm.indicator_lt f.fits
  apply toNat_ofNat_of_lt
  split <;> omega

theorem length_keyBytes : f.keyBytes.length = if f.mask.isSome then 4 else 0 := by
  unfold keyBytes
  cases f.mask with
  | none => rfl
  | some key => exact key.2

/-- Undoing the mask. -/
private theorem unmask : f.mask.elim f.maskedPayload (fun key => applyMask key f.maskedPayload) = f.payload := by
  unfold maskedPayload
  cases f.mask with
  | none => rfl
  | some key => exact applyMask_applyMask _ _

end Frame

/-- Reading what was written gives the frame back. -/
theorem parse_bytes (f : Frame) (rest : List UInt8) : parse (f.bytes ++ rest) = some (f, rest) := by
  have hop := f.opcode.isLt
  have hind := LengthForm.indicator_lt f.fits
  have hb₀ := f.first_toNat
  have hb₁ := f.second_toNat
  have hreserved : ¬ (f.header.getD 0 0).toNat / 16 % 8 ≠ 0 := by
    rw [hb₀]
    split <;> omega
  have hform : LengthForm.ofIndicator ((f.header.getD 1 0).toNat % 128) = f.form := by
    rw [← LengthForm.ofIndicator_indicator f.fits, hb₁]
    congr 1
    split <;> omega
  have hlength : (if f.form = .seven then (f.header.getD 1 0).toNat % 128
      else ofBE (toBE f.form.extra f.payload.length)) = f.payload.length := by
    by_cases hseven : f.form = .seven
    · rw [if_pos hseven, hb₁, hseven]
      rw [hseven] at hind
      simp only [LengthForm.indicator] at *
      split <;> omega
    · rw [if_neg hseven, ofBE_toBE (LengthForm.lt_pow_extra f.fits hseven)]
  have hkey : f.keyBytes.length = if 128 ≤ (f.header.getD 1 0).toNat then 4 else 0 := by
    rw [f.length_keyBytes, hb₁]
    cases f.mask.isSome with
    | true => rw [if_pos rfl, if_pos (by simp)]
    | false => rw [if_neg (by simp), if_neg (by simp; omega)]
  have hmask : (if h : f.keyBytes.length = 4 then some ⟨f.keyBytes, h⟩ else none : Option MaskKey) = f.mask := by
    have hlen := f.length_keyBytes
    unfold Frame.keyBytes at *
    cases hm : f.mask with
    | none => simp
    | some key => simp [key.2]
  have hfin : decide (128 ≤ (f.header.getD 0 0).toNat) = f.fin := by
    rw [hb₀]
    cases f.fin with
    | true => simp
    | false => simp; omega
  have hopcode : Fin.ofNat 16 ((f.header.getD 0 0).toNat % 16) = f.opcode := by
    apply Fin.ext
    rw [hb₀]
    simp only [Fin.ofNat]
    split <;> omega
  unfold parse Frame.bytes
  rw [List.append_assoc, List.append_assoc, List.append_assoc, split?_append f.length_header]
  simp only [Option.bind_eq_bind, Option.bind_some, if_neg hreserved, hform]
  rw [split?_append (length_toBE _ _)]
  simp only [Option.bind_some, hlength, ← hkey]
  rw [split?_append rfl]
  simp only [Option.bind_some]
  rw [split?_append f.length_maskedPayload]
  simp only [Option.bind_some, hmask, hfin, hopcode, f.unmask]
  rw [dif_pos f.fits]
  rfl

end Zappy.WebSocket
