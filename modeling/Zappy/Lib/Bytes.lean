import Mathlib.Algebra.Ring.Nat
import Mathlib.Data.List.Basic
import Mathlib.Tactic.Ring

/-!
# Bytes

Numbers in network byte order, the shift and mask operations that read and write them, and the exclusive or with a
repeated key.
-/

namespace Zappy.Bytes

/-! ### Network byte order -/

/-- The last `k` bytes of `n`, the highest one first. -/
def toBE : Nat → Nat → List UInt8
  | 0, _ => []
  | k + 1, n => UInt8.ofNat (n / 256 ^ k) :: toBE k n

/-- The number that bytes stand for, the highest one first. -/
def ofBE (bytes : List UInt8) : Nat := bytes.foldl (fun n b => n * 256 + b.toNat) 0

@[simp] theorem length_toBE (k n : Nat) : (toBE k n).length = k := by
  induction k with
  | zero => rfl
  | succ k ih => rw [toBE, List.length_cons, ih]

private theorem foldl_toBE (k n acc : Nat) :
    (toBE k n).foldl (fun n b => n * 256 + b.toNat) acc = acc * 256 ^ k + n % 256 ^ k := by
  induction k generalizing acc with
  | zero => simp [toBE, Nat.mod_one]
  | succ k ih =>
    have hmod : n % 256 ^ (k + 1) = n % 256 ^ k + 256 ^ k * (n / 256 ^ k % 256) := by
      rw [pow_succ, Nat.mod_mul]
    rw [toBE, List.foldl_cons, ih, UInt8.toNat_ofNat', hmod]
    ring

theorem ofBE_toBE {k n : Nat} (hn : n < 256 ^ k) : ofBE (toBE k n) = n := by
  rw [ofBE, foldl_toBE, Nat.zero_mul, Nat.zero_add, Nat.mod_eq_of_lt hn]

/-- A word shifted by one byte, with `b` put into the free place. -/
def shiftIn (n : UInt64) (b : UInt8) : UInt64 := (n <<< 8) ||| b.toUInt64

private theorem toNat_shiftIn {n : UInt64} (hn : n.toNat < 2 ^ 56) (b : UInt8) :
    (shiftIn n b).toNat = n.toNat * 256 + b.toNat := by
  have hb := b.toNat_lt
  unfold shiftIn
  rw [UInt64.toNat_or, UInt64.toNat_shiftLeft, UInt8.toNat_toUInt64]
  have hshift : n.toNat <<< ((8 : UInt64).toNat % 64) % 2 ^ 64 = n.toNat <<< 8 := by
    rw [show (8 : UInt64).toNat % 64 = 8 from rfl, Nat.shiftLeft_eq]
    exact Nat.mod_eq_of_lt (by omega)
  rw [hshift, ← Nat.shiftLeft_add_eq_or_of_lt hb, Nat.shiftLeft_eq]

private theorem foldl_shiftIn (bytes : List UInt8) {n : UInt64} {k : Nat} (hn : n.toNat < 256 ^ k)
    (hk : k + bytes.length ≤ 8) :
    (bytes.foldl shiftIn n).toNat = bytes.foldl (fun n b => n * 256 + b.toNat) n.toNat := by
  induction bytes generalizing n k with
  | nil => rfl
  | cons b bytes ih =>
    rw [List.length_cons] at hk
    have hpow : (256 : Nat) ^ k ≤ 256 ^ 7 := Nat.pow_le_pow_right (by decide) (by omega)
    have hlt : n.toNat < 2 ^ 56 := by
      have : (256 : Nat) ^ 7 = 2 ^ 56 := by decide
      omega
    have hb := b.toNat_lt
    have hnext : (shiftIn n b).toNat < 256 ^ (k + 1) := by
      rw [toNat_shiftIn hlt, pow_succ]
      omega
    rw [List.foldl_cons, List.foldl_cons, ih hnext (by omega), toNat_shiftIn hlt]

/-- Reading at most eight bytes with shifts. -/
theorem foldl_shiftIn_eq {bytes : List UInt8} (hlen : bytes.length ≤ 8) :
    (bytes.foldl shiftIn 0).toNat = ofBE bytes :=
  foldl_shiftIn bytes (k := 0) (by decide) (by omega)

/-- Byte `i` of a word, by a shift. -/
theorem shiftOut_eq (n : UInt64) {i : Nat} (hi : i < 8) :
    (n >>> UInt64.ofNat (8 * i)).toUInt8 = UInt8.ofNat (n.toNat / 256 ^ i) := by
  apply UInt8.toNat_inj.1
  have hpow : (2 : Nat) ^ (8 * i) = 256 ^ i := by rw [pow_mul]; norm_num
  rw [UInt64.toNat_toUInt8, UInt64.toNat_shiftRight, UInt8.toNat_ofNat', UInt64.toNat_ofNat',
    Nat.shiftRight_eq_div_pow]
  rw [show 8 * i % 2 ^ 64 % 64 = 8 * i by omega, hpow]

theorem toUInt8_and_255 (n : UInt64) : (n &&& 0xFF).toUInt8 = n.toUInt8 := by
  apply UInt8.toNat_inj.1
  rw [UInt64.toNat_toUInt8, UInt64.toNat_toUInt8, UInt64.toNat_and,
    show (0xFF : UInt64).toNat = 2 ^ 8 - 1 from rfl, Nat.and_two_pow_sub_one_eq_mod, Nat.mod_mod]

theorem shiftIn_zero (b : UInt8) : shiftIn 0 b = b.toUInt64 := by
  apply UInt64.toNat_inj.1
  rw [toNat_shiftIn (by decide), UInt8.toNat_toUInt64]
  simp

/-! ### Masking -/

/-- The bytes of `data` combined with those of `key`, over and over. -/
def applyMask (key data : List UInt8) : List UInt8 := data.mapIdx fun i b => b ^^^ key.getD (i % 4) 0

@[simp] theorem length_applyMask (key data : List UInt8) : (applyMask key data).length = data.length := by
  simp [applyMask]

theorem applyMask_applyMask (key data : List UInt8) : applyMask key (applyMask key data) = data := by
  apply List.ext_getElem
  · simp
  · intro i h₁ h₂
    simp only [applyMask, List.getElem_mapIdx, UInt8.xor_assoc, UInt8.xor_self, UInt8.xor_zero]

end Zappy.Bytes
