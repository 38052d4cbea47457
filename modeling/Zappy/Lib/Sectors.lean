import Mathlib.Analysis.SpecialFunctions.Complex.Arg
import Mathlib.Analysis.SpecialFunctions.Trigonometric.Arctan
import Mathlib.NumberTheory.Real.Irrational

/-!
# The eight sectors of the plane

Sector `k` is the closed sector of 45 degrees around the direction `k` eighths of a turn counter-clockwise from the
positive real axis.  Where a point with integer coordinates lies is decided by comparisons of integers, since
`tan (π / 8)` is irrational: no such point but zero lies on the boundary of a sector.
-/

namespace Zappy.Sectors

open Complex
open Real (pi)

/-- The point lies in the open sector around the positive real axis. -/
def Ahead (v : ℤ × ℤ) : Prop := |v.2| < v.1 ∧ 2 * v.2 ^ 2 < (v.1 - |v.2|) ^ 2

instance : DecidablePred Ahead := fun v => inferInstanceAs (Decidable (|v.2| < v.1 ∧ _))

/-- A turn by an eighth clockwise, which also stretches by the square root of two. -/
def turn (v : ℤ × ℤ) : ℤ × ℤ := (v.1 + v.2, v.2 - v.1)

/-- The point of the complex plane. -/
noncomputable def toComplex (v : ℤ × ℤ) : ℂ := ⟨v.1, v.2⟩

/-- Sector `k`. -/
def InSector (k : ℕ) (z : ℂ) : Prop := z ≠ 0 ∧ |arg (z * exp (-(k * (pi / 4) : ℝ) * I))| ≤ pi / 8

/-! ### The sector around the real axis -/

private theorem tan_pi_div_eight : Real.tan (pi / 8) = √2 - 1 := by
  have hcos : 0 < Real.cos (pi / 8) :=
    Real.cos_pos_of_mem_Ioo ⟨by linarith [Real.pi_pos], by linarith [Real.pi_pos]⟩
  have hdouble : 2 * (pi / 8) = pi / 4 := by ring
  have hsin : 2 * Real.sin (pi / 8) * Real.cos (pi / 8) = √2 / 2 := by
    rw [← Real.sin_two_mul, hdouble, Real.sin_pi_div_four]
  have hcos2 : 2 * Real.cos (pi / 8) ^ 2 - 1 = √2 / 2 := by
    rw [← Real.cos_two_mul, hdouble, Real.cos_pi_div_four]
  have hsqrt : √2 * √2 = 2 := Real.mul_self_sqrt (by norm_num)
  rw [Real.tan_eq_sin_div_cos, div_eq_iff hcos.ne']
  have hcancel : Real.sin (pi / 8) * (2 * Real.cos (pi / 8)) =
      (√2 - 1) * Real.cos (pi / 8) * (2 * Real.cos (pi / 8)) := by
    calc Real.sin (pi / 8) * (2 * Real.cos (pi / 8))
        = √2 / 2 := by rw [← hsin]; ring
      _ = (√2 - 1) * (1 + √2 / 2) := by linear_combination (-1 / 2 : ℝ) * hsqrt
      _ = (√2 - 1) * Real.cos (pi / 8) * (2 * Real.cos (pi / 8)) := by rw [← hcos2]; ring
  exact mul_right_cancel₀ (by positivity) hcancel

private theorem arctan_eq : Real.arctan (√2 - 1) = pi / 8 := by
  rw [← tan_pi_div_eight, Real.arctan_tan (by linarith [Real.pi_pos]) (by linarith [Real.pi_pos])]

/-- Right of the imaginary axis the argument is an arc tangent. -/
private theorem arg_eq_arctan {z : ℂ} (hz : 0 < z.re) : arg z = Real.arctan (z.im / z.re) := by
  have habs : |arg z| < pi / 2 := abs_arg_lt_pi_div_two_iff.2 (Or.inl hz)
  obtain ⟨hlow, hhigh⟩ := abs_lt.1 habs
  rw [← tan_arg, Real.arctan_tan hlow hhigh]

private theorem re_pos_of_abs_arg_le {z : ℂ} (hz : z ≠ 0) (h : |arg z| ≤ pi / 8) : 0 < z.re := by
  have habs : |arg z| < pi / 2 := lt_of_le_of_lt h (by linarith [Real.pi_pos])
  rcases abs_arg_lt_pi_div_two_iff.1 habs with hre | hzero
  · exact hre
  · exact absurd hzero hz

private theorem abs_arg_lt_iff {z : ℂ} (hz : 0 < z.re) : |arg z| < pi / 8 ↔ |z.im| < (√2 - 1) * z.re := by
  rw [arg_eq_arctan hz, ← arctan_eq, abs_lt, ← Real.arctan_neg, Real.arctan_lt_arctan_iff,
    Real.arctan_lt_arctan_iff, ← abs_lt, abs_div, abs_of_pos hz, div_lt_iff₀ hz]

private theorem abs_arg_le_iff {z : ℂ} (hz : 0 < z.re) : |arg z| ≤ pi / 8 ↔ |z.im| ≤ (√2 - 1) * z.re := by
  rw [arg_eq_arctan hz, ← arctan_eq, abs_le, ← Real.arctan_neg, Real.arctan_le_arctan_iff,
    Real.arctan_le_arctan_iff, ← abs_le, abs_div, abs_of_pos hz, div_le_iff₀ hz]

/-- A point with integer coordinates is never on the boundary. -/
private theorem abs_ne_sqrt_mul {f l : ℤ} (hf : 0 < f) : (|l| : ℝ) ≠ (√2 - 1) * f := by
  intro h
  have hf' : (f : ℝ) ≠ 0 := by exact_mod_cast hf.ne'
  have hsqrt : √2 = ((|l| + f : ℤ) : ℝ) / f := by
    rw [eq_div_iff hf']
    push_cast
    linarith
  have hrat : √2 = (((|l| + f : ℤ) : ℚ) / f : ℚ) := by
    rw [hsqrt]
    push_cast
    rfl
  exact irrational_sqrt_two ⟨_, hrat.symm⟩

private theorem ahead_iff_lt {f l : ℤ} : Ahead (f, l) ↔ 0 < f ∧ (|l| : ℝ) < (√2 - 1) * f := by
  have hsqrt : √2 * √2 = 2 := Real.mul_self_sqrt (by norm_num)
  have hone : 1 < √2 := by
    rw [Real.lt_sqrt (by norm_num)]
    norm_num
  have habs : (0 : ℝ) ≤ |(l : ℝ)| := abs_nonneg _
  have hsq : |(l : ℝ)| ^ 2 = (l : ℝ) ^ 2 := sq_abs _
  have hcast : 2 * l ^ 2 < (f - |l|) ^ 2 ↔ 2 * |(l : ℝ)| ^ 2 < ((f : ℝ) - |(l : ℝ)|) ^ 2 := by
    rw [hsq]
    exact_mod_cast Iff.rfl
  have hlt : |l| < f ↔ |(l : ℝ)| < f := by exact_mod_cast Iff.rfl
  unfold Ahead
  simp only
  rw [hcast, hlt]
  constructor
  · rintro ⟨hbelow, hsquares⟩
    have hf : (0 : ℝ) < f := lt_of_le_of_lt habs hbelow
    have hroot : √2 * |(l : ℝ)| < f - |(l : ℝ)| := by
      apply lt_of_pow_lt_pow_left₀ 2 (by linarith)
      calc (√2 * |(l : ℝ)|) ^ 2 = 2 * |(l : ℝ)| ^ 2 := by rw [mul_pow, Real.sq_sqrt (by norm_num)]
        _ < (f - |(l : ℝ)|) ^ 2 := hsquares
    refine ⟨by exact_mod_cast hf, ?_⟩
    -- the factors `√2 - 1` and `√2 + 1` are inverse to each other
    nlinarith
  · rintro ⟨hf, hbelow⟩
    have hf' : (0 : ℝ) < f := by exact_mod_cast hf
    have hroot : √2 * |(l : ℝ)| < f - |(l : ℝ)| := by nlinarith
    refine ⟨by nlinarith, ?_⟩
    calc 2 * |(l : ℝ)| ^ 2 = (√2 * |(l : ℝ)|) ^ 2 := by rw [mul_pow, Real.sq_sqrt (by norm_num)]
      _ < (f - |(l : ℝ)|) ^ 2 := by
        exact pow_lt_pow_left₀ hroot (by positivity) (by norm_num)

theorem toComplex_ne_zero {v : ℤ × ℤ} : toComplex v ≠ 0 ↔ v ≠ 0 := by
  rw [Ne, Ne, Complex.ext_iff, Prod.ext_iff]
  simp [toComplex]

/-- For points with integer coordinates the open sector and the closed one are the same. -/
private theorem ahead_iff_arg {v : ℤ × ℤ} (hv : v ≠ 0) :
    (Ahead v ↔ |arg (toComplex v)| < pi / 8) ∧ (Ahead v ↔ |arg (toComplex v)| ≤ pi / 8) := by
  have hzero : toComplex v ≠ 0 := toComplex_ne_zero.2 hv
  have hpos : 0 < (toComplex v).re ↔ 0 < v.1 := Int.cast_pos
  have hle : |arg (toComplex v)| ≤ pi / 8 → Ahead v := by
    intro h
    have hre := re_pos_of_abs_arg_le hzero h
    have hbelow : (|v.2| : ℝ) ≤ (√2 - 1) * v.1 := (abs_arg_le_iff hre).1 h
    exact ahead_iff_lt.2 ⟨hpos.1 hre, lt_of_le_of_ne hbelow (abs_ne_sqrt_mul (hpos.1 hre))⟩
  have hlt : Ahead v → |arg (toComplex v)| < pi / 8 := by
    intro h
    obtain ⟨hf, hbelow⟩ := ahead_iff_lt.1 h
    exact (abs_arg_lt_iff (hpos.2 hf)).2 hbelow
  exact ⟨⟨hlt, fun h => hle h.le⟩, ⟨fun h => (hlt h).le, hle⟩⟩

/-! ### Turns -/

/-- The turn by `k` eighths clockwise. -/
noncomputable def rotated (k : ℕ) (z : ℂ) : ℂ := z * exp (-(k * (pi / 4) : ℝ) * I)

private theorem rotated_ne_zero {z : ℂ} (hz : z ≠ 0) (k : ℕ) : rotated k z ≠ 0 := mul_ne_zero hz (exp_ne_zero _)

private theorem rotated_add (j k : ℕ) (z : ℂ) : rotated (j + k) z = rotated j (rotated k z) := by
  unfold rotated
  rw [mul_assoc, ← exp_add]
  congr 2
  push_cast
  ring

private theorem exp_eighth : exp (-((1 : ℕ) * (pi / 4) : ℝ) * I) = (√2 / 2 : ℝ) * (1 - I) := by
  rw [← ofReal_neg, exp_mul_I, ← ofReal_cos, ← ofReal_sin, Nat.cast_one, one_mul, Real.cos_neg, Real.sin_neg,
    Real.cos_pi_div_four, Real.sin_pi_div_four]
  push_cast
  ring

private theorem toComplex_turn (v : ℤ × ℤ) : toComplex (turn v) = (√2 : ℝ) * rotated 1 (toComplex v) := by
  have hsqrt : ((√2 : ℝ) : ℂ) * (√2 / 2 : ℝ) = 1 := by
    rw [← ofReal_mul, ← ofReal_one, mul_div_assoc', Real.mul_self_sqrt (by norm_num), div_self (by norm_num)]
  have hmul : toComplex (turn v) = toComplex v * (1 - I) := by
    apply Complex.ext
    · simp [toComplex, turn]
    · simp [toComplex, turn]
      ring
  unfold rotated
  rw [exp_eighth, hmul]
  linear_combination (-(toComplex v * (1 - I))) * hsqrt

/-- `k` turns stretch by a positive factor. -/
private theorem toComplex_turns (k : ℕ) (v : ℤ × ℤ) :
    ∃ r : ℝ, 0 < r ∧ toComplex (turn^[k] v) = r * rotated k (toComplex v) := by
  induction k with
  | zero => exact ⟨1, one_pos, by simp [rotated]⟩
  | succ k ih =>
    obtain ⟨r, hr, heq⟩ := ih
    refine ⟨√2 * r, by positivity, ?_⟩
    rw [Function.iterate_succ_apply', toComplex_turn, heq, Nat.add_comm, rotated_add]
    unfold rotated
    push_cast
    ring

private theorem turns_ne_zero {v : ℤ × ℤ} (hv : v ≠ 0) (k : ℕ) : turn^[k] v ≠ 0 := by
  obtain ⟨r, hr, heq⟩ := toComplex_turns k v
  rw [← toComplex_ne_zero, heq]
  exact mul_ne_zero (by exact_mod_cast hr.ne') (rotated_ne_zero (toComplex_ne_zero.2 hv) k)

private theorem arg_turns (k : ℕ) (v : ℤ × ℤ) : arg (toComplex (turn^[k] v)) = arg (rotated k (toComplex v)) := by
  obtain ⟨r, hr, heq⟩ := toComplex_turns k v
  rw [heq, arg_real_mul _ hr]

/-- The sector of a point is decided by comparing integers. -/
theorem inSector_iff_ahead {v : ℤ × ℤ} (hv : v ≠ 0) (k : ℕ) : InSector k (toComplex v) ↔ Ahead (turn^[k] v) := by
  rw [(ahead_iff_arg (turns_ne_zero hv k)).2, arg_turns]
  exact and_iff_right (toComplex_ne_zero.2 hv)

/-! ### Angles -/

private theorem arg_rotated_eq_toIocMod {z : ℂ} (hz : z ≠ 0) (k : ℕ) :
    arg (rotated k z) = toIocMod Real.two_pi_pos (-pi) (arg z - k * (pi / 4)) := by
  have hpolar : rotated k z = (‖z‖ : ℝ) * exp ((arg z - k * (pi / 4) : ℝ) * I) := by
    unfold rotated
    conv_lhs => rw [← norm_mul_exp_arg_mul_I z]
    rw [mul_assoc, ← exp_add]
    congr 2
    push_cast
    ring
  rw [hpolar, arg_real_mul _ (norm_pos_iff.2 hz), arg_exp_mul_I]

/-- The argument of a turned point, up to full turns. -/
private theorem exists_arg_rotated {z : ℂ} (hz : z ≠ 0) (k : ℕ) :
    ∃ n : ℤ, arg (rotated k z) = arg z - k * (pi / 4) - n * (2 * pi) := by
  refine ⟨toIocDiv Real.two_pi_pos (-pi) (arg z - k * (pi / 4)), ?_⟩
  rw [arg_rotated_eq_toIocMod hz, toIocMod, zsmul_eq_mul]

private theorem arg_rotated_of_abs_lt {z : ℂ} (hz : z ≠ 0) {k : ℕ} {n : ℤ}
    (h : |arg z - k * (pi / 4) - n * (2 * pi)| < pi) :
    arg (rotated k z) = arg z - k * (pi / 4) - n * (2 * pi) := by
  obtain ⟨hlow, hhigh⟩ := abs_lt.1 h
  rw [arg_rotated_eq_toIocMod hz, toIocMod_eq_iff]
  refine ⟨⟨hlow, by linarith⟩, n, ?_⟩
  rw [zsmul_eq_mul]
  ring

/-- A point with integer coordinates lies in one sector only. -/
theorem inSector_unique {v : ℤ × ℤ} (hv : v ≠ 0) {j k : ℕ} (hj : j < 8) (hk : k < 8)
    (hinj : InSector j (toComplex v)) (hink : InSector k (toComplex v)) : j = k := by
  have hopen : ∀ i, InSector i (toComplex v) → |arg (rotated i (toComplex v))| < pi / 8 := by
    intro i hi
    rw [← arg_turns]
    exact (ahead_iff_arg (turns_ne_zero hv i)).1.1 ((inSector_iff_ahead hv i).1 hi)
  obtain ⟨m, hm⟩ := exists_arg_rotated (toComplex_ne_zero.2 hv) j
  obtain ⟨n, hn⟩ := exists_arg_rotated (toComplex_ne_zero.2 hv) k
  have hlt₁ := abs_lt.1 (hm ▸ hopen j hinj)
  have hlt₂ := abs_lt.1 (hn ▸ hopen k hink)
  have hpi := Real.pi_pos
  -- the two angles differ by a multiple of an eighth of a turn that is less than one
  have hless : |(j - k + 8 * (m - n) : ℝ)| < 1 := by
    rw [abs_lt]
    constructor <;> nlinarith [hlt₁.1, hlt₁.2, hlt₂.1, hlt₂.2]
  have hint : |((j : ℤ) - k + 8 * (m - n))| < 1 := by exact_mod_cast hless
  rw [Int.abs_lt_one_iff] at hint
  omega

/-- The number of an angle: rounded to eighths of a turn, it is the sector of the points with that angle. -/
theorem inSector_round {z : ℂ} (hz : z ≠ 0) {φ : ℝ} {n : ℤ} (hφ : φ = arg z + n * (2 * pi)) (hlow : 0 ≤ φ)
    (hhigh : φ < 2 * pi) :
    0 ≤ ⌊(φ + pi / 8) / (pi / 4)⌋ ∧ ⌊(φ + pi / 8) / (pi / 4)⌋ ≤ 8 ∧
      InSector (⌊(φ + pi / 8) / (pi / 4)⌋ % 8).toNat z := by
  have hpi := Real.pi_pos
  set K := ⌊(φ + pi / 8) / (pi / 4)⌋ with hK
  have hfloor := Int.floor_le ((φ + pi / 8) / (pi / 4))
  have hceil := Int.lt_floor_add_one ((φ + pi / 8) / (pi / 4))
  rw [← hK, le_div_iff₀ (by positivity)] at hfloor
  rw [← hK, div_lt_iff₀ (by positivity)] at hceil
  have hnonneg : 0 ≤ K := Int.floor_nonneg.2 (by positivity)
  have hle : K < 9 := by
    have hreal : (K : ℝ) < 9 := by nlinarith
    exact_mod_cast hreal
  refine ⟨hnonneg, by omega, hz, ?_⟩
  -- a number of 8 is a full turn more than a number of 0
  obtain ⟨q, hq⟩ : ∃ q : ℤ, K = K % 8 + 8 * q := ⟨K / 8, by omega⟩
  have hcast : (((K % 8).toNat : ℕ) : ℝ) = K - 8 * q := by
    have hint : (((K % 8).toNat : ℕ) : ℤ) = K - 8 * q := by omega
    exact_mod_cast congrArg (Int.cast : ℤ → ℝ) hint
  have hangle : arg z - (K % 8).toNat * (pi / 4) - (q - n : ℤ) * (2 * pi) = φ - K * (pi / 4) := by
    rw [hcast, hφ]
    push_cast
    ring
  have habs : |arg z - (K % 8).toNat * (pi / 4) - (q - n : ℤ) * (2 * pi)| ≤ pi / 8 := by
    rw [hangle, abs_le]
    constructor <;> nlinarith
  have harg := arg_rotated_of_abs_lt hz (lt_of_le_of_lt habs (by linarith))
  exact harg ▸ habs

/-- A quarter turn counter-clockwise of the point is two sectors further. -/
theorem inSector_mul_I {k : ℕ} {z : ℂ} (h : InSector k z) : InSector ((k + 2) % 8) (z * I) := by
  obtain ⟨hz, habs⟩ := h
  have hz' : z * I ≠ 0 := mul_ne_zero hz I_ne_zero
  have hquarter : rotated (k + 2) (z * I) = rotated k z := by
    have hexp : exp (-(pi / 2 : ℝ) * I) = -I := by
      rw [← ofReal_neg, exp_mul_I, ← ofReal_cos, ← ofReal_sin, Real.cos_neg, Real.sin_neg, Real.cos_pi_div_two,
        Real.sin_pi_div_two]
      simp
    have hsum : exp (-((k + 2 : ℕ) * (pi / 4) : ℝ) * I) = exp (-(k * (pi / 4) : ℝ) * I) * exp (-(pi / 2 : ℝ) * I) := by
      rw [← exp_add]
      congr 1
      push_cast
      ring
    unfold rotated
    rw [hsum, hexp]
    linear_combination (-(z * exp (-(k * (pi / 4) : ℝ) * I))) * I_mul_I
  obtain ⟨n, hn⟩ := exists_arg_rotated hz' (k + 2)
  obtain ⟨d, hd⟩ : ∃ d : ℕ, k + 2 = (k + 2) % 8 + 8 * d := ⟨(k + 2) / 8, by omega⟩
  have hfull : arg (z * I) - ((k + 2) % 8 : ℕ) * (pi / 4) - (n + d : ℤ) * (2 * pi) =
      arg (rotated (k + 2) (z * I)) := by
    have hcast : ((k + 2 : ℕ) : ℝ) = ((k + 2) % 8 : ℕ) + 8 * d := by
      exact_mod_cast congrArg (Nat.cast : ℕ → ℝ) hd
    rw [hn, hcast]
    push_cast
    ring
  have hle : |arg (z * I) - ((k + 2) % 8 : ℕ) * (pi / 4) - (n + d : ℤ) * (2 * pi)| ≤ pi / 8 := by
    rw [hfull, hquarter]
    exact habs
  have hpi := Real.pi_pos
  have harg := arg_rotated_of_abs_lt hz' (lt_of_le_of_lt hle (by linarith))
  exact ⟨hz', harg ▸ hle⟩

end Zappy.Sectors
