import Mathlib.Data.Int.ModEq
import Zappy.Lib.Sectors
import Zappy.Moves

/-!
# The direction of a broadcast (`compute_broadcast_direction`)

With the real functions for `atan2` and `floor`, the number that a listener is told is that of the sector in which the
emitter lies on the shortest way around the torus.  The y axis points to the south, so that of a displacement the part
ahead of a listener that looks to the north is its negative.
-/

namespace Zappy

open Sectors
open Real (pi)

/-- The angle of the point `(x, y)`, above `-π` and at most `π`. -/
noncomputable def atan2 (y x : ℝ) : ℝ := Complex.arg ⟨x, y⟩

/-- The expression for `K` in `compute_broadcast_direction`. -/
noncomputable def exactSector (dyw dxw : ℤ) : ℤ :=
  let phi := atan2 dyw dxw - pi / 2.0
  let phi := if phi < 0 then phi + 2 * pi else phi
  ⌊(phi + pi / 8.0) / (pi / 4.0)⌋ + 1

/-- A displacement from the listener to the emitter on the torus, per axis at most half the map. -/
structure Shortest (width height : ℕ) (listener emitter : Position) (d : ℤ × ℤ) : Prop where
  x : d.1 ≡ emitter.x - listener.x [ZMOD width]
  y : d.2 ≡ emitter.y - listener.y [ZMOD height]
  halfX : 2 * |d.1| ≤ width
  halfY : 2 * |d.2| ≤ height

/-- The parts of a displacement ahead and to the left. -/
def relative (d : ℤ × ℤ) : Direction → ℤ × ℤ
  | .north => (-d.2, -d.1)
  | .east => (d.1, -d.2)
  | .south => (d.2, d.1)
  | .west => (-d.1, d.2)

private theorem relative_eq_zero {d : ℤ × ℤ} {dir : Direction} : relative d dir = 0 ↔ d = 0 := by
  cases dir <;> simp only [relative, Prod.ext_iff, Prod.fst_zero, Prod.snd_zero, neg_eq_zero] <;> tauto

/-- A listener that turns to the right has ahead what was to its right. -/
private theorem toComplex_relative_turnRight (d : ℤ × ℤ) (dir : Direction) :
    toComplex (relative d (turnRight dir)) = toComplex (relative d dir) * Complex.I := by
  cases dir <;> apply Complex.ext <;> simp [toComplex, relative, turnRight]

/-! ### The shortest way -/

private theorem minimalDelta_spec {delta : ℤ} {max : ℕ} (h : |delta| < max) :
    minimalDelta delta max ≡ delta [ZMOD max] ∧ 2 * |minimalDelta delta max| ≤ max ∧
      (2 * |minimalDelta delta max| = max → minimalDelta delta max = delta) := by
  obtain ⟨hlow, hhigh⟩ := abs_lt.1 h
  have hhalf : (max : ℤ).tdiv 2 = (max / 2 : ℕ) := rfl
  have hneg : (-(max : ℤ)).tdiv 2 = -(max / 2 : ℕ) := by
    rw [Int.neg_tdiv, hhalf]
  unfold minimalDelta
  simp only [hhalf, hneg]
  by_cases habove : delta > (max / 2 : ℕ)
  · have hback : ¬ delta - max < -(max / 2 : ℕ) := by omega
    rw [if_pos habove, if_neg hback]
    refine ⟨?_, ?_, fun htie => ?_⟩
    · exact (Int.modEq_iff_dvd).2 ⟨1, by ring⟩
    · rw [abs_of_nonpos (by omega)]
      omega
    · rw [abs_of_nonpos (by omega)] at htie
      omega
  rw [if_neg habove]
  by_cases hbelow : delta < -(max / 2 : ℕ)
  · rw [if_pos hbelow]
    refine ⟨?_, ?_, fun htie => ?_⟩
    · exact (Int.modEq_iff_dvd).2 ⟨-1, by ring⟩
    · rw [abs_of_nonneg (by omega)]
      omega
    · rw [abs_of_nonneg (by omega)] at htie
      omega
  · rw [if_neg hbelow]
    refine ⟨Int.ModEq.refl _, ?_, fun _ => rfl⟩
    have habs : |delta| ≤ (max / 2 : ℕ) := abs_le.2 ⟨by omega, by omega⟩
    omega

private theorem minimalDelta_eq_zero {delta : ℤ} {max : ℕ} (h : |delta| < max) :
    minimalDelta delta max = 0 ↔ delta = 0 := by
  obtain ⟨hmod, -, -⟩ := minimalDelta_spec h
  constructor
  · intro hzero
    rw [hzero] at hmod
    exact Int.eq_zero_of_abs_lt_dvd (Int.modEq_zero_iff_dvd.1 hmod.symm) h
  · intro hzero
    subst hzero
    have hhalf : (max : ℤ).tdiv 2 = (max / 2 : ℕ) := rfl
    unfold minimalDelta
    simp only [Int.neg_tdiv, hhalf]
    rw [if_neg (by omega), if_neg (by omega)]

/-- The way is the only one that is not longer, but for displacements by half of the map. -/
private theorem eq_of_shorter {delta d d' : ℤ} {max : ℕ} (hd : d ≡ delta [ZMOD max]) (hd' : d' ≡ delta [ZMOD max])
    (hhalf : 2 * |d| ≤ max) (hless : 2 * |d'| < max) : d' = d := by
  have hdvd : (max : ℤ) ∣ d' - d := (Int.modEq_iff_dvd).1 (hd.trans hd'.symm)
  have habs : |d' - d| ≤ |d'| + |d| := abs_sub _ _
  have hzero := Int.eq_zero_of_abs_lt_dvd hdvd (by omega)
  omega

/-! ### The sector -/

/-- The number is that of the sector around the displacement, or nine for the first. -/
private theorem exactSector_spec {v : ℤ × ℤ} (hv : v ≠ 0) :
    ∃ k : ℕ, k < 8 ∧ InSector k (toComplex v) ∧
      (if exactSector v.1 (-v.2) > 8 then 1 else exactSector v.1 (-v.2)) = k + 1 := by
  have hz := toComplex_ne_zero.2 hv
  have hpi := Real.pi_pos
  -- the displacement to the right and ahead is the one ahead and to the left after a quarter turn
  have hpoint : (⟨((-v.2 : ℤ) : ℝ), (v.1 : ℝ)⟩ : ℂ) = toComplex v * Complex.I := by
    apply Complex.ext <;> simp [toComplex]
  obtain ⟨n, hn⟩ : ∃ n : ℤ, atan2 v.1 (-v.2 : ℤ) - pi / 2 = Complex.arg (toComplex v) + n * (2 * pi) := by
    have hangle := Complex.arg_mul_coe_angle hz Complex.I_ne_zero
    rw [Complex.arg_I, ← Real.Angle.coe_add, Real.Angle.angle_eq_iff_two_pi_dvd_sub] at hangle
    obtain ⟨n, hn⟩ := hangle
    refine ⟨n, ?_⟩
    unfold atan2
    rw [hpoint]
    linarith
  have hrange := Complex.arg_mem_Ioc ⟨((-v.2 : ℤ) : ℝ), (v.1 : ℝ)⟩
  set phi := atan2 v.1 (-v.2 : ℤ) - pi / 2 with hphi
  have hlow : -(3 * pi / 2) < phi := by
    rw [hphi]
    unfold atan2
    linarith [hrange.1]
  have hhigh : phi ≤ pi / 2 := by
    rw [hphi]
    unfold atan2
    linarith [hrange.2]
  obtain ⟨m, hm⟩ : ∃ m : ℤ, (if phi < 0 then phi + 2 * pi else phi) =
      Complex.arg (toComplex v) + m * (2 * pi) := by
    by_cases hneg : phi < 0
    · refine ⟨n + 1, ?_⟩
      rw [if_pos hneg, hn]
      push_cast
      ring
    · exact ⟨n, by rw [if_neg hneg, hn]⟩
  have hbounds : 0 ≤ (if phi < 0 then phi + 2 * pi else phi) ∧ (if phi < 0 then phi + 2 * pi else phi) < 2 * pi := by
    split
    · constructor <;> linarith
    · constructor <;> linarith
  obtain ⟨hnonneg, hle, hin⟩ := inSector_round hz hm hbounds.1 hbounds.2
  have hsector : exactSector v.1 (-v.2) =
      ⌊((if phi < 0 then phi + 2 * pi else phi) + pi / 8) / (pi / 4)⌋ + 1 := by
    have h2 : (2.0 : ℝ) = 2 := by norm_num
    have h4 : (4.0 : ℝ) = 4 := by norm_num
    have h8 : (8.0 : ℝ) = 8 := by norm_num
    rw [exactSector, h2, h4, h8]
  rw [hsector]
  generalize ⌊((if phi < 0 then phi + 2 * pi else phi) + pi / 8) / (pi / 4)⌋ = K at hnonneg hle hin ⊢
  refine ⟨_, by omega, hin, ?_⟩
  by_cases hnine : K + 1 > 8
  · rw [if_pos hnine]
    omega
  · rw [if_neg hnine]
    omega

/-! ### What the listener is told -/

/-- Listener and emitter, each on the map. -/
structure OnTorus (width height : ℕ) (listener emitter : Position) : Prop where
  listener : listener.x < width ∧ listener.y < height
  emitter : emitter.x < width ∧ emitter.y < height

section Direction

variable {width height : ℕ} {listener emitter : Position}

/-- The displacement that the source takes. -/
def displacement (width height : ℕ) (listener emitter : Position) : ℤ × ℤ :=
  (minimalDelta ((emitter.x : ℤ) - listener.x) width, minimalDelta ((emitter.y : ℤ) - listener.y) height)

private theorem OnTorus.abs_sub_lt (h : OnTorus width height listener emitter) :
    |(emitter.x : ℤ) - listener.x| < width ∧ |(emitter.y : ℤ) - listener.y| < height := by
  obtain ⟨⟨hlx, hly⟩, ⟨hex, hey⟩⟩ := h
  constructor
  · rw [abs_lt]
    omega
  · rw [abs_lt]
    omega

private theorem displacement_eq_zero (h : OnTorus width height listener emitter) :
    displacement width height listener emitter = 0 ↔ listener = emitter := by
  obtain ⟨hx, hy⟩ := h.abs_sub_lt
  rw [displacement, Prod.ext_iff]
  simp only [Prod.fst_zero, Prod.snd_zero, minimalDelta_eq_zero hx, minimalDelta_eq_zero hy]
  cases listener
  cases emitter
  simp only [Position.mk.injEq]
  omega

private theorem shortest_displacement (h : OnTorus width height listener emitter) :
    Shortest width height listener emitter (displacement width height listener emitter) := by
  obtain ⟨hx, hy⟩ := h.abs_sub_lt
  exact ⟨(minimalDelta_spec hx).1, (minimalDelta_spec hy).1, (minimalDelta_spec hx).2.1, (minimalDelta_spec hy).2.1⟩

/-- The number is that of the part ahead and to the left. -/
private theorem computeBroadcastDirection_eq (sector : Int → Int → Int) (dir : Direction) :
    computeBroadcastDirection sector listener dir emitter width height =
      if displacement width height listener emitter = 0 then 0
      else
        let v := relative (displacement width height listener emitter) dir
        if sector v.1 (-v.2) > 8 then 1 else sector v.1 (-v.2) := by
  have hzero : displacement width height listener emitter = 0 ↔
      minimalDelta ((emitter.x : ℤ) - listener.x) width = 0 ∧ minimalDelta ((emitter.y : ℤ) - listener.y) height = 0 :=
    Prod.ext_iff
  unfold computeBroadcastDirection
  by_cases h : displacement width height listener emitter = 0
  · simp only [if_pos h, if_pos (hzero.1 h)]
  · simp only [if_neg h, if_neg (hzero.not.1 h)]
    cases dir <;> simp [relative, displacement]

/-- The number of the displacement that the source takes. -/
private theorem exists_sector (h : OnTorus width height listener emitter) (hne : listener ≠ emitter) (dir : Direction) :
    ∃ k : ℕ, k < 8 ∧ InSector k (toComplex (relative (displacement width height listener emitter) dir)) ∧
      computeBroadcastDirection exactSector listener dir emitter width height = k + 1 := by
  have hzero : displacement width height listener emitter ≠ 0 := (displacement_eq_zero h).not.2 hne
  obtain ⟨k, hk, hin, hnumber⟩ := exactSector_spec (relative_eq_zero.not.2 hzero)
  rw [computeBroadcastDirection_eq, if_neg hzero]
  exact ⟨k, hk, hin, hnumber⟩

/-- A listener is told 0 exactly on the tile of the emitter.  Elsewhere it is told the number of the sector around one
of the eight directions, counted counter-clockwise from straight ahead, in which a shortest displacement to the emitter
lies; per axis this is the only one but where the way by half of the map is as long in both directions, and there it is
the one that does not wrap around.  The comparison of integers decides the same.  A quarter turn to the right adds two
modulo eight. -/
structure ToldSector (width height : ℕ) (listener emitter : Position) (dir : Direction) : Prop where
  zero : computeBroadcastDirection exactSector listener dir emitter width height = 0 ↔ listener = emitter
  sector : listener ≠ emitter → ∃ d, Shortest width height listener emitter d ∧
    (2 * |d.1| = width → d.1 = emitter.x - listener.x) ∧ (2 * |d.2| = height → d.2 = emitter.y - listener.y) ∧
    (∀ d', Shortest width height listener emitter d' →
      (2 * |d'.1| < width → d'.1 = d.1) ∧ (2 * |d'.2| < height → d'.2 = d.2)) ∧
    (∃ k : ℕ, k < 8 ∧ computeBroadcastDirection exactSector listener dir emitter width height = k + 1) ∧
    ∀ k : ℕ, k < 8 →
      (computeBroadcastDirection exactSector listener dir emitter width height = k + 1 ↔
        InSector k (toComplex (relative d dir))) ∧
      (computeBroadcastDirection exactSector listener dir emitter width height = k + 1 ↔
        Ahead (turn^[k] (relative d dir)))
  quarter : listener ≠ emitter → computeBroadcastDirection exactSector listener (turnRight dir) emitter width height =
    (computeBroadcastDirection exactSector listener dir emitter width height + 1) % 8 + 1

/-- The number tells the sector, since the sectors meet nowhere. -/
private theorem told_iff_inSector (h : OnTorus width height listener emitter) (hne : listener ≠ emitter)
    (dir : Direction) {k : ℕ} (hk : k < 8) :
    computeBroadcastDirection exactSector listener dir emitter width height = k + 1 ↔
      InSector k (toComplex (relative (displacement width height listener emitter) dir)) := by
  have hzero : relative (displacement width height listener emitter) dir ≠ 0 :=
    relative_eq_zero.not.2 ((displacement_eq_zero h).not.2 hne)
  obtain ⟨k₀, hk₀, hin, hnumber⟩ := exists_sector h hne dir
  constructor
  · intro hk'
    obtain rfl : k = k₀ := by omega
    exact hin
  · intro hin'
    rw [hnumber, inSector_unique hzero hk₀ hk hin hin']

theorem broadcast_direction_sector (h : OnTorus width height listener emitter) (dir : Direction) :
    ToldSector width height listener emitter dir := by
  refine ⟨?_, fun hne => ?_, fun hne => ?_⟩
  · constructor
    · intro hnumber
      by_contra hne
      obtain ⟨k, -, -, hk⟩ := exists_sector h hne dir
      omega
    · intro heq
      rw [computeBroadcastDirection_eq, if_pos ((displacement_eq_zero h).2 heq)]
  · have hzero : relative (displacement width height listener emitter) dir ≠ 0 :=
      relative_eq_zero.not.2 ((displacement_eq_zero h).not.2 hne)
    have hshort := shortest_displacement h
    obtain ⟨k₀, hk₀, -, hnumber⟩ := exists_sector h hne dir
    refine ⟨_, hshort, (minimalDelta_spec h.abs_sub_lt.1).2.2, (minimalDelta_spec h.abs_sub_lt.2).2.2, ?_,
      ⟨k₀, hk₀, hnumber⟩, fun k hk => ⟨told_iff_inSector h hne dir hk,
        (told_iff_inSector h hne dir hk).trans (inSector_iff_ahead hzero k)⟩⟩
    exact fun d' hd' => ⟨fun hless => eq_of_shorter hshort.x hd'.x hshort.halfX hless,
      fun hless => eq_of_shorter hshort.y hd'.y hshort.halfY hless⟩
  · have hzero : relative (displacement width height listener emitter) (turnRight dir) ≠ 0 :=
      relative_eq_zero.not.2 ((displacement_eq_zero h).not.2 hne)
    obtain ⟨k, hk, hin, hnumber⟩ := exists_sector h hne dir
    obtain ⟨k', hk', hin', hnumber'⟩ := exists_sector h hne (turnRight dir)
    have hturned := inSector_mul_I hin
    rw [← toComplex_relative_turnRight] at hturned
    have hsame := inSector_unique hzero hk' (Nat.mod_lt _ (by decide)) hin' hturned
    rw [hnumber, hnumber', hsame]
    omega

end Direction

/-- On a map of 5 by 4 tiles. -/
theorem broadcast_direction_sector_small : ToldSector 5 4 ⟨0, 0⟩ ⟨4, 1⟩ .north :=
  broadcast_direction_sector ⟨by decide, by decide⟩ .north

end Zappy
