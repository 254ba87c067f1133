import ScanCriteria.Json.Value

/-!
# Whole numbers as doubles

Every JSON number denotes a finite double: an integer of sixty-four bits lies far below the largest
double, and what it is rounded to does so as well.
-/
namespace ScanCriteria

theorem roundDiv_le (num den : Nat) : roundDiv num den ≤ num / den + 1 := by
  unfold roundDiv
  dsimp only
  split
  · omega
  · split <;> omega

theorem floorLog2_whole {n : Nat} (hn : n ≠ 0) : floorLog2 n 1 = (Nat.log2 n : Int) := by
  have h : 2 ^ Nat.log2 n ≤ n := Nat.log2_self_le hn
  have h1 : Nat.log2 1 = 0 := by decide
  simp [floorLog2, reachesPower, h1, Nat.one_shiftLeft, h]

namespace Double

theorem magnitude_ofMagnitude (negative : Bool) {m : Nat} (h : m < 1 <<< 63) :
    (ofMagnitude negative m).magnitude = m := by
  simp only [Nat.one_shiftLeft] at h
  cases negative <;>
    simp only [magnitude, ofMagnitude, UInt64.toNat_ofNat', Bool.false_eq_true, if_false, if_true,
      Nat.one_shiftLeft] <;>
    omega

theorem isFinite_ofMagnitude (negative : Bool) {m : Nat} (h : m < infiniteMagnitude) :
    (ofMagnitude negative m).isFinite = true := by
  have hm : m < 1 <<< 63 := by
    rw [infiniteMagnitude] at h
    omega
  simpa [isFinite, magnitude_ofMagnitude negative hm] using h

/-- A large whole number has at most fifty-three bits after rounding. -/
theorem roundDiv_large {n : Nat} (h : 52 ≤ Nat.log2 n) :
    roundDiv n (1 <<< (Nat.log2 n - 52)) ≤ 1 <<< 53 := by
  simp only [Nat.one_shiftLeft]
  have hlt : n < 2 ^ 53 * 2 ^ (Nat.log2 n - 52) := by
    rw [← Nat.pow_add, show 53 + (Nat.log2 n - 52) = Nat.log2 n + 1 by omega]
    exact Nat.lt_log2_self
  have hd := (Nat.div_lt_iff_lt_mul (Nat.two_pow_pos (Nat.log2 n - 52))).mpr hlt
  have hr := roundDiv_le n (2 ^ (Nat.log2 n - 52))
  omega

theorem roundDiv_small {n : Nat} (h : Nat.log2 n < 52) :
    roundDiv (n <<< (52 - Nat.log2 n)) 1 ≤ 1 <<< 53 := by
  simp only [Nat.shiftLeft_eq]
  have hlt : n * 2 ^ (52 - Nat.log2 n) < 2 ^ 53 := by
    calc n * 2 ^ (52 - Nat.log2 n)
        < 2 ^ (Nat.log2 n + 1) * 2 ^ (52 - Nat.log2 n) :=
          Nat.mul_lt_mul_of_pos_right Nat.lt_log2_self (Nat.two_pow_pos _)
      _ = 2 ^ 53 := by rw [← Nat.pow_add, show Nat.log2 n + 1 + (52 - Nat.log2 n) = 53 by omega]
  have hr := roundDiv_le (n * 2 ^ (52 - Nat.log2 n)) 1
  rw [Nat.div_one] at hr
  omega

theorem isFinite_nearest_whole (negative : Bool) {n : Nat} (h : n < 1 <<< 64) :
    (nearest negative n 1).isFinite = true := by
  by_cases hn : n = 0
  · subst hn
    cases negative <;> decide
  · have hl : Nat.log2 n < 64 := (Nat.log2_lt hn).mpr h
    have hu : max ((Nat.log2 n : Int) - 52) (-1074) = (Nat.log2 n : Int) - 52 := by omega
    simp only [nearest, hn, if_false, floorLog2_whole hn, hu]
    apply isFinite_ofMagnitude
    rw [infiniteMagnitude]
    by_cases hb : 52 ≤ Nat.log2 n
    · have hq := roundDiv_large hb
      have h0 : (0 : Int) ≤ (Nat.log2 n : Int) - 52 := by omega
      have ht : ((Nat.log2 n : Int) - 52).toNat = Nat.log2 n - 52 := by omega
      simp only [h0, if_true, ht]
      omega
    · have hq := roundDiv_small (by omega : Nat.log2 n < 52)
      have h0 : ¬(0 : Int) ≤ (Nat.log2 n : Int) - 52 := by omega
      have ht : (-((Nat.log2 n : Int) - 52)).toNat = 52 - Nat.log2 n := by omega
      simp only [h0, if_false, ht]
      omega

theorem isFinite_ofInt {i : Int} (h : -(1 <<< 63 : Nat) ≤ i ∧ i < (1 <<< 64 : Nat)) :
    (ofInt i).isFinite = true :=
  isFinite_nearest_whole _ (by omega)

end Double

theorem Json.Number.isFinite_toDouble (n : Json.Number) : n.toDouble.isFinite = true := by
  cases n with
  | integer i fits => exact Double.isFinite_ofInt fits
  | real x finite => exact finite

end ScanCriteria
