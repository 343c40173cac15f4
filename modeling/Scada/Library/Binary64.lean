import Mathlib.Data.Int.Log
import Mathlib.Data.Rat.Floor
import Mathlib.Algebra.Order.Floor.Ring
import Mathlib.Tactic.Linarith
import Mathlib.Tactic.Positivity
import Mathlib.Tactic.NormNum

namespace Scada.Binary64

-- The nearest integer, the even one of two.
def nearest (x : ℚ) : ℤ := if x-⌊x⌋ < 1/2 ∨ x-⌊x⌋ = 1/2 ∧ ⌊x⌋ % 2 = 0 then ⌊x⌋ else ⌊x⌋+1

-- A double of C, as its exact value: 53 significant bits. Values near the ends
-- of the exponent range are out of scope.
def double (x : ℚ) : ℚ :=
  let unit : ℚ := 2^(Int.log 2 |x|-52)
  nearest (x/unit)*unit

theorem nearest_error (x : ℚ) : |(nearest x : ℚ)-x| ≤ 1/2 := by
  have below := Int.floor_le x
  have above := Int.lt_floor_add_one x
  unfold nearest
  split
  · rename_i low
    have half : x-⌊x⌋ ≤ 1/2 := low.elim le_of_lt fun tie => tie.1.le
    rw [abs_le]
    constructor <;> linarith
  · rename_i high
    have half : 1/2 ≤ x-⌊x⌋ := le_of_not_gt fun less => high (Or.inl less)
    rw [abs_le]
    push_cast
    constructor <;> linarith

theorem nearest_even {x : ℚ} (tie : |(nearest x : ℚ)-x| = 1/2) : nearest x % 2 = 0 := by
  have below := Int.floor_le x
  unfold nearest at tie ⊢
  split at tie
  · rename_i low
    rw [if_pos low]
    rcases low with less | ⟨-,even⟩
    · rw [abs_of_nonpos (by linarith)] at tie
      linarith
    · exact even
  · rename_i high
    rw [if_neg high]
    have above := Int.lt_floor_add_one x
    push_cast at tie
    rw [abs_of_pos (by linarith)] at tie
    have half : x-⌊x⌋ = 1/2 := by linarith
    have odd : ⌊x⌋ % 2 ≠ 0 := fun even => high (Or.inr ⟨half,even⟩)
    omega

theorem nearest_unique {x : ℚ} {n : ℤ} (close : |(n : ℚ)-x| ≤ 1/2) (even : |(n : ℚ)-x| = 1/2 → n % 2 = 0) :
    nearest x = n := by
  have error := nearest_error x
  by_contra other
  have apart : (1 : ℚ) ≤ |(nearest x : ℚ)-n| := by
    have := Int.one_le_abs (sub_ne_zero.mpr other)
    exact_mod_cast this
  have triangle : |(nearest x : ℚ)-n| ≤ |(nearest x : ℚ)-x|+|(n : ℚ)-x| := by
    have := abs_sub_le (nearest x : ℚ) x n
    rwa [abs_sub_comm x] at this
  have left : |(nearest x : ℚ)-x| = 1/2 := by linarith
  have right : |(n : ℚ)-x| = 1/2 := by linarith
  have one := nearest_even left
  have two := even right
  have near : |(nearest x : ℚ)-n| ≤ 1 := by linarith
  have near : |nearest x-n| ≤ 1 := by exact_mod_cast near
  rw [abs_le] at near
  omega

theorem nearest_eq {x : ℚ} {n : ℤ} (close : |x-n| < 1/2) : nearest x = n := by
  rw [abs_sub_comm] at close
  exact nearest_unique close.le fun tie => absurd tie close.ne

theorem nearest_neg (x : ℚ) : nearest (-x) = -nearest x := by
  have mirror : |((-nearest x : ℤ) : ℚ)- -x| = |(nearest x : ℚ)-x| := by
    rw [← abs_neg]
    congr 1
    push_cast
    ring
  refine nearest_unique (mirror ▸ nearest_error x) ?_
  intro tie
  have even := nearest_even (mirror ▸ tie)
  omega

theorem nearest_nonneg {x : ℚ} (positive : 0 ≤ x) : 0 ≤ nearest x := by
  have error := abs_le.mp (nearest_error x)
  by_contra negative
  have : (nearest x : ℚ) ≤ -1 := by exact_mod_cast (by omega : nearest x ≤ -1)
  linarith

theorem double_error (x : ℚ) : |double x-x| ≤ |x|/2^53 := by
  rcases eq_or_ne x 0 with rfl | nonzero
  · simp [double,nearest]
  · have size : 0 < |x| := abs_pos.mpr nonzero
    have unit : (2 : ℚ)^(Int.log 2 |x|-52)*2^52 ≤ |x| := by
      have low := Int.zpow_log_le_self (b := 2) (by decide) size
      rw [← zpow_natCast (2 : ℚ) 52,← zpow_add₀ (by norm_num)]
      norm_num at low ⊢
      exact low
    have positive : (0 : ℚ) < 2^(Int.log 2 |x|-52) := zpow_pos (by norm_num) _
    unfold double
    generalize (2 : ℚ)^(Int.log 2 |x|-52) = step at unit positive
    have scaled : (nearest (x/step) : ℚ)*step-x = (nearest (x/step)-x/step)*step := by
      rw [sub_mul,div_mul_cancel₀ _ positive.ne']
    rw [scaled,abs_mul,abs_of_pos positive]
    have error := mul_le_mul_of_nonneg_right (nearest_error (x/step)) positive.le
    rw [le_div_iff₀ (by norm_num)]
    linarith

theorem double_close {x bound : ℚ} (small : |x| ≤ bound) : |double x-x| ≤ bound/2^53 :=
  (double_error x).trans (by gcongr)

theorem double_neg (x : ℚ) : double (-x) = -double x := by
  simp only [double,abs_neg,neg_div,nearest_neg,Int.cast_neg,neg_mul]

theorem binade_int {x : ℚ} {k : ℤ} (positive : 0 < k) (small : k < 2^52) (close : |x-k| < k/2^54) :
    ∃ m : ℕ, m ≤ 53 ∧ Int.log 2 |x|-52 = (m : ℤ)-53 ∧ (k : ℚ) ≤ 2^m := by
  have whole : (1 : ℚ) ≤ k := by exact_mod_cast positive
  have below : (k : ℚ) < 2^52 := by exact_mod_cast small
  obtain ⟨left,right⟩ := abs_lt.mp close
  have some : 1/2 < x := by linarith
  rw [abs_of_pos (by linarith)]
  have low := Int.zpow_log_le_self (b := 2) (by decide) (show 0 < x by linarith)
  have high := Int.lt_zpow_succ_log_self (b := 2) (by decide) x
  push_cast at low high
  generalize Int.log 2 x = e at low high ⊢
  have above : -1 < e+1 := by
    rw [← zpow_lt_zpow_iff_right₀ (show (1 : ℚ) < 2 by norm_num)]
    exact lt_trans (by norm_num at some ⊢; exact some) high
  have under : e < 53 := by
    rw [← zpow_lt_zpow_iff_right₀ (show (1 : ℚ) < 2 by norm_num)]
    exact lt_of_le_of_lt low (by norm_num; linarith)
  obtain ⟨m,exponent⟩ := Int.eq_ofNat_of_zero_le (show 0 ≤ e+1 by omega)
  refine ⟨m,by omega,by omega,?_⟩
  rw [exponent] at high
  norm_cast at high ⊢
  by_contra beyond
  have next : ((2^m : ℕ) : ℚ)+1 ≤ k := by exact_mod_cast (not_le.mp beyond)
  linarith

theorem double_int {x : ℚ} {k : ℤ} (positive : 0 < k) (small : k < 2^52) (close : |x-k| < k/2^54) : double x = k := by
  obtain ⟨m,bound,exponent,room⟩ := binade_int positive small close
  have unit : (2 : ℚ)^(Int.log 2 |x|-52) = 1/2^(53-m) := by
    rw [exponent,one_div,← zpow_natCast,← zpow_neg]
    congr 1
    omega
  have split : (2 : ℚ)^m*2^(53-m) = 2^53 := by rw [← pow_add]; congr 1; omega
  have positive : (0 : ℚ) < 2^(53-m) := by positivity
  have rounded : nearest (x/(1/2^(53-m))) = k*2^(53-m) := by
    apply nearest_eq
    have scaled : x/(1/2^(53-m))-((k*2^(53-m) : ℤ) : ℚ) = (x-k)*2^(53-m) := by push_cast; field_simp
    rw [scaled,abs_mul,abs_of_pos positive]
    have error := mul_lt_mul_of_pos_right close positive
    have most := mul_le_mul_of_nonneg_right room positive.le
    rw [split] at most
    linarith
  rw [double,unit,rounded]
  push_cast
  field_simp

theorem nearest_stable {x y gap : ℚ} (clear : ∀ n : ℤ, gap ≤ |x-n-1/2|) (close : |y-x| < gap) : nearest y = nearest x := by
  apply nearest_eq
  have error := abs_le.mp (nearest_error x)
  have near := abs_lt.mp close
  have left := clear (nearest x)
  have right := clear (nearest x-1)
  push_cast at right
  rw [abs_lt]
  rw [abs_of_nonpos (by linarith)] at left
  rw [abs_of_nonneg (by linarith)] at right
  constructor <;> linarith

end Scada.Binary64
