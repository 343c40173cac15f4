import Scada.Historian.EventLog

namespace Scada.Historian
open Binary64 Decimals

variable {abi : Abi}

theorem fixed_congr {x y : ℚ} (sign : x < 0 ↔ y < 0) (same : nearest (x*1000000) = nearest (y*1000000)) : fixed x = fixed y := by
  have size : millionths x = millionths y := by
    unfold millionths
    by_cases negative : x < 0
    · rw [abs_of_neg negative,abs_of_neg (sign.mp negative),neg_mul,neg_mul,nearest_neg,nearest_neg,same]
    · rw [abs_of_nonneg (not_lt.mp negative),abs_of_nonneg (not_lt.mp (mt sign.mpr negative)),same]
  simp only [fixed,sign,size]

theorem sign_congr {x y gap : ℚ} (close : |y-x| < gap) (clear : x = 0 ∨ gap ≤ |x|) (zero : x = 0 → y = 0) : y < 0 ↔ x < 0 := by
  have near := abs_lt.mp close
  rcases clear with none | room
  · rw [none,zero none]
  · rcases le_or_gt 0 x with positive | negative
    · rw [abs_of_nonneg positive] at room
      exact ⟨fun less => by linarith,fun less => by linarith⟩
    · rw [abs_of_neg negative] at room
      exact ⟨fun _ => negative,fun _ => by linarith⟩

-- A factor this close to one leaves no trace on a whole number.
theorem double_scaled {c : ℚ} (close : |c-1| < 1/2^54) {k : ℤ} (small : |k| < 2^52) : double (k*c) = k := by
  have positive : ∀ n : ℤ, 0 < n → n < 2^52 → double (n*c) = n := by
    intro n some below
    have whole : (0 : ℚ) < n := by exact_mod_cast some
    apply double_int some below
    rw [show (n : ℚ)*c-n = n*(c-1) by ring,abs_mul,abs_of_pos whole,div_eq_mul_one_div]
    exact mul_lt_mul_of_pos_left close whole
  obtain ⟨low,high⟩ := abs_lt.mp small
  rcases lt_trichotomy k 0 with negative | rfl | some
  · have mirror := positive (-k) (by omega) (by omega)
    rw [Int.cast_neg,neg_mul,double_neg,neg_inj] at mirror
    exact mirror
  · simp [double,nearest]
  · exact positive k some high

theorem double_whole {k : ℤ} (small : |k| < 2^52) : double k = k := by
  simpa using double_scaled (c := 1) (by norm_num) small

theorem double_millionth : double (1/1000000) = 4722366482869645/2^72 := by decide +kernel

theorem time_zero {tv : Timeval abi} (micros : |tv.tvUsec.toInt| ≤ 2^31) (zero : tv.tvSec.toInt*1000000+tv.tvUsec.toInt = 0) :
    time double tv = 0 := by
  obtain ⟨low,high⟩ := abs_le.mp micros
  have small : |tv.tvSec.toInt| < 2^52 := abs_lt.mpr ⟨by omega,by omega⟩
  have fraction : (tv.tvUsec.toInt : ℚ)*double (1/1000000) = ((-tv.tvSec.toInt : ℤ) : ℚ)*(4722366482869645*1000000/2^72) := by
    rw [double_millionth,show tv.tvUsec.toInt = -tv.tvSec.toInt*1000000 by omega]
    push_cast
    ring
  rw [time,double_whole small,double_whole (abs_lt.mpr ⟨by omega,by omega⟩),fraction,
    double_scaled (by norm_num [abs_lt]) (by rwa [abs_neg])]
  simp [double,nearest]

theorem word_size (long : BitVec Abi.ilp32.long) : |long.toInt| ≤ 2^31 := abs_le.mpr ⟨long.le_toInt,long.toInt_lt.le⟩

theorem fixed_time {tv : Timeval abi} (seconds : |tv.tvSec.toInt| ≤ 2^31) (micros : |tv.tvUsec.toInt| ≤ 2^31) :
    fixed (time double tv) = fixed (time id tv) := by
  have exact_ : time id tv*1000000 = ((tv.tvSec.toInt*1000000+tv.tvUsec.toInt : ℤ) : ℚ) := by
    simp only [time,id_eq]
    push_cast
    ring
  have error : |time double tv*1000000-time id tv*1000000| < 1/2 := by
    rw [exact_]
    push_cast
    exact time_error (by exact_mod_cast seconds) (by exact_mod_cast micros)
  apply fixed_congr
  · have scaled : time double tv*1000000 < 0 ↔ time id tv*1000000 < 0 := by
      refine sign_congr error ?_ ?_
      · rw [exact_]
        rcases eq_or_ne (tv.tvSec.toInt*1000000+tv.tvUsec.toInt) 0 with none | some
        · exact .inl (by exact_mod_cast none)
        · have whole : (1 : ℚ) ≤ |((tv.tvSec.toInt*1000000+tv.tvUsec.toInt : ℤ) : ℚ)| := by
            exact_mod_cast Int.one_le_abs some
          exact .inr (by linarith)
      · intro none
        rw [exact_] at none
        rw [time_zero micros (by exact_mod_cast none),zero_mul]
    constructor <;> intro negative
    · have := scaled.mp (by linarith)
      linarith
    · have := scaled.mpr (by linarith)
      linarith
  · rw [exact_,nearest_eq (n := tv.tvSec.toInt*1000000+tv.tvUsec.toInt) (by rwa [← exact_]),
      nearest_eq (n := tv.tvSec.toInt*1000000+tv.tvUsec.toInt) (by norm_num)]

-- A word of A/D steps in millionths of a volt is a multiple of 1/819, and a
-- tie is a half of one away.
theorem volts_clear (n m : ℤ) : (1/1638 : ℚ) ≤ |(n : ℚ)*(5/4095)*1000000-m-1/2| := by
  have odd : 2*n*1000000-1638*m-819 ≠ 0 := by omega
  have whole : (1 : ℚ) ≤ |((2*n*1000000-1638*m-819 : ℤ) : ℚ)| := by exact_mod_cast Int.one_le_abs odd
  have same : (n : ℚ)*(5/4095)*1000000-m-1/2 = ((2*n*1000000-1638*m-819 : ℤ) : ℚ)/1638 := by
    push_cast
    ring
  rw [same,abs_div,abs_of_pos (show (0 : ℚ) < 1638 by norm_num)]
  gcongr

theorem volts_error (adcVal : Word) :
    |adcToVolts double adcVal*1000000-adcToVolts id adcVal*1000000| < 1/1638 := by
  have low := adcVal.le_toInt
  have high := adcVal.toInt_lt
  generalize steps : adcVal.toInt = n at low high
  have small : |(n : ℚ)| ≤ 2^31 := by
    rw [abs_le]
    constructor
    · exact_mod_cast low
    · exact_mod_cast high.le
  simp only [adcToVolts,id_eq,steps]
  rw [double_whole (abs_lt.mpr ⟨by omega,by omega⟩)]
  have step : |double (5/4095)-5/4095| ≤ 5/4095/2^53 := double_close (abs_of_pos (by norm_num)).le
  generalize double (5/4095) = q at step ⊢
  have scaled : |(n : ℚ)*q-n*(5/4095)| ≤ 2^31*(5/4095/2^53) := by
    rw [← mul_sub,abs_mul]
    gcongr
  have size : |(n : ℚ)*q| ≤ 2622081 := by
    have exact_ : |(n : ℚ)*(5/4095)| ≤ 2^31*(5/4095) := by
      rw [abs_mul,abs_of_pos (show (0 : ℚ) < 5/4095 by norm_num)]
      gcongr
    have := abs_sub_abs_le_abs_sub ((n : ℚ)*q) (n*(5/4095))
    linarith
  have product := double_close size
  rw [← sub_mul,abs_mul,abs_of_pos (show (0 : ℚ) < 1000000 by norm_num)]
  have total := abs_sub_le (double ((n : ℚ)*q)) (n*q) (n*(5/4095))
  linarith

theorem fixed_volts (adcVal : Word) : fixed (adcToVolts double adcVal) = fixed (adcToVolts id adcVal) := by
  have error := volts_error adcVal
  have steps : adcToVolts id adcVal*1000000 = adcVal.toInt*(5/4095)*1000000 := rfl
  apply fixed_congr
  · have scaled : adcToVolts double adcVal*1000000 < 0 ↔ adcToVolts id adcVal*1000000 < 0 := by
      refine sign_congr error ?_ ?_
      · rw [steps]
        rcases eq_or_ne adcVal.toInt 0 with none | some
        · exact .inl (by rw [none]; norm_num)
        · have whole : (1 : ℚ) ≤ |(adcVal.toInt : ℚ)| := by exact_mod_cast Int.one_le_abs some
          right
          rw [mul_assoc,abs_mul,abs_of_pos (show (0 : ℚ) < 5/4095*1000000 by norm_num)]
          linarith
      · intro none
        have zero : adcVal.toInt = 0 := by
          have : (adcVal.toInt : ℚ) = 0 := by linarith [steps ▸ none]
          exact_mod_cast this
        simp [adcToVolts,zero,double,nearest]
    constructor <;> intro negative
    · have := scaled.mp (by linarith)
      linarith
    · have := scaled.mpr (by linarith)
      linarith
  · exact nearest_stable (fun m => steps ▸ volts_clear adcVal.toInt m) error

theorem logLine_exact (event : Status abi)
    (clock : abi = .ilp32 ∨ |event.eventTv.tvSec.toInt| ≤ 2^31 ∧ |event.eventTv.tvUsec.toInt| ≤ 2^31) :
    logLine double event = logLine id event := by
  have fits : |event.eventTv.tvSec.toInt| ≤ 2^31 ∧ |event.eventTv.tvUsec.toInt| ≤ 2^31 := by
    rcases clock with rfl | fits
    · exact ⟨word_size _,word_size _⟩
    · exact fits
  simp only [logLine,logFields,fixed_time fits.1 fits.2,fixed_volts]

theorem logLine_exact_lp64 :
    let event : Status .lp64 := ⟨1,![1,1,0],![0,0],555,⟨1493739115,250000⟩,RtuEvent.btn1Falling.code⟩
    logLine double event = logLine id event := logLine_exact _ (.inr ⟨by decide,by decide⟩)

end Scada.Historian
