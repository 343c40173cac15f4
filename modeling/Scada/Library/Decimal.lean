import Mathlib.Tactic.Ring
import Scada.Library.Binary64

namespace Scada.Decimals
open Binary64

-- printf's `%d`, and its `%lf` of the exact value of a double: sign, integer
-- digits and six decimals, rounded to the nearest.
def decimal (n : Int) : List Char := (if n < 0 then ['-'] else [])++Nat.toDigits 10 n.natAbs

def padded (width n : Nat) : List Char :=
  List.replicate (width-(Nat.toDigits 10 n).length) '0'++Nat.toDigits 10 n

def millionths (x : ℚ) : Nat := (nearest (|x| * 1000000)).toNat

def fixed (x : ℚ) : List Char :=
  (if x < 0 then ['-'] else [])++Nat.toDigits 10 (millionths x/1000000)++ '.'::padded 6 (millionths x % 1000000)

-- The number that a text begins with, as sort -n reads it: blanks, a minus
-- sign, digits and a fraction; a text without one counts as zero.
def magnitude (text : List Char) : ℚ :=
  let whole : ℚ := Nat.ofDigitChars 10 (text.takeWhile Char.isDigit) 0
  match text.dropWhile Char.isDigit with
  | '.'::rest =>
    let fraction := rest.takeWhile Char.isDigit
    whole+Nat.ofDigitChars 10 fraction 0/10^fraction.length
  | _ => whole

def isblank (c : Char) : Bool := c == ' ' || c == '\t'

def numeric (text : List Char) : ℚ := match text.dropWhile isblank with
  | '-'::rest => -magnitude rest
  | rest => magnitude rest

def isspace (c : Char) : Bool := c == ' ' || ('\t' ≤ c && c ≤ '\r')

-- atoi, by way of a strtol whose long has so many bits: blanks, a sign, digits.
def atoi (long : Nat) (text : List Char) : Int :=
  let value (digits : List Char) : Int := Nat.ofDigitChars 10 (digits.takeWhile Char.isDigit) 0
  let number := match text.dropWhile isspace with
    | '-'::rest => -value rest
    | '+'::rest => value rest
    | rest => value rest
  max (-2^(long-1)) (min (2^(long-1)-1) number)

def Stops (text : List Char) : Prop := text.takeWhile Char.isDigit = [] ∧ text.head? ≠ some '.'

theorem digits_digits (n : Nat) : ∀ c ∈ Nat.toDigits 10 n, c.isDigit = true :=
  fun _ member => Nat.isDigit_of_mem_toDigits (by decide) (by decide) member

theorem magnitude_digits (n : Nat) {rest : List Char} (stops : Stops rest) :
    magnitude (Nat.toDigits 10 n++rest) = n := by
  obtain ⟨none,point⟩ := stops
  have whole : (Nat.toDigits 10 n++rest).takeWhile Char.isDigit = Nat.toDigits 10 n := by
    rw [List.takeWhile_append_of_pos (digits_digits n),none,List.append_nil]
  have left : (Nat.toDigits 10 n++rest).dropWhile Char.isDigit = rest := by
    rw [List.dropWhile_append_of_pos (digits_digits n)]
    have split := List.takeWhile_append_dropWhile (p := Char.isDigit) (l := rest)
    rwa [none] at split
  simp only [magnitude,whole,left,Nat.ofDigitChars_ten_toDigits]
  split
  · rename_i later
    exact absurd rfl point
  · rfl

theorem magnitude_fraction (n : Nat) {fraction rest : List Char} (digits : ∀ c ∈ fraction, c.isDigit = true)
    (none : rest.takeWhile Char.isDigit = []) :
    magnitude (Nat.toDigits 10 n++ '.'::(fraction++rest)) = n+Nat.ofDigitChars 10 fraction 0/10^fraction.length := by
  have whole : (Nat.toDigits 10 n++ '.'::(fraction++rest)).takeWhile Char.isDigit = Nat.toDigits 10 n := by
    rw [List.takeWhile_append_of_pos (digits_digits n)]; simp
  have left : (Nat.toDigits 10 n++ '.'::(fraction++rest)).dropWhile Char.isDigit = '.'::(fraction++rest) := by
    rw [List.dropWhile_append_of_pos (digits_digits n)]; rfl
  have point : (fraction++rest).takeWhile Char.isDigit = fraction := by
    rw [List.takeWhile_append_of_pos digits,none,List.append_nil]
  simp only [magnitude,whole,left,point,Nat.ofDigitChars_ten_toDigits]

theorem digits_head (n : Nat) (rest : List Char) : ∃ c later, Nat.toDigits 10 n++rest = c::later ∧ c.isDigit = true := by
  cases digits : Nat.toDigits 10 n with
  | nil => exact absurd digits Nat.toDigits_ne_nil
  | cons c later => exact ⟨c,later++rest,rfl,digits_digits n c (by simp [digits])⟩

theorem numeric_unsigned (n : Nat) (rest : List Char) :
    numeric (Nat.toDigits 10 n++rest) = magnitude (Nat.toDigits 10 n++rest) := by
  obtain ⟨c,later,split,digit⟩ := digits_head n rest
  have blank : ¬ isblank c = true := by
    intro same
    rw [isblank,Bool.or_eq_true,beq_iff_eq,beq_iff_eq] at same
    rcases same with rfl | rfl <;> exact absurd digit (by decide)
  have sign : c ≠ '-' := by rintro rfl; exact absurd digit (by decide)
  rw [split,numeric,List.dropWhile_cons_of_neg blank]
  split
  · rename_i other same
    cases same
    exact absurd rfl sign
  · rfl

theorem numeric_point (s u : ℕ) : numeric (Nat.toDigits 10 s++ '.'::Nat.toDigits 10 u) = s+u/10^(Nat.toDigits 10 u).length := by
  have fraction := magnitude_fraction s (digits_digits u) (show [].takeWhile Char.isDigit = [] from rfl)
  rw [List.append_nil,Nat.ofDigitChars_ten_toDigits] at fraction
  rw [numeric_unsigned,fraction]

theorem numeric_negative (rest : List Char) : numeric ('-'::rest) = -magnitude rest := rfl

theorem numeric_decimal (n : Int) {rest : List Char} (stops : Stops rest) : numeric (decimal n++rest) = n := by
  unfold decimal
  split
  · rename_i negative
    rw [List.append_assoc,List.singleton_append,numeric_negative,magnitude_digits _ stops]
    have size : (n.natAbs : Int) = -n := by omega
    rw [← Int.cast_natCast,size,Int.cast_neg,neg_neg]
  · rename_i positive
    rw [List.nil_append,numeric_unsigned,magnitude_digits _ stops]
    have size : (n.natAbs : Int) = n := by omega
    rw [← Int.cast_natCast,size]

theorem padded_digits (width n : Nat) : ∀ c ∈ padded width n, c.isDigit = true := by
  intro c member
  rcases List.mem_append.mp member with zero | digit
  · rw [List.eq_of_mem_replicate zero]; decide
  · exact digits_digits n c digit

theorem padded_value (width n : Nat) : Nat.ofDigitChars 10 (padded width n) 0 = n := by
  rw [padded,Nat.ofDigitChars_append,Nat.ofDigitChars_replicate_zero,Nat.mul_zero,Nat.ofDigitChars_ten_toDigits]

theorem padded_length {n : Nat} (small : n < 10^6) : (padded 6 n).length = 6 := by
  have short := (Nat.length_toDigits_le_iff (n := n) (k := 6) (by decide : 1 < 10) (by decide)).mpr small
  simp only [padded,List.length_append,List.length_replicate]
  omega

theorem fraction_length (x : ℚ) : (padded 6 (millionths x % 1000000)).length = 6 := padded_length (Nat.mod_lt _ (by decide))

theorem millionths_eq (x : ℚ) : (millionths x : ℤ) = nearest (|x| * 1000000) :=
  Int.toNat_of_nonneg (nearest_nonneg (by positivity))

theorem numeric_fixed (x : ℚ) {rest : List Char} (none : rest.takeWhile Char.isDigit = []) :
    numeric (fixed x++rest) = nearest (x*1000000)/1000000 := by
  have value : magnitude (Nat.toDigits 10 (millionths x/1000000)++ '.'::(padded 6 (millionths x % 1000000)++rest)) =
      (millionths x : ℚ)/1000000 := by
    have short := fraction_length x
    rw [magnitude_fraction _ (padded_digits _ _) none,padded_value,short]
    have whole := Nat.div_add_mod (millionths x) 1000000
    have cast : (millionths x : ℚ) = 1000000*((millionths x/1000000 : Nat) : ℚ)+((millionths x % 1000000 : Nat) : ℚ) := by
      exact_mod_cast whole.symm
    rw [cast]
    ring
  have size := congrArg (fun n : ℤ => (n : ℚ)) (millionths_eq x)
  simp only [Int.cast_natCast] at size
  unfold fixed
  split
  · rename_i negative
    rw [List.append_assoc,List.append_assoc,List.singleton_append,List.cons_append,numeric_negative,value,size,
      abs_of_neg negative,neg_mul,nearest_neg,Int.cast_neg]
    ring
  · rename_i positive
    rw [List.nil_append,List.append_assoc,List.cons_append,numeric_unsigned,value,size,
      abs_of_nonneg (not_lt.mp positive)]

theorem mem_decimal {n : Int} {c : Char} (member : c ∈ decimal n) : c = '-' ∨ c.isDigit = true := by
  rcases List.mem_append.mp member with sign | digit
  · split at sign
    · exact .inl (List.mem_singleton.mp sign)
    · cases sign
  · exact .inr (digits_digits _ c digit)

theorem decimal_clean (n : Int) {c : Char} (apart : c ≠ '-' ∧ c.isDigit = false) : c ∉ decimal n := by
  intro member
  rcases mem_decimal member with sign | digit
  · exact apart.1 sign
  · rw [apart.2] at digit
    cases digit

theorem decimal_injective : Function.Injective decimal := by
  intro m n same
  have ends : Stops [] := ⟨rfl,nofun⟩
  have number := congrArg (fun text => numeric (text++[])) same
  simp only [numeric_decimal _ ends] at number
  exact_mod_cast number

theorem nearest_of_fixed {x y : ℚ} (same : fixed x = fixed y) : nearest (x*1000000) = nearest (y*1000000) := by
  have number := congrArg (fun text => numeric (text++[])) same
  simp only [numeric_fixed _ (show [].takeWhile Char.isDigit = [] from rfl)] at number
  rw [div_left_inj' (by norm_num)] at number
  exact_mod_cast number

theorem millionths_lt {x : ℚ} {bound : Nat} (small : |x| * 1000000+1/2 < bound) : millionths x < bound := by
  have error := abs_le.mp (nearest_error (|x| * 1000000))
  rw [← millionths_eq,Int.cast_natCast] at error
  have below : (millionths x : ℚ) < bound := by linarith
  exact_mod_cast below

theorem sign_length (negative : Prop) [Decidable negative] : (if negative then ['-'] else []).length ≤ 1 := by
  split <;> simp

theorem digits_length {n count : Nat} (positive : 0 < count) (small : n < 10^count) : (Nat.toDigits 10 n).length ≤ count :=
  (Nat.length_toDigits_le_iff (by decide) positive).mpr small

theorem decimal_length {n : Int} {count : Nat} (positive : 0 < count) (small : n.natAbs < 10^count) :
    (decimal n).length ≤ count+1 := by
  have sign := sign_length (n < 0)
  have digits := digits_length positive small
  rw [decimal,List.length_append]
  omega

theorem fixed_length {x : ℚ} {count : Nat} (positive : 0 < count) (small : millionths x < 10^count*1000000) :
    (fixed x).length ≤ count+8 := by
  have sign := sign_length (x < 0)
  have whole := digits_length positive (Nat.div_lt_of_lt_mul (by rwa [Nat.mul_comm] : millionths x < 1000000*10^count))
  have point := fraction_length x
  rw [fixed,List.length_append,List.length_append,List.length_cons,point]
  omega

end Scada.Decimals
