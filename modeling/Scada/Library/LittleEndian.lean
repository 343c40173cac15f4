import Mathlib.Data.Nat.Basic
import Mathlib.Tactic.Ring

namespace Scada.LittleEndian

-- The low bytes of a number, least significant first; missing bytes count as zero.
def encode : Nat → Nat → List UInt8
  | 0,_ => []
  | count+1,n => UInt8.ofNat n :: encode count (n/256)

def decode : List UInt8 → Nat
  | [] => 0
  | b::rest => b.toNat + 256*decode rest

@[simp] theorem encode_length (count n : Nat) : (encode count n).length = count := by
  induction count generalizing n with
  | zero => rfl
  | succ count ih => simp [encode,ih]

theorem decode_encode (count n : Nat) : decode (encode count n) = n % 256^count := by
  induction count generalizing n with
  | zero => simp [encode,decode,Nat.mod_one]
  | succ count ih =>
    have digit : (UInt8.ofNat n).toNat = n % 256 := by simp
    rw [encode,decode,ih,digit,Nat.pow_succ',Nat.mod_mul]

theorem decode_append (left right : List UInt8) : decode (left++right) = decode left+256^left.length*decode right := by
  induction left with
  | nil => simp [decode]
  | cons b left ih =>
    rw [List.cons_append,decode,ih,decode,List.length_cons]
    ring

theorem decode_replicate_zero (count : Nat) : decode (List.replicate count 0) = 0 := by
  induction count with
  | zero => rfl
  | succ count ih => simp [List.replicate_succ,decode,ih]

theorem word_roundtrip {count width : Nat} (fits : 256^count = 2^width) (word : BitVec width) :
    BitVec.ofNat width (decode (encode count word.toNat)) = word := by
  apply BitVec.eq_of_toNat_eq
  rw [decode_encode,fits,BitVec.toNat_ofNat,Nat.mod_mod,Nat.mod_eq_of_lt word.isLt]

def encodeAll (count : Nat) (fields : List Nat) : List UInt8 := fields.flatMap (encode count)

theorem encodeAll_length (count : Nat) (fields : List Nat) :
    (encodeAll count fields).length = count*fields.length := by
  induction fields with
  | nil => rfl
  | cons field rest ih =>
    have split : encodeAll count (field::rest) = encode count field++encodeAll count rest := rfl
    rw [split,List.length_append,encode_length,ih,List.length_cons]
    ring

theorem encodeAll_slice (count : Nat) (fields : List Nat) (i : Nat) (bound : i < fields.length) :
    ((encodeAll count fields).drop (count*i)).take count = encode count fields[i] := by
  induction fields generalizing i with
  | nil => simp at bound
  | cons field rest ih =>
    have split : encodeAll count (field::rest) = encode count field++encodeAll count rest := rfl
    cases i with
    | zero => simp [split]
    | succ i =>
      have past : (encode count field++encodeAll count rest).drop (count*(i+1)) = (encodeAll count rest).drop (count*i) := by
        rw [Nat.mul_succ,Nat.add_comm,← List.drop_drop]
        simp
      rw [split,past]
      exact ih i (by simpa using bound)

end Scada.LittleEndian
