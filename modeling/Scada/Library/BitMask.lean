import Mathlib.Algebra.Group.Nat.Defs

namespace Scada.BitMasks

-- One bit of a word: `mask i` is C's `1 << i` in the word's own width.
variable {width : Nat}

def mask (i : Nat) : BitVec width := BitVec.ofNat width 1 <<< i

theorem mask_eq (i : Nat) : (mask i : BitVec width) = BitVec.twoPow width i := (BitVec.twoPow_eq width i).symm

@[simp] theorem mask_getLsbD (i j : Nat) : (mask i : BitVec width).getLsbD j = (decide (i < width) && decide (i = j)) := by
  rw [mask_eq,BitVec.getLsbD_twoPow]

theorem and_mask_ne_zero {word : BitVec width} {i : Nat} (bound : i < width) :
    word &&& mask i ≠ 0 ↔ word.getLsbD i = true := by
  have nonzero : BitVec.twoPow width i ≠ BitVec.ofNat width 0 := by
    intro zero
    have bit := congrArg (·.getLsbD i) zero
    simp [bound] at bit
  rw [mask_eq,BitVec.and_twoPow]
  split
  · rename_i set; exact ⟨fun _ => set,fun _ => nonzero⟩
  · rename_i clear; exact ⟨fun contradiction => absurd rfl contradiction,fun set => absurd set clear⟩

theorem and_not_mask {word : BitVec width} {i : Nat} (set : word.getLsbD i = true) :
    word &&& ~~~mask i = word ^^^ mask i := by
  apply BitVec.eq_of_getLsbD_eq
  intro j bound
  by_cases same : i = j
  · subst same; simp only [BitVec.getLsbD_and,BitVec.getLsbD_not,BitVec.getLsbD_xor,mask_getLsbD,set,bound]; rfl
  · simp only [BitVec.getLsbD_and,BitVec.getLsbD_not,BitVec.getLsbD_xor,mask_getLsbD,same,bound]; simp

theorem or_mask {word : BitVec width} {i : Nat} (clear : word.getLsbD i = false) :
    word ||| mask i = word ^^^ mask i := by
  apply BitVec.eq_of_getLsbD_eq
  intro j bound
  by_cases same : i = j
  · subst same; simp only [BitVec.getLsbD_or,BitVec.getLsbD_xor,mask_getLsbD,clear,bound]; rfl
  · simp only [BitVec.getLsbD_or,BitVec.getLsbD_xor,mask_getLsbD,same]; simp

theorem or_mask_getLsbD {word : BitVec width} {i : Nat} (bound : i < width) (j : Nat) :
    (word ||| mask i).getLsbD j = (word.getLsbD j || decide (i = j)) := by simp [bound]

theorem and_not_mask_getLsbD (word : BitVec width) (i j : Nat) :
    (word &&& ~~~mask i).getLsbD j = (word.getLsbD j && !decide (i = j)) := by
  by_cases inside : j < width
  · by_cases same : i = j
    · subst same; simp only [BitVec.getLsbD_and,BitVec.getLsbD_not,mask_getLsbD,inside]; simp
    · simp only [BitVec.getLsbD_and,BitVec.getLsbD_not,mask_getLsbD,inside,same]; simp
  · simp [BitVec.getLsbD_of_ge word j (by omega)]

theorem xor_mask_same {word : BitVec width} {i : Nat} (bound : i < width) :
    (word ^^^ mask i).getLsbD i = !word.getLsbD i := by
  simp only [BitVec.getLsbD_xor,mask_getLsbD,bound]; simp

theorem xor_mask_other {word : BitVec width} {i j : Nat} (other : i ≠ j) :
    (word ^^^ mask i).getLsbD j = word.getLsbD j := by simp [other]

theorem low_getLsbD (count j : Nat) :
    (BitVec.ofNat width (2^count-1)).getLsbD j = (decide (j < width) && decide (j < count)) := by
  simp [BitVec.getLsbD_ofNat,Nat.testBit_two_pow_sub_one]

theorem and_not_low_below {word : BitVec width} (count : Nat) {j : Nat} (below : j < count) :
    (word &&& ~~~BitVec.ofNat width (2^count-1)).getLsbD j = false := by
  simp only [BitVec.getLsbD_and,BitVec.getLsbD_not,low_getLsbD,below]
  cases bound : decide (j < width) <;> simp

theorem and_not_low_above {word : BitVec width} (count : Nat) {j : Nat} (above : count ≤ j) :
    (word &&& ~~~BitVec.ofNat width (2^count-1)).getLsbD j = word.getLsbD j := by
  have outside : ¬ j < count := by omega
  simp only [BitVec.getLsbD_and,BitVec.getLsbD_not,low_getLsbD,outside]
  by_cases bound : j < width
  · simp [bound]
  · simp [BitVec.getLsbD_of_ge word j (by omega)]

end Scada.BitMasks
