import Mathlib.Algebra.Group.Nat.Even
import Mathlib.Data.List.Infix

namespace Scada.Alternations

-- `a`, `b`, `a`, `b`, ... : the first `n` terms.
variable {γ : Type}

def alternation (a b : γ) : Nat → List γ
  | 0 => []
  | n+1 => a::alternation b a n

theorem alternation_succ (a b : γ) (n : Nat) :
    alternation a b (n+1) = alternation a b n++[if n % 2 = 0 then a else b] := by
  induction n generalizing a b with
  | zero => rfl
  | succ n ih =>
    rw [alternation,ih b a,alternation,List.cons_append]
    rcases Nat.mod_two_eq_zero_or_one n with even | odd
    · have next : (n+1) % 2 ≠ 0 := by omega
      simp only [if_pos even,if_neg next]
    · have here : n % 2 ≠ 0 := by omega
      have next : (n+1) % 2 = 0 := by omega
      simp only [if_neg here,if_pos next]

theorem alternation_chain {a b : γ} (distinct : a ≠ b) (n : Nat) : (alternation a b n).IsChain (· ≠ ·) := by
  induction n generalizing a b with
  | zero => exact .nil
  | succ n ih =>
    cases n with
    | zero => exact .singleton _
    | succ n => exact .cons_cons distinct (ih distinct.symm)

end Scada.Alternations
