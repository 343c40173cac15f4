import Mathlib.Data.List.Sort
import Mathlib.Data.Prod.Lex

namespace Scada.KeySorts

-- Sorting by a key, equal keys by the elements themselves.
variable {γ κ : Type} [LinearOrder γ] [LinearOrder κ] (key : γ → κ)

def Before (a b : γ) : Prop := key a < key b ∨ key a = key b ∧ a ≤ b

instance : DecidableRel (Before key) := fun _ _ => inferInstanceAs (Decidable (_ ∨ _))

theorem before_iff {a b : γ} : Before key a b ↔ toLex (key a,a) ≤ toLex (key b,b) :=
  (Prod.Lex.toLex_le_toLex (x := (key a,a)) (y := (key b,b))).symm

instance : Std.Total (Before key) where
  total a b := by simp only [before_iff]; exact le_total _ _

instance : IsTrans γ (Before key) where
  trans a b c := by simp only [before_iff]; exact le_trans

theorem before_antisymm {a b : γ} (one : Before key a b) (other : Before key b a) : a = b := by
  rw [before_iff] at one other
  exact congrArg (fun pair => (ofLex pair).2) (le_antisymm one other)

def keySort (elements : List γ) : List γ := elements.insertionSort (Before key)

@[simp] theorem mem_keySort {elements : List γ} {a : γ} : a ∈ keySort key elements ↔ a ∈ elements :=
  List.mem_insertionSort _

theorem keySort_perm (elements : List γ) : (keySort key elements).Perm elements := List.perm_insertionSort _ _

theorem keySort_sorted (elements : List γ) : (keySort key elements).Pairwise (Before key) :=
  List.pairwise_insertionSort _ _

theorem keySort_pairwise_iff {R : γ → γ → Prop} (refl : ∀ a, R a a) (elements : List γ) :
    (keySort key elements).Pairwise R ↔ ∀ a ∈ elements, ∀ b ∈ elements, Before key a b → R a b := by
  constructor
  · intro ordered
    have forwards : (keySort key elements).Pairwise fun a b => Before key a b → R a b :=
      List.Pairwise.imp (S := fun a b => Before key a b → R a b) (fun related _ => related) ordered
    have backwards : (keySort key elements).Pairwise fun a b => Before key b a → R b a :=
      (keySort_sorted key elements).imp fun one other => before_antisymm key one other ▸ refl _
    have all := List.Pairwise.forall_of_forall_of_flip (fun a _ _ => refl a) forwards backwards
    intro a left b right
    exact all ((mem_keySort key).mpr left) ((mem_keySort key).mpr right)
  · intro implied
    apply (keySort_sorted key elements).imp_of_mem
    intro a b left right before
    exact implied a ((mem_keySort key).mp left) b ((mem_keySort key).mp right) before

end Scada.KeySorts
