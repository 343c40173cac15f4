import Mathlib.Data.List.Basic
import Mathlib.Logic.Function.Basic

namespace Scada.AppendStores

-- Texts under names that only grow; the first write to a name creates its text.
variable {ν α : Type} [DecidableEq ν]

abbrev Store (ν α : Type) := ν → Option (List α)

def append (store : Store ν α) (name : ν) (text : List α) : Store ν α :=
  Function.update store name (some ((store name).getD []++text))

def appendAll (store : Store ν α) (writes : List (ν × List α)) : Store ν α :=
  writes.foldl (fun store write => append store write.1 write.2) store

def written (name : ν) (writes : List (ν × List α)) : List (List α) := (writes.filter (·.1 = name)).map Prod.snd

@[simp] theorem append_own (store : Store ν α) (name : ν) (text : List α) :
    append store name text name = some ((store name).getD []++text) := Function.update_self ..

theorem append_other (store : Store ν α) {name other : ν} (text : List α) (apart : other ≠ name) :
    append store name text other = store other := Function.update_of_ne apart ..

theorem written_cons (name : ν) (write : ν × List α) (rest : List (ν × List α)) :
    written name (write::rest) = if write.1 = name then write.2::written name rest else written name rest := by
  by_cases own : write.1 = name <;> simp [written,own]

theorem appendAll_written (store : Store ν α) (writes : List (ν × List α)) (name : ν) : appendAll store writes name =
    if written name writes = [] then store name else some ((store name).getD []++(written name writes).flatten) := by
  induction writes generalizing store with
  | nil => rfl
  | cons write rest previous =>
    rw [show appendAll store (write::rest) = appendAll (append store write.1 write.2) rest from rfl,previous,written_cons]
    by_cases own : write.1 = name
    · subst own
      simp only [append_own,Option.getD_some,if_true,List.cons_ne_nil,if_false,List.flatten_cons,List.append_assoc]
      split
      · rename_i none
        rw [none,List.flatten_nil,List.append_nil]
      · rfl
    · rw [if_neg own,append_other store _ (Ne.symm own)]

end Scada.AppendStores
