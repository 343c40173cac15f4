import Mathlib.Data.List.Basic

namespace Scada.Delimited

-- Texts made of pieces, each ended by a separator; what follows the last is one more.
variable {α : Type}

def terminate (sep : α) (pieces : List (List α)) : List α := pieces.flatMap (·++[sep])

@[simp] theorem terminate_nil (sep : α) : terminate sep [] = [] := rfl

@[simp] theorem terminate_cons (sep : α) (piece : List α) (rest : List (List α)) :
    terminate sep (piece::rest) = piece++sep::terminate sep rest := by simp [terminate]

@[simp] theorem terminate_append (sep : α) (left right : List (List α)) :
    terminate sep (left++right) = terminate sep left++terminate sep right := List.flatMap_append

theorem mem_terminate {sep a : α} {pieces : List (List α)} (member : a ∈ terminate sep pieces) :
    a = sep ∨ ∃ piece ∈ pieces, a ∈ piece := by
  obtain ⟨piece,among,inside⟩ := List.mem_flatMap.mp member
  rcases List.mem_append.mp inside with own | last
  · exact Or.inr ⟨piece,among,own⟩
  · exact Or.inl (List.mem_singleton.mp last)

variable [DecidableEq α]

def pieces (sep : α) (text : List α) : List (List α) :=
  if (text.splitOn sep).getLast? = some [] then (text.splitOn sep).dropLast else text.splitOn sep

def upTo (sep : α) (text : List α) : List α := text.takeWhile (· ≠ sep)

def after (sep : α) (text : List α) : List α := (text.dropWhile (· ≠ sep)).drop 1

theorem splitOn_terminate {sep : α} {pieces : List (List α)} (clean : ∀ piece ∈ pieces, sep ∉ piece) {last : List α}
    (unended : sep ∉ last) : (terminate sep pieces++last).splitOn sep = pieces++[last] := by
  induction pieces with
  | nil => exact List.splitOn_eq_singleton unended
  | cons piece rest previous =>
    rw [terminate_cons,List.append_assoc,List.cons_append,
      List.splitOn_append_cons_self_of_not_mem (clean piece (by simp))]
    rw [previous fun other member => clean other (by simp [member]),List.cons_append]

theorem pieces_append {sep : α} {parts : List (List α)} (clean : ∀ piece ∈ parts, sep ∉ piece) {last : List α}
    (unended : sep ∉ last) : pieces sep (terminate sep parts++last) = parts++if last = [] then [] else [last] := by
  rw [pieces,splitOn_terminate clean unended]
  by_cases ended : last = []
  · simp [ended]
  · simp [ended]

theorem pieces_terminate {sep : α} {parts : List (List α)} (clean : ∀ piece ∈ parts, sep ∉ piece) :
    pieces sep (terminate sep parts) = parts := by
  simpa using pieces_append clean (List.not_mem_nil (a := sep))

theorem exists_pieces (sep : α) (text : List α) : ∃ parts last,
    (∀ piece ∈ parts, sep ∉ piece) ∧ sep ∉ last ∧ text = terminate sep parts++last := by
  induction text with
  | nil => exact ⟨[],[],by simp⟩
  | cons a rest previous =>
    obtain ⟨parts,last,clean,unended,rfl⟩ := previous
    by_cases ends : a = sep
    · subst ends
      exact ⟨[]::parts,last,by simpa using clean,unended,by simp⟩
    · cases parts with
      | nil => exact ⟨[],a::last,by simp,by simp [unended,Ne.symm ends],by simp⟩
      | cons piece others =>
        simp only [List.forall_mem_cons] at clean
        refine ⟨(a::piece)::others,last,?_,unended,by simp⟩
        simpa [Ne.symm ends,clean.1] using clean.2

theorem terminate_injective {sep : α} {left right : List (List α)} (clean : ∀ piece ∈ left, sep ∉ piece)
    (clean' : ∀ piece ∈ right, sep ∉ piece) (same : terminate sep left = terminate sep right) : left = right := by
  rw [← pieces_terminate clean,same,pieces_terminate clean']

theorem upTo_append {sep : α} {piece : List α} (clean : sep ∉ piece) (rest : List α) : upTo sep (piece++sep::rest) = piece := by
  rw [upTo,List.takeWhile_append_of_pos]
  · simp
  · intro a member
    exact decide_eq_true fun same => clean (same ▸ member)

theorem after_append {sep : α} {piece : List α} (clean : sep ∉ piece) (rest : List α) : after sep (piece++sep::rest) = rest := by
  rw [after,List.dropWhile_append_of_pos]
  · simp
  · intro a member
    exact decide_eq_true fun same => clean (same ▸ member)

end Scada.Delimited
