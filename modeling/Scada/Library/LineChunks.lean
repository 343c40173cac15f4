import Mathlib.Data.List.Basic

namespace Scada.LineChunks

-- What fgets does with lines: chunks of at most `limit` items, ended early by a separator.
variable {α : Type}

@[elab_as_elim]
theorem chunks_induction {limit : Nat} (room : 0 < limit) {motive : List α → Prop}
    (short : ∀ line, line.length < limit → motive line)
    (long : ∀ line, ¬ line.length < limit → motive (line.drop limit) → motive line) (line : List α) : motive line := by
  induction size : line.length using Nat.strongRecOn generalizing line with
  | ind size previous =>
    subst size
    by_cases fits : line.length < limit
    · exact short line fits
    · have shorter : (line.drop limit).length < line.length := by
        rw [List.length_drop]
        omega
      exact long line fits (previous _ shorter _ rfl)

variable [DecidableEq α]

def readChunk (sep : α) : Nat → List α → List α × List α
  | 0,text => ([],text)
  | _+1,[] => ([],[])
  | limit+1,a::rest => if a = sep then ([a],rest) else ⟨a::(readChunk sep limit rest).1,(readChunk sep limit rest).2⟩

theorem readChunk_whole (sep : α) (limit : Nat) (text : List α) :
    (readChunk sep limit text).1++(readChunk sep limit text).2 = text := by
  induction limit generalizing text with
  | zero => rfl
  | succ limit previous =>
    cases text with
    | nil => rfl
    | cons a rest =>
      rw [readChunk]
      split
      · rfl
      · exact congrArg (a::·) (previous rest)

theorem readChunk_shorter (sep : α) {limit : Nat} (room : 0 < limit) {text : List α} (more : text ≠ []) :
    (readChunk sep limit text).2.length < text.length := by
  obtain ⟨limit,rfl⟩ := Nat.exists_eq_succ_of_ne_zero (Nat.pos_iff_ne_zero.mp room)
  cases text with
  | nil => exact absurd rfl more
  | cons a rest =>
    have whole := congrArg List.length (readChunk_whole sep limit rest)
    rw [List.length_append] at whole
    rw [readChunk,List.length_cons]
    split
    · exact Nat.lt_succ_self _
    · show (readChunk sep limit rest).2.length < rest.length+1
      omega

def Ending (sep : α) (ending : List α) : Prop := ∀ a ∈ ending.head?, a = sep

theorem readChunk_line {sep : α} {line ending : List α} (clean : sep ∉ line) (ends : Ending sep ending) (limit : Nat) :
    readChunk sep limit (line++ending) = if line.length < limit then (line++ending.take 1,ending.drop 1)
      else (line.take limit,line.drop limit++ending) := by
  induction limit generalizing line with
  | zero => simp [readChunk]
  | succ limit previous =>
    cases line with
    | nil =>
      cases ending with
      | nil => rfl
      | cons a rest => simp [readChunk,ends a rfl]
    | cons a rest =>
      simp only [List.mem_cons,not_or] at clean
      rw [List.cons_append,readChunk,if_neg (Ne.symm clean.1),previous clean.2]
      simp only [List.length_cons,Nat.succ_lt_succ_iff]
      split <;> rfl

end Scada.LineChunks
