import Scada.Historian.EventLog
import Scada.Library.LineChunks

namespace Scada.Historian
open Delimited LineChunks

abbrev Bytes := List UInt8

def byte (c : Char) : UInt8 := UInt8.ofNat c.toNat

def newline : UInt8 := byte '\n'

-- none: nothing has been read before the end of the stream.
def fgets (size : Nat) (stream : Bytes) : Option (Bytes × Bytes) :=
  if stream = [] then none else some (readChunk newline (size-1) stream)

inductive Command where
  | logView | exit
  deriving DecidableEq, Repr

def command (c : UInt8) : Option Command :=
  if c = byte 'l' ∨ c = byte 'L' then some .logView
  else if c = byte 'q' ∨ c = byte 'Q' then some .exit
  else none

theorem chunk_room : 0 < msgSize-1 := by decide

theorem fgets_shorter {stream cmdBuf rest : Bytes} (read : fgets msgSize stream = some (cmdBuf,rest)) :
    rest.length < stream.length := by
  unfold fgets at read
  split at read
  · cases read
  · rename_i more
    have shorter := readChunk_shorter newline chunk_room more
    rwa [Option.some.inj read] at shorter

def obey (position : Nat) : Option Command → List (Nat × Command) → List (Nat × Command)
  | some .logView,later => (position,.logView)::later
  | some .exit,_ => [(position,.exit)]
  | none,later => later

def commandReceive (position : Nat) (stream : Bytes) : List (Nat × Command) :=
  match read : fgets msgSize stream with
  | none => []
  | some (cmdBuf,rest) =>
    have := fgets_shorter read
    obey position (cmdBuf.head?.bind command) (commandReceive (position+cmdBuf.length) rest)
termination_by stream.length

def demanded (position : Nat) : List Bytes → List (Nat × Command)
  | [] => []
  | line::rest => obey position (line.head?.bind command) (demanded (position+line.length+1) rest)

theorem commandReceive_nil (position : Nat) : commandReceive position [] = [] := by
  rw [commandReceive]
  rfl

theorem commandReceive_chunk {stream cmdBuf rest : Bytes} (read : fgets msgSize stream = some (cmdBuf,rest)) (position : Nat) :
    commandReceive position stream =
      obey position (cmdBuf.head?.bind command) (commandReceive (position+cmdBuf.length) rest) := by
  rw [commandReceive]
  split
  · rename_i none
    cases none.symm.trans read
  · rename_i chunk later same
    cases same.symm.trans read
    rfl

def continued (position : Nat) (line ending : Bytes) : List (Nat × Command) :=
  if line.length < msgSize-1 then commandReceive (position+line.length+1) (ending.drop 1)
  else commandReceive (position+(msgSize-1)) (line.drop (msgSize-1)++ending)

theorem commandReceive_line {line ending : Bytes} (clean : newline ∉ line) (ends : Ending newline ending) (position : Nat) :
    commandReceive position (line++ending) = obey position (line.head?.bind command) (continued position line ending) := by
  unfold continued
  by_cases none : line++ending = []
  · obtain ⟨rfl,rfl⟩ := List.append_eq_nil_iff.mp none
    simp [commandReceive_nil,obey,msgSize]
  · have read : fgets msgSize (line++ending) = some _ := if_neg none
    rw [readChunk_line clean ends] at read
    by_cases short : line.length < msgSize-1
    · rw [if_pos short] at read ⊢
      rw [commandReceive_chunk read]
      cases ending with
      | nil => simp [commandReceive_nil]
      | cons a rest =>
        obtain rfl := ends a rfl
        cases line with
        | nil => rfl
        | cons c others => simp [Nat.add_assoc]
    · rw [if_neg short] at read ⊢
      rw [commandReceive_chunk read,List.length_take,Nat.min_eq_left (not_lt.mp short)]
      cases line with
      | nil => exact absurd chunk_room short
      | cons c others => rfl

-- A chunk begins at every (MSG_SIZE-1)th character of a line.
def Quiet (line : Bytes) : Prop := ∀ k, 0 < k → (line.drop ((msgSize-1)*k)).head?.bind command = none

theorem quiet_short {line : Bytes} (short : line.length < msgSize-1) : Quiet line := by
  intro k positive
  have beyond : line.length ≤ (msgSize-1)*k := short.le.trans (Nat.le_mul_of_pos_right _ positive)
  rw [List.drop_eq_nil_of_le beyond]
  rfl

theorem quiet_long (line : Bytes) : Quiet line ↔
    (line.drop (msgSize-1)).head?.bind command = none ∧ Quiet (line.drop (msgSize-1)) := by
  have later : ∀ k, (line.drop (msgSize-1)).drop ((msgSize-1)*k) = line.drop ((msgSize-1)*(k+1)) := by
    intro k
    rw [List.drop_drop,Nat.mul_succ,Nat.add_comm]
  constructor
  · intro quiet
    refine ⟨by simpa using quiet 1 Nat.one_pos,fun k _ => ?_⟩
    rw [later]
    exact quiet (k+1) k.succ_pos
  · rintro ⟨first,others⟩ k positive
    obtain ⟨k,rfl⟩ := Nat.exists_eq_succ_of_ne_zero positive.ne'
    cases k with
    | zero => simpa using first
    | succ k =>
      rw [← later]
      exact others (k+1) k.succ_pos

theorem continued_quiet {line ending : Bytes} (clean : newline ∉ line) (ends : Ending newline ending) (quiet : Quiet line)
    (position : Nat) : continued position line ending = commandReceive (position+line.length+1) (ending.drop 1) := by
  induction line using chunks_induction chunk_room generalizing position with
  | short line fits => rw [continued,if_pos fits]
  | long line beyond previous =>
    obtain ⟨first,others⟩ := (quiet_long line).mp quiet
    have rest : newline ∉ line.drop (msgSize-1) := fun member => clean (List.mem_of_mem_drop member)
    have advanced : position+(msgSize-1)+(line.length-(msgSize-1))+1 = position+line.length+1 := by omega
    rw [continued,if_neg beyond,commandReceive_line rest ends,first,obey,previous rest others,List.length_drop,advanced]

theorem continued_noisy {line ending : Bytes} (clean : newline ∉ line) (ends : Ending newline ending) (noisy : ¬ Quiet line)
    (position : Nat) : ∃ entry later, continued position line ending = entry::later ∧ entry.1 ≤ position+line.length := by
  induction line using chunks_induction chunk_room generalizing position with
  | short line fits => exact absurd (quiet_short fits) noisy
  | long line beyond previous =>
    have rest : newline ∉ line.drop (msgSize-1) := fun member => clean (List.mem_of_mem_drop member)
    have within : position+(msgSize-1) ≤ position+line.length := by omega
    rw [continued,if_neg beyond,commandReceive_line rest ends]
    cases first : (line.drop (msgSize-1)).head?.bind command with
    | some action => cases action <;> exact ⟨_,_,rfl,within⟩
    | none =>
      have others : ¬ Quiet (line.drop (msgSize-1)) := fun quiet => noisy ((quiet_long line).mpr ⟨first,quiet⟩)
      obtain ⟨entry,later,same,bound⟩ := previous rest others (position+(msgSize-1))
      refine ⟨entry,later,same,bound.trans ?_⟩
      rw [List.length_drop]
      omega

theorem demanded_from {position : Nat} {lines : List Bytes} : ∀ entry ∈ demanded position lines, position ≤ entry.1 := by
  induction lines generalizing position with
  | nil => exact nofun
  | cons line rest previous =>
    intro entry member
    have later : ∀ entry ∈ demanded (position+line.length+1) rest, position ≤ entry.1 := fun entry member =>
      le_trans (by omega) (previous entry member)
    rw [demanded] at member
    cases first : line.head?.bind command with
    | none =>
      rw [first] at member
      exact later entry member
    | some action =>
      rw [first] at member
      cases action with
      | logView =>
        rcases List.mem_cons.mp member with rfl | member
        · exact le_rfl
        · exact later entry member
      | exit => exact (List.mem_singleton.mp member) ▸ le_rfl

def Goes (line : Bytes) : Prop := line.head?.bind command ≠ some .exit

instance (line : Bytes) : Decidable (Goes line) := inferInstanceAs (Decidable (_ ≠ _))

theorem obey_iff {position : Nat} {line : Bytes} {left right : List (Nat × Command)} :
    obey position (line.head?.bind command) left = obey position (line.head?.bind command) right ↔ (Goes line → left = right) := by
  rw [Goes]
  cases line.head?.bind command with
  | none => simp [obey]
  | some action => cases action <;> simp [obey]

theorem line_iff {line ending : Bytes} (clean : newline ∉ line) (ends : Ending newline ending) (position : Nat)
    (rest : List Bytes) : commandReceive position (line++ending) = demanded position (line::rest) ↔
      (Goes line → Quiet line ∧
        commandReceive (position+line.length+1) (ending.drop 1) = demanded (position+line.length+1) rest) := by
  rw [commandReceive_line clean ends,demanded,obey_iff]
  by_cases quiet : Quiet line
  · simp [quiet,continued_quiet clean ends quiet]
  · simp only [quiet,false_and]
    refine imp_congr_right fun _ => iff_false_intro fun same => ?_
    obtain ⟨entry,later,noisy,within⟩ := continued_noisy clean ends quiet position
    have beyond := demanded_from entry (same ▸ noisy ▸ List.mem_cons_self)
    omega

theorem quiet_cons (line : Bytes) (rest : List Bytes) : (∀ l ∈ (line::rest).takeWhile Goes, Quiet l) ↔
    (Goes line → Quiet line ∧ ∀ l ∈ rest.takeWhile Goes, Quiet l) := by
  rw [List.takeWhile_cons]
  by_cases goes : Goes line <;> simp [goes]

theorem receives_iff {lines : List Bytes} {last : Bytes} (clean : ∀ line ∈ lines, newline ∉ line) (unended : newline ∉ last)
    (position : Nat) : commandReceive position (terminate newline lines++last) =
        demanded position (lines++if last = [] then [] else [last]) ↔
      ∀ line ∈ (lines++if last = [] then [] else [last]).takeWhile Goes, Quiet line := by
  induction lines generalizing position with
  | nil =>
    by_cases ended : last = []
    · simp [ended,commandReceive_nil,demanded]
    · have ends : Ending newline [] := nofun
      have whole := line_iff unended ends position []
      simp only [List.append_nil,List.drop_nil,commandReceive_nil,demanded.eq_1,and_true] at whole
      simp [ended,whole,quiet_cons]
  | cons line rest previous =>
    have own := clean line (by simp)
    have ends : Ending newline (newline::(terminate newline rest++last)) := fun a first => (Option.some.inj first).symm
    rw [terminate_cons,List.append_assoc,List.cons_append,List.cons_append,line_iff own ends,quiet_cons,List.drop_one,
      List.tail_cons,previous fun line member => clean line (by simp [member])]

-- The loop takes every chunk for a line. It obeys exactly the lines when none of
-- those before a quit has a command character where a further chunk begins.
theorem obeys_lines_iff_quiet (stream : Bytes) : commandReceive 0 stream = demanded 0 (pieces newline stream) ↔
    ∀ line ∈ (pieces newline stream).takeWhile Goes, Quiet line := by
  obtain ⟨lines,last,clean,unended,rfl⟩ := exists_pieces newline stream
  rw [pieces_append clean unended]
  exact receives_iff clean unended 0

theorem long_line_quits : ¬ ∀ stream, commandReceive 0 stream = demanded 0 (pieces newline stream) := by
  intro obeys
  let line : Bytes := List.replicate 149 (byte 'x')++[byte 'q']
  have clean : newline ∉ line := by decide
  have noisy : ¬ Quiet line := fun quiet => absurd (quiet 1 Nat.one_pos) (by decide)
  have ends : Ending newline [newline] := fun a first => (Option.some.inj first).symm
  have same := obeys (line++[newline])
  have only : pieces newline (line++[newline]) = [line] := by
    rw [show line++[newline] = terminate newline [line] from rfl,pieces_terminate (by simpa using clean)]
  rw [only,line_iff clean ends] at same
  exact noisy (same (by decide)).1

end Scada.Historian
