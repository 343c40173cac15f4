import Scada.Kernel.Module
import Scada.Library.Alternation

namespace Scada.Kernel
open Programs BoundedQueues BitMasks Alternations

def isButtonEvent (i : Button) (type : Word) : Bool :=
  type == (RtuEvent.falling i).code || type == (RtuEvent.rising i).code

def buttonEvents (i : Button) (records : List (Status .ilp32)) : List Word :=
  (records.map (·.eventType)).filter (isButtonEvent i)

structure Handled where
  board : Board
  reported : List (Status .ilp32)

def invoke (b : Board) (inputs : Nat → Oracle) : Outcome Call Call.Reply Board Unit :=
  exec free (buttonHandler hwIrq) inputs b

def handle (s : Handled) (inputs : Nat → Oracle) : Handled :=
  ⟨(invoke s.board inputs).state,s.reported++puts (invoke s.board inputs).trace⟩

def handleAll (s : Handled) (history : List (Nat → Oracle)) : Handled := history.foldl handle s

def armed (before : Board) (setup : Nat → Oracle) : Board := (exec free setupPortB setup before).state

theorem armed_polarity (before : Board) (setup : Nat → Oracle) :
    (armed before setup).registers .gpioBIntType2 = before.registers .gpioBIntType2 &&& ~~~0x07 := by
  obtain ⟨last,⟨board,_⟩,_,_,cleared⟩ := meets_run (port_describes free_tracks setup fun _ _ _ => trivial) ⟨rfl,rfl⟩
    (setupPortB_meets (fun _ _ => True) ⟨before,[]⟩)
  have same : armed before setup = last.board := board
  rw [same,cleared]

theorem isButtonEvent_record (b : Board) (i j : Button) (st : Status .ilp32) (now : Timeval .ilp32) :
    isButtonEvent i (b.record j st now).eventType = decide (i = j) := by
  have table : ∀ i j : Button, ∀ p : Bool,
      isButtonEvent i (if p then RtuEvent.rising j else RtuEvent.falling j).code = decide (i = j) := by decide
  exact table i j (b.polarity j)

theorem buttonEvents_record (b : Board) (i j : Button) (st : Status .ilp32) (now : Timeval .ilp32) :
    buttonEvents i [b.record j st now] =
      if i = j then [(if b.polarity j then RtuEvent.rising j else RtuEvent.falling j).code] else [] := by
  have single : ∀ type, [type].filter (isButtonEvent i) = if isButtonEvent i type then [type] else [] := by
    intro type; cases test : isButtonEvent i type <;> simp [test]
  rw [buttonEvents,List.map_singleton,single,isButtonEvent_record]
  simp [Board.record]

theorem recorded_polarity (b : Board) (i j : Button) (record : Status .ilp32) :
    (b.recorded i record).polarity j = if j = i then !b.polarity j else b.polarity j := by
  have written : (b.recorded i record).polarity j = (b.registers .gpioBIntType2 ^^^ mask i.val).getLsbD j.val := by
    simp [Board.polarity,Board.recorded]
  rw [written]
  by_cases same : j = i
  · rw [if_pos same,same]
    exact xor_mask_same (by omega)
  · rw [if_neg same]
    exact xor_mask_other (fun equal => same (Fin.ext equal.symm))

theorem acknowledged_polarity (b : Board) (eoi : Word) (i : Button) :
    (b.acknowledged eoi).polarity i = b.polarity i := by simp [Board.polarity,Board.acknowledged]

structure Tracking (before : Board) (s : Handled) : Prop where
  alternates : ∀ i, buttonEvents i s.reported =
    alternation (RtuEvent.falling i).code (RtuEvent.rising i).code (buttonEvents i s.reported).length
  parity : ∀ i, s.board.polarity i = decide ((buttonEvents i s.reported).length % 2 = 1)
  above : ∀ j, 3 ≤ j → (s.board.registers .gpioBIntType2).getLsbD j = (before.registers .gpioBIntType2).getLsbD j

theorem armed_tracking (before : Board) (setup : Nat → Oracle) : Tracking before ⟨armed before setup,[]⟩ := by
  refine ⟨fun i => rfl,?_,?_⟩
  · intro i
    have clear : (armed before setup).polarity i = false := by
      rw [Board.polarity,armed_polarity]
      exact and_not_low_below 3 i.isLt
    exact clear
  · intro j above
    rw [armed_polarity]
    exact and_not_low_above 3 above

def FlipsItsButton (b : Board) (inputs : Nat → Oracle) : Prop :=
  (puts (invoke b inputs).trace = [] ∧ ∀ j, (invoke b inputs).state.polarity j = b.polarity j) ∨
  ∃ i st, puts (invoke b inputs).trace = [st] ∧ isButtonEvent i st.eventType = true ∧
    ∀ j, (invoke b inputs).state.polarity j = if j = i then !b.polarity j else b.polarity j

theorem invoke_flips (b : Board) (inputs : Nat → Oracle) : FlipsItsButton b inputs := by
  obtain ⟨eoi,⟨silent,board⟩ | ⟨i,st,now,reported,board⟩⟩ := handler_free b inputs
  · refine .inl ⟨silent,fun j => ?_⟩
    rw [invoke,board]
    exact acknowledged_polarity _ _ _
  · refine .inr ⟨i,_,reported,?_,fun j => ?_⟩
    · rw [isButtonEvent_record]; simp
    · rw [invoke,board,acknowledged_polarity]
      exact recorded_polarity _ _ _ _

theorem recorded_above (b : Board) (i : Button) (record : Status .ilp32) (eoi : Word) {j : Nat} (above : 3 ≤ j) :
    (((b.recorded i record).acknowledged eoi).registers .gpioBIntType2).getLsbD j =
      (b.registers .gpioBIntType2).getLsbD j := by
  have written : ((b.recorded i record).acknowledged eoi).registers .gpioBIntType2 =
      b.registers .gpioBIntType2 ^^^ mask i.val := by simp [Board.acknowledged,Board.recorded]
  rw [written]
  exact xor_mask_other (by omega)

theorem buttonEvents_append (i : Button) (earlier later : List (Status .ilp32)) :
    buttonEvents i (earlier++later) = buttonEvents i earlier++buttonEvents i later := by
  simp [buttonEvents]

theorem tracking_fifo {before b : Board} {records : List (Status .ilp32)} (tracking : Tracking before ⟨b,records⟩)
    (fifo : Option (Queue UInt8)) : Tracking before ⟨{b with fifo},records⟩ :=
  ⟨tracking.alternates,tracking.parity,tracking.above⟩

theorem tracking_silent {before b : Board} {records : List (Status .ilp32)} (tracking : Tracking before ⟨b,records⟩)
    (eoi : Word) : Tracking before ⟨b.acknowledged eoi,records⟩ := by
  obtain ⟨alternates,parity,above⟩ := tracking
  refine ⟨alternates,fun j => (acknowledged_polarity _ _ _).trans (parity j),fun j bound => ?_⟩
  rw [← above j bound]
  simp [Board.acknowledged]

theorem tracking_put {before b : Board} {records : List (Status .ilp32)} (tracking : Tracking before ⟨b,records⟩)
    (i : Button) (st : Status .ilp32) (now : Timeval .ilp32) (eoi : Word) :
    Tracking before ⟨(b.recorded i (b.record i st now)).acknowledged eoi,records++[b.record i st now]⟩ := by
  obtain ⟨alternates,bits,above⟩ := tracking
  have parity : ∀ j, b.polarity j = decide ((buttonEvents j records).length % 2 = 1) := bits
  have grown : ∀ j, buttonEvents j (records++[b.record i st now]) = buttonEvents j records ++
      if j = i then [(if b.polarity i then RtuEvent.rising i else RtuEvent.falling i).code] else [] := by
    intro j; rw [buttonEvents_append,buttonEvents_record]
  refine ⟨fun j => ?_,fun j => ?_,fun j bound => (recorded_above _ _ _ _ bound).trans (above j bound)⟩
  · by_cases same : j = i
    · subst same
      rw [grown,if_pos rfl,List.length_append,List.length_singleton,alternation_succ,← alternates j,parity j]
      rcases Nat.mod_two_eq_zero_or_one (buttonEvents j records).length with even | odd
      · simp [even]
      · simp [odd]
    · rw [grown,if_neg same,List.append_nil]
      exact alternates j
  · rw [acknowledged_polarity,recorded_polarity,grown]
    by_cases same : j = i
    · subst same
      rw [if_pos rfl,if_pos rfl,parity j,List.length_append,List.length_singleton,← decide_not]
      exact decide_eq_decide.mpr (by omega)
    · rw [if_neg same,if_neg same,List.append_nil]
      exact parity j

theorem handle_tracking {before : Board} {s : Handled} (tracking : Tracking before s) (inputs : Nat → Oracle) :
    Tracking before (handle s inputs) := by
  obtain ⟨eoi,⟨silent,board⟩ | ⟨i,st,now,reported,board⟩⟩ := handler_free s.board inputs
  · have next : handle s inputs = ⟨s.board.acknowledged eoi,s.reported⟩ := by
      simpa [handle,invoke,silent] using board
    rw [next]
    exact tracking_silent tracking eoi
  · have next : handle s inputs = ⟨(s.board.recorded i (s.board.record i st now)).acknowledged eoi,
        s.reported++[s.board.record i st now]⟩ := by
      simpa [handle,invoke,reported] using board
    rw [next]
    exact tracking_put tracking i st now eoi

theorem handleAll_tracking {before : Board} {s : Handled} (tracking : Tracking before s)
    (history : List (Nat → Oracle)) : Tracking before (handleAll s history) := by
  induction history generalizing s with
  | nil => exact tracking
  | cons inputs rest ih => exact ih (handle_tracking tracking inputs)

-- Over every history of interrupts from the register setup on, whatever PBDR
-- and IntStsB return at each of their reads.
theorem polarity_over_histories (before : Board) (setup : Nat → Oracle) (history : List (Nat → Oracle)) :
    (∀ inputs, FlipsItsButton (handleAll ⟨armed before setup,[]⟩ history).board inputs) ∧
    (∀ i, buttonEvents i (handleAll ⟨armed before setup,[]⟩ history).reported =
      alternation (RtuEvent.falling i).code (RtuEvent.rising i).code
        (buttonEvents i (handleAll ⟨armed before setup,[]⟩ history).reported).length ∧
      ((handleAll ⟨armed before setup,[]⟩ history).board.polarity i = true ↔
        Odd (buttonEvents i (handleAll ⟨armed before setup,[]⟩ history).reported).length)) ∧
    ∀ j, 3 ≤ j → ((handleAll ⟨armed before setup,[]⟩ history).board.registers .gpioBIntType2).getLsbD j =
      (before.registers .gpioBIntType2).getLsbD j := by
  have tracking := handleAll_tracking (armed_tracking before setup) history
  refine ⟨fun inputs => invoke_flips _ _,fun i => ⟨tracking.alternates i,?_⟩,tracking.above⟩
  rw [tracking.parity i,decide_eq_true_iff,Nat.odd_iff]

end Scada.Kernel
