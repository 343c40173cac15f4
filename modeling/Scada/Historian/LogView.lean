import Mathlib.Data.Char
import Mathlib.Data.List.Lex
import Scada.Historian.EventLog
import Scada.Library.KeySort

namespace Scada.Historian
open Binary64 Decimals Delimited KeySorts

variable {round : ℚ → ℚ} {abi : Abi}

def eventLogTxt : Text := "event_log.txt".toList

def cat (files : Files) (names : List Text) : Text := names.flatMap fun name => (files name).getD []

-- sort -t'|' -k3 -n: the key begins at the third field and is read as a number,
-- equal keys are ordered by the bytes of the whole line.
def sortKey (line : Text) : ℚ := numeric (after '|' (after '|' line))

def sortLines (text : Text) : Text := terminate '\n' (keySort sortKey (pieces '\n' text))

def logView (files : Files) : Files × Text :=
  let sorted := sortLines (cat files ["rtu_1_log.txt".toList,"rtu_2_log.txt".toList])
  (Function.update files eventLogTxt (some sorted),sorted)

theorem logView_other (files : Files) {name : Text} (elsewhere : name ≠ eventLogTxt) : (logView files).1 name = files name := by
  simp only [logView,Function.update_of_ne elsewhere]

def timeField (line : Text) : ℚ := numeric (upTo '|' (after '|' line))

def TimeOrdered (files : Files) : Prop :=
  (pieces '\n' ((files eventLogTxt).getD [])).Pairwise fun earlier later => timeField earlier ≤ timeField later

instance (files : Files) : Decidable (TimeOrdered files) := inferInstanceAs (Decidable (List.Pairwise _ _))

theorem Written.line_of {records : List (Status abi)} {lines : List Text}
    (written : List.Forall₂ (fun record line => logLine round record = some line) records lines) :
    (∀ record ∈ records, ∃ line ∈ lines, logLine round record = some line) ∧
      ∀ line ∈ lines, ∃ record ∈ records, logLine round record = some line := by
  induction written with
  | nil => simp
  | cons own _ previous =>
    simp only [List.mem_cons,forall_eq_or_imp]
    refine ⟨⟨⟨_,Or.inl rfl,own⟩,?_⟩,⟨_,Or.inl rfl,own⟩,?_⟩
    · intro record member
      obtain ⟨line,among,logged⟩ := previous.1 record member
      exact ⟨line,Or.inr among,logged⟩
    · intro line member
      obtain ⟨record,among,logged⟩ := previous.2 line member
      exact ⟨record,Or.inr among,logged⟩

theorem sortKey_logLine {event : Status abi} {line : Text} (logged : logLine round event = some line) :
    sortKey line = (event.buttonStatus 0).toInt := by
  obtain ⟨eventStr,plain,rfl⟩ := logLine_cases logged
  simp only [logFields,List.forall_mem_cons] at plain
  obtain ⟨rtuId,time,-⟩ := plain
  unfold sortKey logFields
  simp only [terminate_cons]
  rw [after_append (fun member => (rtuId _ member).1 rfl),after_append (fun member => (time _ member).1 rfl)]
  exact numeric_decimal _ ⟨rfl,by simp⟩

theorem timeField_logLine {event : Status abi} {line : Text} (logged : logLine round event = some line) :
    timeField line = clock round event.eventTv/1000000 := by
  obtain ⟨eventStr,plain,rfl⟩ := logLine_cases logged
  simp only [logFields,List.forall_mem_cons] at plain
  obtain ⟨rtuId,time,-⟩ := plain
  unfold timeField logFields
  simp only [terminate_cons]
  rw [after_append (fun member => (rtuId _ member).1 rfl),upTo_append (fun member => (time _ member).1 rfl)]
  rw [← List.append_nil (fixed _),numeric_fixed _ rfl,clock]

def Precedes (round : ℚ → ℚ) (x y : Status abi) : Prop :=
  (x.buttonStatus 0).toInt < (y.buttonStatus 0).toInt ∨
    (x.buttonStatus 0).toInt = (y.buttonStatus 0).toInt ∧ (logLine round x).getD [] ≤ (logLine round y).getD []

theorem precedes_iff {x y : Status abi} {a b : Text} (left : logLine round x = some a) (right : logLine round y = some b) :
    Before sortKey a b ↔ Precedes round x y := by
  simp only [Before,Precedes,sortKey_logLine left,sortKey_logLine right,left,right,Option.getD_some,Int.cast_lt,Int.cast_inj]

theorem timeField_le_iff {x y : Status abi} {a b : Text} (left : logLine round x = some a) (right : logLine round y = some b) :
    timeField a ≤ timeField b ↔ clock round x.eventTv ≤ clock round y.eventTv := by
  rw [timeField_logLine left,timeField_logLine right,div_le_div_iff_of_pos_right (by norm_num),Int.cast_le]

theorem logView_lines (files : Files) {one two : List (Status abi)} {first second : List Text}
    (left : List.Forall₂ (fun record line => logLine round record = some line) one first)
    (right : List.Forall₂ (fun record line => logLine round record = some line) two second)
    (rtu1 : (files "rtu_1_log.txt".toList).getD [] = terminate '\n' first)
    (rtu2 : (files "rtu_2_log.txt".toList).getD [] = terminate '\n' second) :
    pieces '\n' (((logView files).1 eventLogTxt).getD []) = keySort sortKey (first++second) := by
  have lines := List.rel_append left right
  have clean : ∀ line ∈ first++second, '\n' ∉ line := by
    intro line member
    obtain ⟨record,-,logged⟩ := (Written.line_of lines).2 line member
    exact logLine_no_newline logged
  have input : cat files ["rtu_1_log.txt".toList,"rtu_2_log.txt".toList] = terminate '\n' (first++second) := by
    simp only [cat,List.flatMap_cons,List.flatMap_nil,List.append_nil,rtu1,rtu2,terminate_append]
  have sorted : ∀ line ∈ keySort sortKey (first++second), '\n' ∉ line := fun line member =>
    clean line ((mem_keySort sortKey).mp member)
  simp only [logView,Function.update_self,Option.getD_some,sortLines]
  rw [input,pieces_terminate clean,pieces_terminate sorted]

-- log_view sorts by button 0: its lines are in time order exactly when that
-- order agrees with the clocks.
theorem time_ordered_iff_precedes (round : ℚ → ℚ) (files : Files) {one two : List (Status abi)}
    (rtu1 : Written round one (files "rtu_1_log.txt".toList)) (rtu2 : Written round two (files "rtu_2_log.txt".toList)) :
    TimeOrdered (logView files).1 ↔
      ∀ x ∈ one++two, ∀ y ∈ one++two, Precedes round x y → clock round x.eventTv ≤ clock round y.eventTv := by
  obtain ⟨first,left,content1⟩ := rtu1
  obtain ⟨second,right,content2⟩ := rtu2
  obtain ⟨lineOf,recordOf⟩ := Written.line_of (List.rel_append left right)
  rw [TimeOrdered,logView_lines files left right content1 content2,
    keySort_pairwise_iff sortKey (R := fun a b => timeField a ≤ timeField b) fun _ => le_rfl]
  constructor
  · intro ordered x here y there precedes
    obtain ⟨a,among,logged⟩ := lineOf x here
    obtain ⟨b,among',logged'⟩ := lineOf y there
    have order := ordered a among b among' ((precedes_iff logged logged').mpr precedes)
    exact (timeField_le_iff logged logged').mp order
  · intro agrees a among b among' before
    obtain ⟨x,here,logged⟩ := recordOf a among
    obtain ⟨y,there,logged'⟩ := recordOf b among'
    have order := agrees x here y there ((precedes_iff logged logged').mp before)
    exact (timeField_le_iff logged logged').mpr order

-- Two records of a working system: the second RTU's is five seconds younger,
-- and its button 0 is down.
def released : Status .ilp32 := ⟨1,![1,1,0],![0,0],555,⟨1493739115,250000⟩,RtuEvent.btn1Falling.code⟩
def pressed : Status .ilp32 := ⟨2,![0,1,1],![0,0],555,⟨1493739120,0⟩,RtuEvent.btn0Falling.code⟩

def releasedLine : Text := "1|1493739115.250000|1|1|0|0|0|0.677656|Button 1 Falling Edge|".toList
def pressedLine : Text := "2|1493739120.000000|0|1|1|0|0|0.677656|Button 0 Falling Edge|".toList

def twoLogs : Files := fun name =>
  if name = "rtu_1_log.txt".toList then some (releasedLine++['\n'])
  else if name = "rtu_2_log.txt".toList then some (pressedLine++['\n'])
  else none

theorem written_released : Written double [released] (twoLogs "rtu_1_log.txt".toList) :=
  ⟨[releasedLine],.cons (by decide +kernel) .nil,by decide⟩

theorem written_pressed : Written double [pressed] (twoLogs "rtu_2_log.txt".toList) :=
  ⟨[pressedLine],.cons (by decide +kernel) .nil,by decide⟩

theorem time_ordered_iff_precedes_two_logs : TimeOrdered (logView twoLogs).1 ↔
    ∀ x ∈ [released,pressed], ∀ y ∈ [released,pressed], Precedes double x y → clock double x.eventTv ≤ clock double y.eventTv :=
  time_ordered_iff_precedes double twoLogs written_released written_pressed

theorem younger_event_first : ¬ ∀ (files : Files) (one two : List (Status .ilp32)),
    Written double one (files "rtu_1_log.txt".toList) → Written double two (files "rtu_2_log.txt".toList) →
      TimeOrdered (logView files).1 := by
  intro ordered
  have order := ordered twoLogs [released] [pressed] written_released written_pressed
  exact absurd order (by decide +kernel)

end Scada.Historian
