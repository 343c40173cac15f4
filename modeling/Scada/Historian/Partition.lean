import Scada.Historian.LogFormat
import Scada.Library.AppendStore

namespace Scada.Historian
open AppendStores

variable {round : ℚ → ℚ} {abi : Abi}

def writes (round : ℚ → ℚ) (calls : List (Bool × Status abi)) : List (Text × Text) :=
  (calls.filter Prod.fst).map fun call => (filename call.2.rtuId,(logText round call.2).getD [])

theorem eventLog_appends (opens : Bool) (files : Files) {event : Status abi} {text : Text}
    (logged : logText round event = some text) : eventLog round opens files event =
      some (if opens then (0,append files (filename event.rtuId) text) else (-1,files)) := by
  cases opens with
  | true => rw [eventLog_text,logged]; rfl
  | false => rfl

theorem logText_inTable (round : ℚ → ℚ) {event : Status abi} (inTable : InTable event) :
    ∃ text, logText round event = some text := by
  obtain ⟨line,logged⟩ := logLine_inTable round inTable
  exact ⟨_,by rw [logText,logged]; rfl⟩

theorem logAll_appends {calls : List (Bool × Status abi)} (inTable : ∀ call ∈ calls, InTable call.2) (files : Files) :
    logAll round calls files = some (appendAll files (writes round calls)) := by
  induction calls generalizing files with
  | nil => rfl
  | cons call rest previous =>
    obtain ⟨opens,event⟩ := call
    obtain ⟨text,logged⟩ := logText_inTable round (inTable (opens,event) (by simp))
    have later := previous fun call member => inTable call (by simp [member])
    rw [logAll,eventLog_appends opens files logged,Option.bind_some,later]
    cases opens with
    | true => simp [writes,appendAll,logged]
    | false => simp [writes]

theorem written_recorded (rtuId : Word) (calls : List (Bool × Status abi)) :
    written (filename rtuId) (writes round calls) =
      (recorded rtuId calls).map fun event => (logText round event).getD [] := by
  have own : calls.filter (fun call => decide (filename call.2.rtuId = filename rtuId) && call.1) =
      calls.filter fun call => decide (call.1 = true ∧ call.2.rtuId = rtuId) := by
    apply List.filter_congr
    intro call _
    simp only [filename_injective.eq_iff]
    cases call.1 <;> simp
  simp only [written,writes,recorded,List.filter_map,List.map_map,List.filter_filter]
  exact congrArg (List.map _) own

theorem written_elsewhere {name : Text} (elsewhere : ∀ rtuId, name ≠ filename rtuId) (calls : List (Bool × Status abi)) :
    written name (writes round calls) = [] := by
  rw [written,List.map_eq_nil_iff,List.filter_eq_nil_iff]
  intro write member
  obtain ⟨call,-,rfl⟩ := List.mem_map.mp member
  simpa using Ne.symm (elsewhere call.2.rtuId)

theorem log_partitions (round : ℚ → ℚ) (files : Files) (calls : List (Bool × Status abi))
    (inTable : ∀ call ∈ calls, InTable call.2) :
    (∃ later, logAll round calls files = some later ∧
      (∀ rtuId, later (filename rtuId) = if recorded rtuId calls = [] then files (filename rtuId) else
        some ((files (filename rtuId)).getD []++
          (recorded rtuId calls).flatMap fun event => (logText round event).getD [])) ∧
      ∀ name, (∀ rtuId, name ≠ filename rtuId) → later name = files name) ∧
    ∀ earlier opens event rest, calls = earlier++(opens,event)::rest → ∃ before text,
      logAll round earlier files = some before ∧ logText round event = some text ∧
      eventLog round opens before event =
        some (if opens then (0,append before (filename event.rtuId) text) else (-1,before)) := by
  constructor
  · refine ⟨_,logAll_appends inTable files,fun rtuId => ?_,fun name elsewhere => ?_⟩
    · simp only [appendAll_written,written_recorded,List.map_eq_nil_iff,List.flatMap_def]
    · rw [appendAll_written,if_pos (written_elsewhere elsewhere calls)]
  · rintro earlier opens event rest rfl
    obtain ⟨text,logged⟩ := logText_inTable round (inTable (opens,event) (by simp))
    have known : ∀ call ∈ earlier, InTable call.2 := fun call member => inTable call (by simp [member])
    exact ⟨_,text,logAll_appends known files,logged,eventLog_appends opens _ logged⟩

def twoRtus : List (Bool × Status .ilp32) := [(true,⟨1,![1,1,0],![0,0],555,⟨3,0⟩,RtuEvent.btn1Falling.code⟩),
  (false,⟨1,![1,0,0],![0,0],555,⟨4,0⟩,RtuEvent.btn1Rising.code⟩),(true,⟨-2,![0,1,1],![0,0],555,⟨5,0⟩,RtuEvent.btn0Falling.code⟩)]

theorem log_partitions_two_rtus : ∃ later, logAll id twoRtus (fun _ => none) = some later ∧
    later (filename 1) = some ((recorded 1 twoRtus).flatMap fun event => (logText id event).getD []) := by
  obtain ⟨⟨later,ran,own,-⟩,-⟩ := log_partitions id (fun _ => none) twoRtus (by decide)
  exact ⟨later,ran,own 1⟩

end Scada.Historian
