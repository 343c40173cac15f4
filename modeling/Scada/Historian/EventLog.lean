import Mathlib.Tactic.Ring
import Scada.Library.Decimal
import Scada.Library.Delimited
import Scada.Status

namespace Scada.Historian
open Binary64 Decimals Delimited

def msgSize : Nat := 150

abbrev Text := List Char

-- The historian's working directory: the content of each file that exists.
abbrev Files := Text → Option Text

-- `round` is the rounding of the machine's doubles: Binary64.double, or id
-- where the arithmetic is to count as exact.
variable (round : ℚ → ℚ) {abi : Abi}

def adcToVolts (adcVal : Word) : ℚ := round (round adcVal.toInt * round (5/4095))

def eventStrings : List Text := [
  "Button 0 Falling Edge".toList,
  "Button 0 Rising Edge".toList,
  "Button 1 Falling Edge".toList,
  "Button 1 Rising Edge".toList,
  "Button 2 Falling Edge".toList,
  "Button 2 Rising Edge".toList,
  "Line Overvoltage".toList,
  "Line Undervoltage".toList,
  "Line No Power".toList,
  "LED 1 On".toList,
  "LED 1 Off".toList,
  "LED 2 On".toList,
  "LED 2 Off".toList]

-- none: the index is outside the array, and C gives it no meaning.
def eventToString (eventType : Word) : Option Text := eventStrings[eventType.toNat]?

def time (tv : Timeval abi) : ℚ := round (round tv.tvSec.toInt + round (round tv.tvUsec.toInt * round (1/1000000)))

-- The format "%d|%lf|%d|%d|%d|%d|%d|%lf|%s|\n", its newline apart.
def logFields (event : Status abi) (eventStr : Text) : List Text := [
  decimal event.rtuId.toInt,
  fixed (time round event.eventTv),
  decimal (event.buttonStatus 0).toInt,
  decimal (event.buttonStatus 1).toInt,
  decimal (event.buttonStatus 2).toInt,
  decimal (event.ledStatus 0).toInt,
  decimal (event.ledStatus 1).toInt,
  fixed (adcToVolts round event.lineVoltage),
  eventStr]

def logLine (event : Status abi) : Option Text :=
  (eventToString event.eventType).map fun eventStr => terminate '|' (logFields round event eventStr)

def filename (rtuId : Word) : Text := "rtu_".toList++decimal rtuId.toInt++"_log.txt".toList

-- `opens` says whether fopen succeeds.
def eventLog (opens : Bool) (files : Files) (event : Status abi) : Option (Int × Files) :=
  let name := filename event.rtuId
  if opens then
    (logLine round event).map fun line => (0,Function.update files name (some ((files name).getD []++line++['\n'])))
  else some (-1,files)

def Written (records : List (Status abi)) (content : Option Text) : Prop :=
  ∃ lines, List.Forall₂ (fun record line => logLine round record = some line) records lines ∧
    content.getD [] = terminate '\n' lines

def logAll : List (Bool × Status abi) → Files → Option Files
  | [],files => some files
  | (opens,event)::rest,files => (eventLog round opens files event).bind fun done => logAll rest done.2

def recorded (rtuId : Word) (calls : List (Bool × Status abi)) : List (Status abi) :=
  (calls.filter fun call => call.1 ∧ call.2.rtuId = rtuId).map Prod.snd

def clock (tv : Timeval abi) : ℤ := nearest (time round tv*1000000)

-- The index event_to_string is given: event_log passes the enum as an int.
def eventIndex (event : Status abi) : Int := event.eventType.toInt

def InTable (event : Status abi) : Prop := 0 ≤ eventIndex event ∧ eventIndex event ≤ 12

instance (event : Status abi) : Decidable (InTable event) := inferInstanceAs (Decidable (_ ∧ _))

theorem eventStrings_count : eventStrings.length = 13 := rfl

theorem inTable_iff {event : Status abi} : InTable event ↔ event.eventType.toNat < eventStrings.length := by
  rw [eventStrings_count,InTable,eventIndex,BitVec.toInt_eq_toNat_cond]
  have bound := event.eventType.isLt
  split <;> omega

theorem eventToString_inTable {event : Status abi} (inTable : InTable event) :
    ∃ eventStr, eventToString event.eventType = some eventStr :=
  ⟨_,List.getElem?_eq_getElem (inTable_iff.mp inTable)⟩

theorem logLine_inTable {event : Status abi} (inTable : InTable event) : ∃ line, logLine round event = some line := by
  obtain ⟨eventStr,known⟩ := eventToString_inTable inTable
  exact ⟨_,by rw [logLine,known]; rfl⟩

def Plain (text : Text) : Prop := ∀ c ∈ text, c ≠ '|' ∧ c ≠ '\n'

theorem plain_digits {text : Text} (digits : ∀ c ∈ text, c.isDigit = true) : Plain text := by
  intro c member
  have digit := digits c member
  constructor <;> (rintro rfl; exact absurd digit (by decide))

theorem Plain.append {left right : Text} (one : Plain left) (two : Plain right) : Plain (left++right) := by
  intro c member
  exact (List.mem_append.mp member).elim (one c) (two c)

theorem plain_sign (negative : Prop) [Decidable negative] : Plain (if negative then ['-'] else []) := by
  split <;> simp [Plain]

theorem plain_decimal (n : Int) : Plain (decimal n) := (plain_sign _).append (plain_digits (digits_digits _))

theorem plain_fixed (x : ℚ) : Plain (fixed x) := by
  apply ((plain_sign _).append (plain_digits (digits_digits _))).append
  have point : Plain ['.'] := by simp [Plain]
  exact point.append (plain_digits (padded_digits _ _))

theorem plain_eventStrings : ∀ text ∈ eventStrings, Plain text := by
  have table : eventStrings.all (fun text => text.all fun c => c != '|' && c != '\n') = true := by decide
  simp only [List.all_eq_true,Bool.and_eq_true,bne_iff_ne] at table
  exact table

variable {round}

theorem plain_logFields {event : Status abi} {eventStr : Text} (known : eventToString event.eventType = some eventStr) :
    ∀ field ∈ logFields round event eventStr, Plain field := by
  have text := plain_eventStrings _ (List.mem_of_getElem? known)
  simp only [logFields,List.forall_mem_cons]
  exact ⟨plain_decimal _,plain_fixed _,plain_decimal _,plain_decimal _,plain_decimal _,plain_decimal _,plain_decimal _,
    plain_fixed _,text,by simp⟩

theorem logLine_cases {event : Status abi} {line : Text} (logged : logLine round event = some line) :
    ∃ eventStr, (∀ field ∈ logFields round event eventStr, Plain field) ∧ line = terminate '|' (logFields round event eventStr) := by
  obtain ⟨eventStr,known,rfl⟩ := Option.map_eq_some_iff.mp logged
  exact ⟨eventStr,plain_logFields known,rfl⟩

theorem logLine_no_newline {event : Status abi} {line : Text} (logged : logLine round event = some line) : '\n' ∉ line := by
  obtain ⟨eventStr,plain,rfl⟩ := logLine_cases logged
  intro member
  rcases mem_terminate member with sep | ⟨field,among,inside⟩
  · exact absurd sep (by decide)
  · exact (plain field among _ inside).2 rfl

theorem filename_injective : Function.Injective filename := by
  intro left right same
  rw [filename,filename,List.append_assoc,List.append_assoc,List.append_cancel_left_eq] at same
  have stops : Stops "_log.txt".toList := ⟨rfl,by decide⟩
  have number := congrArg numeric same
  rw [numeric_decimal _ stops,numeric_decimal _ stops] at number
  exact BitVec.eq_of_toInt_eq (Int.cast_injective number)

theorem eventLog_other {opens : Bool} {files : Files} {event : Status abi} {done : Int × Files}
    (ran : eventLog round opens files event = some done) {name : Text} (elsewhere : name ≠ filename event.rtuId) :
    done.2 name = files name := by
  cases opens with
  | false => cases ran; rfl
  | true =>
    obtain ⟨line,_,rfl⟩ := Option.map_eq_some_iff.mp ran
    exact Function.update_of_ne elsewhere _ _

theorem eventLog_written {opens : Bool} {files later : Files} {event : Status abi} {result : Int}
    (ran : eventLog round opens files event = some (result,later)) {earlier : Word → List (Status abi)}
    (written : ∀ rtuId, Written round (earlier rtuId) (files (filename rtuId))) (rtuId : Word) :
    Written round (earlier rtuId++recorded rtuId [(opens,event)]) (later (filename rtuId)) := by
  cases opens with
  | false =>
    cases ran
    simpa [recorded] using written rtuId
  | true =>
    obtain ⟨line,logged,same⟩ := Option.map_eq_some_iff.mp ran
    cases same
    by_cases own : event.rtuId = rtuId
    · subst own
      obtain ⟨lines,each,content⟩ := written event.rtuId
      refine ⟨lines++[line],?_,?_⟩
      · simpa [recorded] using List.rel_append each (List.Forall₂.cons logged .nil)
      · simp [content]
    · have other : filename rtuId ≠ filename event.rtuId := fun same => own (filename_injective same).symm
      simpa [recorded,own,Function.update_of_ne other] using written rtuId

theorem logAll_append (earlier later : List (Bool × Status abi)) (files : Files) :
    logAll round (earlier++later) files = (logAll round earlier files).bind (logAll round later) := by
  induction earlier generalizing files with
  | nil => rfl
  | cons call rest previous =>
    rw [List.cons_append,logAll,logAll,Option.bind_assoc]
    congr 1
    funext done
    exact previous done.2

-- The roundings together stay below half a microsecond.
theorem time_error {s u : ℚ} (seconds : |s| ≤ 2^31) (micros : |u| ≤ 2^31) :
    |double (double s+double (double u*double (1/1000000)))*1000000-(s*1000000+u)| < 1/2 := by
  have millionth := abs_le.mp (double_close (x := 1/1000000) (abs_of_pos (by norm_num)).le)
  have whole := abs_le.mp (double_close seconds)
  have part := abs_le.mp (double_close micros)
  rw [abs_le] at seconds micros
  generalize double s = whole' at *
  generalize double u = part' at *
  generalize double (1/1000000) = millionth' at *
  -- the product, before and after its own rounding
  have product : |part'*millionth'-u/1000000| ≤ 1/10^11 := by
    have split : part'*millionth'-u/1000000 = (part'-u)*millionth'+u*(millionth'-1/1000000) := by ring
    have left : |(part'-u)*millionth'| ≤ 2^31/2^53*(2/1000000) := by
      rw [abs_mul]
      gcongr
      · exact abs_le.mpr part
      · rw [abs_le]; constructor <;> linarith
    have right : |u*(millionth'-1/1000000)| ≤ 2^31*(1/1000000/2^53) := by
      rw [abs_mul]
      gcongr
      · exact abs_le.mpr micros
      · exact abs_le.mpr millionth
    rw [split]
    refine (abs_add_le _ _).trans ((add_le_add left right).trans ?_)
    norm_num
  have near := abs_le.mp product
  have fraction := abs_le.mp (double_close (show |part'*millionth'| ≤ 2200 by rw [abs_le]; constructor <;> linarith))
  generalize double (part'*millionth') = fraction' at *
  have total := abs_le.mp (double_close (show |whole'+fraction'| ≤ 2^31+3000 by rw [abs_le]; constructor <;> linarith))
  rw [abs_lt]
  constructor <;> linarith

theorem clock_exact {tv : Timeval abi} (seconds : |tv.tvSec.toInt| ≤ 2^31) (micros : |tv.tvUsec.toInt| ≤ 2^31) :
    clock double tv = tv.tvSec.toInt*1000000+tv.tvUsec.toInt := by
  apply nearest_eq
  push_cast
  exact time_error (by exact_mod_cast seconds) (by exact_mod_cast micros)

theorem clock_word (tv : Timeval .ilp32) : clock double tv = tv.tvSec.toInt*1000000+tv.tvUsec.toInt := by
  have bound : ∀ long : BitVec Abi.ilp32.long, |long.toInt| ≤ 2^31 := fun long =>
    abs_le.mpr ⟨long.le_toInt,long.toInt_lt.le⟩
  exact clock_exact (bound _) (bound _)

end Scada.Historian
