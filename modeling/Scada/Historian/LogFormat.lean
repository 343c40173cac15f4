import Scada.Historian.EventLog

namespace Scada.Historian
open Binary64 Decimals Delimited

variable {abi : Abi}

def logText (round : ℚ → ℚ) (event : Status abi) : Option Text := (logLine round event).map (·++['\n'])

theorem eventLog_text (round : ℚ → ℚ) (files : Files) (event : Status abi) : eventLog round true files event =
    (logText round event).map fun text =>
      (0,Function.update files (filename event.rtuId) (some ((files (filename event.rtuId)).getD []++text))) := by
  simp only [eventLog,if_true,logText,Option.map_map,Function.comp_def,List.append_assoc]

-- A record as the RTUs send it: a time of day and an event of the table.
structure Ordinary (event : Status abi) : Prop where
  seconds : 0 ≤ event.eventTv.tvSec.toInt
  micros : 0 ≤ event.eventTv.tvUsec.toInt
  second : event.eventTv.tvUsec.toInt < 1000000
  inTable : InTable event

theorem clock_id (tv : Timeval abi) : clock id tv = tv.tvSec.toInt*1000000+tv.tvUsec.toInt := by
  apply nearest_eq
  have exact : time id tv*1000000 = ((tv.tvSec.toInt*1000000+tv.tvUsec.toInt : ℤ) : ℚ) := by
    simp only [time,id_eq]
    push_cast
    ring
  rw [exact,sub_self,abs_zero]
  norm_num

-- One step of the converter is more than a thousand millionths of a volt.
theorem volts_injective {a b : Word}
    (same : nearest (adcToVolts id a*1000000) = nearest (adcToVolts id b*1000000)) : a = b := by
  have left := abs_le.mp (nearest_error (adcToVolts id a*1000000))
  have right := abs_le.mp (nearest_error (adcToVolts id b*1000000))
  rw [same] at left
  simp only [adcToVolts,id_eq] at left right
  have above : (a.toInt : ℚ) < b.toInt+1 := by linarith
  have below : (b.toInt : ℚ) < a.toInt+1 := by linarith
  apply BitVec.eq_of_toInt_eq
  have above : a.toInt < b.toInt+1 := by exact_mod_cast above
  have below : b.toInt < a.toInt+1 := by exact_mod_cast below
  omega

theorem eventStrings_nodup : eventStrings.Nodup := by decide

theorem eventToString_injective {a b : Word} {eventStr : Text} (left : eventToString a = some eventStr)
    (right : eventToString b = some eventStr) : a = b := by
  have bound := (List.getElem?_eq_some_iff.mp left).1
  exact BitVec.eq_of_toNat_eq ((List.getElem?_inj bound eventStrings_nodup).mp (left.trans right.symm))

theorem logFields_identify {x y : Status abi} (one : Ordinary x) (two : Ordinary y) {a b : Text}
    (left : eventToString x.eventType = some a) (right : eventToString y.eventType = some b)
    (same : logFields id x a = logFields id y b) : x = y := by
  simp only [logFields,List.cons.injEq,and_true] at same
  obtain ⟨rtuId,time,btn0,btn1,btn2,led1,led2,voltage,eventStr⟩ := same
  have word : ∀ {v w : Word}, decimal v.toInt = decimal w.toInt → v = w := fun same =>
    BitVec.eq_of_toInt_eq (decimal_injective same)
  have clocks : clock id x.eventTv = clock id y.eventTv := nearest_of_fixed time
  rw [clock_id,clock_id] at clocks
  have sub := And.intro one.micros one.second
  have sub' := And.intro two.micros two.second
  ext1
  · exact word rtuId
  · funext i
    fin_cases i
    · exact word btn0
    · exact word btn1
    · exact word btn2
  · funext i
    fin_cases i
    · exact word led1
    · exact word led2
  · exact volts_injective (nearest_of_fixed voltage)
  · exact Timeval.ext (BitVec.eq_of_toInt_eq (by omega)) (BitVec.eq_of_toInt_eq (by omega))
  · exact eventToString_injective left (eventStr ▸ right)

theorem logLine_identify {x y : Status abi} (one : Ordinary x) (two : Ordinary y) (same : logLine id x = logLine id y) :
    x = y := by
  obtain ⟨a,left⟩ := eventToString_inTable one.inTable
  obtain ⟨b,right⟩ := eventToString_inTable two.inTable
  simp only [logLine,left,right,Option.map_some,Option.some.injEq] at same
  have clean : ∀ {event : Status abi} {eventStr : Text}, eventToString event.eventType = some eventStr →
      ∀ field ∈ logFields id event eventStr, '|' ∉ field := fun known field among member =>
    (plain_logFields known field among _ member).1 rfl
  exact logFields_identify one two left right (terminate_injective (clean left) (clean right) same)

theorem logText_lines {records : List (Status abi)} (ordinary : ∀ record ∈ records, Ordinary record) :
    (∀ line ∈ records.map fun record => (logLine id record).getD [], '\n' ∉ line) ∧
      records.flatMap (fun record => (logText id record).getD []) =
        terminate '\n' (records.map fun record => (logLine id record).getD []) := by
  have logged : ∀ record ∈ records, ∃ line, logLine id record = some line := fun record among =>
    logLine_inTable id (ordinary record among).inTable
  constructor
  · intro line member
    obtain ⟨record,among,rfl⟩ := List.mem_map.mp member
    obtain ⟨line,own⟩ := logged record among
    rw [own]
    exact logLine_no_newline own
  · rw [terminate,List.flatMap_map]
    apply List.flatMap_congr
    intro record among
    obtain ⟨line,own⟩ := logged record among
    simp [logText,own]

theorem lines_identify {xs ys : List (Status abi)} (one : ∀ x ∈ xs, Ordinary x) (two : ∀ y ∈ ys, Ordinary y)
    (same : (xs.map fun x => (logLine id x).getD []) = ys.map fun y => (logLine id y).getD []) : xs = ys := by
  induction xs generalizing ys with
  | nil => exact (List.map_eq_nil_iff.mp same.symm).symm
  | cons x rest previous =>
    obtain ⟨y,later,rfl,head,tail⟩ := List.map_eq_cons_iff.mp same.symm
    obtain ⟨a,left⟩ := logLine_inTable id (one x (by simp)).inTable
    obtain ⟨b,right⟩ := logLine_inTable id (two y (by simp)).inTable
    have first : x = y := by
      apply logLine_identify (one x (by simp)) (two y (by simp))
      simp only [left,right,Option.getD_some] at head
      rw [left,right,head]
    rw [first,previous (fun x member => one x (by simp [member])) (fun y member => two y (by simp [member])) tail.symm]

theorem log_lines_identify (abi : Abi) :
    (∀ x y : Status abi, Ordinary x → Ordinary y → logText id x = logText id y → x = y) ∧
    (∀ (x : Status abi) text, logText id x = some text → ∃ fields : List Text,
      fields.length = 9 ∧ (∀ field ∈ fields, '|' ∉ field ∧ '\n' ∉ field) ∧ text = terminate '|' fields++['\n']) ∧
    ∀ xs ys : List (Status abi), (∀ x ∈ xs, Ordinary x) → (∀ y ∈ ys, Ordinary y) →
      xs.flatMap (fun x => (logText id x).getD []) = ys.flatMap (fun y => (logText id y).getD []) → xs = ys := by
  refine ⟨?_,?_,?_⟩
  · intro x y one two same
    apply logLine_identify one two
    exact Option.map_injective (List.append_left_injective ['\n']) same
  · intro x text written
    obtain ⟨line,logged,rfl⟩ := Option.map_eq_some_iff.mp written
    obtain ⟨eventStr,plain,rfl⟩ := logLine_cases logged
    exact ⟨_,rfl,fun field among => ⟨fun bar => (plain field among _ bar).1 rfl,fun newline =>
      (plain field among _ newline).2 rfl⟩,rfl⟩
  · intro xs ys one two same
    have left := logText_lines one
    have right := logText_lines two
    rw [left.2,right.2] at same
    exact lines_identify one two (terminate_injective left.1 right.1 same)

def pressedAt (tvUsec : BitVec Abi.ilp32.long) : Status .ilp32 :=
  ⟨1,![1,1,0],![0,0],555,⟨1493739115,tvUsec⟩,RtuEvent.btn1Falling.code⟩

theorem log_lines_identify_microsecond : logText id (pressedAt 250000) ≠ logText id (pressedAt 250001) := by
  intro same
  have one : Ordinary (pressedAt 250000) := ⟨by decide,by decide,by decide,by decide⟩
  have two : Ordinary (pressedAt 250001) := ⟨by decide,by decide,by decide,by decide⟩
  exact absurd ((log_lines_identify .ilp32).1 _ _ one two same) (by decide)

-- In a buffer of MSG_SIZE bytes with its NUL; the texts are ASCII, one byte a
-- character.
def Fits (text : Text) : Prop := text.length+1 ≤ msgSize

theorem toInt_size {width : Nat} (word : BitVec width) : |word.toInt| ≤ 2^(width-1) :=
  abs_le.mpr ⟨word.le_toInt,word.toInt_lt.le⟩

theorem decimal_word (word : Word) : (decimal word.toInt).length ≤ 11 := by
  have size := abs_le.mp (toInt_size word)
  exact decimal_length (by decide : 0 < 10) (by omega)

theorem long_size (long : BitVec abi.long) : |(long.toInt : ℚ)| ≤ 2^63 := by
  have size := toInt_size long
  have widest : (2 : ℤ)^(abi.long-1) ≤ 2^63 := pow_le_pow_right₀ (by decide) (by cases abi <;> decide)
  exact_mod_cast size.trans widest

theorem time_length (tv : Timeval abi) : (fixed (time id tv)).length ≤ 27 := by
  have seconds := abs_le.mp (long_size tv.tvSec)
  have micros := abs_le.mp (long_size tv.tvUsec)
  apply fixed_length (by decide : 0 < 19)
  apply millionths_lt
  simp only [time,id_eq]
  have size : |(tv.tvSec.toInt : ℚ)+tv.tvUsec.toInt*(1/1000000)| ≤ 2^63+2^63/1000000 := by
    rw [abs_le]
    constructor <;> linarith
  push_cast
  linarith

theorem volts_length (adcVal : Word) : (fixed (adcToVolts id adcVal)).length ≤ 15 := by
  have size := abs_le.mp (toInt_size adcVal)
  have low : -2^31 ≤ (adcVal.toInt : ℚ) := by exact_mod_cast size.1
  have high : (adcVal.toInt : ℚ) ≤ 2^31 := by exact_mod_cast size.2
  apply fixed_length (by decide : 0 < 7)
  apply millionths_lt
  simp only [adcToVolts,id_eq]
  have size : |(adcVal.toInt : ℚ)*(5/4095)| ≤ 2^31*(5/4095) := by
    rw [abs_le]
    constructor <;> linarith
  push_cast
  linarith

theorem eventStrings_length : ∀ text ∈ eventStrings, text.length ≤ 21 := by decide

theorem logFields_length {event : Status abi} {eventStr : Text} (short : eventStr.length ≤ 21) :
    (terminate '|' (logFields id event eventStr)).length ≤ 138 := by
  have rtuId := decimal_word event.rtuId
  have btn0 := decimal_word (event.buttonStatus 0)
  have btn1 := decimal_word (event.buttonStatus 1)
  have btn2 := decimal_word (event.buttonStatus 2)
  have led1 := decimal_word (event.ledStatus 0)
  have led2 := decimal_word (event.ledStatus 1)
  have time := time_length event.eventTv
  have volts := volts_length event.lineVoltage
  simp only [logFields,terminate_cons,terminate_nil,List.length_append,List.length_cons,List.length_nil]
  omega

theorem buffers_fit (abi : Abi) (event : Status abi) (inTable : InTable event) : ∃ eventStr text,
    eventToString event.eventType = some eventStr ∧ logText id event = some text ∧
      Fits (filename event.rtuId) ∧ Fits eventStr ∧ Fits text := by
  obtain ⟨eventStr,known⟩ := eventToString_inTable inTable
  have name := decimal_word event.rtuId
  have short := eventStrings_length _ (List.mem_of_getElem? known)
  have line : (terminate '|' (logFields id event eventStr)).length ≤ 138 := logFields_length short
  refine ⟨eventStr,_,known,by rw [logText,logLine,known]; rfl,?_,?_,?_⟩
  · simp only [Fits,msgSize,filename,List.length_append]
    have before : "rtu_".toList.length = 4 := rfl
    have after : "_log.txt".toList.length = 8 := rfl
    omega
  · simp only [Fits,msgSize]
    omega
  · simp only [Fits,msgSize,List.length_append,List.length_singleton]
    omega

def widest : Status .lp64 :=
  ⟨1<<<31,fun _ => 1<<<31,fun _ => 1<<<31,1<<<31,⟨1<<<63,1<<<63⟩,RtuEvent.btn0Falling.code⟩

theorem buffers_fit_widest : ∃ eventStr text,
    eventToString widest.eventType = some eventStr ∧ logText id widest = some text ∧
      Fits (filename widest.rtuId) ∧ Fits eventStr ∧ Fits text := buffers_fit .lp64 widest (by decide)

end Scada.Historian
