import Scada.Kernel.PinLevels
import Scada.Kernel.Sensing

namespace Scada.Kernel
open Programs BitMasks Machines

def Wired.raises (w : Wired) : Prop := w.latch &&& w.board.registers .gpioBIntEn ≠ 0

instance (w : Wired) : Decidable w.raises := inferInstanceAs (Decidable (_ ≠ _))

def Detector.meet (d : Detector) (t : Transition) : Detector :=
  let changed : Detector := ⟨d.port.change t.pin,d.calls⟩
  (changed.step (.interrupt (calm t.inputs))).getD changed

def Detector.meetAll (d : Detector) (history : List Transition) : Detector := history.foldl Detector.meet d

def changeReport (pin : Button) (now : Button → Bool) : Word × (Button → Word) :=
  ((if now pin then RtuEvent.rising pin else RtuEvent.falling pin).code,fun i => if now i then 1 else 0)

-- What the module is for: each change of a button reported as what it is, with
-- the three states, but for the release of one held down since the load.
def changeReports : (held up : Button → Bool) → List Transition → List (Word × (Button → Word))
  | _,_,[] => []
  | held,up,t::rest =>
    let now := Function.update up t.pin (!up t.pin)
    (if held t.pin then [] else [changeReport t.pin now])++changeReports (Function.update held t.pin false) now rest

def observed (record : Status .ilp32) : Word × (Button → Word) := (record.eventType,record.buttonStatus)

-- A pin held down is still armed for the edge that it has behind it.
structure Synced (held : Button → Bool) (w : Wired) : Prop where
  quiet : ∀ i : Button, w.latch.getLsbD i.val = false
  enabled : w.board.registers .gpioBIntEn = 0x07
  armed : ∀ i, held i = false → w.board.polarity i = !w.level i
  down : ∀ i, held i = true → w.level i = false ∧ w.board.polarity i = false

theorem Synced.frame {held : Button → Bool} {w later : Wired} (synced : Synced held w)
    (registers : later.board.registers = w.board.registers) (pins : later.pins = w.pins) (latch : later.latch = w.latch) :
    Synced held later := by
  obtain ⟨board,_,_⟩ := later
  obtain rfl := pins
  obtain rfl := latch
  have polarity : ∀ i, board.polarity i = w.board.polarity i := by
    intro i
    rw [Board.polarity,registers,Board.polarity]
  exact ⟨synced.quiet,(congrFun registers .gpioBIntEn).trans synced.enabled,
    fun i up => (polarity i).trans (synced.armed i up),fun i down => (synced.down i down).imp_right (polarity i).trans⟩

theorem changed_level (w : Wired) (pin : Button) : (w.change pin).level = Function.update w.level pin (!w.level pin) := by
  funext i
  rw [change_level]
  by_cases same : i = pin
  · rw [if_pos same,same,Function.update_self]
  · rw [if_neg same,Function.update_of_ne same]

theorem synced_change {held : Button → Bool} {w : Wired} (synced : Synced held w) (pin i : Button) :
    (w.change pin).latch.getLsbD i.val = (decide (pin = i) && !held i) := by
  rw [Wired.change,sense_bit,synced.quiet i,Bool.false_or,Wired.latches,synced.quiet i,Bool.not_false,Bool.and_true]
  by_cases own : pin = i
  · subst own
    cases unsynced : held pin with
    | true => simp [synced.down pin unsynced]
    | false => simp [synced.armed pin unsynced]
  · simp [own]

theorem buttons_getLsbD : ∀ i : Button, (0x07 : Word).getLsbD i.val = true := by decide

theorem button_pending {latch : Word} {i : Button} (set : latch.getLsbD i.val = true) : latch &&& 0x07 ≠ 0 := by
  intro clear
  have bit : (latch &&& 0x07).getLsbD i.val = false := by rw [clear]; exact BitVec.getLsbD_zero
  rw [BitVec.getLsbD_and,set,buttons_getLsbD i] at bit
  cases bit

structure Steady (pins : Word) (pin : Button) (w : Wired) : Prop where
  pins : w.pins = pins
  latch : ∀ j : Button, w.latch.getLsbD j.val = true → j = pin

def steadySaid (pins : Word) (pin : Button) : Said
  | .load .intStsB,status => ∀ j : Button, status.getLsbD j.val = true → j = pin
  | .load .pbdr,value => ∀ j : Button, value.getLsbD j.val = pins.getLsbD j.val
  | _,_ => True

theorem steady_hears (pins : Word) (pin : Button) (inputs : Nat → Oracle) :
    Hears wired (calm inputs) (Steady pins pin) (steadySaid pins pin) where
  arrive _ _ steady := steady
  heard w n c steady := by
    cases c with
    | load r => cases r with
      | intStsB => exact steady.latch
      | pbdr =>
        intro j
        have read : (wired.reply w (calm inputs n) (.load .pbdr) : Word) =
            (inputs n (.load .pbdr) &&& ~~~0x07) ||| (w.pins &&& 0x07) := rfl
        rw [read,BitVec.getLsbD_or,BitVec.getLsbD_and,BitVec.getLsbD_not,BitVec.getLsbD_and,buttons_getLsbD j,steady.pins]
        simp
      | _ => trivial
    | _ => trivial
  after w c reply steady := by
    refine ⟨steady.pins,fun j set => steady.latch j ?_⟩
    rw [after_latch,acknowledge_getLsbD,Bool.and_eq_true] at set
    exact set.1

theorem raises_iff {held : Button → Bool} {w : Wired} (synced : Synced held w) (pin : Button) :
    (w.change pin).raises ↔ held pin = false := by
  rw [Wired.raises,show (w.change pin).board.registers .gpioBIntEn = 0x07 from synced.enabled]
  constructor
  · intro pending
    obtain ⟨i,set⟩ := Detector.pending_button pending
    rw [synced_change synced,Bool.and_eq_true,decide_eq_true_eq,Bool.not_eq_true'] at set
    obtain ⟨rfl,armed⟩ := set
    exact armed
  · intro armed
    exact button_pending (i := pin) (by rw [synced_change synced,armed]; simp)

theorem meet_down {held : Button → Bool} {d : Detector} {t : Transition} (synced : Synced held d.port)
    (down : held t.pin = true) : d.meet t = ⟨d.port.change t.pin,d.calls⟩ := by
  have silent : ¬ (d.port.change t.pin).raises := by
    rw [raises_iff synced,down]
    exact Bool.noConfusion
  have idle : (⟨d.port.change t.pin,d.calls⟩ : Detector).step (.interrupt (calm t.inputs)) = none := if_neg silent
  simp only [Detector.meet,idle,Option.getD_none]

theorem meet_armed {held : Button → Bool} {d : Detector} {t : Transition} (synced : Synced held d.port)
    (armed : held t.pin = false) : d.meet t = ⟨(d.port.serve t).state,d.calls++(d.port.serve t).trace⟩ := by
  have invoked : (⟨d.port.change t.pin,d.calls⟩ : Detector).step (.interrupt (calm t.inputs)) =
      some ⟨(d.port.serve t).state,d.calls++(d.port.serve t).trace⟩ := if_pos ((raises_iff synced t.pin).mpr armed)
  simp only [Detector.meet,invoked,Option.getD_some]

theorem still_down {held : Button → Bool} {pin i : Button} (below : Function.update held pin false i = true) :
    i ≠ pin ∧ held i = true := by
  have other : i ≠ pin := by
    rintro rfl
    rw [Function.update_self] at below
    cases below
  exact ⟨other,by rwa [Function.update_of_ne other] at below⟩

theorem change_synced {held : Button → Bool} {w : Wired} (synced : Synced held w) {pin : Button} (down : held pin = true) :
    Synced (Function.update held pin false) (w.change pin) := by
  refine ⟨fun i => ?_,synced.enabled,fun i armed => ?_,fun i below => ?_⟩
  · rw [synced_change synced]
    by_cases own : pin = i
    · simp [← own,down]
    · simp [own]
  · have polarity : (w.change pin).board.polarity i = w.board.polarity i := rfl
    rw [polarity,change_level]
    by_cases own : i = pin
    · subst own
      simp [synced.down i down]
    · rw [if_neg own]
      exact synced.armed i (by rwa [Function.update_of_ne own] at armed)
  · obtain ⟨other,before⟩ := still_down below
    rw [change_level,if_neg other]
    exact synced.down i before

theorem record_observed {w : Wired} {pin : Button} {raw : Status .ilp32} {levels : Button → Word} {now : Timeval .ilp32}
    (edge : w.board.polarity pin = w.level pin) (read : ∀ j, (levels j).getLsbD j.val = w.level j) :
    observed (w.board.record pin (sampled raw levels) now) = changeReport pin w.level := by
  have states : (sampled raw levels).buttonStatus = fun j => if w.level j then 1 else 0 := by
    funext j
    simp only [sampled,and_mask_button,read]
  have type : (w.board.record pin (sampled raw levels) now).eventType =
      (if w.level pin then RtuEvent.rising pin else RtuEvent.falling pin).code := by rw [← edge]; rfl
  exact Prod.ext type states

structure Answered (w : Wired) (t : Transition) : Prop where
  quiet : ∀ j : Button, (w.serve t).state.latch.getLsbD j.val = false
  enabled : (w.serve t).state.board.registers .gpioBIntEn = w.board.registers .gpioBIntEn
  level : (w.serve t).state.level = Function.update w.level t.pin (!w.level t.pin)
  polarity : (w.serve t).state.board.polarity = Function.update w.board.polarity t.pin (!w.board.polarity t.pin)
  reported : (puts (w.serve t).trace).map observed = [changeReport t.pin (Function.update w.level t.pin (!w.level t.pin))]

theorem serve_answered {held : Button → Bool} {w : Wired} (synced : Synced held w) {t : Transition}
    (armed : held t.pin = false) : Answered w t := by
  have bits : ∀ j : Button, (w.change t.pin).latch.getLsbD j.val = decide (t.pin = j) := by
    intro j
    rw [synced_change synced]
    by_cases own : t.pin = j
    · simp [← own,armed]
    · simp [own]
  have start : Steady (w.change t.pin).pins t.pin (w.change t.pin) :=
    ⟨rfl,fun j set => (of_decide_eq_true ((bits j).symm.trans set)).symm⟩
  obtain ⟨_,_,latch,value,only,_,acked,_,low⟩ := handler_acknowledges (w.change t.pin) (calm t.inputs)
    ⟨t.pin,by rw [bits]; exact decide_eq_true rfl⟩
  obtain ⟨kept,eoi,⟨silent,_⟩ | ⟨i,st,now,grounded,reported,board⟩⟩ :=
    handler_heard wired_tracks (steady_hears (w.change t.pin).pins t.pin t.inputs) (w.change t.pin) start
  · cases silent.symm.trans only
  · obtain ⟨⟨raw,levels,_,read,rfl⟩,⟨status,heard,selected⟩,_⟩ := grounded
    obtain rfl : i = t.pin := heard i selected
    have edge : (w.change t.pin).board.polarity t.pin = (w.change t.pin).level t.pin := by
      rw [change_level,if_pos rfl]
      exact synced.armed t.pin armed
    refine ⟨fun j => ?_,?_,?_,?_,?_⟩
    · rw [Wired.serve,calm_latch,acked,bits]
      simp [low j]
    · rw [Wired.serve,board]
      simp [Board.acknowledged,Board.recorded]; rfl
    · rw [← changed_level]
      funext j
      exact congrArg (·.getLsbD j.val) kept.pins
    · funext j
      rw [Wired.serve,board,acknowledged_polarity,recorded_polarity,Function.update_apply]
      by_cases own : j = t.pin
      · rw [if_pos own,if_pos own,own]; rfl
      · rw [if_neg own,if_neg own]; rfl
    · rw [Wired.serve,reported,← changed_level,List.map_singleton]
      exact congrArg (fun own => [own]) (record_observed edge fun j => read j j)

theorem serve_synced {held : Button → Bool} {w : Wired} (synced : Synced held w) {t : Transition} (armed : held t.pin = false) :
    Synced (Function.update held t.pin false) (w.serve t).state := by
  obtain ⟨quiet,enabled,level,polarity,_⟩ := serve_answered synced armed
  refine ⟨quiet,enabled.trans synced.enabled,fun j free => ?_,fun j below => ?_⟩
  · rw [polarity,level]
    by_cases own : j = t.pin
    · rw [own,Function.update_self,Function.update_self,synced.armed t.pin armed]
    · rw [Function.update_of_ne own] at free
      rw [Function.update_of_ne own,Function.update_of_ne own]
      exact synced.armed j free
  · obtain ⟨other,before⟩ := still_down below
    rw [polarity,level,Function.update_of_ne other,Function.update_of_ne other]
    exact synced.down j before

structure Met (held : Button → Bool) (d : Detector) (t : Transition) : Prop where
  level : (d.meet t).port.level = Function.update d.port.level t.pin (!d.port.level t.pin)
  reported : (puts (d.meet t).calls).map observed = (puts d.calls).map observed++
    if held t.pin then [] else [changeReport t.pin (Function.update d.port.level t.pin (!d.port.level t.pin))]
  synced : Synced (Function.update held t.pin false) (d.meet t).port

theorem meet_met {held : Button → Bool} {d : Detector} (synced : Synced held d.port) (t : Transition) : Met held d t := by
  cases pressed : held t.pin with
  | true =>
    have unheard := meet_down synced pressed
    refine ⟨?_,?_,?_⟩
    · rw [unheard,changed_level]
    · rw [unheard,pressed,if_pos rfl,List.append_nil]
    · rw [unheard]
      exact change_synced synced pressed
  | false =>
    have heard := meet_armed synced pressed
    have answered := serve_answered synced pressed
    refine ⟨?_,?_,?_⟩
    · rw [heard,answered.level]
    · rw [heard,puts_append,List.map_append,answered.reported,pressed,if_neg Bool.false_ne_true]
    · rw [heard]
      exact serve_synced synced pressed

theorem meetAll_reports {held : Button → Bool} {d : Detector} (synced : Synced held d.port) (history : List Transition) :
    (puts (d.meetAll history).calls).map observed =
      (puts d.calls).map observed++changeReports held d.port.level history := by
  induction history generalizing held d with
  | nil => exact (List.append_nil _).symm
  | cons t rest previous =>
    obtain ⟨level,reported,next⟩ := meet_met synced t
    have later := previous next
    rw [level,reported,List.append_assoc] at later
    exact later

theorem start_synced (before : Wired) (setup : Nat → Oracle) :
    Synced (fun i => !before.level i) (Detector.start before (calm setup)).port := by
  have level : ∀ i, (Detector.start before (calm setup)).port.level i = before.level i := fun _ => rfl
  have polarity : ∀ i, (Detector.start before (calm setup)).port.board.polarity i = false := by
    intro i
    have cleared : (Detector.start before (calm setup)).port.board.registers .gpioBIntType2 =
        before.board.registers .gpioBIntType2 &&& ~~~0x07 := rfl
    rw [Board.polarity,cleared]
    exact and_not_low_below 3 i.isLt
  refine ⟨fun i => ?_,Detector.start_enabled before (calm setup),fun i up => ?_,fun i down => ?_⟩
  · have cleared : (Detector.start before (calm setup)).port.latch =
        before.latch &&& ~~~(setup 4 (.load .gpioBEoi) ||| 0x07) := rfl
    rw [cleared,BitVec.getLsbD_and,BitVec.getLsbD_not,BitVec.getLsbD_or,buttons_getLsbD i]
    simp
  · rw [polarity,level,up]
  · exact ⟨(level i).trans (Bool.not_eq_true' _ |>.mp down),polarity i⟩

theorem changes_reported (before : Wired) (setup : Nat → Oracle) (history : List Transition) :
    (puts ((Detector.start before (calm setup)).meetAll history).calls).map observed =
      changeReports (fun i => !before.level i) before.level history :=
  meetAll_reports (start_synced before setup) history

-- Button 0 is down at the load: its release is silent, its next press is not.
example : (changeReports (fun i => i == 0) (fun i => i != 0) [⟨0,fun _ => .uneventful⟩,⟨0,fun _ => .uneventful⟩]).map (·.1) =
    [(RtuEvent.falling 0).code] := by decide

end Scada.Kernel
