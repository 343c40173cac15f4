import Scada.Kernel.EdgeDetector

namespace Scada.Kernel
open Programs BitMasks

-- One pin changes its level, and the handler runs before anything else changes;
-- the clock, the stack and the rest of the port stay free.
structure Transition where
  pin : Button
  inputs : Nat → Oracle

def calm (inputs : Nat → Oracle) : Nat → Stimulus := fun n => ⟨[],inputs n⟩

namespace Wired

def level (w : Wired) (i : Button) : Bool := w.pins.getLsbD i.val

def change (w : Wired) (pin : Button) : Wired := w.sense ⟨pin,!w.level pin⟩

def serve (w : Wired) (t : Transition) : Outcome Call Call.Reply Wired Unit :=
  exec wired (buttonHandler hwIrq) (calm t.inputs) (w.change t.pin)

def serveAll (w : Wired) (history : List Transition) : Wired := history.foldl (fun w t => (w.serve t).state) w

structure Aligned (w : Wired) : Prop where
  quiet : w.latch = 0
  armed : ∀ i, w.board.polarity i = !w.level i

end Wired

theorem change_pins (w : Wired) (pin : Button) : (w.change pin).pins = w.pins ^^^ mask pin.val := by
  cases level : w.level pin with
  | true =>
    simp only [Wired.change,Wired.sense,level,Bool.not_true,Bool.false_eq_true,if_false]
    exact and_not_mask level
  | false =>
    simp only [Wired.change,Wired.sense,level,Bool.not_false,if_true]
    exact or_mask level

theorem change_level (w : Wired) (pin i : Button) : (w.change pin).level i = if i = pin then !w.level i else w.level i := by
  rw [Wired.level,change_pins]
  by_cases same : i = pin
  · rw [if_pos same,same]
    exact xor_mask_same (by omega)
  · rw [if_neg same]
    exact xor_mask_other fun equal => same (Fin.ext equal.symm)

theorem change_latch {w : Wired} (aligned : w.Aligned) (pin : Button) : (w.change pin).latch = mask pin.val := by
  simp only [Wired.change,Wired.sense,aligned.armed pin,if_true,aligned.quiet]
  exact BitVec.zero_or

structure Undisturbed (pins : Word) (pin : Button) (w : Wired) : Prop where
  pins : w.pins = pins
  latch : ∀ j, w.latch.getLsbD j = true → j = pin.val

def levelsSaid (pins : Word) (pin : Button) : Said
  | .load .intStsB,status => ∀ j, status.getLsbD j = true → j = pin.val
  | .load .pbdr,value => ∀ j : Button, value.getLsbD j.val = pins.getLsbD j.val
  | _,_ => True

theorem acknowledge_getLsbD (latch : Word) (value : Option Word) (j : Nat) : (acknowledge latch value).getLsbD j =
    (latch.getLsbD j && !value.toList.any (·.getLsbD j)) := by
  cases value with
  | none => simp [acknowledge]
  | some value =>
    simp only [acknowledge,BitVec.getLsbD_and,BitVec.getLsbD_not,Option.toList_some,List.any_cons,List.any_nil,Bool.or_false]
    by_cases bound : j < 32
    · simp [bound]
    · simp [BitVec.getLsbD_of_ge latch j (by omega)]

theorem after_latch (w : Wired) (c : Call) (reply : c.Reply) : (wired.after w c reply).latch = acknowledge w.latch c.eoi := rfl

theorem undisturbed_hears (pins : Word) (pin : Button) (inputs : Nat → Oracle) :
    Hears wired (calm inputs) (Undisturbed pins pin) (levelsSaid pins pin) where
  arrive _ _ undisturbed := undisturbed
  heard w n c undisturbed := by
    cases c with
    | load r => cases r with
      | intStsB => exact undisturbed.latch
      | pbdr =>
        intro j
        have low : (BitVec.ofNat 32 (2^3-1)).getLsbD j.val = true := by rw [low_getLsbD]; simp; omega
        have same : (wired.reply w (calm inputs n) (.load .pbdr) : Word) =
            (inputs n (.load .pbdr) &&& ~~~BitVec.ofNat 32 (2^3-1)) ||| (w.pins &&& BitVec.ofNat 32 (2^3-1)) := rfl
        rw [same,BitVec.getLsbD_or,BitVec.getLsbD_and,BitVec.getLsbD_not,BitVec.getLsbD_and,low,undisturbed.pins]
        simp
      | _ => trivial
    | _ => trivial
  after w c reply undisturbed := by
    refine ⟨undisturbed.pins,fun j set => undisturbed.latch j ?_⟩
    rw [after_latch,acknowledge_getLsbD,Bool.and_eq_true] at set
    exact set.1

theorem calm_latch {α : Type} (p : Code α) (inputs : Nat → Oracle) (w : Wired) (j : Nat) :
    (exec wired p (calm inputs) w).state.latch.getLsbD j =
      (w.latch.getLsbD j && !(acknowledgements (exec wired p (calm inputs) w).trace).any (·.2.getLsbD j)) := by
  induction p generalizing inputs w with
  | done value => simp [exec,acknowledgements]
  | call c rest ih =>
    let reply := wired.reply w (calm inputs 0) c
    have later := ih reply (fun n => inputs (n+1)) (wired.after w c reply)
    rw [after_latch,acknowledge_getLsbD] at later
    have own : (acknowledgements [(⟨w,c,reply⟩ : Event Call Call.Reply Wired)]).any (·.2.getLsbD j) =
        c.eoi.toList.any (·.getLsbD j) := by simp [acknowledgements,List.any_map,Function.comp_def]
    have whole : acknowledgements (exec wired (.call c rest) (calm inputs) w).trace =
        acknowledgements [(⟨w,c,reply⟩ : Event Call Call.Reply Wired)]++
          acknowledgements (exec wired (rest reply) (calm fun n => inputs (n+1)) (wired.after w c reply)).trace :=
      acknowledgements_append [_] _
    rw [whole,List.any_append,own,Bool.not_or,← Bool.and_assoc]
    exact later

structure Served (w : Wired) (t : Transition) : Prop where
  raised : (w.change t.pin).latch = mask t.pin.val
  reported : ∃ record, puts (w.serve t).trace = [record] ∧
    record.eventType = (if (w.change t.pin).level t.pin then RtuEvent.rising t.pin else RtuEvent.falling t.pin).code ∧
    ∀ i, record.buttonStatus i = if (w.change t.pin).level i then 1 else 0
  levels : ∀ i, (w.serve t).state.level i = if i = t.pin then !w.level i else w.level i
  aligned : (w.serve t).state.Aligned

theorem serve_served {w : Wired} (aligned : w.Aligned) (t : Transition) : Served w t := by
  have raised := change_latch aligned t.pin
  have pending : ∃ i : Button, (w.change t.pin).latch.getLsbD i.val = true := by
    refine ⟨t.pin,?_⟩
    rw [raised,mask_getLsbD]
    simp; omega
  have start : Undisturbed (w.change t.pin).pins t.pin (w.change t.pin) := by
    refine ⟨rfl,fun j set => ?_⟩
    rw [raised,mask_getLsbD] at set
    simp at set
    omega
  obtain ⟨_,_,latch,value,only,_,acked,_,low⟩ := handler_acknowledges (w.change t.pin) (calm t.inputs) pending
  obtain ⟨kept,eoi,⟨silent,_⟩ | ⟨i,st,now,grounded,reported,board⟩⟩ :=
    handler_heard wired_tracks (undisturbed_hears (w.change t.pin).pins t.pin t.inputs) (w.change t.pin) start
  · cases silent.symm.trans only
  · obtain ⟨⟨raw,levels,_,read,rfl⟩,⟨status,heard,selected⟩,_⟩ := grounded
    obtain rfl : i = t.pin := Fin.ext (heard i.val selected)
    have edge : (w.change t.pin).board.polarity t.pin = (w.change t.pin).level t.pin := by
      rw [change_level,if_pos rfl]
      exact aligned.armed t.pin
    have levels' : ∀ j, (w.serve t).state.level j = if j = t.pin then !w.level j else w.level j := by
      intro j
      rw [← change_level]
      exact congrArg (·.getLsbD j.val) kept.pins
    refine ⟨raised,⟨_,reported,?_,fun j => ?_⟩,levels',?_,fun j => ?_⟩
    · rw [← edge]; rfl
    · have bit : levels j &&& mask j.val ≠ 0 ↔ (w.change t.pin).level j = true := by
        rw [and_mask_button,read j j]; rfl
      simp only [Board.record,sampled,bit]
    · apply BitVec.eq_of_getLsbD_eq
      intro j _
      have clear : (w.serve t).state.latch.getLsbD j = false := by
        by_cases own : j = t.pin.val
        · have left := calm_latch (buttonHandler hwIrq) t.inputs (w.change t.pin) j
          rw [acked] at left
          rw [Wired.serve,left,own]
          simp [low t.pin]
        · exact Bool.eq_false_iff.mpr fun set => own (kept.latch j set)
      simpa using clear
    · have final : (w.serve t).state.board.polarity j =
          if j = t.pin then !w.board.polarity j else w.board.polarity j := by
        rw [Wired.serve,board,acknowledged_polarity,recorded_polarity]; rfl
      rw [final,levels',aligned.armed j]
      split <;> rfl

theorem serveAll_aligned {w : Wired} (aligned : w.Aligned) (history : List Transition) : (w.serveAll history).Aligned := by
  induction history generalizing w with
  | nil => exact aligned
  | cons t rest previous => exact previous (serve_served aligned t).aligned

theorem polarity_tracks_levels {w : Wired} (aligned : w.Aligned) (earlier : List Transition) (t : Transition) :
    Served (w.serveAll earlier) t := serve_served (serveAll_aligned aligned earlier) t

def buttonsUp : Wired := ⟨.off,0x07,0⟩

theorem polarity_tracks_levels_press : Served (buttonsUp.serveAll [⟨1,fun _ => .uneventful⟩]) ⟨1,fun _ => .uneventful⟩ :=
  polarity_tracks_levels ⟨rfl,by decide⟩ [⟨1,fun _ => .uneventful⟩] ⟨1,fun _ => .uneventful⟩

end Scada.Kernel
