import Scada.Kernel.EdgeDetector

namespace Scada.Kernel
open Programs BoundedQueues BitMasks Machines

-- An edge that finds its status bit set leaves no trace.
def Wired.pending (i : Button) (w : Wired) : Nat := (w.latch.getLsbD i.val).toNat

def Wired.latches (i : Button) (w : Wired) (e : Edge) : Bool :=
  decide (e.pin = i) && (e.rising == w.board.polarity i) && !w.latch.getLsbD i.val

def Wired.latched (i : Button) : Wired → List Edge → Nat
  | _,[] => 0
  | w,e::rest => (w.latches i e).toNat+latched i (w.sense e) rest

theorem mask_button (i j : Button) : (mask i.val : Word).getLsbD j.val = decide (i = j) := by
  rw [mask_getLsbD,decide_eq_true (show i.val < 32 by omega),Bool.true_and]
  exact decide_eq_decide.mpr Fin.val_inj

theorem sense_bit (w : Wired) (e : Edge) (i : Button) :
    (w.sense e).latch.getLsbD i.val = (w.latch.getLsbD i.val || w.latches i e) := by
  simp only [Wired.sense,Wired.latches]
  by_cases own : e.pin = i
  · subst own
    by_cases armed : e.rising = w.board.polarity e.pin
    · rw [if_pos armed,BitVec.getLsbD_or,mask_button]
      cases w.latch.getLsbD e.pin.val <;> simp [armed]
    · rw [if_neg armed]
      simp [armed]
  · split
    · rw [BitVec.getLsbD_or,mask_button]
      simp [own]
    · simp [own]

theorem sense_pending (w : Wired) (e : Edge) (i : Button) : (w.sense e).pending i = w.pending i+(w.latches i e).toNat := by
  rw [Wired.pending,Wired.pending,sense_bit,Wired.latches]
  cases w.latch.getLsbD i.val <;> simp

theorem arrive_pending (i : Button) (w : Wired) (edges : List Edge) :
    (edges.foldl Wired.sense w).pending i = w.pending i+w.latched i edges := by
  induction edges generalizing w with
  | nil => rfl
  | cons e rest ih => rw [List.foldl_cons,ih,sense_pending,Wired.latched,Nat.add_assoc]

theorem cleared_cons (i : Button) (e : Event Call Call.Reply Wired) (later : List (Event Call Call.Reply Wired)) :
    cleared i (e::later) =
      (e.call.eoi.toList.map fun value => (e.state.latch,value)).countP (clears i)+cleared i later := by
  simp [cleared,acknowledgements,List.countP_append]

theorem acknowledged_pending (i : Button) (w : Wired) (c : Call) (reply : c.Reply) (later : List (Event Call Call.Reply Wired)) :
    (wired.after w c reply).pending i+cleared i (⟨w,c,reply⟩::later) = w.pending i+cleared i later := by
  have own : (wired.after w c reply).pending i+(c.eoi.toList.map fun value => (w.latch,value)).countP (clears i) =
      w.pending i := by
    simp only [wired,Wired.pending]
    cases eoi : c.eoi with
    | none => simp [acknowledge]
    | some value =>
      have bound : i.val < 32 := by omega
      have table : ∀ set clears : Bool, (set && !clears).toNat+(if (set && clears) = true then 1 else 0) = set.toNat := by decide
      simp only [acknowledge,Option.toList_some,List.map_singleton,List.countP_singleton,clears,BitVec.getLsbD_and,
        BitVec.getLsbD_not,decide_eq_true bound,Bool.true_and]
      exact table _ _
  simp only [cleared_cons]
  omega

namespace Detector

def sensed (i : Button) (d : Detector) : Happening → Nat
  | .edge e => (d.port.latches i e).toNat
  | .interrupt inputs => tally wired (fun w stimulus => w.latched i stimulus.edges) (buttonHandler hwIrq) inputs d.port

def settled (i : Button) (d : Detector) : Nat := cleared i d.calls+d.port.pending i

theorem step_settled {d next : Detector} {action : Happening} (i : Button) (taken : d.step action = some next) :
    next.settled i = d.settled i+d.sensed i action := by
  rcases step_cases taken with ⟨e,rfl,rfl⟩ | ⟨inputs,rfl,_,rfl⟩
  · simp only [settled,sensed,sense_pending,Nat.add_assoc]
  · have flow := exec_balance wired (Wired.pending i) (cleared i) rfl (fun w stimulus => arrive_pending i w stimulus.edges)
      (acknowledged_pending i) (buttonHandler hwIrq) inputs d.port
    have split : cleared i (d.calls++(exec wired (buttonHandler hwIrq) inputs d.port).trace) =
        cleared i d.calls+cleared i (exec wired (buttonHandler hwIrq) inputs d.port).trace := by
      simp [cleared,List.countP_append]
    simp only [settled,sensed,split]
    omega

theorem step_reports {d next : Detector} {action : Happening} (i : Button) (enabled : d.Enabled)
    (taken : d.step action = some next) (reports : (buttonEvents i (puts d.calls)).length ≤ cleared i d.calls) :
    (buttonEvents i (puts next.calls)).length ≤ cleared i next.calls := by
  cases action with
  | edge e => cases taken; exact reports
  | interrupt inputs =>
    obtain ⟨j,record,latch,value,_,_,selected,counts⟩ := interrupt_counts enabled taken
    rw [(counts i).1,(counts i).2]
    by_cases own : i = j
    · subst own
      rw [if_pos rfl,if_pos selected]
      omega
    · rw [if_neg own]
      omega

end Detector

-- No phantom events: what is reported was acknowledged, and that had been sensed.
theorem events_are_sensed (before : Wired) (setup : Nat → Stimulus) (actions : List Happening) (d : Detector) (i : Button)
    (path : Runs Detector.step (.start before setup) actions d) :
    (buttonEvents i (puts d.calls)).length ≤ cleared i d.calls ∧
    cleared i d.calls+d.port.pending i =
      (Detector.start before setup).port.pending i+along Detector.step (Detector.sensed i) (.start before setup) actions := by
  constructor
  · have invariant := path.invariant (P := fun d => d.Enabled ∧ (buttonEvents i (puts d.calls)).length ≤ cleared i d.calls)
      ⟨Detector.start_enabled before setup,Nat.le_refl _⟩ fun both taken =>
        ⟨Detector.step_enabled both.1 taken,Detector.step_reports i both.1 taken both.2⟩
    exact invariant.2
  · have flow := path.balance (I := fun _ => True) (Detector.settled i) (Detector.sensed i) trivial
      (fun _ _ => trivial) fun _ taken => Detector.step_settled i taken
    have fresh : (Detector.start before setup).settled i = (Detector.start before setup).port.pending i := Nat.zero_add _
    rw [fresh] at flow
    exact flow

theorem events_are_sensed_pressed : let calm : Nat → Stimulus := fun _ => ⟨[],.uneventful⟩
    let actions : List Happening := [.edge ⟨1,false⟩,.interrupt calm,.edge ⟨1,false⟩,.edge ⟨1,true⟩]
    ∃ d : Detector, d.port.pending 1 = 1 ∧ (buttonEvents 1 (puts d.calls)).length ≤ cleared 1 d.calls ∧
      cleared 1 d.calls+d.port.pending 1 = (Detector.start ⟨.off,0x07,0⟩ calm).port.pending 1+
        along Detector.step (Detector.sensed 1) (.start ⟨.off,0x07,0⟩ calm) actions := by
  intro calm actions
  obtain ⟨d,path,pending⟩ := run_observed Detector.step (Detector.start ⟨.off,0x07,0⟩ calm) actions (·.port.pending 1) 1
    (by decide +kernel)
  exact ⟨d,pending,events_are_sensed ⟨.off,0x07,0⟩ calm actions d 1 path⟩

end Scada.Kernel
