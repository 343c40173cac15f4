import Scada.Kernel.Polarity

namespace Scada.Kernel
open Programs BoundedQueues BitMasks Machines

-- Port B with its edge detector; `latch` has the status bits nobody has acknowledged yet.
structure Wired where
  board : Board
  pins : Word
  latch : Word

structure Edge where
  pin : Button
  rising : Bool
  deriving DecidableEq

def Wired.sense (w : Wired) (e : Edge) : Wired :=
  {w with
    pins:=if e.rising then w.pins ||| mask e.pin.val else w.pins &&& ~~~mask e.pin.val
    latch:=if e.rising = w.board.polarity e.pin then w.latch ||| mask e.pin.val else w.latch}

structure Stimulus where
  edges : List Edge
  oracle : Oracle

def Call.eoi : Call → Option Word
  | .store .gpioBEoi value => some value
  | _ => none

def acknowledge (latch : Word) : Option Word → Word
  | some value => latch &&& ~~~value
  | none => latch

def wired : Platform Call Call.Reply Wired Stimulus where
  arrive w stimulus := stimulus.edges.foldl Wired.sense w
  reply w stimulus c := match c with
    | .load .intStsB => w.latch
    | .load .pbdr => (stimulus.oracle (.load .pbdr) &&& ~~~0x07) ||| (w.pins &&& 0x07)
    | c => answer w.board stimulus.oracle c
  after w c reply := {w with board:=w.board.after c reply,latch:=acknowledge w.latch c.eoi}

theorem sense_board (w : Wired) (edges : List Edge) : (edges.foldl Wired.sense w).board = w.board := by
  induction edges generalizing w with
  | nil => rfl
  | cons e rest ih => exact ih (w.sense e)

theorem wired_tracks : Tracks wired Wired.board where
  arrive w stimulus := sense_board w stimulus.edges
  after _ _ _ := rfl
  plain w stimulus r plain := by
    cases r with
    | pbdr | intStsB | gpioBEoi | adcOptInstalled => cases plain
    | _ => rfl

theorem sense_latch (w : Wired) (edges : List Edge) {i : Nat} (set : w.latch.getLsbD i = true) :
    (edges.foldl Wired.sense w).latch.getLsbD i = true := by
  induction edges generalizing w with
  | nil => exact set
  | cons e rest ih =>
    apply ih (w.sense e)
    simp only [Wired.sense]
    split
    · simp [set]
    · exact set

def acknowledgements (trace : List (Event Call Call.Reply Wired)) : List (Word × Word) :=
  trace.flatMap fun e => e.call.eoi.toList.map fun value => (e.state.latch,value)

@[simp] theorem acknowledgements_append (earlier later : List (Event Call Call.Reply Wired)) :
    acknowledgements (earlier++later) = acknowledgements earlier++acknowledgements later := List.flatMap_append ..

def clears (i : Button) (ack : Word × Word) : Bool := ack.1.getLsbD i.val && ack.2.getLsbD i.val

def cleared (i : Button) (trace : List (Event Call Call.Reply Wired)) : Nat :=
  (acknowledgements trace).countP (clears i)

structure Watch where
  latch : Word
  reported : List (Status .ilp32)
  acked : List (Word × Word)

def Watch.Later (before after : Watch) : Prop :=
  after.reported = before.reported ∧ after.acked = before.acked ∧
    ∀ i : Button, before.latch.getLsbD i.val = true → after.latch.getLsbD i.val = true

theorem Watch.Later.refl (w : Watch) : w.Later w := ⟨rfl,rfl,fun _ set => set⟩
theorem Watch.Later.trans {a b c : Watch} (first : a.Later b) (second : b.Later c) : a.Later c :=
  ⟨second.1.trans first.1,second.2.1.trans first.2.1,fun i set => second.2.2 i (first.2.2 i set)⟩

def Watch.replies (w : Watch) : (c : Call) → c.Reply → Prop
  | .load .intStsB,reply => reply = w.latch
  | _,_ => True

def watchSpec : Spec Call Call.Reply Watch where
  moves := Watch.Later
  permits _ _ := True
  replies := Watch.replies
  effect w c _ :=
    ⟨acknowledge w.latch c.eoi,w.reported++c.putRecord,w.acked++c.eoi.toList.map fun value => (w.latch,value)⟩

theorem watch_describes (inputs : Nat → Stimulus) : Describes wired inputs watchSpec
    (fun trace s w => s.latch = w.latch ∧ puts trace = w.reported ∧ acknowledgements trace = w.acked) where
  arrive {trace s w} related := by
    refine ⟨⟨(wired.arrive s (inputs trace.length)).latch,w.reported,w.acked⟩,⟨rfl,rfl,?_⟩,rfl,related.2⟩
    intro i set
    exact sense_latch s _ (related.1 ▸ set)
  answer {_ s w c} related := by
    cases c with
    | load r => cases r with
      | intStsB => exact related.1
      | _ => trivial
    | _ => trivial
  after {_ s w _ _} related _ _ := by
    obtain ⟨latch,reported,acked⟩ := related
    refine ⟨?_,?_,?_⟩
    · simp [wired,watchSpec,latch]
    · rw [puts_append,reported]; simp [puts,watchSpec]
    · rw [acknowledgements_append,acked]; simp [acknowledgements,watchSpec,latch]

def Call.quiet (c : Call) : Bool := c.eoi.isNone && c.putRecord.isEmpty

theorem quiet_effect {c : Call} (quiet : c.quiet = true) (w : Watch) (reply : c.Reply) :
    watchSpec.effect w c reply = w := by
  simp only [Call.quiet,Bool.and_eq_true,Option.isNone_iff_eq_none,List.isEmpty_iff] at quiet
  simp [watchSpec,quiet.1,quiet.2,acknowledge]

section
variable {α : Type} {post : α → Watch → Prop} {w : Watch}

theorem watch_quiet {c : Call} {rest : c.Reply → Code α} (quiet : c.quiet = true)
    (each : ∀ reply met, w.Later met → Meets watchSpec post (rest reply) met) :
    Meets watchSpec post (.call c rest) w := by
  intro met later
  refine ⟨trivial,fun reply _ => ?_⟩
  rw [quiet_effect quiet]
  exact each reply met later

theorem watch_status {rest : Word → Code α} (each : ∀ met, w.Later met → Meets watchSpec post (rest met.latch) met) :
    Meets watchSpec post (.call (.load .intStsB) rest) w := by
  intro met later
  refine ⟨trivial,fun reply same => ?_⟩
  rw [quiet_effect rfl,show reply = met.latch from same]
  exact each met later

theorem watch_put {st : Status .ilp32} {rest : Int → Code α}
    (each : ∀ ret met, w.Later met → Meets watchSpec post (rest ret) {met with reported:=met.reported++[st]}) :
    Meets watchSpec post (.call (.rtfPut fifoWrite st) rest) w := by
  intro met later
  refine ⟨trivial,fun reply _ => ?_⟩
  simpa [watchSpec,acknowledge,Call.eoi,Call.putRecord] using each reply met later

theorem watch_eoi {value : Word} {rest : Unit → Code α}
    (each : ∀ met, w.Later met → Meets watchSpec post (rest ())
      ⟨met.latch &&& ~~~value,met.reported,met.acked++[(met.latch,value)]⟩) :
    Meets watchSpec post (.call (.store .gpioBEoi value) rest) w := by
  intro met later
  refine ⟨trivial,fun _ _ => ?_⟩
  simpa [watchSpec,acknowledge,Call.eoi,Call.putRecord] using each met later

end

def OfButton (i : Button) (record : Status .ilp32) : Prop := ∀ j, isButtonEvent j record.eventType = decide (j = i)

theorem ofButton_code (i : Button) {record : Status .ilp32}
    (side : record.eventType = (RtuEvent.rising i).code ∨ record.eventType = (RtuEvent.falling i).code) :
    OfButton i record := by
  have table : ∀ i j : Button, isButtonEvent j (RtuEvent.rising i).code = decide (j = i) ∧
      isButtonEvent j (RtuEvent.falling i).code = decide (j = i) := by decide
  intro j
  rcases side with rising | falling
  · rw [rising]; exact (table i j).1
  · rw [falling]; exact (table i j).2

theorem recordEvent_watches (i : Button) (st : Status .ilp32) {post : Unit → Watch → Prop} {w : Watch}
    (reported : ∀ met record, w.Later met → OfButton i record → post () {met with reported:=met.reported++[record]}) :
    Meets watchSpec post (recordEvent i (RtuEvent.rising i) (RtuEvent.falling i) st) w := by
  unfold recordEvent load store doGettimeofday rtfPut
  simp only [Program.bind_perform]
  refine watch_quiet rfl fun _ w1 tested => ?_
  split
  · refine watch_quiet rfl fun _ w2 read => watch_quiet rfl fun _ w3 written => watch_quiet rfl fun _ w4 timed => ?_
    refine watch_put fun _ met later => reported met _ ?_ (ofButton_code i (.inl rfl))
    exact ((tested.trans read).trans (written.trans timed)).trans later
  · refine watch_quiet rfl fun _ w2 read => watch_quiet rfl fun _ w3 written => watch_quiet rfl fun _ w4 timed => ?_
    refine watch_put fun _ met later => reported met _ ?_ (ofButton_code i (.inr rfl))
    exact ((tested.trans read).trans (written.trans timed)).trans later

theorem sampleButtons_quiet : Calls (fun c => c.quiet = true) sampleButtons := by
  simp [sampleButtons,load,stack,Calls,Call.quiet,Call.eoi,Call.putRecord]

theorem sampleButtons_watches {w : Watch} {post : Status .ilp32 → Watch → Prop}
    (sampled : ∀ st met, w.Later met → post st met) : Meets watchSpec post sampleButtons w :=
  meets_frame _ (I := w.Later) Watch.Later.trans (fun _ _ => trivial)
    (fun later quiet _ => by rw [quiet_effect quiet]; exact later) sampleButtons_quiet (Watch.Later.refl w) sampled

-- With a button pending on entry one of the three tests succeeds: its bit
-- stays set while the tests before it find theirs clear.
theorem reportEdge_watches (st : Status .ilp32) {post : Unit → Watch → Prop} {w : Watch}
    (pending : ∃ i : Button, w.latch.getLsbD i.val = true)
    (reported : ∀ i met record, w.Later met → met.latch.getLsbD i.val = true → OfButton i record →
      post () {met with reported:=met.reported++[record]}) :
    Meets watchSpec post (reportEdge st) w := by
  have selects : ∀ (i : Button) (met : Watch), w.Later met → met.latch.getLsbD i.val = true →
      Meets watchSpec post (recordEvent i (RtuEvent.rising i) (RtuEvent.falling i) st) met := by
    intro i met later set
    exact recordEvent_watches i st fun last record after event =>
      reported i last record (later.trans after) (after.2.2 i set) event
  unfold reportEdge load
  simp only [Program.bind_perform]
  refine watch_status fun first one => ?_
  split
  · rename_i set; exact selects 0 first one ((and_mask_button _ 0).mp set)
  · rename_i clear0
    refine watch_status fun second two => ?_
    split
    · rename_i set; exact selects 1 second (one.trans two) ((and_mask_button _ 1).mp set)
    · rename_i clear1
      refine watch_status fun third three => ?_
      split
      · rename_i set; exact selects 2 third ((one.trans two).trans three) ((and_mask_button _ 2).mp set)
      · rename_i clear2
        obtain ⟨i,set⟩ := pending
        fin_cases i
        · exact absurd ((and_mask_button first.latch 0).mpr (one.2.2 0 set)) clear0
        · exact absurd ((and_mask_button second.latch 1).mpr ((one.trans two).2.2 1 set)) clear1
        · exact absurd ((and_mask_button third.latch 2).mpr (((one.trans two).trans three).2.2 2 set)) clear2

theorem clearEoi_watches {post : Unit → Watch → Prop} {w : Watch}
    (acknowledged : ∀ met value left, w.Later met → (∀ j : Button, value.getLsbD j.val = true) →
      post () ⟨left,met.reported,met.acked++[(met.latch,value)]⟩) :
    Meets watchSpec post (clearEoi hwIrq) w := by
  unfold clearEoi load store rtEnableIrq
  simp only [Program.bind_perform]
  refine watch_quiet rfl fun word w1 read => watch_eoi fun w2 late => watch_quiet rfl fun _ w3 enabled => ?_
  have low : ∀ j : Button, (word ||| 0x1F).getLsbD j.val = true := by
    intro j
    have bits : ∀ j : Button, (0x1F : Word).getLsbD j.val = true := by decide
    rw [BitVec.getLsbD_or,bits j,Bool.or_true]
  have final := acknowledged w2 (word ||| 0x1F) w3.latch (read.trans late) low
  obtain ⟨latch,reports,acks⟩ := w3
  obtain ⟨rfl,rfl,_⟩ := enabled
  exact final

theorem buttonHandler_watches {post : Unit → Watch → Prop} {w : Watch}
    (pending : ∃ i : Button, w.latch.getLsbD i.val = true)
    (handled : ∀ i record latch value left, latch.getLsbD i.val = true → OfButton i record →
      (∀ j : Button, value.getLsbD j.val = true) →
      post () ⟨left,w.reported++[record],w.acked++[(latch,value)]⟩) :
    Meets watchSpec post (buttonHandler hwIrq) w := by
  unfold buttonHandler rtDisableIrq
  simp only [Program.bind_perform]
  refine watch_quiet rfl fun _ w1 entered => meets_bind (sampleButtons_watches fun st w2 sampled => ?_)
  obtain ⟨i,set⟩ := pending
  refine meets_bind (reportEdge_watches st ⟨i,sampled.2.2 i (entered.2.2 i set)⟩ ?_)
  intro i met record tested selected event
  refine clearEoi_watches fun late value left between low => ?_
  have before := (entered.trans sampled).trans tested
  have final := handled i record late.latch value left (between.2.2 i selected) event low
  simpa [between.1,between.2.1,before.1,before.2.1] using final

theorem handler_acknowledges (w : Wired) (inputs : Nat → Stimulus)
    (pending : ∃ i : Button, w.latch.getLsbD i.val = true) : ∃ i record latch value,
    puts (exec wired (buttonHandler hwIrq) inputs w).trace = [record] ∧ OfButton i record ∧
    acknowledgements (exec wired (buttonHandler hwIrq) inputs w).trace = [(latch,value)] ∧
    latch.getLsbD i.val = true ∧ ∀ j : Button, value.getLsbD j.val = true := by
  have condition : Meets watchSpec (fun _ last => ∃ i record latch value, last.reported = [record] ∧ OfButton i record ∧
      last.acked = [(latch,value)] ∧ latch.getLsbD i.val = true ∧ ∀ j : Button, value.getLsbD j.val = true)
      (buttonHandler hwIrq) ⟨w.latch,[],[]⟩ :=
    buttonHandler_watches pending fun i record latch value left selected event low =>
      ⟨i,record,latch,value,rfl,event,rfl,selected,low⟩
  obtain ⟨last,⟨_,reported,acked⟩,outcome⟩ := meets_run (watch_describes inputs) ⟨rfl,rfl,rfl⟩ condition
  rw [reported,acked]
  exact outcome

-- The handler is invoked while an enabled status bit is set.
structure Detector where
  port : Wired
  calls : List (Event Call Call.Reply Wired)

inductive Happening where
  | edge (e : Edge)
  | interrupt (inputs : Nat → Stimulus)

namespace Detector

def start (before : Wired) (setup : Nat → Stimulus) : Detector := ⟨(exec wired setupPortB setup before).state,[]⟩

def step (d : Detector) : Happening → Option Detector
  | .edge e => some ⟨d.port.sense e,d.calls⟩
  | .interrupt inputs =>
    if d.port.latch &&& d.port.board.registers .gpioBIntEn ≠ 0 then
      let handled := exec wired (buttonHandler hwIrq) inputs d.port
      some ⟨handled.state,d.calls++handled.trace⟩
    else none

theorem step_cases {d next : Detector} {action : Happening} (taken : d.step action = some next) :
    (∃ e, action = .edge e ∧ next = ⟨d.port.sense e,d.calls⟩) ∨
    ∃ inputs, action = .interrupt inputs ∧ d.port.latch &&& d.port.board.registers .gpioBIntEn ≠ 0 ∧
      next = ⟨(exec wired (buttonHandler hwIrq) inputs d.port).state,
        d.calls++(exec wired (buttonHandler hwIrq) inputs d.port).trace⟩ := by
  cases action with
  | edge e => cases taken; exact .inl ⟨e,rfl,rfl⟩
  | interrupt inputs =>
    simp only [step] at taken
    split at taken
    · rename_i pending; cases taken; exact .inr ⟨inputs,rfl,pending,rfl⟩
    · cases taken

def Enabled (d : Detector) : Prop := d.port.board.registers .gpioBIntEn = 0x07

def Balanced (d : Detector) : Prop := ∀ i, (buttonEvents i (puts d.calls)).length = cleared i d.calls

-- No second button is pending when an invocation acknowledges.
def Alone (d : Detector) : Happening → Prop
  | .edge _ => True
  | .interrupt inputs => ∀ ack ∈ acknowledgements (exec wired (buttonHandler hwIrq) inputs d.port).trace,
      ∀ i j : Button, ack.1.getLsbD i.val = true → ack.1.getLsbD j.val = true → i = j

theorem start_enabled (before : Wired) (setup : Nat → Stimulus) : (start before setup).Enabled := by
  obtain ⟨last,⟨board,_⟩,_,enabled,_⟩ := meets_run (port_describes wired_tracks setup fun _ _ _ => trivial) ⟨rfl,rfl⟩
    (setupPortB_meets (fun _ _ => True) ⟨before.board,[]⟩)
  have same : (start before setup).port.board = last.board := board
  rw [Enabled,same,enabled]

theorem step_enabled {d next : Detector} {action : Happening} (enabled : d.Enabled) (taken : d.step action = some next) :
    next.Enabled := by
  rcases step_cases taken with ⟨e,rfl,rfl⟩ | ⟨inputs,rfl,_,rfl⟩
  · exact enabled
  · obtain ⟨eoi,⟨_,board⟩ | ⟨i,st,now,_,board⟩⟩ := handler_cases wired_tracks inputs d.port
    · simpa [Enabled,board,Board.acknowledged] using enabled
    · simpa [Enabled,board,Board.acknowledged,Board.recorded] using enabled

theorem pending_button {latch : Word} (pending : latch &&& 0x07 ≠ 0) : ∃ i : Button, latch.getLsbD i.val = true := by
  by_contra none
  apply pending
  apply BitVec.eq_of_getLsbD_eq
  intro j bound
  have low : (BitVec.ofNat 32 (2^3-1)).getLsbD j = (decide (j < 32) && decide (j < 3)) := low_getLsbD 3 j
  rw [BitVec.getLsbD_and,show (0x07 : Word) = BitVec.ofNat 32 (2^3-1) from rfl,low]
  by_cases button : j < 3
  · have clear : latch.getLsbD j = false := Bool.eq_false_iff.mpr fun set => none ⟨⟨j,button⟩,set⟩
    simp [clear]
  · simp [button]

theorem buttonEvents_ofButton {i : Button} {record : Status .ilp32} (event : OfButton i record) (j : Button) :
    (buttonEvents j [record]).length = if j = i then 1 else 0 := by
  simp only [buttonEvents,List.map_singleton,List.filter_singleton,event j]
  by_cases same : j = i <;> simp [same]

theorem interrupt_counts {d next : Detector} {inputs : Nat → Stimulus} (enabled : d.Enabled)
    (taken : d.step (.interrupt inputs) = some next) : ∃ i record latch value,
    acknowledgements (exec wired (buttonHandler hwIrq) inputs d.port).trace = [(latch,value)] ∧ OfButton i record ∧
    latch.getLsbD i.val = true ∧ ∀ j : Button,
      (buttonEvents j (puts next.calls)).length =
        (buttonEvents j (puts d.calls)).length+(if j = i then 1 else 0) ∧
      cleared j next.calls = cleared j d.calls+(if latch.getLsbD j.val then 1 else 0) := by
  rcases step_cases taken with ⟨e,absurd,_⟩ | ⟨_,same,pending,rfl⟩
  · cases absurd
  · cases same
    rw [show d.port.board.registers .gpioBIntEn = 0x07 from enabled] at pending
    obtain ⟨i,record,latch,value,reported,event,acked,selected,low⟩ :=
      handler_acknowledges d.port inputs (pending_button pending)
    refine ⟨i,record,latch,value,acked,event,selected,fun j => ⟨?_,?_⟩⟩
    · rw [puts_append,buttonEvents_append,List.length_append,reported,buttonEvents_ofButton event]
    · have one : [(latch,value)].countP (clears j) = if latch.getLsbD j.val then 1 else 0 := by
        simp [List.countP_singleton,clears,low j]
      rw [cleared,acknowledgements_append,List.countP_append,acked,one]; rfl

theorem step_balanced {d next : Detector} {action : Happening} (enabled : d.Enabled) (balanced : d.Balanced)
    (taken : d.step action = some next) (alone : d.Alone action) : next.Balanced := by
  cases action with
  | edge e => cases taken; exact balanced
  | interrupt inputs =>
    obtain ⟨i,record,latch,value,acked,_,selected,counts⟩ := interrupt_counts enabled taken
    intro j
    rw [(counts j).1,(counts j).2,balanced j]
    have only : (latch.getLsbD j.val = true) ↔ j = i :=
      ⟨fun set => alone (latch,value) (by simp [acked]) j i set selected,fun same => same ▸ selected⟩
    simp only [only]

theorem step_alone {d next : Detector} {action : Happening} (enabled : d.Enabled) (balanced : d.Balanced)
    (taken : d.step action = some next) (after : next.Balanced) : d.Alone action := by
  cases action with
  | edge e => trivial
  | interrupt inputs =>
    obtain ⟨i,record,latch,value,acked,_,_,counts⟩ := interrupt_counts enabled taken
    have only : ∀ j : Button, latch.getLsbD j.val = true → j = i := by
      intro j set
      by_contra other
      have unequal := after j
      rw [(counts j).1,(counts j).2,balanced j,if_neg other,if_pos set] at unequal
      omega
    intro ack member j k left right
    rw [acked,List.mem_singleton] at member
    subst member
    exact (only j left).trans (only k right).symm

end Detector

-- No acknowledged edge goes unreported exactly when no invocation acknowledges
-- two buttons; edges may arrive between the calls of an invocation, too.
theorem acknowledged_iff_alone (before : Wired) (setup : Nat → Stimulus) (actions : List Happening) :
    Always Detector.step Detector.Balanced (Detector.start before setup) actions ↔
      ∀ d action next, Takes Detector.step (Detector.start before setup) actions d action next → d.Alone action := by
  refine always_iff_takes (J := fun d => d.Enabled ∧ d.Balanced) ⟨Detector.start_enabled before setup,fun _ => rfl⟩
    (fun both => both.2) ?_ ?_
  · intro d action next both taken alone
    exact ⟨Detector.step_enabled both.1 taken,Detector.step_balanced both.1 both.2 taken alone⟩
  · intro d action next visited taken here there
    have enabled := visited.invariant (Detector.start_enabled before setup) Detector.step_enabled
    exact Detector.step_alone enabled here taken there

theorem both_pressed_unbalanced : ¬ ∀ before setup actions d,
    Runs Detector.step (Detector.start before setup) actions d → d.Balanced := by
  intro all
  let before : Wired := ⟨.off,0x07,0⟩
  let calm : Nat → Stimulus := fun _ => ⟨[],.uneventful⟩
  let actions : List Happening := [.edge ⟨0,false⟩,.edge ⟨1,false⟩,.interrupt calm]
  obtain ⟨d,path,counts⟩ := run_observed Detector.step (Detector.start before calm) actions
    (fun d => ((buttonEvents 1 (puts d.calls)).length,cleared 1 d.calls)) (0,1) (by decide +kernel)
  have balanced := all before calm actions d path 1
  rw [(Prod.mk.inj counts).1,(Prod.mk.inj counts).2] at balanced
  cases balanced

end Scada.Kernel
