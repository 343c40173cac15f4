import Scada.Kernel.Board
import Scada.Library.BitMask

namespace Scada.Kernel
open Programs BoundedQueues BitMasks

-- The branch of the handler that found the status bit of one button set. Its
-- three copies in the source differ in the bit and in the two event names.
def recordEvent (btn : Button) (rising falling : RtuEvent) (st : Status .ilp32) : Code Unit := do
  let mut st := st
  if (← load .gpioBIntType2) &&& mask btn.val ≠ 0 then -- configured for rising edge
    st := {st with eventType:=rising.code}
    store .gpioBIntType2 ((← load .gpioBIntType2) &&& ~~~mask btn.val)
  else
    st := {st with eventType:=falling.code}
    store .gpioBIntType2 ((← load .gpioBIntType2) ||| mask btn.val)
  st := {st with lineVoltage:=555}
  st := {st with eventTv:=← doGettimeofday}
  let _ret ← rtfPut fifoWrite st

def sampleButtons : Code (Status .ilp32) := do
  let mut st ← stack
  st := {st with buttonStatus:=Function.update st.buttonStatus 0 (if (← load .pbdr) &&& mask 0 ≠ 0 then 1 else 0)}
  st := {st with buttonStatus:=Function.update st.buttonStatus 1 (if (← load .pbdr) &&& mask 1 ≠ 0 then 1 else 0)}
  st := {st with buttonStatus:=Function.update st.buttonStatus 2 (if (← load .pbdr) &&& mask 2 ≠ 0 then 1 else 0)}
  return st

-- The else-if chain. IntStsB is read again for every button tested.
def reportEdge (st : Status .ilp32) : Code Unit := do
  if (← load .intStsB) &&& mask 0 ≠ 0 then
    recordEvent 0 .btn0Rising .btn0Falling st
  else if (← load .intStsB) &&& mask 1 ≠ 0 then
    recordEvent 1 .btn1Rising .btn1Falling st
  else if (← load .intStsB) &&& mask 2 ≠ 0 then
    recordEvent 2 .btn2Rising .btn2Falling st

def clearEoi (irqNum : Nat) : Code Unit := do
  store .gpioBEoi ((← load .gpioBEoi) ||| 0x1F)
  rtEnableIrq irqNum

def buttonHandler (irqNum : Nat) : Code Unit := do
  rtDisableIrq irqNum
  let st ← sampleButtons
  reportEdge st
  clearEoi irqNum

def Call.putRecord : Call → List (Status .ilp32)
  | .rtfPut _ st => [st]
  | _ => []

def puts (trace : List (Event Call Call.Reply σ)) : List (Status .ilp32) := trace.flatMap (·.call.putRecord)

@[simp] theorem puts_append (earlier later : List (Event Call Call.Reply σ)) :
    puts (earlier++later) = puts earlier++puts later := List.flatMap_append ..

structure Tracks (platform : Platform Call Call.Reply σ ι) (view : σ → Board) : Prop where
  arrive : ∀ s input, view (platform.arrive s input) = view s
  after : ∀ s c reply, view (platform.after s c reply) = (view s).after c reply
  plain : ∀ s input r, r.volatile = false → platform.reply s input (.load r) = (view s).registers r

theorem free_tracks : Tracks free id where
  arrive _ _ := rfl
  after _ _ _ := rfl
  plain _ _ _ plain := by simp [free,answer,plain]

-- `said` is what is known of the hardware's, the clock's and the stack's answers.
structure Port where
  board : Board
  reported : List (Status .ilp32)

def Board.replies (b : Board) : (c : Call) → c.Reply → Prop
  | .load r,reply => r.volatile = false → reply = b.registers r
  | _,_ => True

abbrev Said := (c : Call) → c.Reply → Prop

def portSpec (said : Said) : Spec Call Call.Reply Port where
  moves := Eq
  permits _ _ := True
  replies port c reply := said c reply ∧ port.board.replies c reply
  effect port c reply := ⟨port.board.after c reply,port.reported++c.putRecord⟩

structure Hears (platform : Platform Call Call.Reply σ ι) (inputs : Nat → ι) (I : σ → Prop) (said : Said) : Prop where
  arrive : ∀ s n, I s → I (platform.arrive s (inputs n))
  heard : ∀ s n c, I s → said c (platform.reply s (inputs n) c)
  after : ∀ s c reply, I s → I (platform.after s c reply)

theorem hears_always (said : Said) {platform : Platform Call Call.Reply σ ι} (inputs : Nat → ι)
    (heard : ∀ s n c, said c (platform.reply s (inputs n) c)) : Hears platform inputs (fun _ => True) said :=
  ⟨fun _ _ => id,fun s n c _ => heard s n c,fun _ _ _ => id⟩

theorem port_describes_within {platform : Platform Call Call.Reply σ ι} {view : σ → Board} {inputs : Nat → ι} {I : σ → Prop}
    {said : Said} (tracks : Tracks platform view) (hears : Hears platform inputs I said) :
    Describes platform inputs (portSpec said)
      (fun trace s port => I s ∧ view s = port.board ∧ puts trace = port.reported) where
  arrive {_ s _} related := ⟨_,rfl,hears.arrive s _ related.1,(tracks.arrive _ _).trans related.2.1,related.2.2⟩
  answer {_ s port c} related := by
    obtain ⟨valid,board,_⟩ := related
    refine ⟨hears.heard s _ c valid,?_⟩
    cases c with
    | load r => intro plain; rw [tracks.plain _ _ _ plain,board]
    | _ => trivial
  after {_ s _ _ _} related _ _ := by
    obtain ⟨valid,board,reported⟩ := related
    refine ⟨hears.after s _ _ valid,?_,?_⟩
    · rw [tracks.after,board]; rfl
    · rw [puts_append,reported]; simp [puts,portSpec]

theorem port_describes {platform : Platform Call Call.Reply σ ι} {view : σ → Board} {said : Said} (tracks : Tracks platform view)
    (inputs : Nat → ι) (heard : ∀ s n c, said c (platform.reply s (inputs n) c)) :
    Describes platform inputs (portSpec said) (fun trace s port => view s = port.board ∧ puts trace = port.reported) := by
  simpa only [true_and] using port_describes_within tracks (hears_always said inputs heard)

theorem and_mask_button (word : Word) (i : Button) : word &&& mask i.val ≠ 0 ↔ word.getLsbD i.val = true :=
  and_mask_ne_zero (by omega)

def Board.polarity (b : Board) (i : Button) : Bool := (b.registers .gpioBIntType2).getLsbD i.val

def Board.record (b : Board) (i : Button) (st : Status .ilp32) (now : Timeval .ilp32) : Status .ilp32 :=
  {st with
    eventType:=(if b.polarity i then RtuEvent.rising i else RtuEvent.falling i).code
    lineVoltage:=555
    eventTv:=now}

def Board.recorded (b : Board) (i : Button) (record : Status .ilp32) : Board :=
  {b with
    registers:=Function.update b.registers .gpioBIntType2 (b.registers .gpioBIntType2 ^^^ mask i.val)
    fifo:=b.fifo.map (·.put record.toBytes)}

def Board.acknowledged (b : Board) (eoi : Word) : Board :=
  {b with registers:=Function.update b.registers .gpioBEoi eoi,enabled:=true}

def sampled (raw : Status .ilp32) (levels : Button → Word) : Status .ilp32 :=
  {raw with buttonStatus:=fun i => if levels i &&& mask i.val ≠ 0 then 1 else 0}

theorem sampled_updates (raw : Status .ilp32) (levels : Button → Word) : (sampled raw levels).buttonStatus =
    Function.update (Function.update (Function.update raw.buttonStatus 0 (if levels 0 &&& mask 0 ≠ 0 then 1 else 0))
      1 (if levels 1 &&& mask 1 ≠ 0 then 1 else 0)) 2 (if levels 2 &&& mask 2 ≠ 0 then 1 else 0) := by
  funext j
  fin_cases j <;> rfl

theorem sampled_eq (raw : Status .ilp32) (levels : Button → Word) : sampled raw levels =
    {raw with
      buttonStatus:=Function.update (Function.update
        (Function.update raw.buttonStatus 0 (if levels 0 &&& mask 0 ≠ 0 then 1 else 0))
        1 (if levels 1 &&& mask 1 ≠ 0 then 1 else 0)) 2 (if levels 2 &&& mask 2 ≠ 0 then 1 else 0)} :=
  congrArg (fun buttons => ({raw with buttonStatus:=buttons} : Status .ilp32)) (sampled_updates raw levels)

structure Grounded (said : Said) (i : Button) (st : Status .ilp32) (now : Timeval .ilp32) : Prop where
  sampled : ∃ raw levels, said .stack raw ∧ (∀ j, said (.load .pbdr) (levels j)) ∧ st = sampled raw levels
  selected : ∃ status : Word, said (.load .intStsB) status ∧ status.getLsbD i.val = true
  timed : said .doGettimeofday now

section
variable {α : Type} {said : Said} {post : α → Port → Prop} {port : Port}

theorem port_call {c : Call} {rest : c.Reply → Code α} : Meets (portSpec said) post (.call c rest) port ↔
    ∀ reply, said c reply → port.board.replies c reply →
      Meets (portSpec said) post (rest reply) ⟨port.board.after c reply,port.reported++c.putRecord⟩ := by
  simp [meets_call,portSpec]

theorem port_plain {r : Register} {rest : Word → Code α} (plain : r.volatile = false)
    (later : Meets (portSpec said) post (rest (port.board.registers r)) port) :
    Meets (portSpec said) post (.call (.load r) rest) port := by
  refine port_call.mpr fun reply _ same => ?_
  rw [show reply = port.board.registers r from same plain]
  simpa [Board.after,Call.putRecord] using later

theorem port_volatile {r : Register} {rest : Word → Code α}
    (later : ∀ value, said (.load r) value → Meets (portSpec said) post (rest value) port) :
    Meets (portSpec said) post (.call (.load r) rest) port := by
  refine port_call.mpr fun reply heard _ => ?_
  simpa [Board.after,Call.putRecord] using later reply heard

theorem port_store {r : Register} {value : Word} {rest : Unit → Code α} (later : Meets (portSpec said) post (rest ())
      {port with board:={port.board with registers:=Function.update port.board.registers r value}}) :
    Meets (portSpec said) post (.call (.store r value) rest) port :=
  port_call.mpr fun _ _ _ => by simpa [Board.after,Call.putRecord] using later

theorem port_time {rest : Timeval .ilp32 → Code α}
    (later : ∀ now, said .doGettimeofday now → Meets (portSpec said) post (rest now) port) :
    Meets (portSpec said) post (.call .doGettimeofday rest) port :=
  port_call.mpr fun now heard _ => by simpa [Board.after,Call.putRecord] using later now heard

theorem port_stack {rest : Status .ilp32 → Code α}
    (later : ∀ raw, said .stack raw → Meets (portSpec said) post (rest raw) port) :
    Meets (portSpec said) post (.call .stack rest) port :=
  port_call.mpr fun raw heard _ => by simpa [Board.after,Call.putRecord] using later raw heard

theorem port_disable {rest : Unit → Code α}
    (later : Meets (portSpec said) post (rest ()) {port with board:={port.board with enabled:=false}}) :
    Meets (portSpec said) post (.call (.rtDisableIrq hwIrq) rest) port :=
  port_call.mpr fun _ _ _ => by simpa [Board.after,Call.putRecord] using later

theorem port_enable {rest : Unit → Code α}
    (later : Meets (portSpec said) post (rest ()) {port with board:={port.board with enabled:=true}}) :
    Meets (portSpec said) post (.call (.rtEnableIrq hwIrq) rest) port :=
  port_call.mpr fun _ _ _ => by simpa [Board.after,Call.putRecord] using later

theorem port_put {st : Status .ilp32} {rest : Int → Code α} (later : ∀ ret, Meets (portSpec said) post (rest ret)
      ⟨{port.board with fifo:=port.board.fifo.map (·.put st.toBytes)},port.reported++[st]⟩) :
    Meets (portSpec said) post (.call (.rtfPut fifoWrite st) rest) port :=
  port_call.mpr fun ret _ _ => by simpa [Board.after,Call.putRecord] using later ret

end

variable {said : Said}

theorem recordEvent_meets (i : Button) (st : Status .ilp32) (port : Port) {post : Unit → Port → Prop}
    (recorded : ∀ now, said .doGettimeofday now → post () ⟨port.board.recorded i (port.board.record i st now),
      port.reported++[port.board.record i st now]⟩) :
    Meets (portSpec said) post (recordEvent i (RtuEvent.rising i) (RtuEvent.falling i) st) port := by
  have tested : port.board.registers .gpioBIntType2 &&& mask i.val ≠ 0 ↔ port.board.polarity i = true := and_mask_button _ i
  unfold recordEvent load store doGettimeofday rtfPut
  simp only [Program.bind_perform]
  apply port_plain rfl
  cases polarity : port.board.polarity i with
  | true =>
    rw [if_pos (tested.mpr polarity)]
    refine port_plain rfl (port_store (port_time fun now heard => port_put fun _ => ?_))
    rw [and_not_mask polarity]
    simpa [Board.recorded,Board.record,polarity,meets_done] using recorded now heard
  | false =>
    rw [if_neg (mt tested.mp (Bool.eq_false_iff.mp polarity))]
    refine port_plain rfl (port_store (port_time fun now heard => port_put fun _ => ?_))
    rw [or_mask polarity]
    simpa [Board.recorded,Board.record,polarity,meets_done] using recorded now heard

theorem sampleButtons_meets {port : Port} {post : Status .ilp32 → Port → Prop}
    (ready : ∀ raw levels, said .stack raw → (∀ j, said (.load .pbdr) (levels j)) → post (sampled raw levels) port) :
    Meets (portSpec said) post sampleButtons port := by
  unfold sampleButtons load stack
  simp only [Program.bind_perform,Program.pure_done]
  refine port_stack fun raw heard => port_volatile fun p0 heard0 => port_volatile fun p1 heard1 =>
    port_volatile fun p2 heard2 => ?_
  have filled := ready raw ![p0,p1,p2] heard (by intro j; fin_cases j <;> assumption)
  rw [sampled_eq] at filled
  exact filled

theorem reportEdge_meets (st : Status .ilp32) {port : Port} {post : Unit → Port → Prop} (silent : post () port)
    (recorded : ∀ i now, (∃ status : Word, said (.load .intStsB) status ∧ status.getLsbD i.val = true) →
      said .doGettimeofday now → post () ⟨port.board.recorded i (port.board.record i st now),
        port.reported++[port.board.record i st now]⟩) :
    Meets (portSpec said) post (reportEdge st) port := by
  unfold reportEdge load
  simp only [Program.bind_perform]
  refine port_volatile fun first heard1 => ?_
  split
  · rename_i set
    exact recordEvent_meets 0 st port fun now => recorded 0 now ⟨first,heard1,(and_mask_button _ 0).mp set⟩
  · refine port_volatile fun second heard2 => ?_
    split
    · rename_i set
      exact recordEvent_meets 1 st port fun now => recorded 1 now ⟨second,heard2,(and_mask_button _ 1).mp set⟩
    · refine port_volatile fun third heard3 => ?_
      split
      · rename_i set
        exact recordEvent_meets 2 st port fun now => recorded 2 now ⟨third,heard3,(and_mask_button _ 2).mp set⟩
      · exact silent

theorem clearEoi_meets {port : Port} {post : Unit → Port → Prop}
    (ready : ∀ eoi, post () ⟨port.board.acknowledged eoi,port.reported⟩) :
    Meets (portSpec said) post (clearEoi hwIrq) port := by
  unfold clearEoi load store rtEnableIrq
  simp only [Program.bind_perform]
  exact port_volatile fun value _ => port_store (port_enable (ready _))

theorem buttonHandler_meets {port : Port} {post : Unit → Port → Prop}
    (silent : ∀ eoi, post () ⟨port.board.acknowledged eoi,port.reported⟩)
    (recorded : ∀ i st now eoi, Grounded said i st now →
      post () ⟨(port.board.recorded i (port.board.record i st now)).acknowledged eoi,
        port.reported++[port.board.record i st now]⟩) :
    Meets (portSpec said) post (buttonHandler hwIrq) port := by
  unfold buttonHandler rtDisableIrq
  simp only [Program.bind_perform]
  refine port_disable (meets_bind (sampleButtons_meets fun raw levels stacked read => ?_))
  refine meets_bind (reportEdge_meets _ (clearEoi_meets silent) fun i now selected timed => clearEoi_meets fun eoi => ?_)
  exact recorded i _ now eoi ⟨⟨raw,levels,stacked,read,rfl⟩,selected,timed⟩

theorem handler_heard {platform : Platform Call Call.Reply σ ι} {view : σ → Board} {inputs : Nat → ι} {I : σ → Prop}
    {said : Said} (tracks : Tracks platform view) (hears : Hears platform inputs I said) (s : σ) (valid : I s) :
    I (exec platform (buttonHandler hwIrq) inputs s).state ∧ ∃ eoi,
    (puts (exec platform (buttonHandler hwIrq) inputs s).trace = [] ∧
      view (exec platform (buttonHandler hwIrq) inputs s).state = (view s).acknowledged eoi) ∨
    ∃ i st now, Grounded said i st now ∧
      puts (exec platform (buttonHandler hwIrq) inputs s).trace = [(view s).record i st now] ∧
      view (exec platform (buttonHandler hwIrq) inputs s).state =
        ((view s).recorded i ((view s).record i st now)).acknowledged eoi := by
  have condition : Meets (portSpec said) (fun _ last => ∃ eoi,
      (last.reported = [] ∧ last.board = (view s).acknowledged eoi) ∨
      ∃ i st now, Grounded said i st now ∧ last.reported = [(view s).record i st now] ∧
        last.board = ((view s).recorded i ((view s).record i st now)).acknowledged eoi)
      (buttonHandler hwIrq) ⟨view s,[]⟩ :=
    buttonHandler_meets (fun eoi => ⟨eoi,.inl ⟨rfl,rfl⟩⟩)
      (fun i st now eoi grounded => ⟨eoi,.inr ⟨i,st,now,grounded,rfl,rfl⟩⟩)
  obtain ⟨last,⟨kept,board,reported⟩,outcome⟩ := meets_run (port_describes_within tracks hears) ⟨valid,rfl,rfl⟩ condition
  rw [board,reported]
  exact ⟨kept,outcome⟩

def Call.outer : Call → Bool
  | .stack | .doGettimeofday => true
  | .load r => r.volatile
  | _ => false

def told (o : Oracle) : Said := fun c reply => c.outer = true → reply = o c

theorem free_told (o : Oracle) (b : Board) (n : Nat) (c : Call) : told o c (free.reply b ((fun _ => o) n) c) := by
  intro outer
  cases c with
  | stack | doGettimeofday => rfl
  | load r => exact if_pos outer
  | _ => cases outer

theorem handler_cases {platform : Platform Call Call.Reply σ ι} {view : σ → Board} (tracks : Tracks platform view)
    (inputs : Nat → ι) (s : σ) : ∃ eoi,
    (puts (exec platform (buttonHandler hwIrq) inputs s).trace = [] ∧
      view (exec platform (buttonHandler hwIrq) inputs s).state = (view s).acknowledged eoi) ∨
    ∃ i st now, puts (exec platform (buttonHandler hwIrq) inputs s).trace = [(view s).record i st now] ∧
      view (exec platform (buttonHandler hwIrq) inputs s).state =
        ((view s).recorded i ((view s).record i st now)).acknowledged eoi := by
  obtain ⟨eoi,silent | ⟨i,st,now,_,reported,board⟩⟩ :=
    (handler_heard tracks (hears_always (fun _ _ => True) inputs fun _ _ _ => trivial) s trivial).2
  · exact ⟨eoi,.inl silent⟩
  · exact ⟨eoi,.inr ⟨i,st,now,reported,board⟩⟩

theorem handler_free (b : Board) (inputs : Nat → Oracle) : ∃ eoi,
    (puts (exec free (buttonHandler hwIrq) inputs b).trace = [] ∧
      (exec free (buttonHandler hwIrq) inputs b).state = b.acknowledged eoi) ∨
    ∃ i st now, puts (exec free (buttonHandler hwIrq) inputs b).trace = [b.record i st now] ∧
      (exec free (buttonHandler hwIrq) inputs b).state = (b.recorded i (b.record i st now)).acknowledged eoi :=
  handler_cases free_tracks inputs b

end Scada.Kernel
