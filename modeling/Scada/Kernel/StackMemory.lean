import Scada.Kernel.Polarity

namespace Scada.Kernel
open Programs BitMasks

inductive Reading where
  | word (r : Register) (value : Word)
  | time (now : Timeval .ilp32)
  deriving DecidableEq

def Call.reading : (c : Call) → c.Reply → List Reading
  | .load r,value => [.word r value]
  | .doGettimeofday,now => [.time now]
  | _,_ => []

def Call.stacked : (c : Call) → c.Reply → List (Status .ilp32)
  | .stack,raw => [raw]
  | _,_ => []

def readings (trace : List (Event Call Call.Reply σ)) : List Reading := trace.flatMap fun e => e.call.reading e.reply

def stackContents (trace : List (Event Call Call.Reply σ)) : List (Status .ilp32) := trace.flatMap fun e => e.call.stacked e.reply

def edgeRecord (i : Button) (st : Status .ilp32) (armed : Word) (now : Timeval .ilp32) : Status .ilp32 :=
  {st with
    eventType:=(if armed &&& mask i.val ≠ 0 then RtuEvent.rising i else RtuEvent.falling i).code
    lineVoltage:=555
    eventTv:=now}

def reportButton (i : Button) (st : Status .ilp32) : List Reading → List (Status .ilp32)
  | .word _ armed::.word _ _::.time now::_ => [edgeRecord i st armed now]
  | _ => []

def reportChain (st : Status .ilp32) : List Button → List Reading → List (Status .ilp32)
  | i::others,.word _ status::rest =>
    if status &&& mask i.val ≠ 0 then reportButton i st rest else reportChain st others rest
  | _,_ => []

def report (raw : Status .ilp32) : List Reading → List (Status .ilp32)
  | .word _ p0::.word _ p1::.word _ p2::rest => reportChain (sampled raw ![p0,p1,p2]) [0,1,2] rest
  | _ => []

structure Seen where
  stacked : List (Status .ilp32)
  readings : List Reading
  reported : List (Status .ilp32)

def seenSpec : Spec Call Call.Reply Seen where
  moves := Eq
  permits _ _ := True
  replies _ _ _ := True
  effect seen c reply := ⟨seen.stacked++c.stacked reply,seen.readings++c.reading reply,seen.reported++c.putRecord⟩

theorem seen_describes (platform : Platform Call Call.Reply σ ι) (inputs : Nat → ι) : Describes platform inputs seenSpec
    (fun trace _ seen => stackContents trace = seen.stacked ∧ readings trace = seen.readings ∧ puts trace = seen.reported) where
  arrive related := ⟨_,rfl,related⟩
  answer _ := trivial
  after related _ _ := by
    obtain ⟨stacked,read,reported⟩ := related
    refine ⟨?_,?_,?_⟩
    · rw [stackContents,List.flatMap_append,← stackContents,stacked]; simp [seenSpec]
    · rw [readings,List.flatMap_append,← readings,read]; simp [seenSpec]
    · rw [puts_append,reported]; simp [puts,seenSpec]

section
variable {α : Type} {post : α → Seen → Prop} {seen : Seen}

theorem seen_call {c : Call} {rest : c.Reply → Code α} : Meets seenSpec post (.call c rest) seen ↔ ∀ reply,
    Meets seenSpec post (rest reply)
      ⟨seen.stacked++c.stacked reply,seen.readings++c.reading reply,seen.reported++c.putRecord⟩ := by
  simp [meets_call,seenSpec]

theorem seen_load {r : Register} {rest : Word → Code α}
    (later : ∀ value, Meets seenSpec post (rest value) {seen with readings:=seen.readings++[.word r value]}) :
    Meets seenSpec post (.call (.load r) rest) seen :=
  seen_call.mpr fun value => by simpa [Call.stacked,Call.reading,Call.putRecord] using later value

theorem seen_store {r : Register} {value : Word} {rest : Unit → Code α} (later : Meets seenSpec post (rest ()) seen) :
    Meets seenSpec post (.call (.store r value) rest) seen :=
  seen_call.mpr fun _ => by simpa [Call.stacked,Call.reading,Call.putRecord] using later

theorem seen_time {rest : Timeval .ilp32 → Code α}
    (later : ∀ now, Meets seenSpec post (rest now) {seen with readings:=seen.readings++[.time now]}) :
    Meets seenSpec post (.call .doGettimeofday rest) seen :=
  seen_call.mpr fun now => by simpa [Call.stacked,Call.reading,Call.putRecord] using later now

theorem seen_put {st : Status .ilp32} {rest : Int → Code α}
    (later : ∀ ret, Meets seenSpec post (rest ret) {seen with reported:=seen.reported++[st]}) :
    Meets seenSpec post (.call (.rtfPut fifoWrite st) rest) seen :=
  seen_call.mpr fun ret => by simpa [Call.stacked,Call.reading,Call.putRecord] using later ret

theorem seen_stack {rest : Status .ilp32 → Code α}
    (later : ∀ raw, Meets seenSpec post (rest raw) {seen with stacked:=seen.stacked++[raw]}) :
    Meets seenSpec post (.call .stack rest) seen :=
  seen_call.mpr fun raw => by simpa [Call.stacked,Call.reading,Call.putRecord] using later raw

theorem seen_irq {c : Call} {rest : c.Reply → Code α} (irq : c = .rtDisableIrq hwIrq ∨ c = .rtEnableIrq hwIrq)
    (later : ∀ reply, Meets seenSpec post (rest reply) seen) : Meets seenSpec post (.call c rest) seen := by
  refine seen_call.mpr fun reply => ?_
  rcases irq with rfl | rfl <;> simpa [Call.stacked,Call.reading,Call.putRecord] using later reply

end

theorem recordEvent_seen (i : Button) (st : Status .ilp32) {seen : Seen} {post : Unit → Seen → Prop}
    (recorded : ∀ r r' armed again now, post () {seen with
      readings:=seen.readings++[.word r armed,.word r' again,.time now]
      reported:=seen.reported++[edgeRecord i st armed now]}) :
    Meets seenSpec post (recordEvent i (RtuEvent.rising i) (RtuEvent.falling i) st) seen := by
  unfold recordEvent load store doGettimeofday rtfPut
  simp only [Program.bind_perform]
  refine seen_load fun armed => ?_
  split
  · rename_i rising
    refine seen_load fun again => seen_store (seen_time fun now => seen_put fun _ => ?_)
    have final := recorded .gpioBIntType2 .gpioBIntType2 armed again now
    rw [edgeRecord,if_pos rising] at final
    simpa [meets_done] using final
  · rename_i falling
    refine seen_load fun again => seen_store (seen_time fun now => seen_put fun _ => ?_)
    have final := recorded .gpioBIntType2 .gpioBIntType2 armed again now
    rw [edgeRecord,if_neg falling] at final
    simpa [meets_done] using final

theorem reportEdge_seen (st : Status .ilp32) {seen : Seen} {post : Unit → Seen → Prop}
    (reported : ∀ consumed records, (∀ later, reportChain st [0,1,2] (consumed++later) = records) →
      post () {seen with readings:=seen.readings++consumed,reported:=seen.reported++records}) :
    Meets seenSpec post (reportEdge st) seen := by
  have selects : ∀ (i : Button) (before : List Reading), (∀ r r' armed again now later,
      reportChain st [0,1,2] (before++.word r armed::.word r' again::.time now::later) = [edgeRecord i st armed now]) →
      Meets seenSpec post (recordEvent i (RtuEvent.rising i) (RtuEvent.falling i) st)
        {seen with readings:=seen.readings++before} := by
    intro i before chain
    refine recordEvent_seen i st fun r r' armed again now => ?_
    have final := reported (before++[.word r armed,.word r' again,.time now]) _ fun later => by
      simpa using chain r r' armed again now later
    simpa using final
  unfold reportEdge load
  simp only [Program.bind_perform]
  refine seen_load fun first => ?_
  split
  · rename_i set
    exact selects 0 _ fun r r' armed again now later => if_pos set
  · rename_i clear0
    refine seen_load fun second => ?_
    split
    · rename_i set
      have chain := selects 1 [.word .intStsB first,.word .intStsB second] fun r r' armed again now later =>
        (if_neg clear0).trans (if_pos set)
      simp only [List.append_assoc,List.cons_append,List.nil_append]
      exact chain
    · rename_i clear1
      refine seen_load fun third => ?_
      split
      · rename_i set
        have chain := selects 2 [.word .intStsB first,.word .intStsB second,.word .intStsB third] fun r r' armed again now later =>
          (if_neg clear0).trans ((if_neg clear1).trans (if_pos set))
        simp only [List.append_assoc,List.cons_append,List.nil_append]
        exact chain
      · rename_i clear2
        have final := reported [.word .intStsB first,.word .intStsB second,.word .intStsB third] [] fun later =>
          (if_neg clear0).trans ((if_neg clear1).trans (if_neg clear2))
        simpa [meets_done] using final

theorem sampleButtons_seen {seen : Seen} {post : Status .ilp32 → Seen → Prop}
    (ready : ∀ raw p0 p1 p2, post (sampled raw ![p0,p1,p2]) {seen with
      stacked:=seen.stacked++[raw]
      readings:=seen.readings++[.word .pbdr p0,.word .pbdr p1,.word .pbdr p2]}) :
    Meets seenSpec post sampleButtons seen := by
  unfold sampleButtons load stack
  simp only [Program.bind_perform,Program.pure_done]
  refine seen_stack fun raw => seen_load fun p0 => seen_load fun p1 => seen_load fun p2 => ?_
  have final := ready raw p0 p1 p2
  rw [sampled_eq] at final
  simp only [meets_done,List.append_assoc,List.cons_append,List.nil_append]
  exact final

theorem buttonHandler_seen : Meets seenSpec
    (fun _ last => ∃ raw, last.stacked = [raw] ∧ last.reported = report raw last.readings) (buttonHandler hwIrq) ⟨[],[],[]⟩ := by
  unfold buttonHandler rtDisableIrq
  simp only [Program.bind_perform]
  refine seen_irq (.inl rfl) fun _ => meets_bind (sampleButtons_seen fun raw p0 p1 p2 => ?_)
  refine meets_bind (reportEdge_seen _ fun consumed records chain => ?_)
  unfold clearEoi load store rtEnableIrq
  simp only [Program.bind_perform]
  refine seen_load fun eoi => seen_store (seen_irq (.inr rfl) fun _ => ⟨raw,rfl,?_⟩)
  simp [report,chain]

theorem handler_reports (platform : Platform Call Call.Reply σ ι) (inputs : Nat → ι) (s : σ) : ∃ raw,
    stackContents (exec platform (buttonHandler hwIrq) inputs s).trace = [raw] ∧
    puts (exec platform (buttonHandler hwIrq) inputs s).trace =
      report raw (readings (exec platform (buttonHandler hwIrq) inputs s).trace) := by
  obtain ⟨last,⟨stacked,read,reported⟩,outcome⟩ := meets_run (seen_describes platform inputs) ⟨rfl,rfl,rfl⟩ buttonHandler_seen
  rw [stacked,read,reported]
  exact outcome

-- What status.h leaves to userspace, the rest being set by every branch.
def onStack (raw st : Status .ilp32) : Status .ilp32 := {st with rtuId:=raw.rtuId,ledStatus:=raw.ledStatus}

theorem reportButton_onStack {st other : Status .ilp32} (same : st.buttonStatus = other.buttonStatus) (i : Button)
    (read : List Reading) : reportButton i st read = (reportButton i other read).map (onStack st) := by
  have record : ∀ armed now, edgeRecord i st armed now = onStack st (edgeRecord i other armed now) := by
    intro armed now
    simp only [edgeRecord,onStack,same]
  unfold reportButton
  split
  · rw [record,List.map_singleton]
  · rfl

theorem reportChain_onStack {st other : Status .ilp32} (same : st.buttonStatus = other.buttonStatus) (buttons : List Button)
    (read : List Reading) : reportChain st buttons read = (reportChain other buttons read).map (onStack st) := by
  induction buttons generalizing read with
  | nil => rfl
  | cons i others previous =>
    cases read with
    | nil => rfl
    | cons first rest =>
      cases first with
      | time now => rfl
      | word r status =>
        rw [reportChain,reportChain]
        split
        · exact reportButton_onStack same i rest
        · exact previous rest

theorem report_onStack (raw other : Status .ilp32) (read : List Reading) : report raw read = (report other read).map (onStack raw) := by
  unfold report
  split
  · exact reportChain_onStack (show (sampled raw _).buttonStatus = (sampled other _).buttonStatus from rfl) _ _
  · rfl

def invocations (b : Board) : List (Nat → Oracle) → List (Outcome Call Call.Reply Board Unit)
  | [] => []
  | inputs::rest => invoke b inputs::invocations (invoke b inputs).state rest

theorem handleAll_invocations (s : Handled) (history : List (Nat → Oracle)) :
    (handleAll s history).reported = s.reported++(invocations s.board history).flatMap (puts ·.trace) := by
  induction history generalizing s with
  | nil => simp [handleAll,invocations]
  | cons inputs rest previous =>
    have later := previous (handle s inputs)
    simpa [handleAll,invocations,handle] using later

theorem invocations_report {b : Board} {history : List (Nat → Oracle)} {outcome : Outcome Call Call.Reply Board Unit}
    (member : outcome ∈ invocations b history) : ∃ raw, stackContents outcome.trace = [raw] ∧
      puts outcome.trace = report raw (readings outcome.trace) := by
  induction history generalizing b with
  | nil => cases member
  | cons inputs rest previous =>
    rcases List.mem_cons.mp member with rfl | later
    · exact handler_reports free inputs b
    · exact previous later

def measured (st : Status .ilp32) : (Button → Word) × Word × Timeval .ilp32 × Word :=
  (st.buttonStatus,st.lineVoltage,st.eventTv,st.eventType)

theorem measured_agree {left right : List (Outcome Call Call.Reply Board Unit)}
    (agree : List.Forall₂ (fun one other => readings one.trace = readings other.trace) left right)
    (reports : ∀ outcome ∈ left, ∃ raw, stackContents outcome.trace = [raw] ∧
      puts outcome.trace = report raw (readings outcome.trace))
    (reports' : ∀ outcome ∈ right, ∃ raw, stackContents outcome.trace = [raw] ∧
      puts outcome.trace = report raw (readings outcome.trace)) :
    (left.flatMap (puts ·.trace)).map measured = (right.flatMap (puts ·.trace)).map measured := by
  induction agree with
  | nil => rfl
  | cons same _ previous =>
    simp only [List.forall_mem_cons] at reports reports'
    obtain ⟨⟨raw,_,one⟩,rest⟩ := reports
    obtain ⟨⟨raw',_,other⟩,rest'⟩ := reports'
    rw [List.flatMap_cons,List.flatMap_cons,List.map_append,List.map_append,previous rest rest']
    rw [one,other,same,report_onStack raw raw',List.map_map]
    rfl

theorem records_differ_by_stack {b b' : Board} {history history' : List (Nat → Oracle)}
    (agree : List.Forall₂ (fun one other => readings one.trace = readings other.trace) (invocations b history)
      (invocations b' history')) :
    (handleAll ⟨b,[]⟩ history).reported.map measured = (handleAll ⟨b',[]⟩ history').reported.map measured ∧
    ∀ outcome ∈ invocations b history, ∃ raw, stackContents outcome.trace = [raw] ∧
      ∀ record ∈ puts outcome.trace, record.rtuId = raw.rtuId ∧ record.ledStatus = raw.ledStatus := by
  constructor
  · rw [handleAll_invocations,handleAll_invocations,List.nil_append,List.nil_append]
    exact measured_agree agree (fun _ => invocations_report) fun _ => invocations_report
  · intro outcome member
    obtain ⟨raw,stacked,reported⟩ := invocations_report member
    refine ⟨raw,stacked,fun record among => ?_⟩
    rw [reported,report_onStack raw raw] at among
    obtain ⟨other,_,rfl⟩ := List.mem_map.mp among
    exact ⟨rfl,rfl⟩

def litter : Status .ilp32 := ⟨7,fun _ => 9,fun _ => 9,9,⟨9,9⟩,9⟩

def Oracle.littered : Oracle
  | .stack => litter
  | c => pressed c

theorem pressed_agree : List.Forall₂ (fun one other => readings one.trace = readings other.trace)
    (invocations .off [fun _ => .pressed]) (invocations .off [fun _ => .littered]) := .cons (by decide +kernel) .nil

theorem records_differ_by_stack_pressed : (handleAll ⟨.off,[]⟩ [fun _ => .pressed]).reported.map measured =
    (handleAll ⟨.off,[]⟩ [fun _ => .littered]).reported.map measured := (records_differ_by_stack pressed_agree).1

theorem stack_shows : ¬ ∀ b b' history history',
    List.Forall₂ (fun one other => readings one.trace = readings other.trace) (invocations b history)
      (invocations b' history') → (handleAll ⟨b,[]⟩ history).reported = (handleAll ⟨b',[]⟩ history').reported := by
  intro same
  have ids := congrArg (List.map Status.rtuId) (same _ _ _ _ pressed_agree)
  exact absurd ids (by decide +kernel)

end Scada.Kernel
