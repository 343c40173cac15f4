import Scada.Kernel.Handler

namespace Scada.Kernel
open Programs BoundedQueues BitMasks

-- What needs a FIFO: putting the record and turning the polarity for it.
def Call.consumes : Call → Bool
  | .rtfPut fifo _ => fifo == fifoWrite
  | .store .gpioBIntType2 _ => true
  | _ => false

-- The handler drops the return value, which says whether all of it was stored.
def accepted : (c : Call) → c.Reply → List (Status .ilp32)
  | .rtfPut fifo st,ret => if fifo = fifoWrite ∧ ret = (Status.sizeof .ilp32 : Int) then [st] else []
  | _,_ => []

def stored (trace : List (Event Call Call.Reply σ)) : List (Status .ilp32) := trace.flatMap fun e => accepted e.call e.reply

-- IntStsB is the sixth call of the handler and, while no button is found, the
-- seventh and the eighth.
def selects (inputs : Nat → Oracle) : Bool :=
  BitVec.getLsbD (inputs 5 (.load .intStsB)) 0 || BitVec.getLsbD (inputs 6 (.load .intStsB)) 1 ||
    BitVec.getLsbD (inputs 7 (.load .intStsB)) 2

theorem selects_iff {inputs : Nat → Oracle} : selects inputs = true ↔ BitVec.getLsbD (inputs 5 (.load .intStsB)) 0 = true ∨
    BitVec.getLsbD (inputs 6 (.load .intStsB)) 1 = true ∨ BitVec.getLsbD (inputs 7 (.load .intStsB)) 2 = true := by
  rw [selects,Bool.or_eq_true_iff,Bool.or_eq_true_iff,or_assoc]

structure Visit where
  position : Nat
  fifo : Option (Queue UInt8)
  reported : List (Status .ilp32)
  stored : List (Status .ilp32)
  consumed : Bool

namespace Visit

def replies (inputs : Nat → Oracle) (v : Visit) : (c : Call) → c.Reply → Prop
  | .load .intStsB,reply => reply = inputs v.position (.load .intStsB)
  | .rtfPut fifo st,ret => fifo = fifoWrite → ∀ q, v.fifo = some q → ret = ((q.stored st.toBytes : Nat) : Int)
  | _,_ => True

def after (v : Visit) (c : Call) (reply : c.Reply) : Visit where
  position := v.position+1
  fifo := match c with
    | .rtfPut fifo st => if fifo = fifoWrite then v.fifo.map (·.put st.toBytes) else v.fifo
    | _ => v.fifo
  reported := v.reported++c.putRecord
  stored := v.stored++accepted c reply
  consumed := v.consumed || c.consumes

end Visit

def Call.keepsFifo : Call → Bool
  | .rtfCreate _ _ | .rtfDestroy _ => false
  | _ => true

def visitSpec (inputs : Nat → Oracle) : Spec Call Call.Reply Visit where
  moves := Eq
  permits _ c := c.keepsFifo = true
  replies := Visit.replies inputs
  effect := Visit.after

theorem visit_describes (inputs : Nat → Oracle) : Describes free inputs (visitSpec inputs) (fun trace s v =>
    trace.length = v.position ∧ s.fifo = v.fifo ∧ (∀ e ∈ trace, e.state.fifo.isSome = v.fifo.isSome) ∧
      puts trace = v.reported ∧ stored trace = v.stored ∧ trace.any (·.call.consumes) = v.consumed) where
  arrive related := ⟨_,rfl,related⟩
  answer {_ s v c} related := by
    cases c with
    | load r => cases r with
      | intStsB => rw [related.1]; rfl
      | _ => trivial
    | rtfPut fifo st =>
      intro same q there
      subst same
      simp [free,answer,related.2.1.trans there]
    | _ => trivial
  after {_ s v c reply} related permitted _ := by
    obtain ⟨position,fifo,states,reported,kept,consumed⟩ := related
    have next : (s.after c reply).fifo = ((visitSpec inputs).effect v c reply).fifo := by
      cases c with
      | rtfCreate | rtfDestroy => cases permitted
      | rtfPut | rtRequestIrq | rtReleaseIrq | rtEnableIrq | rtDisableIrq | ioremap =>
        simp only [visitSpec,Visit.after,Board.after]
        split <;> simp [fifo]
      | _ => exact fifo
    have same : ((visitSpec inputs).effect v c reply).fifo.isSome = v.fifo.isSome := by
      simp only [visitSpec,Visit.after]
      split
      · split <;> simp
      · rfl
    refine ⟨by simp [visitSpec,Visit.after,position],next,?_,?_,?_,?_⟩
    · intro e member
      rw [same]
      rcases List.mem_append.mp member with old | new
      · exact states e old
      · rw [List.mem_singleton.mp new,fifo]
    · rw [puts_append,reported]; simp [puts,visitSpec,Visit.after]
    · simp [stored,visitSpec,Visit.after,← kept]
    · simp [visitSpec,Visit.after,consumed]

theorem accepted_room {q : Queue UInt8} (record : Status .ilp32) :
    accepted (.rtfPut fifoWrite record) ((q.stored record.toBytes : Nat) : Int) =
      if Status.sizeof .ilp32 ≤ q.free then [record] else [] := by
  have whole : ((q.stored record.toBytes : Nat) : Int) = (Status.sizeof .ilp32 : Int) ↔ Status.sizeof .ilp32 ≤ q.free := by
    rw [Queue.stored,Status.toBytes_length]
    omega
  simp only [accepted,true_and,whole]

section
variable {α : Type} {post : α → Visit → Prop} {v : Visit} {inputs : Nat → Oracle}

theorem visit_call {c : Call} {rest : c.Reply → Code α} (keeps : c.keepsFifo = true)
    (each : ∀ reply, v.replies inputs c reply → Meets (visitSpec inputs) post (rest reply) (v.after c reply)) :
    Meets (visitSpec inputs) post (.call c rest) v := by
  rintro _ rfl
  exact ⟨keeps,each⟩

theorem visit_pass {c : Call} {rest : c.Reply → Code α} (keeps : c.keepsFifo = true) (silent : c.putRecord = [])
    (each : ∀ reply, v.replies inputs c reply → Meets (visitSpec inputs) post (rest reply)
      {v with position:=v.position+1,consumed:=v.consumed || c.consumes}) :
    Meets (visitSpec inputs) post (.call c rest) v := by
  refine visit_call keeps fun reply replied => ?_
  cases c with
  | rtfPut => cases silent
  | _ => simpa [Visit.after,accepted,Call.putRecord] using each reply replied

theorem visit_put {st : Status .ilp32} {rest : Int → Code α} (each : ∀ ret kept fifo, fifo.isSome = v.fifo.isSome →
      (∀ q, v.fifo = some q → kept = if Status.sizeof .ilp32 ≤ q.free then [st] else []) →
      Meets (visitSpec inputs) post (rest ret) ⟨v.position+1,fifo,v.reported++[st],v.stored++kept,true⟩) :
    Meets (visitSpec inputs) post (.call (.rtfPut fifoWrite st) rest) v := by
  refine visit_call rfl fun ret told => ?_
  have whole : ∀ q, v.fifo = some q → accepted (.rtfPut fifoWrite st) ret = if Status.sizeof .ilp32 ≤ q.free then [st] else [] :=
    fun q there => by rw [told rfl q there]; exact accepted_room st
  simpa [Visit.after,Call.consumes,Call.putRecord] using each ret _ (v.fifo.map (·.put st.toBytes)) Option.isSome_map whole

end

structure Visited (inputs : Nat → Oracle) (before : Option (Queue UInt8)) (last : Visit) : Prop where
  kept : last.fifo.isSome = before.isSome
  consumed : last.consumed = selects inputs
  silent : selects inputs = false → last.reported = [] ∧ last.stored = []
  put : selects inputs = true → ∃ record, last.reported = [record] ∧ ∀ q, before = some q →
    last.stored = if Status.sizeof .ilp32 ≤ q.free then [record] else []

theorem recordEvent_visits (i : Button) (rising falling : RtuEvent) (st : Status .ilp32) {post : Unit → Visit → Prop}
    {v : Visit} {inputs : Nat → Oracle} (put : ∀ position record kept fifo, fifo.isSome = v.fifo.isSome →
      (∀ q, v.fifo = some q → kept = if Status.sizeof .ilp32 ≤ q.free then [record] else []) →
      post () ⟨position,fifo,v.reported++[record],v.stored++kept,true⟩) :
    Meets (visitSpec inputs) post (recordEvent i rising falling st) v := by
  unfold recordEvent load store doGettimeofday rtfPut
  simp only [Program.bind_perform]
  refine visit_pass rfl rfl fun _ _ => ?_
  split
  all_goals
    refine visit_pass rfl rfl fun _ _ => visit_pass rfl rfl fun _ _ => visit_pass rfl rfl fun _ _ => ?_
    exact visit_put fun _ kept fifo there whole => put _ _ kept fifo there whole

theorem clearEoi_visits {post : Unit → Visit → Prop} {fifo : Option (Queue UInt8)} {inputs : Nat → Oracle}
    (handled : ∀ last, Visited inputs fifo last → post () last) {v : Visit}
    (visited : ∀ position, Visited inputs fifo {v with position}) : Meets (visitSpec inputs) post (clearEoi hwIrq) v := by
  unfold clearEoi load store rtEnableIrq
  simp only [Program.bind_perform]
  refine visit_pass rfl rfl fun _ _ => visit_pass rfl rfl fun _ _ => visit_pass rfl rfl fun _ _ => handled _ ?_
  simpa [Call.consumes] using visited _

theorem buttonHandler_visits {post : Unit → Visit → Prop} {fifo : Option (Queue UInt8)} {inputs : Nat → Oracle}
    (handled : ∀ last, Visited inputs fifo last → post () last) :
    Meets (visitSpec inputs) post (buttonHandler hwIrq) ⟨0,fifo,[],[],false⟩ := by
  -- the three branches end alike
  have selected : selects inputs = true → ∀ (i : Button) (rising falling : RtuEvent) (st : Status .ilp32) (position : Nat),
      Meets (visitSpec inputs) (fun _ last => Meets (visitSpec inputs) post (clearEoi hwIrq) last)
        (recordEvent i rising falling st) ⟨position,fifo,[],[],false⟩ := by
    intro some i rising falling st position
    refine recordEvent_visits i rising falling st fun _ record kept fifo there whole => clearEoi_visits handled fun _ => ?_
    exact ⟨there,some.symm,fun none => absurd (none.symm.trans some) Bool.false_ne_true,fun _ => ⟨record,rfl,whole⟩⟩
  unfold buttonHandler rtDisableIrq sampleButtons stack load
  simp only [Program.bind_perform,Program.bind_call,Program.pure_done,Program.bind_done]
  refine visit_pass rfl rfl fun _ _ => visit_pass rfl rfl fun _ _ => visit_pass rfl rfl fun _ _ => visit_pass rfl rfl fun _ _ =>
    visit_pass rfl rfl fun _ _ => meets_bind ?_
  unfold reportEdge load
  simp only [Program.bind_perform]
  refine visit_pass rfl rfl fun word0 (read0 : word0 = inputs 5 (.load .intStsB)) => ?_
  subst read0
  split
  · rename_i set0
    exact selected (selects_iff.mpr (.inl ((and_mask_button _ 0).mp set0))) 0 _ _ _ _
  rename_i clear0
  refine visit_pass rfl rfl fun word1 (read1 : word1 = inputs 6 (.load .intStsB)) => ?_
  subst read1
  split
  · rename_i set1
    exact selected (selects_iff.mpr (.inr (.inl ((and_mask_button _ 1).mp set1)))) 1 _ _ _ _
  rename_i clear1
  refine visit_pass rfl rfl fun word2 (read2 : word2 = inputs 7 (.load .intStsB)) => ?_
  subst read2
  split
  · rename_i set2
    exact selected (selects_iff.mpr (.inr (.inr ((and_mask_button _ 2).mp set2)))) 2 _ _ _ _
  · rename_i clear2
    have none : selects inputs = false := Bool.eq_false_iff.mpr fun some => by
      rcases selects_iff.mp some with set | set | set
      · exact clear0 ((and_mask_button _ 0).mpr set)
      · exact clear1 ((and_mask_button _ 1).mpr set)
      · exact clear2 ((and_mask_button _ 2).mpr set)
    exact clearEoi_visits handled fun _ =>
      ⟨rfl,none.symm,fun _ => ⟨rfl,rfl⟩,fun some => absurd (none.symm.trans some) Bool.false_ne_true⟩

theorem handler_visits (b : Board) (inputs : Nat → Oracle) :
    (∀ e ∈ (exec free (buttonHandler hwIrq) inputs b).trace, e.state.fifo.isSome = b.fifo.isSome) ∧
    (exec free (buttonHandler hwIrq) inputs b).trace.any (·.call.consumes) = selects inputs ∧
    (selects inputs = false → puts (exec free (buttonHandler hwIrq) inputs b).trace = [] ∧
      stored (exec free (buttonHandler hwIrq) inputs b).trace = []) ∧
    (selects inputs = true → ∃ record, puts (exec free (buttonHandler hwIrq) inputs b).trace = [record] ∧
      ∀ q, b.fifo = some q → stored (exec free (buttonHandler hwIrq) inputs b).trace =
        if Status.sizeof .ilp32 ≤ q.free then [record] else []) := by
  obtain ⟨last,⟨_,_,states,reported,kept,consumed⟩,visited⟩ := meets_run (visit_describes inputs) (s := b)
    ⟨rfl,rfl,by simp,rfl,rfl,rfl⟩
    (show Meets _ (fun _ => Visited inputs b.fifo) _ _ from buttonHandler_visits fun _ visited => visited)
  rw [reported,kept]
  exact ⟨fun e member => (states e member).trans visited.kept,consumed.trans visited.consumed,visited.silent,visited.put⟩

end Scada.Kernel
