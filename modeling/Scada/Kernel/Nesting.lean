import Scada.Kernel.Lifecycle
import Scada.Library.Stepping

namespace Scada.Kernel
open Programs BoundedQueues Machines

def Call.Inner : Call → Prop
  | .stack | .load _ | .store _ _ | .doGettimeofday | .rtfPut _ _ => True
  | _ => False

def Call.Unmasks (c : Call) : Prop := c = .rtEnableIrq hwIrq

abbrev Masked (p : Code Unit) : Prop := Encloses Call.Inner Call.Unmasks p

theorem recordEvent_inner (i : Button) (rising falling : RtuEvent) (st : Status .ilp32) :
    Calls Call.Inner (recordEvent i rising falling st) := by
  unfold recordEvent load store doGettimeofday rtfPut
  simp only [Program.bind_perform]
  refine calls_call trivial fun type => ?_
  split
  all_goals
  · refine calls_call trivial fun word => calls_call trivial fun _ => calls_call trivial fun now => ?_
    exact calls_call trivial fun _ => trivial

theorem reportEdge_inner (st : Status .ilp32) : Calls Call.Inner (reportEdge st) := by
  unfold reportEdge load
  simp only [Program.bind_perform]
  refine calls_call trivial fun first => ?_
  split
  · exact recordEvent_inner 0 _ _ st
  · refine calls_call trivial fun second => ?_
    split
    · exact recordEvent_inner 1 _ _ st
    · refine calls_call trivial fun third => ?_
      split
      · exact recordEvent_inner 2 _ _ st
      · trivial

theorem sampleButtons_inner : Calls Call.Inner sampleButtons := by
  simp [sampleButtons,load,stack,Calls,Call.Inner]

theorem clearEoi_masked : Masked (clearEoi hwIrq) := by
  unfold clearEoi load store rtEnableIrq
  simp only [Program.bind_perform]
  refine encloses_call trivial fun value => encloses_call trivial fun _ => .inr ⟨rfl,fun reply => ⟨(),rfl⟩⟩

def handlerBody (irqNum : Nat) : Code Unit := do
  let st ← sampleButtons
  reportEdge st
  clearEoi irqNum

theorem buttonHandler_masks : buttonHandler hwIrq = .call (.rtDisableIrq hwIrq) fun _ => handlerBody hwIrq := rfl

theorem handlerBody_masked : Masked (handlerBody hwIrq) :=
  encloses_bind sampleButtons_inner fun st => encloses_bind (reportEdge_inner st) fun _ => clearEoi_masked

theorem inner_enabled {c : Call} (inner : c.Inner) (b : Board) (reply : c.Reply) : (b.after c reply).enabled = b.enabled := by
  cases c with
  | stack | load | store | doGettimeofday => rfl
  | rtfPut fifo st => simp only [Board.after]; split <;> rfl
  | _ => exact inner.elim

-- The latest invocation runs call by call, and the line, once unmasked, may break in
-- before any call at all; the thread that loads and unloads waits for them.
structure Preempted where
  host : Host
  frames : List (Code Unit)

inductive Progress where
  | thread (a : Action)
  | interrupt
  | call (o : Oracle)
  | ret

def Action.ofThread : Action → Bool
  | .interrupt _ => false
  | _ => true

namespace Preempted

def start (registers : Register → Word) : Preempted := ⟨.start registers,[]⟩

def called (n : Preempted) (c : Call) (reply : c.Reply) (frames : List (Code Unit)) : Preempted :=
  ⟨{n.host with board:=n.host.board.after c reply,handled:=n.host.handled++[⟨n.host.board,c,reply⟩]},frames⟩

def step (n : Preempted) : Progress → Option Preempted
  | .thread a => if n.frames = [] ∧ a.ofThread = true then (n.host.step a).map fun host => {n with host} else none
  | .interrupt => if n.host.board.deliverable then some {n with frames:=buttonHandler hwIrq::n.frames} else none
  | .call o => match n.frames with
    | .call c rest::below => let reply := answer n.host.board o c; some (n.called c reply (rest reply::below))
    | _ => none
  | .ret => match n.frames with
    | .done _::below => some {n with frames:=below}
    | _ => none

inductive Moved (n : Preempted) : Progress → Preempted → Prop where
  | thread : n.frames = [] → a.ofThread = true → n.host.step a = some later → Moved n (.thread a) {n with host:=later}
  | interrupt : n.host.board.deliverable → Moved n .interrupt {n with frames:=buttonHandler hwIrq::n.frames}
  | call {c : Call} {rest : c.Reply → Code Unit} : n.frames = .call c rest::below →
      Moved n (.call o) (n.called c (answer n.host.board o c) (rest (answer n.host.board o c)::below))
  | ret : n.frames = .done value::below → Moved n .ret {n with frames:=below}

theorem step_moved {n next : Preempted} {action : Progress} (taken : n.step action = some next) : n.Moved action next := by
  cases action with
  | thread a =>
    simp only [step] at taken
    split at taken
    · rename_i idle
      obtain ⟨host,ran,rfl⟩ := Option.map_eq_some_iff.mp taken
      exact .thread idle.1 idle.2 ran
    · cases taken
  | interrupt =>
    obtain ⟨deliverable,rfl⟩ := guarded taken
    exact .interrupt deliverable
  | call o =>
    simp only [step] at taken
    split at taken
    · rename_i frames; cases taken; exact .call frames
    · cases taken
  | ret =>
    simp only [step] at taken
    split at taken
    · rename_i frames; cases taken; exact .ret frames
    · cases taken

end Preempted

def Idle (frame : Code Unit) : Prop := frame = buttonHandler hwIrq ∨ frame = .done ()

-- With an invocation under way the atomic machine stands where it could begin.
inductive Stands : Preempted → Host → Prop where
  | idle : (∀ frame ∈ n.frames, Idle frame) → (n.frames ≠ [] → n.host.board.deliverable) → Stands n n.host
  | running {h : Host} {board : Board} {frame : Code Unit} {below : List (Code Unit)} {inputs : List Oracle}
      {trace : List (Event Call Call.Reply Board)} : h.board.deliverable → (∀ frame ∈ below, Idle frame) →
      Steps free (buttonHandler hwIrq) h.board inputs trace frame board → Masked frame → board.enabled = false →
      Stands ⟨{h with board,handled:=h.handled++trace},frame::below⟩ h

theorem stands_enter {n : Preempted} {o : Oracle} {below : List (Code Unit)} (deliverable : n.host.board.deliverable)
    (idle : ∀ frame ∈ below, Idle frame) :
    Stands (n.called (.rtDisableIrq hwIrq) (answer n.host.board o (.rtDisableIrq hwIrq)) (handlerBody hwIrq::below)) n.host := by
  have first : Steps free (buttonHandler hwIrq) n.host.board [] [] (.call (.rtDisableIrq hwIrq) fun _ => handlerBody hwIrq)
    n.host.board := .start
  exact .running deliverable idle (first.call o) handlerBody_masked (by simp [Board.after])

theorem handler_deliverable (b : Board) (inputs : Nat → Oracle) (deliverable : b.deliverable) :
    (exec free (buttonHandler hwIrq) inputs b).state.deliverable := by
  have same := handler_resources b inputs false false deliverable
  exact ⟨(congrArg Resources.attached same).trans deliverable.1,(congrArg Resources.enabled same).trans deliverable.2⟩

def Progress.onThread : Progress → List Action
  | .thread a => [a]
  | _ => []

theorem step_stands {n next : Preempted} {h : Host} {action : Progress} (stands : Stands n h)
    (taken : n.step action = some next) :
    ∃ seen h', Runs Host.step h seen h' ∧ seen.filter (·.ofThread) = action.onThread ∧ Stands next h' := by
  cases stands with
  | idle idle deliverable =>
    cases n.step_moved taken with
    | @thread a host none own ran =>
      refine ⟨[a],host,.single ran,by simp [Progress.onThread,own],?_⟩
      exact .idle (n := {n with host}) (by simp [none]) (by simp [none])
    | interrupt live =>
      refine ⟨[],n.host,.nil,rfl,.idle (n := {n with frames:=buttonHandler hwIrq::n.frames}) ?_ fun _ => live⟩
      exact List.forall_mem_cons.mpr ⟨.inl rfl,idle⟩
    | @call below o c rest frames =>
      rw [frames] at idle deliverable
      obtain ⟨top,others⟩ := List.forall_mem_cons.mp idle
      have live := deliverable (List.cons_ne_nil _ _)
      rcases top with same | same
      · cases same.trans buttonHandler_masks
        exact ⟨[],n.host,.nil,rfl,stands_enter live others⟩
      · cases same
    | @ret below value frames =>
      rw [frames] at idle deliverable
      refine ⟨[],n.host,.nil,rfl,.idle (n := {n with frames:=below}) (List.forall_mem_cons.mp idle).2 fun _ => ?_⟩
      exact deliverable (List.cons_ne_nil _ _)
  | @running h board frame below inputs trace deliverable idle steps masked closed =>
    cases Preempted.step_moved taken with
    | thread none => cases none
    | interrupt live => exact absurd live.2 (by simp [closed])
    | @call _ o c rest frames =>
      obtain ⟨rfl,rfl⟩ := List.cons.inj frames
      have further : Steps free (buttonHandler hwIrq) h.board (inputs++[o]) (trace++[⟨board,c,answer board o c⟩])
        (rest (answer board o c)) (board.after c (answer board o c)) := steps.call o
      rcases masked with ⟨inner,later⟩ | ⟨unmasks,ends⟩
      · refine ⟨[],h,.nil,rfl,?_⟩
        have still := (inner_enabled inner board (answer board o c)).trans closed
        have running := Stands.running deliverable idle further (later _) still
        simpa only [Preempted.called,List.append_assoc] using running
      · obtain ⟨value,last⟩ := ends (answer board o c)
        rw [last] at further
        have whole := further.returned fun _ => o
        refine ⟨[.interrupt (feed (inputs++[o]) fun _ => o)],_,.single (if_pos deliverable),rfl,?_⟩
        have same : h.interrupted (feed (inputs++[o]) fun _ => o) =
            {h with
              board:=board.after c (answer board o c)
              handled:=h.handled++(trace++[⟨board,c,answer board o c⟩])} := by
          rw [Host.interrupted,whole]
        have live := handler_deliverable h.board (feed (inputs++[o]) fun _ => o) deliverable
        rw [whole] at live
        rw [same,last]
        simp only [Preempted.called,List.append_assoc]
        exact .idle (n := ⟨_,_⟩) (List.forall_mem_cons.mpr ⟨.inr rfl,idle⟩) fun _ => live
    | ret frames =>
      obtain ⟨rfl,_⟩ := List.cons.inj frames
      exact masked.elim

theorem nested_runs_atomic (registers : Register → Word) (actions : List Progress) (n : Preempted)
    (path : Runs Preempted.step (.start registers) actions n) :
    ∃ seen h, Runs Host.step (.start registers) seen h ∧
      seen.filter (·.ofThread) = actions.flatMap Progress.onThread ∧ Stands n h := by
  induction path with
  | nil => exact ⟨[],_,.nil,rfl,.idle (n := Preempted.start registers) nofun fun some => absurd rfl some⟩
  | step prior taken ih =>
    obtain ⟨seen,h,atomic,thread,stands⟩ := ih
    obtain ⟨more,h',later,own,next⟩ := step_stands stands taken
    refine ⟨seen++more,h',atomic.append later,?_,next⟩
    rw [List.filter_append,thread,own,List.flatMap_append,List.flatMap_singleton]

def brokenInto : List Progress :=
  .thread .insmod::List.replicate 19 (.thread (.call .uneventful))++[.interrupt,.interrupt,.call .pressed,.call .pressed]

theorem nested_runs_atomic_twice : ∃ n seen h, n.frames.length = 2 ∧
    Runs Host.step (.start fun _ => 0) seen h ∧ seen.filter (·.ofThread) = brokenInto.flatMap Progress.onThread ∧ Stands n h := by
  obtain ⟨n,path,frames⟩ := run_observed Preempted.step (.start fun _ => 0) brokenInto (·.frames.length) 2 (by decide +kernel)
  obtain ⟨seen,h,atomic⟩ := nested_runs_atomic _ _ n path
  exact ⟨n,seen,h,frames,atomic⟩

theorem thread_handled {h next : Host} {a : Action} (own : a.ofThread = true) (taken : h.step a = some next) :
    next.handled = h.handled := by
  cases h.step_moved taken with
  | interrupt => cases own
  | _ => rfl

def MaskedOrMasking (e : Event Call Call.Reply Board) : Prop := e.call = .rtDisableIrq hwIrq ∨ e.state.enabled = false

structure Excludes (n : Preempted) : Prop where
  masked : ∀ e ∈ n.host.handled, MaskedOrMasking e
  single : ∀ frame ∈ n.frames.tail, Idle frame
  under : (∃ frame ∈ n.frames, ¬ Idle frame) → n.host.board.enabled = false

theorem stands_single {n : Preempted} {h : Host} (stands : Stands n h) :
    (∀ frame ∈ n.frames.tail, Idle frame) ∧ ((∃ frame ∈ n.frames, ¬ Idle frame) → n.host.board.enabled = false) := by
  cases stands with
  | idle idle =>
    refine ⟨fun frame member => idle frame (List.mem_of_mem_tail member),?_⟩
    rintro ⟨frame,member,busy⟩
    exact absurd (idle frame member) busy
  | running _ idle _ _ closed => exact ⟨idle,fun _ => closed⟩

theorem stands_call {n : Preempted} {h : Host} {c : Call} {rest : c.Reply → Code Unit} {below : List (Code Unit)}
    {reply : c.Reply} (stands : Stands n h) (frames : n.frames = .call c rest::below) :
    MaskedOrMasking ⟨n.host.board,c,reply⟩ := by
  cases stands with
  | idle idle =>
    rw [frames] at idle
    rcases (List.forall_mem_cons.mp idle).1 with same | same
    · cases same.trans buttonHandler_masks
      exact .inl rfl
    · cases same
  | running _ _ _ _ closed => exact .inr closed

theorem step_masked {n next : Preempted} {h : Host} {action : Progress} (stands : Stands n h)
    (masked : ∀ e ∈ n.host.handled, MaskedOrMasking e) (taken : n.step action = some next) :
    ∀ e ∈ next.host.handled, MaskedOrMasking e := by
  cases n.step_moved taken with
  | thread _ own ran => exact (thread_handled own ran).symm ▸ masked
  | interrupt | ret => exact masked
  | call frames =>
    intro e member
    rcases List.mem_append.mp member with old | new
    · exact masked e old
    · rw [List.mem_singleton.mp new]
      exact stands_call stands frames

theorem invocations_exclude (registers : Register → Word) (actions : List Progress) :
    Always Preempted.step Excludes (.start registers) actions := by
  intro n visited
  have invariant : (∃ h, Stands n h) ∧ ∀ e ∈ n.host.handled, MaskedOrMasking e := by
    refine visited.invariant (P := fun n => (∃ h, Stands n h) ∧ ∀ e ∈ n.host.handled, MaskedOrMasking e)
      ⟨⟨_,.idle (n := .start registers) nofun fun some => absurd rfl some⟩,List.forall_mem_nil _⟩ ?_
    rintro n action next ⟨⟨h,stands⟩,masked⟩ taken
    obtain ⟨_,h',_,_,later⟩ := step_stands stands taken
    exact ⟨⟨h',later⟩,step_masked stands masked taken⟩
  obtain ⟨⟨h,stands⟩,masked⟩ := invariant
  obtain ⟨single,under⟩ := stands_single stands
  exact ⟨masked,single,under⟩

end Scada.Kernel
