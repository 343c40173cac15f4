import Scada.Kernel.Lifecycle

namespace Scada.Kernel
open Programs BitMasks Machines

-- PBDR as one thread knows it, each write beside the content that it replaced.
structure DataRegister where
  shown : Word
  writes : List (Word × Word)

def DataRegister.after (d : DataRegister) : (c : Call) → c.Reply → DataRegister
  | .load .pbdr,value => {d with shown:=value}
  | .store .pbdr value,_ => ⟨value,d.writes++[(d.shown,value)]⟩
  | _,_ => d

def dataRegister (content : Word) (calls : List (Event Call Call.Reply Board)) : DataRegister :=
  calls.foldl (fun d e => d.after e.call e.reply) ⟨content,[]⟩

theorem dataRegister_snoc (content : Word) (calls : List (Event Call Call.Reply Board)) (e : Event Call Call.Reply Board) :
    dataRegister content (calls++[e]) = (dataRegister content calls).after e.call e.reply := by simp [dataRegister]

def Call.spares : Call → Bool
  | .store .pbddr _ | .store .pbdr _ => false
  | _ => true

theorem spared_writes {d : DataRegister} {c : Call} (reply : c.Reply) (spares : c.spares = true) :
    (d.after c reply).writes = d.writes := by
  cases c with
  | load r => cases r <;> rfl
  | store r value => cases r <;> first | rfl | cases spares
  | _ => rfl

theorem dataRegister_spared {content : Word} {calls : List (Event Call Call.Reply Board)}
    (spares : ∀ e ∈ calls, e.call.spares = true) : (dataRegister content calls).writes = [] := by
  induction calls using List.reverseRecOn with
  | nil => rfl
  | append_singleton earlier e previous =>
    simp only [List.forall_mem_append,List.forall_mem_singleton] at spares
    rw [dataRegister_snoc,spared_writes e.reply spares.2]
    exact previous spares.1

structure PortB where
  pbddr : Word
  pbdr : Word
  data : DataRegister
  attached : Bool

namespace PortB

def replies (p : PortB) : (c : Call) → c.Reply → Prop
  | .load .pbddr,value => value = p.pbddr
  | _,_ => True

def after (p : PortB) : (c : Call) → c.Reply → PortB
  | .load .pbdr,value => {p with data:=p.data.after (.load .pbdr) value}
  | .store .pbddr value,_ => {p with pbddr:=value}
  | .store .pbdr value,_ => {p with pbdr:=value,data:=p.data.after (.store .pbdr value) ()}
  | .rtRequestIrq irq,reply => {p with attached:=p.attached || decide (irq = hwIrq ∧ (0 : Int) ≤ reply)}
  | .rtReleaseIrq irq,_ => {p with attached:=p.attached && decide (irq ≠ hwIrq)}
  | _,_ => p

-- Both statements have been executed, each `||` mask being 1.
structure SetUp (registers : Register → Word) (p : PortB) : Prop where
  direction : p.pbddr = registers .pbddr &&& ~~~mask 0
  written : p.data.writes ≠ []

structure Masked (registers : Register → Word) (p : PortB) : Prop where
  direction : p.pbddr = registers .pbddr ∨ p.pbddr = registers .pbddr &&& ~~~mask 0
  written : ∀ w ∈ p.data.writes, w.2 = w.1 ||| mask 0
  last : ∀ w ∈ p.data.writes.getLast?, p.pbdr = w.2
  ready : p.attached = true → p.SetUp registers

end PortB

def Board.portB (b : Board) (data : DataRegister) : PortB := ⟨b.registers .pbddr,b.registers .pbdr,data,b.attached⟩

theorem after_portB (b : Board) (d : DataRegister) (c : Call) (reply : c.Reply) :
    (b.after c reply).portB (d.after c reply) = (b.portB d).after c reply := by
  cases c with
  | load r => cases r <;> rfl
  | store r value => cases r <;> simp [Board.after,Board.portB,PortB.after,DataRegister.after]
  | rtRequestIrq irq =>
    simp only [Board.after,Board.portB,PortB.after,DataRegister.after]
    split <;> rename_i granted <;> simp [granted]
  | rtReleaseIrq irq =>
    simp only [Board.after,Board.portB,PortB.after,DataRegister.after]
    split <;> rename_i same <;> simp [same]
  | rtfPut | rtfCreate | rtfDestroy | rtEnableIrq | rtDisableIrq | ioremap =>
    simp only [Board.after,Board.portB,PortB.after,DataRegister.after]
    split <;> rfl
  | _ => rfl

def portBSpec (registers : Register → Word) : Spec Call Call.Reply PortB where
  moves := Eq
  permits p _ := p.Masked registers
  replies := PortB.replies
  effect := PortB.after

section
variable {α : Type} {registers : Register → Word} {post : α → PortB → Prop} {p : PortB}

theorem portB_call {c : Call} {rest : c.Reply → Code α} : Meets (portBSpec registers) post (.call c rest) p ↔
    p.Masked registers ∧ ∀ reply, p.replies c reply → Meets (portBSpec registers) post (rest reply) (p.after c reply) := by
  simp [meets_call,portBSpec]

theorem portB_pass {c : Call} {rest : c.Reply → Code α} (masked : p.Masked registers)
    (each : ∀ reply, p.replies c reply → Meets (portBSpec registers) post (rest reply) (p.after c reply)) :
    Meets (portBSpec registers) post (.call c rest) p := portB_call.mpr ⟨masked,each⟩

theorem portB_direction {rest : Word → Code α} (masked : p.Masked registers)
    (later : Meets (portBSpec registers) post (rest p.pbddr) p) :
    Meets (portBSpec registers) post (.call (.load .pbddr) rest) p := by
  refine portB_pass masked fun value same => ?_
  obtain rfl : value = p.pbddr := same
  exact later

theorem portB_direct {value : Word} {rest : Unit → Code α} (masked : p.Masked registers)
    (later : Meets (portBSpec registers) post (rest ()) {p with pbddr:=value}) :
    Meets (portBSpec registers) post (.call (.store .pbddr value) rest) p := portB_pass masked fun _ _ => later

theorem masked_shown (masked : p.Masked registers) (value : Word) :
    PortB.Masked registers {p with data:={p.data with shown:=value}} :=
  ⟨masked.direction,masked.written,masked.last,fun attached => ⟨(masked.ready attached).direction,(masked.ready attached).written⟩⟩

theorem portB_read {rest : Word → Code α} (masked : p.Masked registers)
    (later : ∀ value, Meets (portBSpec registers) post (rest value) {p with data:={p.data with shown:=value}}) :
    Meets (portBSpec registers) post (.call (.load .pbdr) rest) p := portB_pass masked fun value _ => later value

theorem portB_write {value : Word} {rest : Unit → Code α} (masked : p.Masked registers)
    (later : Meets (portBSpec registers) post (rest ())
      {p with pbdr:=value,data:=⟨value,p.data.writes++[(p.data.shown,value)]⟩}) :
    Meets (portBSpec registers) post (.call (.store .pbdr value) rest) p := portB_pass masked fun _ _ => later

theorem after_spared {c : Call} (reply : c.Reply) (spares : c.spares = true) : (p.after c reply).pbddr = p.pbddr ∧
    (p.after c reply).pbdr = p.pbdr ∧ (p.after c reply).data.writes = p.data.writes := by
  cases c with
  | load r => cases r <;> exact ⟨rfl,rfl,rfl⟩
  | store r value => cases r <;> first | exact ⟨rfl,rfl,rfl⟩ | cases spares
  | _ => exact ⟨rfl,rfl,rfl⟩

theorem portB_spared {code : Code α} (calls : Calls (fun c => c.spares = true) code) (masked : p.Masked registers)
    (setUp : p.SetUp registers)
    (done : ∀ value (last : PortB), last.Masked registers → last.SetUp registers → post value last) :
    Meets (portBSpec registers) post code p := by
  refine meets_frame (fun c => c.spares = true) (I := fun p => p.Masked registers ∧ p.SetUp registers)
    (fun both moved => moved ▸ both) (fun both _ => both.1) ?_ calls ⟨masked,setUp⟩ fun value last both => done value last both.1 both.2
  intro p c reply both spares _
  obtain ⟨⟨direction,written,last,_⟩,setUp⟩ := both
  obtain ⟨pbddr,pbdr,writes⟩ := after_spared (p := p) reply spares
  have kept : (p.after c reply).SetUp registers := ⟨pbddr.trans setUp.direction,writes ▸ setUp.written⟩
  refine ⟨⟨pbddr ▸ direction,?_,?_,fun _ => kept⟩,kept⟩
  · exact fun w member => written w (writes ▸ member)
  · exact fun w latest => pbdr.trans (last w (writes ▸ latest))

end

theorem button_masks : logicalOr (logicalOr (mask btn1) (mask btn2)) (mask btn3) = mask 0 := by decide

theorem led_masks : logicalOr (mask led1) (mask led2) = mask 0 := by decide

section
variable {registers : Register → Word} {p : PortB}

theorem setupPortB_portB {post : Unit → PortB → Prop} (masked : p.Masked registers)
    (done : ∀ last : PortB, last.Masked registers → last.SetUp registers → post () last) :
    Meets (portBSpec registers) post setupPortB p := by
  obtain ⟨direction,written,last,ready⟩ := masked
  have cleared : p.pbddr &&& ~~~mask 0 = registers .pbddr &&& ~~~mask 0 := by
    rcases direction with same | same
    · rw [same]
    · rw [same,BitVec.and_assoc,BitVec.and_self]
  have start : p.Masked registers := ⟨direction,written,last,ready⟩
  unfold setupPortB load store
  simp only [Program.bind_perform]
  refine portB_direction start (portB_direct start ?_)
  rw [button_masks]
  have inputs : PortB.Masked registers {p with pbddr:=p.pbddr &&& ~~~mask 0} :=
    ⟨.inr cleared,written,last,fun attached => ⟨cleared,(ready attached).written⟩⟩
  refine portB_read inputs fun content => portB_write (masked_shown inputs content) ?_
  rw [led_masks]
  have setUp : PortB.SetUp registers
      {p with
        pbddr:=p.pbddr &&& ~~~mask 0
        pbdr:=content ||| mask 0
        data:=⟨content ||| mask 0,p.data.writes++[(content,content ||| mask 0)]⟩} := ⟨cleared,List.concat_ne_nil _ _⟩
  refine portB_spared ?_ ⟨.inr cleared,?_,?_,fun _ => setUp⟩ setUp fun _ => done
  · simp [Calls,Program.perform,Call.spares]
  · intro w member
    rcases List.mem_append.mp member with old | new
    · exact written w old
    · rw [List.mem_singleton.mp new]
  · intro w latest
    rw [List.getLast?_concat] at latest
    exact congrArg Prod.snd (Option.some.inj latest)

theorem goLive_spares : Calls (fun c => c.spares = true) goLive := by
  unfold goLive rtEnableIrq rtfCreate printk
  simp only [Program.bind_perform]
  refine calls_call rfl fun _ => calls_call rfl fun created => ?_
  split <;> exact ⟨rfl,fun _ => trivial⟩

theorem attachHandler_spares : Calls (fun c => c.spares = true) attachHandler := by
  unfold attachHandler rtRequestIrq printk
  simp only [Program.bind_perform]
  refine calls_call rfl fun requested => ?_
  split
  · exact ⟨rfl,fun _ => trivial⟩
  · exact goLive_spares

theorem initModule_portB (masked : p.Masked registers) :
    Meets (portBSpec registers) (fun _ last => last.Masked registers) initModule p := by
  unfold initModule ioremap load printk
  simp only [Program.bind_perform]
  refine portB_pass masked fun a _ => portB_pass masked fun b _ => ?_
  split
  · exact portB_pass masked fun _ _ => masked
  refine meets_bind (setupPortB_portB masked fun port masked setUp => portB_spared ?_ masked setUp fun _ _ masked _ => masked)
  refine calls_call rfl fun c => calls_call rfl fun d => calls_call rfl fun e => ?_
  split
  · exact ⟨rfl,fun _ => trivial⟩
  refine calls_call rfl fun installed => ?_
  split
  · exact ⟨rfl,fun _ => trivial⟩
  · exact attachHandler_spares

theorem cleanupModule_portB (masked : p.Masked registers) :
    Meets (portBSpec registers) (fun _ last => last.Masked registers) cleanupModule p := by
  unfold cleanupModule rtDisableIrq rtReleaseIrq rtfDestroy printk
  simp only [Program.bind_perform]
  refine portB_pass masked fun _ _ => portB_pass masked fun _ _ => ?_
  have detached : (p.after (.rtReleaseIrq hwIrq) ()).Masked registers := by
    refine ⟨masked.direction,masked.written,masked.last,fun attached => ?_⟩
    simp [PortB.after] at attached
  exact portB_pass detached fun _ _ => portB_pass detached fun _ _ => detached

end

namespace Host

def setups (h : Host) (registers : Register → Word) : List (Word × Word) :=
  (dataRegister (registers .pbdr) (h.earlier++h.calls)).writes

def writes (h : Host) (registers : Register → Word) : List (Word × Word) :=
  h.setups registers++(dataRegister (registers .pbdr) h.handled).writes

-- A write leaves the bits alone in which it equals what it replaced.
structure Configured (registers : Register → Word) (h : Host) : Prop where
  inputs : ∀ i : Button, (h.board.registers .pbddr).getLsbD i.val = false
  others : ∀ j, 3 ≤ j → (h.board.registers .pbddr).getLsbD j = (registers .pbddr).getLsbD j
  only : ∀ w ∈ h.writes registers, ∀ j, w.1.getLsbD j ≠ w.2.getLsbD j → j = led1 ∨ j = led2
  lit : (h.board.registers .pbdr).getLsbD led1 = true ∧ (h.board.registers .pbdr).getLsbD led2 = true

structure Hidden (registers : Register → Word) (h : Host) : Prop where
  inputs : (registers .pbddr).getLsbD btn2 = false ∧ (registers .pbddr).getLsbD btn3 = false
  low : ∀ w ∈ h.setups registers, w.1.getLsbD 0 = true
  lit : ∀ w ∈ (h.setups registers).getLast?, w.1.getLsbD led1 = true ∧ w.1.getLsbD led2 = true

end Host

def PortB.Stage (registers : Register → Word) (p : PortB) : Thread → Prop
  | .out | .loaded => p.Masked registers
  | .loading rest => Meets (portBSpec registers) (fun _ last => last.Masked registers) rest p
  | .unloading rest => Meets (portBSpec registers) (fun _ last => last.Masked registers) rest p

def Host.portB (h : Host) (registers : Register → Word) : PortB :=
  h.board.portB (dataRegister (registers .pbdr) (h.earlier++h.calls))

structure PortBKept (registers : Register → Word) (h : Host) : Prop where
  stage : (h.portB registers).Stage registers h.thread
  handled : ∀ e ∈ h.handled, e.call.spares = true

variable {registers : Register → Word} {h next : Host} {action : Action}

theorem stage_masked {p : PortB} {thread : Thread} (stage : p.Stage registers thread) : p.Masked registers := by
  cases thread with
  | out | loaded => exact stage
  | loading rest | unloading rest =>
    cases rest with
    | done value => exact stage
    | call c rest => exact (portB_call.mp stage).1

theorem sampleButtons_spares : Calls (fun c => c.spares = true) sampleButtons := by
  simp [sampleButtons,load,stack,Calls,Call.spares]

theorem recordEvent_spares (i : Button) (rising falling : RtuEvent) (st : Status .ilp32) :
    Calls (fun c => c.spares = true) (recordEvent i rising falling st) := by
  unfold recordEvent load store doGettimeofday rtfPut
  simp only [Program.bind_perform]
  refine calls_call rfl fun armed => ?_
  split <;> simp [Calls,Call.spares]

theorem reportEdge_spares (st : Status .ilp32) : Calls (fun c => c.spares = true) (reportEdge st) := by
  unfold reportEdge load
  simp only [Program.bind_perform]
  refine calls_call rfl fun first => ?_
  split
  · exact recordEvent_spares 0 _ _ st
  refine calls_call rfl fun second => ?_
  split
  · exact recordEvent_spares 1 _ _ st
  refine calls_call rfl fun third => ?_
  split
  · exact recordEvent_spares 2 _ _ st
  · trivial

theorem buttonHandler_spares : Calls (fun c => c.spares = true) (buttonHandler hwIrq) := by
  unfold buttonHandler rtDisableIrq
  simp only [Program.bind_perform]
  refine calls_call rfl fun _ => calls_bind sampleButtons_spares fun st => calls_bind (reportEdge_spares st) fun _ => ?_
  simp [clearEoi,load,store,rtEnableIrq,Calls,Program.perform,Call.spares]

theorem handler_portB (b : Board) (inputs : Nat → Oracle) (data : DataRegister) :
    (exec free (buttonHandler hwIrq) inputs b).state.portB data = b.portB data := by
  obtain ⟨eoi,⟨_,board⟩ | ⟨i,st,now,_,board⟩⟩ := handler_free b inputs
  · rw [board]
    simp [Board.portB,Board.acknowledged]
  · rw [board]
    simp [Board.portB,Board.acknowledged,Board.recorded]

theorem called_portB (h : Host) (c : Call) (reply : c.Reply) (thread : Thread) :
    (h.called c reply thread).portB registers = (h.portB registers).after c reply := by
  rw [Host.portB,Host.called,← List.append_assoc,dataRegister_snoc]
  exact after_portB h.board _ c reply

theorem answer_portB (h : Host) (o : Oracle) (c : Call) : (h.portB registers).replies c (answer h.board o c) := by
  cases c with
  | load r => cases r <;> first | exact trivial | rfl
  | _ => trivial

theorem step_portB (kept : PortBKept registers h) (taken : h.step action = some next) : PortBKept registers next := by
  obtain ⟨stage,handled⟩ := kept
  cases h.step_moved taken with
  | insmod thread =>
    rw [thread] at stage
    have same : h.inserted.portB registers = h.portB registers := by simp [Host.portB,Host.inserted,Board.portB]
    refine ⟨?_,handled⟩
    rw [same]
    exact initModule_portB stage
  | rmmod thread =>
    rw [thread] at stage
    exact ⟨cleanupModule_portB stage,handled⟩
  | loading thread =>
    rw [thread] at stage
    refine ⟨?_,handled⟩
    rw [called_portB]
    exact (portB_call.mp stage).2 _ (answer_portB h _ _)
  | unloading thread =>
    rw [thread] at stage
    refine ⟨?_,handled⟩
    rw [called_portB]
    exact (portB_call.mp stage).2 _ (answer_portB h _ _)
  | @initReturns value thread =>
    rw [thread] at stage
    refine ⟨?_,handled⟩
    split <;> exact stage
  | cleanupReturns thread =>
    rw [thread] at stage
    exact ⟨stage,handled⟩
  | @interrupt inputs deliverable =>
    have same : (h.interrupted inputs).portB registers = h.portB registers := handler_portB h.board inputs _
    refine ⟨?_,fun e member => ?_⟩
    · rw [same]
      exact stage
    · rcases List.mem_append.mp member with old | new
      · exact handled e old
      · exact exec_calls buttonHandler_spares inputs h.board e new

theorem start_portB (registers : Register → Word) : PortBKept registers (.start registers) :=
  ⟨⟨.inl rfl,nofun,nofun,nofun⟩,List.forall_mem_nil _⟩

theorem direction_iff (word : Word) : (∀ i : Button, (word &&& ~~~mask 0).getLsbD i.val = false) ↔
    word.getLsbD btn2 = false ∧ word.getLsbD btn3 = false := by
  simp only [and_not_mask_getLsbD]
  constructor
  · intro inputs
    exact ⟨by simpa [btn2] using inputs 1,by simpa [btn3] using inputs 2⟩
  · rintro ⟨second,third⟩ i
    fin_cases i
    · simp
    · simpa [btn2] using second
    · simpa [btn3] using third

theorem only_iff (word : Word) : (∀ j, word.getLsbD j ≠ (word ||| mask 0).getLsbD j → j = led1 ∨ j = led2) ↔
    word.getLsbD 0 = true := by
  simp only [or_mask_getLsbD (show 0 < 32 by decide)]
  constructor
  · intro only
    by_contra clear
    have changed := only 0 (by simpa using clear)
    exact absurd changed (by decide)
  · intro set j changed
    by_cases low : j = 0
    · subst low
      simp [set] at changed
    · simp [Ne.symm low] at changed

theorem lit_iff (word : Word) : ((word ||| mask 0).getLsbD led1 = true ∧ (word ||| mask 0).getLsbD led2 = true) ↔
    word.getLsbD led1 = true ∧ word.getLsbD led2 = true := by
  have high : ∀ j, 0 ≠ j → (word ||| mask 0).getLsbD j = word.getLsbD j := by
    intro j other
    rw [or_mask_getLsbD (by decide),decide_eq_false other,Bool.or_false]
  rw [high led1 (by decide),high led2 (by decide)]

theorem writes_setups (kept : PortBKept registers h) : h.writes registers = h.setups registers := by
  rw [Host.writes,dataRegister_spared kept.handled,List.append_nil]

theorem latest_setup (masked : (h.portB registers).Masked registers) (wrote : h.setups registers ≠ []) :
    ∃ w, (h.setups registers).getLast? = some w ∧ h.board.registers .pbdr = w.1 ||| mask 0 := by
  have latest := List.getLast?_eq_some_getLast wrote
  refine ⟨_,latest,(masked.last _ latest).trans ?_⟩
  exact masked.written _ (List.getLast_mem wrote)

theorem configured_iff (kept : PortBKept registers h) (attached : h.board.attached = true) :
    h.Configured registers ↔ h.Hidden registers := by
  have masked := stage_masked kept.stage
  obtain ⟨direction,wrote⟩ := masked.ready attached
  have direction : h.board.registers .pbddr = registers .pbddr &&& ~~~mask 0 := direction
  obtain ⟨w,latest,content⟩ := latest_setup masked wrote
  have only : (∀ w ∈ h.writes registers, ∀ j, w.1.getLsbD j ≠ w.2.getLsbD j → j = led1 ∨ j = led2) ↔
      ∀ w ∈ h.setups registers, w.1.getLsbD 0 = true := by
    rw [writes_setups kept]
    refine forall₂_congr fun w member => ?_
    rw [masked.written w member]
    exact only_iff w.1
  constructor
  · rintro ⟨inputs,_,untouched,lit⟩
    rw [direction] at inputs
    rw [content] at lit
    refine ⟨(direction_iff _).mp inputs,only.mp untouched,fun last same => ?_⟩
    obtain rfl := Option.some.inj (latest.symm.trans same)
    exact (lit_iff _).mp lit
  · rintro ⟨inputs,low,lit⟩
    refine ⟨?_,fun j above => ?_,only.mpr low,?_⟩
    · rw [direction]
      exact (direction_iff _).mpr inputs
    · have other : 0 ≠ j := by omega
      rw [direction,and_not_mask_getLsbD,decide_eq_false other,Bool.not_false,Bool.and_true]
    · rw [content]
      exact (lit_iff _).mpr (lit w latest)

theorem configured_iff_hidden (registers : Register → Word) (actions : List Action) :
    Always Host.step (fun h => h.board.deliverable → h.Configured registers) (.start registers) actions ↔
      Always Host.step (fun h => h.board.deliverable → h.Hidden registers) (.start registers) actions := by
  refine forall₂_congr fun h visited => imp_congr_right fun deliverable => ?_
  exact configured_iff (visited.invariant (start_portB registers) step_portB) deliverable.1

theorem reset_unconfigured : ¬ ∀ registers actions h, Runs Host.step (.start registers) actions h →
    h.board.deliverable → h.Configured registers := by
  intro all
  let actions : List Action := .insmod::List.replicate 21 (.call .uneventful)++[.ret]
  obtain ⟨h,path,seen⟩ := run_observed Host.step (.start fun _ => 0) actions
    (fun h => (decide h.board.deliverable,h.board.registers .pbdr)) (true,1) (by decide +kernel)
  obtain ⟨deliverable,pbdr⟩ := Prod.mk.inj seen
  have lit := (all _ _ h path (of_decide_eq_true deliverable)).lit.1
  rw [pbdr] at lit
  exact absurd lit (by decide)

end Scada.Kernel
