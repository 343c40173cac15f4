import Scada.Kernel.Nesting

namespace Scada.Kernel
open Programs BoundedQueues Machines

variable {ρ : Type}

def Call.Handles : Call → Prop
  | .store r _ => r = .gpioBIntType2 ∨ r = .gpioBEoi
  | .stack | .load _ | .doGettimeofday | .rtfPut _ _ | .rtEnableIrq _ | .rtDisableIrq _ => True
  | .rtfCreate _ _ | .rtfDestroy _ | .rtRequestIrq _ | .rtReleaseIrq _ | .ioremap _ _ _ | .iounmap _ | .printk _ => False

-- A part of the board that only the loader's calls change.
structure Aspect (ρ : Type) where
  view : Board → ρ
  after : ρ → (c : Call) → c.Reply → ρ
  called : ∀ b c reply, view (b.after c reply) = after (view b) c reply
  handled : ∀ b c reply, c.Handles → view (b.after c reply) = view b
  inserted : ∀ b held, view {b with held} = view b

def Aspect.spec (a : Aspect ρ) (I : ρ → Prop) : Spec Call Call.Reply ρ where
  moves := Eq
  permits p _ := I p
  replies _ _ _ := True
  effect := a.after

section
variable {α : Type} {a : Aspect ρ} {I : ρ → Prop} {post : α → ρ → Prop} {p : ρ}

theorem aspect_call {c : Call} {rest : c.Reply → Code α} : Meets (a.spec I) post (.call c rest) p ↔
    I p ∧ ∀ reply, Meets (a.spec I) post (rest reply) (a.after p c reply) := by
  simp [meets_call,Aspect.spec]

theorem aspect_pass {c : Call} {rest : c.Reply → Code α} (valid : I p)
    (each : ∀ reply, Meets (a.spec I) post (rest reply) (a.after p c reply)) : Meets (a.spec I) post (.call c rest) p :=
  aspect_call.mpr ⟨valid,each⟩

end

def Aspect.Stage (a : Aspect ρ) (I : ρ → Prop) (p : ρ) : Thread → Prop
  | .out | .loaded => I p
  | .loading rest => Meets (a.spec I) (fun _ => I) rest p
  | .unloading rest => Meets (a.spec I) (fun _ => I) rest p

structure Aspect.Holds (a : Aspect ρ) (I : ρ → Prop) : Prop where
  init : ∀ p, I p → Meets (a.spec I) (fun _ => I) initModule p
  cleanup : ∀ p, I p → Meets (a.spec I) (fun _ => I) cleanupModule p

variable {a : Aspect ρ} {I : ρ → Prop} {h next : Host}

theorem stage_valid {p : ρ} {thread : Thread} (stage : a.Stage I p thread) : I p := by
  cases thread with
  | out | loaded => exact stage
  | loading rest | unloading rest =>
    cases rest with
    | done value => exact stage
    | call c rest => exact (aspect_call.mp stage).1

theorem buttonHandler_handles : Calls Call.Handles (buttonHandler hwIrq) := by
  have record : ∀ i rising falling st, Calls Call.Handles (recordEvent i rising falling st) := by
    intro i rising falling st
    unfold recordEvent load store doGettimeofday rtfPut
    simp only [Program.bind_perform]
    refine calls_call trivial fun type => ?_
    split <;> simp [Calls,Call.Handles]
  have report : ∀ st, Calls Call.Handles (reportEdge st) := by
    intro st
    unfold reportEdge load
    simp only [Program.bind_perform]
    refine calls_call trivial fun first => ?_
    split
    · exact record 0 _ _ st
    refine calls_call trivial fun second => ?_
    split
    · exact record 1 _ _ st
    refine calls_call trivial fun third => ?_
    split
    · exact record 2 _ _ st
    · trivial
  unfold buttonHandler rtDisableIrq
  simp only [Program.bind_perform]
  refine calls_call trivial fun _ => calls_bind ?_ fun st => calls_bind (report st) fun _ => ?_
  · simp [sampleButtons,load,stack,Calls,Call.Handles]
  · simp [clearEoi,load,store,rtEnableIrq,Calls,Program.perform,Call.Handles]

theorem step_stage {action : Action} (holds : a.Holds I) (stage : a.Stage I (a.view h.board) h.thread)
    (taken : h.step action = some next) : a.Stage I (a.view next.board) next.thread := by
  cases h.step_moved taken with
  | insmod thread =>
    rw [thread] at stage
    have same : a.view h.inserted.board = a.view h.board := a.inserted _ _
    rw [same]
    exact holds.init _ stage
  | rmmod thread =>
    rw [thread] at stage
    exact holds.cleanup _ stage
  | loading thread | unloading thread =>
    rw [thread] at stage
    have moved := (aspect_call.mp stage).2
    simp only [Host.called,a.called]
    exact moved _
  | initReturns thread =>
    rw [thread] at stage
    dsimp only
    split <;> exact stage
  | cleanupReturns thread =>
    rw [thread] at stage
    exact stage
  | @interrupt inputs deliverable =>
    have same : a.view (h.interrupted inputs).board = a.view h.board :=
      exec_frame a.view (fun _ _ => rfl) a.handled buttonHandler_handles inputs h.board
    rw [same]
    exact stage

theorem holds_nested {registers : Register → Word} {actions : List Progress} {n : Preempted} (holds : a.Holds I)
    (start : I (a.view (Host.start registers).board)) (visited : Visits Preempted.step (.start registers) actions n) :
    I (a.view n.host.board) := by
  have invariant : ∃ h, Stands n h ∧ a.Stage I (a.view h.board) h.thread := by
    refine visited.invariant (P := fun n => ∃ h, Stands n h ∧ a.Stage I (a.view h.board) h.thread)
      ⟨_,.idle (n := .start registers) nofun fun some => absurd rfl some,start⟩ ?_
    rintro n action next ⟨h,stands,stage⟩ taken
    obtain ⟨_,h',path,_,later⟩ := step_stands stands taken
    exact ⟨h',later,path.invariant (P := fun h => a.Stage I (a.view h.board) h.thread) stage (step_stage holds)⟩
  obtain ⟨h,stands,stage⟩ := invariant
  cases stands with
  | idle => exact stage_valid stage
  | @running h board frame below inputs trace _ _ steps _ _ =>
    have same : a.view board = a.view h.board := (steps.frame a.view (fun _ _ => rfl) a.handled buttonHandler_handles).1
    exact same ▸ stage_valid stage

structure Wiring where
  enabled : Word
  edges : Word
  debounced : Word
  attached : Bool

namespace Wiring

def after (w : Wiring) : (c : Call) → c.Reply → Wiring
  | .store .gpioBIntEn value,_ => {w with enabled:=value}
  | .store .gpioBIntType1 value,_ => {w with edges:=value}
  | .store .gpioBDb value,_ => {w with debounced:=value}
  | .rtRequestIrq irq,reply => {w with attached:=w.attached || decide (irq = hwIrq ∧ (0 : Int) ≤ reply)}
  | .rtReleaseIrq irq,_ => {w with attached:=w.attached && decide (irq ≠ hwIrq)}
  | _,_ => w

structure Buttons (w : Wiring) : Prop where
  enabled : w.enabled = 0x07
  edges : w.edges = 0x07
  debounced : w.debounced = 0x07

structure Wired (registers : Register → Word) (w : Wiring) : Prop where
  enabled : w.enabled = registers .gpioBIntEn ∨ w.enabled = 0x07
  edges : w.edges = registers .gpioBIntType1 ∨ w.edges = 0x07
  debounced : w.debounced = registers .gpioBDb ∨ w.debounced = 0x07
  ready : w.attached = true → w.Buttons

end Wiring

def Board.wiring (b : Board) : Wiring := ⟨b.registers .gpioBIntEn,b.registers .gpioBIntType1,b.registers .gpioBDb,b.attached⟩

theorem after_wiring (b : Board) (c : Call) (reply : c.Reply) : (b.after c reply).wiring = b.wiring.after c reply := by
  cases c with
  | store r value => cases r <;> simp [Board.after,Board.wiring,Wiring.after]
  | rtRequestIrq irq =>
    simp only [Board.after,Board.wiring,Wiring.after]
    split <;> rename_i granted <;> simp [granted]
  | rtReleaseIrq irq =>
    simp only [Board.after,Board.wiring,Wiring.after]
    split <;> rename_i same <;> simp [same]
  | rtfPut | rtfCreate | rtfDestroy | rtEnableIrq | rtDisableIrq | ioremap =>
    simp only [Board.after,Board.wiring,Wiring.after]
    split <;> rfl
  | _ => rfl

theorem handled_wiring (b : Board) (c : Call) (reply : c.Reply) (handles : c.Handles) :
    (b.after c reply).wiring = b.wiring := by
  rw [after_wiring]
  cases c with
  | store r value => obtain rfl | rfl := handles <;> rfl
  | stack | load | doGettimeofday | rtfPut | rtEnableIrq | rtDisableIrq => rfl
  | _ => exact handles.elim

def wiring : Aspect Wiring := ⟨Board.wiring,Wiring.after,after_wiring,handled_wiring,fun _ _ => rfl⟩

section
variable {registers : Register → Word} {w : Wiring}

def Call.rewires : Call → Bool
  | .store .gpioBIntEn _ | .store .gpioBIntType1 _ | .store .gpioBDb _ => true
  | _ => false

theorem after_unwired {c : Call} (reply : c.Reply) (spares : c.rewires = false) (buttons : w.Buttons) :
    (w.after c reply).Buttons := by
  obtain ⟨enabled,edges,debounced⟩ := buttons
  cases c with
  | store r value => cases r <;> first | exact ⟨enabled,edges,debounced⟩ | cases spares
  | _ => exact ⟨enabled,edges,debounced⟩

theorem Wiring.Buttons.wired (buttons : w.Buttons) : w.Wired registers :=
  ⟨.inr buttons.enabled,.inr buttons.edges,.inr buttons.debounced,fun _ => buttons⟩

theorem wiring_spared {α : Type} {code : Code α} {post : α → Wiring → Prop} (calls : Calls (fun c => c.rewires = false) code)
    (buttons : w.Buttons) (done : ∀ value (last : Wiring), last.Buttons → post value last) :
    Meets (wiring.spec (Wiring.Wired registers)) post code w :=
  meets_frame (fun c => c.rewires = false) (I := Wiring.Buttons) (fun valid moved => moved ▸ valid)
    (fun valid _ => valid.wired) (fun valid spares _ => after_unwired _ spares valid) calls buttons done

theorem setupPortB_wires {post : Unit → Wiring → Prop} (wired : w.Wired registers)
    (done : ∀ last : Wiring, last.Buttons → post () last) :
    Meets (wiring.spec (Wiring.Wired registers)) post setupPortB w := by
  obtain ⟨enabled,edges,debounced,ready⟩ := wired
  have start : w.Wired registers := ⟨enabled,edges,debounced,ready⟩
  unfold setupPortB load store
  simp only [Program.bind_perform]
  refine aspect_pass start fun direction => aspect_pass start fun _ => aspect_pass start fun data => ?_
  refine aspect_pass start fun _ => aspect_pass start fun eoi => aspect_pass start fun _ => ?_
  -- GPIOBINTEN, then GPIOBINTTYPE1
  have first : Wiring.Wired registers {w with enabled:=0x07} :=
    ⟨.inr rfl,edges,debounced,fun attached => ⟨rfl,(ready attached).edges,(ready attached).debounced⟩⟩
  have second : Wiring.Wired registers {w with enabled:=0x07,edges:=0x07} :=
    ⟨.inr rfl,.inr rfl,debounced,fun attached => ⟨rfl,rfl,(ready attached).debounced⟩⟩
  refine aspect_pass start fun _ => aspect_pass first fun _ => ?_
  refine aspect_pass second fun type => aspect_pass second fun _ => aspect_pass second fun _ => ?_
  exact done _ ⟨rfl,rfl,rfl⟩

theorem goLive_unwired : Calls (fun c => c.rewires = false) goLive := by
  unfold goLive rtEnableIrq rtfCreate printk
  simp only [Program.bind_perform]
  refine calls_call rfl fun _ => calls_call rfl fun created => ?_
  split <;> exact ⟨rfl,fun _ => trivial⟩

theorem attachHandler_unwired : Calls (fun c => c.rewires = false) attachHandler := by
  unfold attachHandler rtRequestIrq printk
  simp only [Program.bind_perform]
  refine calls_call rfl fun requested => ?_
  split
  · exact ⟨rfl,fun _ => trivial⟩
  · exact goLive_unwired

theorem initModule_wires (wired : w.Wired registers) :
    Meets (wiring.spec (Wiring.Wired registers)) (fun _ last => last.Wired registers) initModule w := by
  unfold initModule ioremap load printk
  simp only [Program.bind_perform]
  refine aspect_pass wired fun a => aspect_pass wired fun b => ?_
  split
  · exact aspect_pass wired fun _ => wired
  refine meets_bind (setupPortB_wires wired fun port buttons => wiring_spared ?_ buttons fun _ _ buttons => buttons.wired)
  refine calls_call rfl fun c => calls_call rfl fun d => calls_call rfl fun e => ?_
  split
  · exact ⟨rfl,fun _ => trivial⟩
  refine calls_call rfl fun installed => ?_
  split
  · exact ⟨rfl,fun _ => trivial⟩
  · exact attachHandler_unwired

theorem cleanupModule_wires (wired : w.Wired registers) :
    Meets (wiring.spec (Wiring.Wired registers)) (fun _ last => last.Wired registers) cleanupModule w := by
  unfold cleanupModule rtDisableIrq rtReleaseIrq rtfDestroy printk
  simp only [Program.bind_perform]
  refine aspect_pass wired fun _ => aspect_pass wired fun _ => ?_
  have detached : (w.after (.rtReleaseIrq hwIrq) ()).Wired registers := by
    refine ⟨wired.enabled,wired.edges,wired.debounced,fun attached => ?_⟩
    simp [Wiring.after] at attached
  exact aspect_pass detached fun _ => aspect_pass detached fun _ => detached

end

theorem wiring_holds (registers : Register → Word) : wiring.Holds (Wiring.Wired registers) :=
  ⟨fun _ => initModule_wires,fun _ => cleanupModule_wires⟩

theorem attached_to_buttons (registers : Register → Word) (actions : List Progress) :
    Always Preempted.step (fun n => n.host.board.wiring.Wired registers) (.start registers) actions :=
  fun _ => holds_nested (wiring_holds registers) ⟨.inl rfl,.inl rfl,.inl rfl,nofun⟩

end Scada.Kernel
