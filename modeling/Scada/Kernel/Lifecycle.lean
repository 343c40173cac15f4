import Scada.Kernel.Module
import Scada.Library.Runs

namespace Scada.Kernel
open Programs BoundedQueues Machines

-- insmod and rmmod run on one thread, call by call; an insmod whose
-- init_module returns anything but 0 leaves nothing loaded.
inductive Thread where
  | out
  | loading (rest : Code Int)
  | loaded
  | unloading (rest : Code Unit)

-- `calls` are the loader's since the latest insmod, `earlier` those before it, `handled` the handler's.
structure Host where
  board : Board
  thread : Thread
  earlier : List (Event Call Call.Reply Board)
  calls : List (Event Call Call.Reply Board)
  handled : List (Event Call Call.Reply Board)

inductive Action where
  | insmod
  | rmmod
  | call (o : Oracle)
  | ret
  | interrupt (inputs : Nat → Oracle)

namespace Host

def start (registers : Register → Word) : Host := ⟨⟨registers,false,false,none,[]⟩,.out,[],[],[]⟩

def inserted (h : Host) : Host :=
  {h with board:={h.board with held:=[]},thread:=.loading initModule,earlier:=h.earlier++h.calls,calls:=[]}

def called (h : Host) (c : Call) (reply : c.Reply) (thread : Thread) : Host :=
  {h with board:=h.board.after c reply,thread,calls:=h.calls++[⟨h.board,c,reply⟩]}

def interrupted (h : Host) (inputs : Nat → Oracle) : Host :=
  {h with
    board:=(exec free (buttonHandler hwIrq) inputs h.board).state
    handled:=h.handled++(exec free (buttonHandler hwIrq) inputs h.board).trace}

def step (h : Host) : Action → Option Host
  | .insmod => match h.thread with
    | .out => some h.inserted
    | _ => none
  | .rmmod => match h.thread with
    | .loaded => some {h with thread:=.unloading cleanupModule}
    | _ => none
  | .call o => match h.thread with
    | .loading (.call c rest) => let reply := answer h.board o c; some (h.called c reply (.loading (rest reply)))
    | .unloading (.call c rest) => let reply := answer h.board o c; some (h.called c reply (.unloading (rest reply)))
    | _ => none
  | .ret => match h.thread with
    | .loading (.done value) => some {h with thread:=if value = 0 then .loaded else .out}
    | .unloading (.done _) => some {h with thread:=.out}
    | _ => none
  | .interrupt inputs => if h.board.deliverable then some (h.interrupted inputs) else none

inductive Moved (h : Host) : Action → Host → Prop where
  | insmod : h.thread = .out → Moved h .insmod h.inserted
  | rmmod : h.thread = .loaded → Moved h .rmmod {h with thread:=.unloading cleanupModule}
  | loading {c : Call} {rest : c.Reply → Code Int} : h.thread = .loading (.call c rest) →
      Moved h (.call o) (h.called c (answer h.board o c) (.loading (rest (answer h.board o c))))
  | unloading {c : Call} {rest : c.Reply → Code Unit} : h.thread = .unloading (.call c rest) →
      Moved h (.call o) (h.called c (answer h.board o c) (.unloading (rest (answer h.board o c))))
  | initReturns : h.thread = .loading (.done value) →
      Moved h .ret {h with thread:=if value = 0 then .loaded else .out}
  | cleanupReturns : h.thread = .unloading (.done value) → Moved h .ret {h with thread:=.out}
  | interrupt : h.board.deliverable → Moved h (.interrupt inputs) (h.interrupted inputs)

theorem step_moved {h next : Host} {action : Action} (taken : h.step action = some next) : h.Moved action next := by
  cases action with
  | insmod =>
    cases thread : h.thread <;> simp only [step,thread] at taken <;> cases taken
    exact .insmod thread
  | rmmod =>
    cases thread : h.thread <;> simp only [step,thread] at taken <;> cases taken
    exact .rmmod thread
  | call o =>
    cases thread : h.thread with
    | out | loaded => simp only [step,thread] at taken; cases taken
    | loading rest =>
      cases rest with
      | done value => simp only [step,thread] at taken; cases taken
      | call c rest => simp only [step,thread] at taken; cases taken; exact .loading thread
    | unloading rest =>
      cases rest with
      | done value => simp only [step,thread] at taken; cases taken
      | call c rest => simp only [step,thread] at taken; cases taken; exact .unloading thread
  | ret =>
    cases thread : h.thread with
    | out | loaded => simp only [step,thread] at taken; cases taken
    | loading rest =>
      cases rest with
      | done value => simp only [step,thread] at taken; cases taken; exact .initReturns thread
      | call c rest => simp only [step,thread] at taken; cases taken
    | unloading rest =>
      cases rest with
      | done value => simp only [step,thread] at taken; cases taken; exact .cleanupReturns thread
      | call c rest => simp only [step,thread] at taken; cases taken
  | interrupt inputs =>
    simp only [step] at taken
    split at taken
    · rename_i deliverable; cases taken; exact .interrupt deliverable
    · cases taken

end Host

def opens (window : Bool) : (c : Call) → c.Reply → Bool
  | .rtEnableIrq irq,_ => if irq = hwIrq then true else window
  | .rtDisableIrq irq,_ => if irq = hwIrq then false else window
  | .rtfCreate fifo _,reply => if fifo = fifoWrite ∧ (0 : Int) ≤ reply then false else window
  | _,_ => window

def window (calls : List (Event Call Call.Reply Board)) : Bool :=
  calls.foldl (fun open_ e => opens open_ e.call e.reply) false

def obtained (e : Event Call Call.Reply Board) : List Word :=
  match e.call,e.reply with
  | .ioremap _ _ _,reply => if reply = (0 : Word) then [] else [reply]
  | _,_ => []

def refuses : (c : Call) → c.Reply → Bool
  | .ioremap _ _ _,reply => decide (reply = (0 : Word))
  | .load r,reply => decide (r = .adcOptInstalled ∧ reply &&& 0x01 = (0 : Word))
  | .rtRequestIrq _,reply | .rtfCreate _ _,reply => decide ((reply : Int) < 0)
  | _,_ => false

def refused (calls : List (Event Call Call.Reply Board)) : Bool :=
  calls.foldl (fun earlier e => refuses e.call e.reply || earlier) false

@[ext] structure Resources where
  attached : Bool
  enabled : Bool
  fifo : Bool
  window : Bool
  refused : Bool
  held : List Word

def Board.resources (b : Board) (window refused : Bool) : Resources :=
  ⟨b.attached,b.enabled,b.fifo.isSome,window,refused,b.held⟩

def Host.resources (h : Host) : Resources := h.board.resources (window (h.earlier++h.calls)) (refused h.calls)

namespace Resources

def acquire (r : Resources) : (c : Call) → c.Reply → Resources
  | .rtfCreate fifo _,reply => {r with fifo:=r.fifo || decide (fifo = fifoWrite ∧ (0 : Int) ≤ reply)}
  | .rtfDestroy fifo,_ => {r with fifo:=r.fifo && decide (fifo ≠ fifoWrite)}
  | .rtRequestIrq irq,reply => {r with attached:=r.attached || decide (irq = hwIrq ∧ (0 : Int) ≤ reply)}
  | .rtReleaseIrq irq,_ => {r with attached:=r.attached && decide (irq ≠ hwIrq)}
  | .rtEnableIrq irq,_ => {r with enabled:=r.enabled || decide (irq = hwIrq)}
  | .rtDisableIrq irq,_ => {r with enabled:=r.enabled && decide (irq ≠ hwIrq)}
  | .ioremap _ _ _,reply => {r with held:=if reply = (0 : Word) then r.held else reply::r.held}
  | .iounmap pointer,_ => {r with held:=r.held.erase pointer}
  | .stack,_ | .load _,_ | .store _ _,_ | .doGettimeofday,_ | .rtfPut _ _,_ | .printk _,_ => r

def after (r : Resources) (c : Call) (reply : c.Reply) : Resources :=
  {r.acquire c reply with window:=opens r.window c reply,refused:=refuses c reply || r.refused}

-- An enabled line has its FIFO unless the loader is between the two calls.
def Safe (r : Resources) : Prop := r.enabled = true → r.fifo = !r.window

end Resources

theorem after_resources (b : Board) (open_ no : Bool) (c : Call) (reply : c.Reply) :
    (b.after c reply).resources (opens open_ c reply) (refuses c reply || no) = (b.resources open_ no).after c reply := by
  cases c <;> simp only [Board.after,Resources.after,Resources.acquire,Board.resources]
  case rtfPut fifo st => split <;> simp
  case rtfCreate fifo size => split <;> rename_i created <;> simp [created]
  case rtfDestroy fifo => split <;> rename_i same <;> simp [same]
  case rtRequestIrq irq => split <;> rename_i granted <;> simp [granted]
  case rtReleaseIrq irq => split <;> rename_i same <;> simp [same]
  case rtEnableIrq irq => split <;> rename_i same <;> simp [same]
  case rtDisableIrq irq => split <;> rename_i same <;> simp [same]
  case ioremap address size flags => split <;> simp

theorem handler_resources (b : Board) (inputs : Nat → Oracle) (open_ no : Bool) (deliverable : b.deliverable) :
    (exec free (buttonHandler hwIrq) inputs b).state.resources open_ no = b.resources open_ no := by
  have enabled := deliverable.2
  obtain ⟨eoi,⟨_,board⟩ | ⟨i,st,now,_,board⟩⟩ := handler_free b inputs
  · rw [board]
    simp [Board.resources,Board.acknowledged,enabled]
  · rw [board]
    simp [Board.resources,Board.acknowledged,Board.recorded,enabled]

def loaderSpec : Spec Call Call.Reply Resources where
  moves := Eq
  permits r c := r.Safe ∧ ∀ pointer, c ≠ .iounmap pointer
  replies _ _ _ := True
  effect := Resources.after

section
variable {α : Type} {post : α → Resources → Prop} {r : Resources}

theorem loader_call {c : Call} {rest : c.Reply → Code α} : Meets loaderSpec post (.call c rest) r ↔
    (r.Safe ∧ ∀ pointer, c ≠ .iounmap pointer) ∧ ∀ reply, Meets loaderSpec post (rest reply) (r.after c reply) := by
  simp [meets_call,loaderSpec]

theorem loader_pass {c : Call} {rest : c.Reply → Code α} (safe : r.Safe) (kept : ∀ pointer, c ≠ .iounmap pointer)
    (each : ∀ reply, Meets loaderSpec post (rest reply) (r.after c reply)) : Meets loaderSpec post (.call c rest) r :=
  loader_call.mpr ⟨⟨safe,kept⟩,each⟩

end

structure Loaded (before : Resources) (value : Int) (last : Resources) : Prop where
  safe : last.Safe
  fails : value ≠ 0 ↔ last.refused = true
  holds : value = 0 → last.held ≠ []
  absent : value ≠ 0 → last.fifo = false
  untouched : value ≠ 0 → last.held = [] → last.attached = before.attached ∧ last.enabled = before.enabled

structure Unloaded (last : Resources) : Prop where
  safe : last.Safe
  absent : last.fifo = false

theorem cleanupModule_meets {r : Resources} (safe : r.Safe) :
    Meets loaderSpec (fun _ => Unloaded) cleanupModule r := by
  unfold cleanupModule rtDisableIrq rtReleaseIrq rtfDestroy printk
  simp only [Program.bind_perform]
  refine loader_pass safe (by simp) fun _ => loader_pass ?_ (by simp) fun _ => loader_pass ?_ (by simp) fun _ =>
    loader_pass ?_ (by simp) fun _ => ⟨?_,?_⟩
  all_goals simp [Resources.after,Resources.acquire,Resources.Safe]

theorem setupPortB_meets_loader {r : Resources} {post : Unit → Resources → Prop} (safe : r.Safe) (same : post () r) :
    Meets loaderSpec post setupPortB r := by
  refine meets_frame (fun c => (∃ p, p ≠ .adcOptInstalled ∧ c = .load p) ∨ ∃ p v, c = .store p v) (I := (· = r))
    (fun equal moved => moved ▸ equal) ?_ ?_ ?_ rfl (fun _ _ equal => equal ▸ same)
  · rintro _ c rfl (⟨p,_,rfl⟩ | ⟨p,v,rfl⟩)
    · exact ⟨safe,by simp⟩
    · exact ⟨safe,by simp⟩
  · rintro _ c _ rfl (⟨p,other,rfl⟩ | ⟨p,v,rfl⟩) _
    · simp [loaderSpec,Resources.after,Resources.acquire,opens,refuses,other]
    · rfl
  · simp [setupPortB,load,store,Calls,Program.perform]

theorem failed_meets {before r : Resources} (message : String) (safe : r.Safe) (refused : r.refused = true)
    (absent : r.fifo = false) (untouched : r.held = [] → r.attached = before.attached ∧ r.enabled = before.enabled) :
    Meets loaderSpec (Loaded before) (do printk message; return -1) r :=
  loader_pass safe (by simp) fun _ => ⟨safe,⟨fun _ => refused,fun _ => by decide⟩,fun zero => absurd zero (by decide),
    fun _ => absent,fun _ => untouched⟩

theorem loaded_meets {before r : Resources} (message : String) (safe : r.Safe) (granted : r.refused = false)
    (holds : r.held ≠ []) : Meets loaderSpec (Loaded before) (do printk message; return 0) r := by
  have fails : (0 : Int) ≠ 0 ↔ r.refused = true := by simp [granted]
  exact loader_pass safe (by simp) fun _ =>
    ⟨safe,fails,fun _ => holds,fun other => absurd rfl other,fun other => absurd rfl other⟩

structure Holding (r : Resources) : Prop where
  safe : r.Safe
  absent : r.fifo = false
  holds : r.held ≠ []

def Call.Acquires : Call → Prop
  | .ioremap _ _ _ | .load _ | .rtRequestIrq _ => True
  | _ => False

theorem held_grows {r : Resources} {c : Call} {reply : c.Reply} (kept : ∀ pointer, c ≠ .iounmap pointer)
    (holds : r.held ≠ []) : (r.after c reply).held ≠ [] := by
  cases c with
  | iounmap pointer => exact absurd rfl (kept pointer)
  | ioremap address size flags =>
    simp only [Resources.after,Resources.acquire]
    split
    · exact holds
    · exact List.cons_ne_nil _ _
  | _ => exact holds

theorem holding_call {α : Type} {post : α → Resources → Prop} {r : Resources} {c : Call} {rest : c.Reply → Code α}
    (holding : Holding r) (acquires : c.Acquires)
    (each : ∀ reply next, Holding next → next.refused = (refuses c reply || r.refused) →
      Meets loaderSpec post (rest reply) next) :
    Meets loaderSpec post (.call c rest) r := by
  have kept : ∀ pointer, c ≠ .iounmap pointer := fun pointer same => by subst same; exact acquires
  refine loader_call.mpr ⟨⟨holding.safe,kept⟩,fun reply => each reply _ ?_ rfl⟩
  have holds : (r.after c reply).held ≠ [] := held_grows kept holding.holds
  cases c with
  | load | rtRequestIrq | ioremap => exact ⟨holding.safe,holding.absent,holds⟩
  | _ => exact acquires.elim

theorem holding_failed {before r : Resources} (message : String) (holding : Holding r) (refused : r.refused = true) :
    Meets loaderSpec (Loaded before) (do printk message; return -1) r :=
  failed_meets message holding.safe refused holding.absent fun empty => absurd empty holding.holds

theorem goLive_meets {before ready : Resources} (holding : Holding ready) (granted : ready.refused = false) :
    Meets loaderSpec (Loaded before) goLive ready := by
  unfold goLive rtEnableIrq rtfCreate
  simp only [Program.bind_perform]
  obtain ⟨safe,absent,holds⟩ := holding
  refine loader_pass safe (by simp) fun _ => ?_
  have opened : Holding (ready.after (.rtEnableIrq hwIrq) ()) := ⟨fun _ => absent,absent,holds⟩
  refine loader_pass opened.safe (by simp) fun created => ?_
  split
  · rename_i negative
    have none : ¬ (0 : Int) ≤ created := by omega
    have same : (ready.after (.rtEnableIrq hwIrq) ()).after (.rtfCreate fifoWrite (Status.sizeof .ilp32)) created =
        {ready.after (.rtEnableIrq hwIrq) () with refused:=true} := by
      simp [Resources.after,Resources.acquire,opens,refuses,none,negative,fifoWrite]
    rw [same]
    exact holding_failed _ ⟨opened.safe,opened.absent,opened.holds⟩ rfl
  · rename_i positive
    have safe : ((ready.after (.rtEnableIrq hwIrq) ()).after (.rtfCreate fifoWrite (Status.sizeof .ilp32)) created).Safe := by
      have some : (0 : Int) ≤ created := by omega
      simp [Resources.after,Resources.acquire,opens,some,fifoWrite,Resources.Safe]
    have clear : ((ready.after (.rtEnableIrq hwIrq) ()).after (.rtfCreate fifoWrite (Status.sizeof .ilp32)) created).refused
        = false := by
      simp [Resources.after,refuses,positive,granted]
    exact loaded_meets _ safe clear holds

theorem attachHandler_meets {before r : Resources} (holding : Holding r) (granted : r.refused = false) :
    Meets loaderSpec (Loaded before) attachHandler r := by
  unfold attachHandler rtRequestIrq
  simp only [Program.bind_perform]
  refine holding_call holding trivial fun requested ready holding asked => ?_
  split
  · rename_i negative
    apply holding_failed _ holding
    have no : refuses (.rtRequestIrq hwIrq) requested = true := decide_eq_true negative
    rw [asked,no]; rfl
  · rename_i attached
    have given : refuses (.rtRequestIrq hwIrq) requested = false := decide_eq_false attached
    exact goLive_meets holding (by rw [asked,given,granted]; rfl)

theorem initModule_meets {r : Resources} (safe : r.Safe) (absent : r.fifo = false) (fresh : r.refused = false) :
    Meets loaderSpec (Loaded r) initModule r := by
  unfold initModule ioremap load
  simp only [Program.bind_perform]
  refine loader_pass safe (by simp) fun a => loader_pass safe (by simp) fun b => ?_
  have answers : ((r.after (.ioremap 0x80840000 4096 0) a).after (.ioremap 0x800C0000 4096 0) b).refused =
      (decide (b = (0 : Word)) || (decide (a = (0 : Word)) || false)) := by rw [← fresh]; rfl
  split
  · rename_i missing
    refine failed_meets _ safe ?_ absent fun _ => ⟨rfl,rfl⟩
    rw [answers]
    rcases missing with zero | zero <;> simp [zero]
  rename_i mapped
  obtain ⟨someA,someB⟩ := not_or.mp mapped
  have holding : Holding ((r.after (.ioremap 0x80840000 4096 0) a).after (.ioremap 0x800C0000 4096 0) b) :=
    ⟨safe,absent,ne_of_eq_of_ne (if_neg someB) (List.cons_ne_nil _ _)⟩
  have granted : ((r.after (.ioremap 0x80840000 4096 0) a).after (.ioremap 0x800C0000 4096 0) b).refused = false := by
    rw [answers,decide_eq_false someB,decide_eq_false someA]; rfl
  generalize (r.after (.ioremap 0x80840000 4096 0) a).after (.ioremap 0x800C0000 4096 0) b = port at holding granted ⊢
  refine meets_bind (setupPortB_meets_loader holding.safe ?_)
  refine holding_call holding trivial fun c _ holding one => holding_call holding trivial fun d _ holding two =>
    holding_call holding trivial fun e adc holding three => ?_
  have answers : adc.refused = (decide (e = (0 : Word)) || (decide (d = (0 : Word)) || (decide (c = (0 : Word)) || false))) := by
    rw [three,two,one,granted]; rfl
  split
  · rename_i missing
    apply holding_failed _ holding
    rw [answers]
    rcases missing with zero | zero | zero <;> simp [zero]
  rename_i mapped
  obtain ⟨someC,rest⟩ := not_or.mp mapped
  obtain ⟨someD,someE⟩ := not_or.mp rest
  have granted : adc.refused = false := by
    rw [answers,decide_eq_false someE,decide_eq_false someD,decide_eq_false someC]; rfl
  refine holding_call holding trivial fun installed _ holding tested => ?_
  split
  · rename_i clear
    apply holding_failed _ holding
    have no : refuses (.load .adcOptInstalled) installed = true := decide_eq_true ⟨rfl,clear⟩
    rw [tested,no]; rfl
  rename_i set
  have yes : refuses (.load .adcOptInstalled) installed = false := decide_eq_false fun clear => set clear.2
  exact attachHandler_meets holding (by rw [tested,yes,granted]; rfl)

def Stage (Q : Bool → Bool → Prop) (r : Resources) : Thread → Prop
  | .out => r.Safe ∧ r.fifo = false ∧ Q r.attached r.enabled
  | .loading rest => ∃ before : Resources, Q before.attached before.enabled ∧ Meets loaderSpec (Loaded before) rest r
  | .loaded => r.Safe ∧ r.held ≠ []
  | .unloading rest => Meets loaderSpec (fun _ => Unloaded) rest r ∧ r.held ≠ []

structure Lifecycle (Q : Bool → Bool → Prop) (h : Host) : Prop where
  held : h.board.held = (h.calls.flatMap obtained).reverse
  stage : Stage Q h.resources h.thread

variable {Q : Bool → Bool → Prop} {h next : Host} {action : Action}

theorem window_snoc (calls : List (Event Call Call.Reply Board)) (e : Event Call Call.Reply Board) :
    window (calls++[e]) = opens (window calls) e.call e.reply := by simp [window]

theorem refused_snoc (calls : List (Event Call Call.Reply Board)) (e : Event Call Call.Reply Board) :
    refused (calls++[e]) = (refuses e.call e.reply || refused calls) := by simp [refused]

theorem held_after {b : Board} {c : Call} {reply : c.Reply} {calls : List (Event Call Call.Reply Board)}
    (held : b.held = (calls.flatMap obtained).reverse) (kept : ∀ pointer, c ≠ .iounmap pointer) :
    (b.after c reply).held = ((calls++[Event.mk b c reply]).flatMap obtained).reverse := by
  rw [List.flatMap_append,List.reverse_append,← held,List.flatMap_singleton]
  cases c with
  | iounmap pointer => exact absurd rfl (kept pointer)
  | ioremap address size flags => simp only [Board.after,obtained]; split <;> simp
  | rtfPut | rtfCreate | rtfDestroy | rtRequestIrq | rtReleaseIrq | rtEnableIrq | rtDisableIrq =>
    simp only [Board.after]; split <;> simp [obtained]
  | _ => simp [Board.after,obtained]

theorem called_resources (h : Host) (c : Call) (reply : c.Reply) (thread : Thread) :
    (h.called c reply thread).resources = h.resources.after c reply := by
  rw [Host.resources,Host.called,← List.append_assoc,window_snoc,refused_snoc,after_resources]; rfl

theorem inserted_resources (h : Host) : h.inserted.resources = {h.resources with refused:=false,held:=[]} := by
  simp [Host.resources,Host.inserted,Board.resources,refused]

theorem interrupted_resources {h : Host} (deliverable : h.board.deliverable) (inputs : Nat → Oracle) :
    (h.interrupted inputs).resources = h.resources := by
  rw [Host.resources,Host.interrupted]
  exact handler_resources h.board inputs (window (h.earlier++h.calls)) (refused h.calls) deliverable

theorem start_lifecycle (registers : Register → Word) (clean : Q false false) : Lifecycle Q (.start registers) :=
  ⟨rfl,nofun,rfl,clean⟩

theorem step_lifecycle (valid : Lifecycle Q h) (taken : h.step action = some next)
    (returned : action = .ret → next.thread = .out → Q next.resources.attached next.resources.enabled) : Lifecycle Q next := by
  obtain ⟨held,stage⟩ := valid
  cases h.step_moved taken with
  | insmod thread =>
    rw [thread] at stage
    refine ⟨rfl,?_⟩
    rw [inserted_resources]
    exact ⟨{h.resources with refused:=false,held:=[]},stage.2.2,
      initModule_meets (r := {h.resources with refused:=false,held:=[]}) stage.1 stage.2.1 rfl⟩
  | rmmod thread =>
    rw [thread] at stage
    exact ⟨held,cleanupModule_meets stage.1,stage.2⟩
  | loading thread =>
    rw [thread] at stage
    obtain ⟨before,clean,condition⟩ := stage
    obtain ⟨⟨_,kept⟩,later⟩ := loader_call.mp condition
    refine ⟨held_after held kept,?_⟩
    rw [called_resources]
    exact ⟨before,clean,later _⟩
  | unloading thread =>
    rw [thread] at stage
    obtain ⟨condition,holds⟩ := stage
    obtain ⟨⟨_,kept⟩,later⟩ := loader_call.mp condition
    refine ⟨held_after held kept,?_⟩
    rw [called_resources]
    exact ⟨later _,held_grows kept holds⟩
  | @initReturns value thread =>
    rw [thread] at stage
    obtain ⟨before,clean,condition⟩ := stage
    refine ⟨held,?_⟩
    by_cases zero : value = 0
    · simp only [if_pos zero]
      exact ⟨condition.safe,condition.holds zero⟩
    · simp only [if_neg zero]
      exact ⟨condition.safe,condition.absent zero,returned rfl (if_neg zero)⟩
  | cleanupReturns thread =>
    rw [thread] at stage
    exact ⟨held,stage.1.safe,stage.1.absent,returned rfl rfl⟩
  | interrupt deliverable =>
    have same := interrupted_resources deliverable
    refine ⟨(congrArg Resources.held (same _)).trans held,?_⟩
    rw [same]
    exact stage

end Scada.Kernel
