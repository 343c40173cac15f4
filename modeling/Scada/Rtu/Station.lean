import Scada.Kernel.Resync
import Scada.Rtu.Console

namespace Scada.Rtu
open Kernel Programs BoundedQueues BitMasks Machines

-- What the pins let the hardware answer, it is free to answer.
theorem wired_mimics :
    Mimics wired free Wired.board fun w stimulus c => wired.reply (wired.arrive w stimulus) stimulus c where
  arrive w stimulus := (sense_board w stimulus.edges).symm
  reply w stimulus c := by
    cases c with
    | load r => cases r <;> rfl
    | rtfPut fifo st =>
      simp only [free,answer,wired]
      split
      · by_cases own : fifo = fifoWrite
        · rw [if_pos own,if_pos own]
        · rw [if_neg own,if_neg own]
          exact if_neg own
      · rfl
    | _ => rfl
  after _ _ _ := rfl

theorem puts_through (o : Outcome Call Call.Reply Wired Unit) : Kernel.puts (o.through Wired.board).trace = Kernel.puts o.trace := by
  simp [Kernel.puts,Outcome.through,Event.through,List.flatMap_map]

theorem stored_through (o : Outcome Call Call.Reply Wired Unit) :
    Kernel.stored (o.through Wired.board).trace = Kernel.stored o.trace := by
  simp [Kernel.stored,Outcome.through,Event.through,List.flatMap_map]

def Reader.handled (r : Reader) (d : Detector) : Reader :=
  ⟨d.port.board,r.puts++Kernel.puts d.calls,r.stored++Kernel.stored d.calls,r.blocks⟩

theorem handled_step (r : Reader) {w : Wired} (inputs : Nat → Stimulus) (same : w.board = r.board) :
    ∃ answers, r.step (.interrupt answers) =
      some (r.handled ⟨(exec wired (buttonHandler hwIrq) inputs w).state,(exec wired (buttonHandler hwIrq) inputs w).trace⟩) := by
  obtain ⟨answers,run⟩ := exec_mimics wired_mimics (buttonHandler hwIrq) inputs w
  refine ⟨answers,?_⟩
  rw [Reader.step,invoke,← same,run,puts_through,stored_through]
  rfl

structure Station where
  process : Process
  pins : Word
  latch : Word

inductive Stir where
  | change (t : Transition)
  | process (a : Doing)

def changes (actions : List Stir) : List Transition :=
  actions.filterMap fun | .change t => some t | .process _ => none

namespace Station

def port (s : Station) : Wired := ⟨s.process.kernel.board,s.pins,s.latch⟩

-- As `Process.start` has it; init_module asks for a FIFO of one record.
def start (argv : List Text) (before : Wired) (setup : Nat → Oracle) (k : Nat) : Station :=
  let ready := (Detector.start before (calm setup)).port
  ⟨⟨argv,⟨{ready.board with fifo:=some (.empty (k*Status.sizeof .ilp32))},[],[],[]⟩,.args,none,false,none,none,[],[],none⟩,
    ready.pins,ready.latch⟩

def meet (s : Station) (t : Transition) : Station :=
  let met := Detector.meet ⟨s.port,[]⟩ t
  ⟨{s.process with kernel:=s.process.kernel.handled met},met.port.pins,met.port.latch⟩

def step (s : Station) : Stir → Option Station
  | .change t => some (s.meet t)
  | .process (.interrupt _) => none
  | .process a => (s.process.step a).map fun process => {s with process}

inductive Moved (s : Station) : Stir → Station → Prop where
  | change : Moved s (.change t) (s.meet t)
  | process {later : Process} : (∀ inputs, a ≠ .interrupt inputs) → s.process.step a = some later →
      Moved s (.process a) {s with process:=later}

theorem step_moved {s next : Station} {action : Stir} (taken : s.step action = some next) : s.Moved action next := by
  cases action with
  | change t => cases taken; exact .change
  | process a =>
    cases a with
    | interrupt => cases taken
    | _ =>
      obtain ⟨later,moved,rfl⟩ := Option.map_eq_some_iff.mp taken
      exact .process (fun _ => Doing.noConfusion) moved

theorem meet_process {held : Button → Bool} {s : Station} (synced : Synced held s.port) (t : Transition) :
    (held t.pin = true ∧ (s.meet t).process = s.process) ∨
    held t.pin = false ∧ ∃ answers, s.process.kernel.step (.interrupt answers) = some (s.meet t).process.kernel ∧
      s.process.step (.interrupt answers) = some (s.meet t).process := by
  cases pressed : held t.pin with
  | true =>
    have unheard := meet_down (d:=⟨s.port,[]⟩) synced pressed
    have same : s.process.kernel.handled ⟨s.port.change t.pin,[]⟩ = s.process.kernel := by
      simp [Reader.handled,Kernel.puts,Kernel.stored,port,Wired.change,Wired.sense]
    refine .inl ⟨rfl,?_⟩
    simp only [meet,unheard,same]
  | false =>
    have heard := meet_armed (d:=⟨s.port,[]⟩) synced pressed
    obtain ⟨answers,taken⟩ := handled_step s.process.kernel (w:=s.port.change t.pin) (calm t.inputs) rfl
    refine .inr ⟨rfl,answers,?_⟩
    simp only [Process.step,taken,Option.map_some,meet,heard,List.nil_append,Wired.serve,true_and]

theorem meet_puts {held : Button → Bool} {s : Station} (synced : Synced held s.port) (t : Transition) :
    (s.meet t).process.kernel.puts.map observed = s.process.kernel.puts.map observed++
      if held t.pin then [] else [changeReport t.pin (Function.update s.port.level t.pin (!s.port.level t.pin))] := by
  have reported := (meet_met (d:=⟨s.port,[]⟩) synced t).reported
  exact (List.map_append ..).trans (congrArg _ reported)

theorem start_process (argv : List Text) (before : Wired) (setup : Nat → Oracle) (k : Nat) :
    ∃ answers, (start argv before setup k).process = .start argv before.board answers (k*Status.sizeof .ilp32) := by
  obtain ⟨answers,run⟩ := exec_mimics wired_mimics setupPortB (calm setup) before
  refine ⟨answers,?_⟩
  simp only [Process.start,Reader.start,armed,run]
  rfl

theorem process_quiet {p later : Process} {a : Doing} (own : ∀ inputs, a ≠ .interrupt inputs) (moved : p.step a = some later) :
    later.kernel.board.registers = p.kernel.board.registers ∧ later.kernel.puts = p.kernel.puts ∧
      later.kernel.stored = p.kernel.stored := by
  cases p.step_moved moved with
  | interrupt => exact absurd rfl (own _)
  | read _ _ got => cases Reader.step_moved got with | read => exact ⟨rfl,rfl,rfl⟩
  | main _ advanced => rw [Process.advance_kernel advanced]; exact ⟨rfl,rfl,rfl⟩
  | opened | failed | printf | sender => exact ⟨rfl,rfl,rfl⟩

structure Kept (k : Nat) (held : Button → Bool) (s : Station) : Prop where
  supplied : s.process.Supplied k
  synced : Synced held s.port

theorem start_kept (argv : List Text) (before : Wired) (setup : Nat → Oracle) (k : Nat) :
    Kept k (fun i => !before.level i) (start argv before setup k) := by
  obtain ⟨answers,same⟩ := start_process argv before setup k
  refine ⟨?_,(start_synced before setup).frame rfl rfl rfl⟩
  rw [same]
  exact Process.start_supplied argv before.board answers k

theorem step_kept {k : Nat} {held : Button → Bool} {s next : Station} {action : Stir} (kept : Kept k held s)
    (taken : s.step action = some next) : ∃ now, Kept k now next ∧ ∀ later,
      next.process.kernel.puts.map observed++changeReports now next.port.level later =
        s.process.kernel.puts.map observed++changeReports held s.port.level (changes [action]++later) := by
  obtain ⟨supplied,synced⟩ := kept
  cases step_moved taken with
  | @change t =>
    obtain ⟨level,_,next⟩ := meet_met (d:=⟨s.port,[]⟩) synced t
    refine ⟨Function.update held t.pin false,⟨?_,next⟩,fun later => ?_⟩
    · rcases meet_process synced t with ⟨_,same⟩ | ⟨_,answers,_,moved⟩
      · exact same ▸ supplied
      · exact Process.step_supplied supplied moved
    · have moved : (s.meet t).port.level = Function.update s.port.level t.pin (!s.port.level t.pin) := level
      rw [meet_puts synced,moved,List.append_assoc]
      rfl
  | @process a later own moved =>
    obtain ⟨registers,puts,_⟩ := process_quiet own moved
    refine ⟨held,⟨Process.step_supplied supplied moved,synced.frame registers rfl rfl⟩,fun rest => ?_⟩
    rw [show (⟨later,s.pins,s.latch⟩ : Station).process.kernel.puts = s.process.kernel.puts from puts]
    rfl

end Station

def seen (told : Word × Timeval .ilp32 × (Button → Word) × Word) : Word × (Button → Word) := (told.1,told.2.2.1)

end Scada.Rtu
