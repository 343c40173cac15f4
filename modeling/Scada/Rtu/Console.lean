import Scada.Rtu.Lifetime

namespace Scada.Rtu
open Kernel Programs BoundedQueues Machines

namespace Reader

structure Stocked (k : Nat) (r : Reader) (held : List (Status .ilp32)) : Prop where
  kept : r.stored.Sublist r.puts
  row : ∃ q, r.board.fifo = some q ∧ q.capacity = k*Status.sizeof .ilp32 ∧ q.content = (held.map Status.toBytes).flatten
  split : r.stored = r.events++held

theorem start_stocked (before : Board) (setup : Nat → Oracle) (k : Nat) :
    Stocked k (start before setup (k*Status.sizeof .ilp32)) [] :=
  ⟨List.Sublist.refl _,⟨_,rfl,rfl,rfl⟩,rfl⟩

theorem held_length {q : Queue UInt8} {held : List (Status .ilp32)} (row : q.content = (held.map Status.toBytes).flatten) :
    q.content.length = Status.sizeof .ilp32*held.length := by
  have whole : ∀ block ∈ held.map Status.toBytes, block.length = Status.sizeof .ilp32 := by
    intro block member
    obtain ⟨record,_,rfl⟩ := List.mem_map.mp member
    exact Status.toBytes_length record
  rw [row,flatten_length whole,List.length_map]

theorem Stocked.held_le {k : Nat} {r : Reader} {held : List (Status .ilp32)} (stocked : r.Stocked k held) : held.length ≤ k := by
  obtain ⟨q,_,capacity,row⟩ := stocked.row
  have fits := q.fits
  rw [capacity,held_length row,Nat.mul_comm] at fits
  exact Nat.le_of_mul_le_mul_right fits (by decide)

theorem read_stocked {k : Nat} {r : Reader} {first : Status .ilp32} {held : List (Status .ilp32)}
    (stocked : r.Stocked k (first::held)) :
    ∃ next, r.step .read = some next ∧ next.stored = r.stored ∧ next.Stocked k held := by
  obtain ⟨kept,⟨q,there,capacity,row⟩,split⟩ := stocked
  obtain ⟨rest,took,left,same⟩ := Queue.take_front (show q.content = first.toBytes++(held.map Status.toBytes).flatten from row)
  rw [Status.toBytes_length] at took
  refine ⟨{r with board:={r.board with fifo:=some rest},blocks:=r.blocks++[first.toBytes]},?_,rfl,
    kept,⟨rest,rfl,same.trans capacity,left⟩,?_⟩
  · simp [step,there,took]
  · rw [split]
    simp [events,Status.ofBytes_toBytes]

theorem step_stocked {k : Nat} {r next : Reader} {action : Action} {held : List (Status .ilp32)} (stocked : r.Stocked k held)
    (taken : r.step action = some next) : ∃ held, next.Stocked k held := by
  obtain ⟨kept,⟨q,there,capacity,row⟩,split⟩ := stocked
  cases step_moved taken with
  | silent unselected => exact ⟨held,kept,⟨q,there,capacity,row⟩,split⟩
  | @put inputs new i st now eoi selected whole =>
    have after : ((r.board.recorded i (r.board.record i st now)).acknowledged eoi).fifo =
        some (q.put (r.board.record i st now).toBytes) := by simp [Board.acknowledged,Board.recorded,there]
    have stored := whole q there
    by_cases room : Status.sizeof .ilp32 ≤ q.free
    · rw [if_pos room] at stored
      subst stored
      refine ⟨held++[r.board.record i st now],kept.append (List.Sublist.refl _),⟨_,after,capacity,?_⟩,?_⟩
      · rw [Queue.put_room (by rw [Status.toBytes_length]; exact room),row]
        simp
      · rw [split,List.append_assoc]
        rfl
    · rw [if_neg room] at stored
      subst stored
      -- Less than a record's room in a row of whole records is none.
      have full : q.free = 0 := by
        rw [Queue.free,capacity,held_length row] at room ⊢
        rw [Nat.mul_comm,← Nat.mul_sub] at room ⊢
        simp only [Status.sizeof] at room ⊢
        omega
      refine ⟨held,?_,⟨_,after,capacity,?_⟩,?_⟩
      · rw [List.append_nil]
        exact kept.trans (List.sublist_append_left _ _)
      · rw [Queue.put_short (by omega),full,row]
        simp
      · rw [List.append_nil,split]
        rfl
  | @read q' block rest there' took =>
    cases Option.some.inj (there.symm.trans there')
    cases held with
    | nil =>
      obtain ⟨front,length,_⟩ := Queue.take_parts took
      have empty : (block++rest.content).length = 0 := by rw [← front,row]; rfl
      rw [List.length_append,length] at empty
      simp [Status.sizeof] at empty
    | cons first later =>
      obtain ⟨after,got,_,stocked⟩ := read_stocked ⟨kept,⟨q,there,capacity,row⟩,split⟩
      cases Option.some.inj (taken.symm.trans got)
      exact ⟨later,stocked⟩

end Reader

theorem completed_split {console : Text} {left : List Text} {events : List (Status .ilp32)} {lines : List Text}
    {done rest : List (List Text)} (printed : Printed console left events lines done rest) :
    ∃ latest, latest.length ≤ 1 ∧ events = completed left events++latest := by
  rcases eq_or_ne rest [] with ended | more
  · have none : left = [] := by rw [printed.remain,ended]; rfl
    exact ⟨[],Nat.zero_le _,by rw [completed,if_pos none,List.append_nil]⟩
  · obtain ⟨e,whole,_⟩ := printed.partial_ more
    exact ⟨[e],Nat.le_refl _,whole⟩

namespace Process

theorem advance_kernel {p next : Process} {ok : Bool} (taken : p.advance ok = some next) : next.kernel = p.kernel := by
  cases place : p.main <;> simp only [advance,place] at taken
  case args | socket | bind | setsockopt => split at taken <;> cases taken <;> rfl
  case createReader | createSender | ready => cases taken; rfl
  case join => obtain ⟨_,rfl⟩ := guarded taken; rfl

theorem step_kernel {p next : Process} {action : Doing} (taken : p.step action = some next) :
    next.kernel = p.kernel ∨ ∃ a, p.kernel.step a = some next.kernel := by
  cases p.step_moved taken with
  | interrupt moved => exact .inr ⟨_,moved⟩
  | read _ _ moved => exact .inr ⟨_,moved⟩
  | main _ advanced => exact .inl (advance_kernel advanced)
  | opened | failed | printf | sender => exact .inl rfl

def Supplied (k : Nat) (p : Process) : Prop := p.Kept ∧ ∃ held, p.kernel.Stocked k held

theorem start_supplied (argv : List Text) (before : Board) (setup : Nat → Oracle) (k : Nat) :
    (start argv before setup (k*Status.sizeof .ilp32)).Supplied k :=
  ⟨start_kept argv before setup _,_,Reader.start_stocked before setup k⟩

theorem step_supplied {k : Nat} {p next : Process} {action : Doing} (supplied : p.Supplied k)
    (taken : p.step action = some next) : next.Supplied k := by
  obtain ⟨kept,held,stocked⟩ := supplied
  refine ⟨step_kept kept taken,?_⟩
  rcases step_kernel taken with same | ⟨a,moved⟩
  · exact ⟨held,same ▸ stocked⟩
  · exact Reader.step_stocked stocked moved

theorem visits_supplied {argv : List Text} {before : Board} {setup : Nat → Oracle} {k : Nat} {actions : List Doing} {p : Process}
    (visited : Visits step (start argv before setup (k*Status.sizeof .ilp32)) actions p) : p.Supplied k :=
  visited.invariant (start_supplied argv before setup k) step_supplied

structure KeepsUp (k : Nat) (p : Process) : Prop where
  stored : p.kernel.stored.Sublist p.kernel.puts
  shown : ∃ waiting : List (Status .ilp32), waiting.length ≤ k+1 ∧
    p.kernel.stored.map Delivery.facts = tells p.console++waiting.map Delivery.facts

theorem supplied_keepsUp {k : Nat} {p : Process} (supplied : p.Supplied k) : p.KeepsUp k := by
  obtain ⟨kept,held,stocked⟩ := supplied
  obtain ⟨lines,done,rest,printed⟩ := kept.printed
  obtain ⟨latest,one,whole⟩ := completed_split printed
  refine ⟨stocked.kept,latest++held,?_,?_⟩
  · have few := stocked.held_le
    rw [List.length_append]
    omega
  · rw [printed_tells printed,← List.map_append,← List.append_assoc,← whole,stocked.split]

theorem unprinted_length {p : Process} (kept : p.Kept) : p.unprinted.length ≤ 7 := by
  obtain ⟨lines,done,rest,printed⟩ := kept.printed
  rw [printed.remain,List.length_map]
  rcases eq_or_ne rest [] with ended | more
  · simp [ended]
  · obtain ⟨e,_,report⟩ := printed.partial_ more
    have count : (reportLines e).length = 7 := rfl
    rw [report,List.length_append] at count
    omega

def Reading (p : Process) (left : List Text) : Prop := p.exited = none ∧ p.reader = some (.reading true left)

def Shown (p : Process) : Prop := tells p.console = p.kernel.stored.map Delivery.facts

theorem drains {k : Nat} (rounds : Nat) {p : Process} {left : List Text} {held : List (Status .ilp32)} (kept : p.Kept)
    (stocked : p.kernel.Stocked k held) (reading : p.Reading left) (size : left.length+8*held.length = rounds) :
    ∃ actions later, (∀ a ∈ actions, a = .printf ∨ a = .read true) ∧ actions.length = rounds ∧ Runs step p actions later ∧
      later.kernel.stored = p.kernel.stored ∧ later.Shown := by
  induction rounds generalizing p left held with
  | zero =>
    obtain ⟨lines,done,rest,printed⟩ := kept.printed
    have none : left = [] := List.eq_nil_of_length_eq_zero (by omega)
    have empty : held = [] := List.eq_nil_of_length_eq_zero (by omega)
    have idle : p.unprinted = [] := by rw [unprinted,reading.2,none]
    refine ⟨[],p,fun _ member => absurd member List.not_mem_nil,rfl,.nil,rfl,?_⟩
    rw [Shown,printed_tells printed,completed,if_pos idle,stocked.split,empty,List.append_nil]
  | succ rounds previous =>
    obtain ⟨running,there⟩ := reading
    cases left with
    | cons text left =>
      have taken : p.step .printf = some {p with console:=p.console++text,reader:=some (.reading true left)} := by
        simp [step,running,there]
      have fewer : left.length+8*held.length = rounds := by
        rw [List.length_cons] at size
        omega
      obtain ⟨actions,later,own,count,path,same,shown⟩ := previous (step_kept kept taken) stocked ⟨running,rfl⟩ fewer
      exact ⟨.printf::actions,later,List.forall_mem_cons.mpr ⟨.inl rfl,own⟩,congrArg Nat.succ count,.cons taken path,same,shown⟩
    | nil =>
      cases held with
      | nil => cases size
      | cons first held =>
        obtain ⟨kernel,got,all,after⟩ := Reader.read_stocked stocked
        obtain ⟨e,grown⟩ := read_events got
        have taken : p.step (.read true) = some {p with kernel,reader:=some (.reading true (reports e))} := by
          simp [step,running,there,got,grown]
        have texts : (reports e).length+8*held.length = rounds := by
          have count : (reports e).length = 7 := rfl
          rw [List.length_cons,List.length_nil] at size
          omega
        obtain ⟨actions,later,own,count,path,same,shown⟩ := previous (step_kept kept taken) after ⟨running,rfl⟩ texts
        exact ⟨.read true::actions,later,List.forall_mem_cons.mpr ⟨.inr rfl,own⟩,congrArg Nat.succ count,.cons taken path,
          same.trans all,shown⟩

end Process

variable (argv : List Text) (before : Board) (setup : Nat → Oracle) (k : Nat) (actions : List Doing)

-- Around a FIFO for k records; init_module asks for one.
theorem console_keeps_up : Always Process.step (Process.KeepsUp k) (.start argv before setup (k*Status.sizeof .ilp32)) actions :=
  fun _ visited => Process.supplied_keepsUp (Process.visits_supplied visited)

theorem console_catches_up : Always Process.step (fun p => ∀ left, p.Reading left →
    ∃ actions later, (∀ a ∈ actions, a = .printf ∨ a = .read true) ∧ actions.length ≤ 8*k+7 ∧ Runs Process.step p actions later ∧
      later.kernel.stored = p.kernel.stored ∧ later.Shown) (.start argv before setup (k*Status.sizeof .ilp32)) actions := by
  intro p visited left reading
  obtain ⟨kept,held,stocked⟩ := Process.visits_supplied visited
  obtain ⟨actions,later,own,count,path,same,shown⟩ := Process.drains _ kept stocked reading rfl
  refine ⟨actions,later,own,?_,path,same,shown⟩
  have few := stocked.held_le
  have short := Process.unprinted_length kept
  rw [Process.unprinted,reading.2] at short
  simp only at short
  omega

end Scada.Rtu
