import Mathlib.Data.List.Chain
import Scada.Rtu.Reader

namespace Scada.Rtu
open Kernel Programs BoundedQueues BitMasks Alternations Machines

namespace Reader

structure Faithful (r : Reader) : Prop where
  alternates : ∀ i, (buttonEvents i r.events).IsChain (· ≠ ·)
  parity : ∀ i, r.board.polarity i = true ↔ Odd (buttonEvents i r.stored).length

def Roomy (r : Reader) : Action → Prop
  | .interrupt inputs => selects inputs = true → ∀ q, r.board.fifo = some q → Status.sizeof .ilp32 ≤ q.free
  | .read => True

structure Lossless (before : Board) (r : Reader) : Prop where
  tracking : Tracking before ⟨r.board,r.puts⟩
  all : r.stored = r.puts
  row : ∃ q read held, r.board.fifo = some q ∧ r.blocks = read.map Status.toBytes ∧
    q.content = (held.map Status.toBytes).flatten ∧ r.puts = read++held

theorem start_lossless (before : Board) (setup : Nat → Oracle) (capacity : Nat) :
    Lossless before (start before setup capacity) :=
  ⟨tracking_fifo (armed_tracking before setup) _,rfl,_,[],[],rfl,rfl,rfl,rfl⟩

theorem events_toBytes {r : Reader} {read : List (Status .ilp32)} (blocks : r.blocks = read.map Status.toBytes) :
    r.events = read := by
  rw [events,blocks,List.map_map]
  exact (List.map_congr_left fun st _ => Status.ofBytes_toBytes st).trans (List.map_id read)

theorem lossless_faithful {before : Board} {r : Reader} (lossless : Lossless before r) : r.Faithful := by
  obtain ⟨tracking,all,q,read,held,_,blocks,_,split⟩ := lossless
  refine ⟨fun i => ?_,fun i => ?_⟩
  · have distinct : (RtuEvent.falling i).code ≠ (RtuEvent.rising i).code := by
      have table : ∀ i : Button, (RtuEvent.falling i).code ≠ (RtuEvent.rising i).code := by decide
      exact table i
    have chain := alternation_chain distinct (buttonEvents i r.puts).length
    rw [← tracking.alternates i,split,buttonEvents_append] at chain
    rw [events_toBytes blocks]
    exact chain.left_of_append
  · rw [tracking.parity i,decide_eq_true_iff,Nat.odd_iff,all]

theorem step_lossless {before : Board} {r next : Reader} {action : Action} (lossless : Lossless before r)
    (taken : r.step action = some next) (roomy : r.Roomy action) : Lossless before next := by
  obtain ⟨tracking,all,q,read,held,there,blocks,content,split⟩ := lossless
  cases step_moved taken with
  | silent unselected => exact ⟨tracking_silent tracking _,all,q,read,held,there,blocks,content,split⟩
  | @put inputs kept i st now eoi selected whole =>
    have room := roomy selected q there
    have stored := whole q there
    rw [if_pos room] at stored
    subst stored
    refine ⟨tracking_put tracking i st now eoi,by rw [all],q.put (r.board.record i st now).toBytes,read,
      held++[r.board.record i st now],?_,blocks,?_,?_⟩
    · simp [Board.acknowledged,Board.recorded,there]
    · rw [Queue.put_room (by rw [Status.toBytes_length]; exact room),content]; simp
    · rw [split,List.append_assoc]
  | @read q' block rest there' took =>
    cases Option.some.inj (there.symm.trans there')
    obtain ⟨front,length,_⟩ := Queue.take_parts took
    cases held with
    | nil =>
      have empty : (block++rest.content).length = 0 := by rw [← front,content]; rfl
      rw [List.length_append,length] at empty
      simp [Status.sizeof] at empty
    | cons first later =>
      have same : first.toBytes++(later.map Status.toBytes).flatten = block++rest.content := by
        rw [← front,content]; rfl
      obtain ⟨rfl,tail⟩ := List.append_inj same ((Status.toBytes_length first).trans length.symm)
      refine ⟨tracking_fifo tracking _,all,rest,read++[first],later,rfl,?_,tail.symm,?_⟩
      · simp [blocks]
      · rw [split]; simp

theorem step_roomy {r next : Reader} {action : Action} (taken : r.step action = some next) (here : r.Faithful)
    (there : next.Faithful) : r.Roomy action := by
  cases step_moved taken with
  | silent unselected => exact fun selected => absurd (unselected.symm.trans selected) Bool.false_ne_true
  | @put inputs kept i st now eoi selected whole =>
    intro _ q exists_
    by_contra full
    have refused := whole q exists_
    rw [if_neg full] at refused
    subst refused
    have before := here.parity i
    have after := there.parity i
    rw [acknowledged_polarity,recorded_polarity,if_pos rfl,List.append_nil,← before] at after
    cases polarity : r.board.polarity i <;> simp [polarity] at after
  | read => trivial

end Reader

-- Whatever the capacity, the reader's events alternate, no refused put having
-- turned a polarity, exactly when every put finds room for its record.
theorem faithful_iff_roomy (before : Board) (setup : Nat → Oracle) (capacity : Nat) (actions : List Action) :
    Always Reader.step Reader.Faithful (Reader.start before setup capacity) actions ↔
      ∀ r action next, Takes Reader.step (Reader.start before setup capacity) actions r action next → r.Roomy action :=
  always_iff_takes (Reader.start_lossless before setup capacity) Reader.lossless_faithful
    Reader.step_lossless (fun _ taken here there => Reader.step_roomy taken here there)

-- FIFO 0 as init_module requests it. The second press is refused, so the third
-- is stored with the side of the first.
theorem refused_press_repeats : ¬ ∀ before setup actions r,
    Runs Reader.step (.start before setup (Status.sizeof .ilp32)) actions r →
      ∀ i, (buttonEvents i r.events).IsChain (· ≠ ·) := by
  intro all
  let press : Action := .interrupt fun _ => .pressed
  obtain ⟨r,path,seen⟩ := run_observed Reader.step (.start .off (fun _ => .uneventful) (Status.sizeof .ilp32))
    [press,press,.read,press,.read] (fun r => buttonEvents 0 r.events) [0,0]
    (by decide +kernel)
  have chain := all _ _ _ r path 0
  rw [seen] at chain
  exact absurd chain (by simp)

end Scada.Rtu
