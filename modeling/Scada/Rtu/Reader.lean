import Scada.Kernel.Invocation
import Scada.Kernel.Polarity

namespace Scada.Rtu
open Kernel Programs BoundedQueues BitMasks Alternations Machines

-- `puts` are the records put, `stored` those stored whole, `blocks` what has been read.
structure Reader where
  board : Board
  puts : List (Status .ilp32)
  stored : List (Status .ilp32)
  blocks : List (List UInt8)

inductive Action where
  | interrupt (inputs : Nat → Oracle)
  | read

namespace Reader

-- init_module asks for a capacity of `Status.sizeof .ilp32`.
def start (before : Board) (setup : Nat → Oracle) (capacity : Nat) : Reader :=
  ⟨{armed before setup with fifo:=some (.empty capacity)},[],[],[]⟩

-- A blocking read returns once a whole structure is there.
def step (r : Reader) : Action → Option Reader
  | .interrupt inputs => some ⟨(invoke r.board inputs).state,r.puts++Kernel.puts (invoke r.board inputs).trace,
      r.stored++Kernel.stored (invoke r.board inputs).trace,r.blocks⟩
  | .read => match r.board.fifo.bind (·.take (Status.sizeof .ilp32)) with
    | some (block,rest) => some {r with board:={r.board with fifo:=some rest},blocks:=r.blocks++[block]}
    | none => none

def events (r : Reader) : List (Status .ilp32) := r.blocks.map (Status.ofBytes .ilp32)

inductive Moved (r : Reader) : Action → Reader → Prop where
  | silent : selects inputs = false → Moved r (.interrupt inputs) ⟨r.board.acknowledged eoi,r.puts,r.stored,r.blocks⟩
  | put : selects inputs = true →
      (∀ q, r.board.fifo = some q →
        kept = if Status.sizeof .ilp32 ≤ q.free then [r.board.record i st now] else []) →
      Moved r (.interrupt inputs)
        ⟨(r.board.recorded i (r.board.record i st now)).acknowledged eoi,r.puts++[r.board.record i st now],
          r.stored++kept,r.blocks⟩
  | read : r.board.fifo = some q → q.take (Status.sizeof .ilp32) = some (block,rest) →
      Moved r .read {r with board:={r.board with fifo:=some rest},blocks:=r.blocks++[block]}

theorem step_moved {r next : Reader} {action : Action} (taken : r.step action = some next) : r.Moved action next := by
  cases action with
  | interrupt inputs =>
    obtain ⟨_,_,quiet,loud⟩ := handler_visits r.board inputs
    obtain ⟨eoi,⟨none,board⟩ | ⟨i,st,now,reported,board⟩⟩ := handler_free r.board inputs
    all_goals
      simp only [step,invoke] at taken
      cases taken
      rw [board]
    · have unselected : selects inputs = false := by
        cases chosen : selects inputs with
        | false => rfl
        | true => obtain ⟨record,one,_⟩ := loud chosen; rw [none] at one; cases one
      rw [none,(quiet unselected).2,List.append_nil,List.append_nil]
      exact .silent unselected
    · have selected : selects inputs = true := by
        cases chosen : selects inputs with
        | true => rfl
        | false => rw [(quiet chosen).1] at reported; cases reported
      obtain ⟨record,one,kept⟩ := loud selected
      rw [reported] at one ⊢
      cases one
      exact .put selected kept
  | read =>
    simp only [step] at taken
    split at taken
    · rename_i block rest got
      obtain ⟨q,there,took⟩ := Option.bind_eq_some_iff.mp got
      cases taken
      exact .read there took
    · cases taken

end Reader

end Scada.Rtu
