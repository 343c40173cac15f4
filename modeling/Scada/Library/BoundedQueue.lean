import Mathlib.Data.List.Infix
import Mathlib.Tactic.Ring
import Scada.Library.Runs

namespace Scada.BoundedQueues
open Machines

-- A bounded queue of units that accepts what fits and drops the rest of a put.
structure Queue (β : Type) where
  capacity : Nat
  content : List β
  fits : content.length ≤ capacity

variable {β : Type}

namespace Queue

def empty (capacity : Nat) : Queue β := ⟨capacity,[],Nat.zero_le _⟩

def free (q : Queue β) : Nat := q.capacity-q.content.length

def stored (q : Queue β) (block : List β) : Nat := min block.length q.free

def put (q : Queue β) (block : List β) : Queue β :=
  ⟨q.capacity,q.content++block.take (q.stored block),by
    have room := q.fits
    simp only [List.length_append,List.length_take,stored,free]
    omega⟩

def take (q : Queue β) (size : Nat) : Option (List β × Queue β) :=
  if size ≤ q.content.length then
    some (q.content.take size,⟨q.capacity,q.content.drop size,by
      have room := q.fits
      simp only [List.length_drop]
      omega⟩)
  else none

@[simp] theorem put_capacity (q : Queue β) (block : List β) : (q.put block).capacity = q.capacity := rfl
@[simp] theorem empty_capacity (capacity : Nat) : (empty capacity : Queue β).capacity = capacity := rfl

theorem put_room {q : Queue β} {block : List β} (room : block.length ≤ q.free) :
    (q.put block).content = q.content++block := by
  simp [put,stored,Nat.min_eq_left room]

theorem put_short {q : Queue β} {block : List β} (short : q.free ≤ block.length) :
    (q.put block).content = q.content++block.take q.free := by
  simp [put,stored,Nat.min_eq_right short]

theorem take_parts {q next : Queue β} {size : Nat} {block : List β} (taken : q.take size = some (block,next)) :
    q.content = block++next.content ∧ block.length = size ∧ next.capacity = q.capacity := by
  unfold take at taken
  split at taken
  · rename_i enough
    cases taken
    exact ⟨(List.take_append_drop size q.content).symm,by simpa using enough,rfl⟩
  · cases taken

theorem take_front {q : Queue β} {block rest : List β} (front : q.content = block++rest) :
    ∃ next, q.take block.length = some (block,next) ∧ next.content = rest ∧ next.capacity = q.capacity := by
  refine ⟨⟨q.capacity,rest,?_⟩,?_,rfl,rfl⟩
  · have room := q.fits
    rw [front,List.length_append] at room
    omega
  · simp [take,front]

theorem put_take_put {q : Queue β} {front tail torn last : List β} (row : q.content = front++tail)
    (short : q.free ≤ torn.length) (fits : last.length ≤ front.length) :
    ∃ freed, (q.put torn).take front.length = some (front,freed) ∧
      (freed.put last).content = tail++(torn.take q.free++last) := by
  have cut : (q.put torn).content = front++(tail++torn.take q.free) := by
    rw [put_short short,row,List.append_assoc]
  obtain ⟨freed,taken,left,capacity⟩ := take_front cut
  refine ⟨freed,taken,?_⟩
  have room : last.length ≤ freed.free := by
    have full := q.fits
    have rows := congrArg List.length row
    rw [List.length_append] at rows
    unfold free at short ⊢
    rw [left,capacity,put_capacity,List.length_append,List.length_take,free]
    omega
  rw [put_room room,left,List.append_assoc]

end Queue

structure Channel (β : Type) where
  queue : Queue β
  puts : List (List β)
  blocks : List (List β)

inductive Action (β : Type) where
  | put (block : List β)
  | take

def Channel.start (capacity : Nat) : Channel β := ⟨.empty capacity,[],[]⟩

def Channel.step (size : Nat) (c : Channel β) : Action β → Option (Channel β)
  | .put block =>
    if block.length = size then some ⟨c.queue.put block,c.puts++[block],c.blocks⟩ else none
  | .take => match c.queue.take size with
    | none => none
    | some (block,next) => some ⟨next,c.puts,c.blocks++[block]⟩

theorem Channel.step_cases {size : Nat} {c next : Channel β} {action : Action β}
    (taken : c.step size action = some next) :
    (∃ block, action = .put block ∧ block.length = size ∧ next = ⟨c.queue.put block,c.puts++[block],c.blocks⟩) ∨
    (∃ block rest, action = .take ∧ c.queue.take size = some (block,rest) ∧ next = ⟨rest,c.puts,c.blocks++[block]⟩) := by
  cases action with
  | put block =>
    simp only [Channel.step] at taken
    split at taken
    · rename_i whole
      cases taken
      exact .inl ⟨block,rfl,whole,rfl⟩
    · cases taken
  | take =>
    simp only [Channel.step] at taken
    split at taken
    · cases taken
    · rename_i block rest got
      cases taken
      exact .inr ⟨block,rest,rfl,got,rfl⟩

structure Framed (size : Nat) (c : Channel β) (held : List (List β)) : Prop where
  row : c.queue.content = held.flatten
  whole : ∀ block ∈ held, block.length = size
  kept : (c.blocks++held).Sublist c.puts

theorem flatten_length {size : Nat} {held : List (List β)} (whole : ∀ block ∈ held, block.length = size) :
    held.flatten.length = size*held.length := by
  induction held with
  | nil => rfl
  | cons block rest ih =>
    have first := whole block (by simp)
    have later := ih (fun b member => whole b (List.mem_cons_of_mem _ member))
    rw [List.flatten_cons,List.length_append,first,later,List.length_cons]
    ring

theorem start_framed (size capacity : Nat) : Framed size (Channel.start capacity : Channel β) [] :=
  ⟨rfl,by simp,by simp [Channel.start]⟩

theorem take_framed {c : Channel β} {held : List (List β)} {block : List β} {next : Queue β}
    {size : Nat} (framed : Framed size c held) (positive : 0 < size) (got : c.queue.take size = some (block,next)) :
    ∃ rest, held = block::rest ∧ Framed size ⟨next,c.puts,c.blocks++[block]⟩ rest := by
  obtain ⟨split,length,_⟩ := Queue.take_parts got
  obtain ⟨row,whole,kept⟩ := framed
  cases held with
  | nil =>
    have empty : c.queue.content.length = 0 := by simp [row]
    rw [split,List.length_append] at empty
    omega
  | cons first rest =>
    have same : first++rest.flatten = block++next.content := by
      rw [← List.flatten_cons,← row,split]
    obtain ⟨rfl,tail⟩ := List.append_inj same ((whole first (by simp)).trans length.symm)
    exact ⟨rest,rfl,tail.symm,fun b member => whole b (List.mem_cons_of_mem _ member),by simpa using kept⟩

theorem put_room_framed {size : Nat} {c : Channel β} {held : List (List β)} {block : List β}
    (framed : Framed size c held) (length : block.length = size) (room : size ≤ c.queue.free) :
    Framed size ⟨c.queue.put block,c.puts++[block],c.blocks⟩ (held++[block]) := by
  obtain ⟨row,whole,kept⟩ := framed
  refine ⟨?_,?_,?_⟩
  · rw [Queue.put_room (length.trans_le room),row]
    simp
  · intro b member
    rcases List.mem_append.mp member with old | new
    · exact whole b old
    · cases List.mem_singleton.mp new; exact length
  · rw [← List.append_assoc]
    exact kept.append (List.Sublist.refl [block])

-- Where the capacity is a multiple of the block size, a queue of whole blocks
-- has room for a whole block or for nothing.
theorem put_framed {size : Nat} {c : Channel β} {held : List (List β)} {block : List β}
    (framed : Framed size c held) (aligned : size ∣ c.queue.capacity) (length : block.length = size) :
    ∃ rest, Framed size ⟨c.queue.put block,c.puts++[block],c.blocks⟩ rest := by
  by_cases room : size ≤ c.queue.free
  · exact ⟨_,put_room_framed framed length room⟩
  · obtain ⟨row,whole,kept⟩ := framed
    have used : c.queue.content.length = size*held.length := by rw [row,flatten_length whole]
    have multiple : size ∣ c.queue.free := by
      rw [Queue.free,used]
      exact Nat.dvd_sub aligned ⟨held.length,rfl⟩
    have full : c.queue.free = 0 := Nat.eq_zero_of_dvd_of_lt multiple (by omega)
    refine ⟨held,?_,whole,kept.trans (List.sublist_append_left _ _)⟩
    rw [Queue.put_short (by omega),full,row]
    simp

theorem step_capacity {size : Nat} {c next : Channel β} {action : Action β}
    (taken : c.step size action = some next) : next.queue.capacity = c.queue.capacity := by
  rcases Channel.step_cases taken with ⟨block,_,_,rfl⟩ | ⟨block,rest,_,got,rfl⟩
  · rfl
  · exact (Queue.take_parts got).2.2

theorem step_framed {size : Nat} {c next : Channel β} {action : Action β} (positive : 0 < size)
    (aligned : size ∣ c.queue.capacity) (framed : ∃ held, Framed size c held)
    (taken : c.step size action = some next) : ∃ held, Framed size next held := by
  obtain ⟨held,framed⟩ := framed
  rcases Channel.step_cases taken with ⟨block,_,length,rfl⟩ | ⟨block,rest,_,got,rfl⟩
  · exact put_framed framed aligned length
  · obtain ⟨rest,_,later⟩ := take_framed framed positive got
    exact ⟨rest,later⟩

theorem runs_framed {size capacity : Nat} {actions : List (Action β)} {c : Channel β} (positive : 0 < size)
    (aligned : size ∣ capacity) (path : Runs (Channel.step size) (.start capacity) actions c) :
    ∃ held, Framed size c held := by
  have both : c.queue.capacity = capacity ∧ ∃ held, Framed size c held := by
    refine path.invariant (P := fun c => c.queue.capacity = capacity ∧ ∃ held, Framed size c held)
      ⟨rfl,[],start_framed size capacity⟩ ?_
    rintro s action next ⟨same,framed⟩ taken
    exact ⟨(step_capacity taken).trans same,step_framed positive (same ▸ aligned) framed taken⟩
  exact both.2

theorem runs_blocks {size capacity : Nat} {actions : List (Action β)} {c : Channel β} (positive : 0 < size)
    (aligned : size ∣ capacity) (path : Runs (Channel.step size) (.start capacity) actions c) :
    c.blocks.Sublist c.puts := by
  obtain ⟨held,framed⟩ := runs_framed positive aligned path
  exact (List.sublist_append_left _ _).trans framed.kept

theorem puts_run {size : Nat} {c : Channel β} {blocks : List (List β)} (whole : ∀ b ∈ blocks, b.length = size)
    (room : size*blocks.length ≤ c.queue.free) :
    ∃ q : Queue β, Runs (Channel.step size) c (blocks.map .put) ⟨q,c.puts++blocks,c.blocks⟩ ∧
      q.content = c.queue.content++blocks.flatten ∧ q.capacity = c.queue.capacity := by
  induction blocks generalizing c with
  | nil => exact ⟨c.queue,by simpa using Runs.nil,by simp,rfl⟩
  | cons block rest ih =>
    have length := whole block (by simp)
    have space : size+size*rest.length ≤ c.queue.free := by
      have total := room
      rw [List.length_cons,Nat.mul_succ] at total
      omega
    have placed : (c.queue.put block).content = c.queue.content++block := Queue.put_room (by omega)
    have left : size*rest.length ≤ (c.queue.put block).free := by
      have full := c.queue.fits
      have before := space
      simp only [Queue.free] at before ⊢
      rw [Queue.put_capacity,placed,List.length_append,length]
      omega
    obtain ⟨q,path,content,capacity⟩ := ih (c := ⟨c.queue.put block,c.puts++[block],c.blocks⟩)
      (fun b member => whole b (List.mem_cons_of_mem _ member)) left
    refine ⟨q,?_,by rw [content,placed]; simp,capacity⟩
    have first : Channel.step size c (.put block) = some ⟨c.queue.put block,c.puts++[block],c.blocks⟩ := if_pos length
    simpa using Runs.cons first path

theorem takes_run {size : Nat} {c : Channel β} {blocks : List (List β)} {rest : List β}
    (whole : ∀ b ∈ blocks, b.length = size) (front : c.queue.content = blocks.flatten++rest) :
    ∃ q : Queue β, Runs (Channel.step size) c (List.replicate blocks.length .take) ⟨q,c.puts,c.blocks++blocks⟩ ∧
      q.content = rest ∧ q.capacity = c.queue.capacity := by
  induction blocks generalizing c with
  | nil => exact ⟨c.queue,by simpa using Runs.nil,by simpa using front,rfl⟩
  | cons block later ih =>
    have length := whole block (by simp)
    obtain ⟨next,got,content,capacity⟩ := Queue.take_front
      (show c.queue.content = block++(later.flatten++rest) by simpa using front)
    obtain ⟨q,path,tail,same⟩ := ih (c := ⟨next,c.puts,c.blocks++[block]⟩)
      (fun b member => whole b (List.mem_cons_of_mem _ member)) content
    refine ⟨q,?_,tail,same.trans capacity⟩
    have first : Channel.step size c .take = some ⟨next,c.puts,c.blocks++[block]⟩ := by
      rw [length] at got
      simp [Channel.step,got]
    simpa [List.replicate_succ] using Runs.cons first path

-- Fill the queue until less than a block is left, put one block more, free one block's
-- room and put another: the two leftovers are then taken as one block.
theorem torn_run {size : Nat} (capacity : Nat) (first torn last : List β) (rest : List (List β))
    (whole : ∀ b ∈ first::rest, b.length = size) (tornLength : torn.length = size) (lastLength : last.length = size)
    (fits : size*(rest.length+1) ≤ capacity) (short : capacity-size*(rest.length+1) < size) :
    ∃ q : Queue β, Runs (Channel.step size) (.start capacity)
      (((first::rest).map .put++[.put torn,.take,.put last])++List.replicate (rest.length+1) .take)
      ⟨q,(first::rest)++[torn,last],(first::rest)++
        [torn.take (capacity-size*(rest.length+1))++last.take (size-(capacity-size*(rest.length+1)))]⟩ := by
  generalize left : capacity-size*(rest.length+1) = r at short ⊢
  have rows : ((first::rest).flatten).length = size*(rest.length+1) := flatten_length whole
  have restRows : rest.flatten.length = size*rest.length :=
    flatten_length (fun b member => whole b (List.mem_cons_of_mem _ member))
  have firstLength := whole first (by simp)
  have spread : size*(rest.length+1) = size*rest.length+size := Nat.mul_succ _ _
  obtain ⟨full,filling,fullContent,fullCapacity⟩ := puts_run (c := Channel.start capacity) whole
    (by simpa [Channel.start,Queue.free,Queue.empty] using fits)
  have fullRow : full.content = first++rest.flatten := by simpa [Channel.start,Queue.empty] using fullContent
  have fullFree : full.free = r := by
    rw [Queue.free,fullRow,fullCapacity,List.length_append,firstLength,restRows]
    simp only [Channel.start,Queue.empty_capacity]
    omega
  obtain ⟨freed,got,lastRow⟩ := Queue.put_take_put fullRow (show full.free ≤ torn.length by omega)
    (show last.length ≤ first.length by omega)
  rw [firstLength] at got
  have lastRow : (freed.put last).content =
      (rest++[torn.take r++last.take (size-r)]).flatten++last.drop (size-r) := by
    rw [lastRow,fullFree]
    simp [List.append_assoc]
  have wholeRest : ∀ b ∈ rest++[torn.take r++last.take (size-r)], b.length = size := by
    intro b member
    rcases List.mem_append.mp member with old | new
    · exact whole b (List.mem_cons_of_mem _ old)
    · cases List.mem_singleton.mp new
      simp only [List.length_append,List.length_take]
      omega
  have refused : Channel.step size ⟨full,first::rest,[]⟩ (.put torn) =
      some ⟨full.put torn,(first::rest)++[torn],[]⟩ := if_pos tornLength
  have freeing : Channel.step size ⟨full.put torn,(first::rest)++[torn],[]⟩ .take =
      some ⟨freed,(first::rest)++[torn],[first]⟩ := by simp [Channel.step,got]
  have stored : Channel.step size ⟨freed,(first::rest)++[torn],[first]⟩ (.put last) =
      some ⟨freed.put last,(first::rest)++[torn,last],[first]⟩ := by simp [Channel.step,lastLength]
  obtain ⟨q,draining,_⟩ := takes_run (c := ⟨freed.put last,(first::rest)++[torn,last],[first]⟩) wholeRest lastRow
  refine ⟨q,?_⟩
  have path := (filling.append (.cons refused (.cons freeing (.single stored)))).append draining
  simpa [Channel.start] using path

end Scada.BoundedQueues
