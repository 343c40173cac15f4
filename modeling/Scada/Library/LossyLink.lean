import Mathlib.Data.List.Basic

namespace Scada.LossyLinks

-- One direction of an unreliable network: what is on the wire may overtake or
-- get lost, and what has been delivered waits at the receiver's socket.
structure Link (δ : Type) where
  wire : List δ
  socket : List δ

variable {δ : Type}

namespace Link

def idle : Link δ := ⟨[],[]⟩

def inFlight (l : Link δ) : List δ := l.wire++l.socket

def send (l : Link δ) (d : δ) : Link δ := ⟨l.wire++[d],l.socket⟩

def deliver (l : Link δ) (i : Nat) : Option (Link δ) :=
  l.wire[i]?.map fun d => ⟨l.wire.eraseIdx i,l.socket++[d]⟩

def drop (l : Link δ) (i : Nat) : Option (Link δ) :=
  l.wire[i]?.map fun _ => ⟨l.wire.eraseIdx i,l.socket⟩

def receive (l : Link δ) : Option (δ × Link δ) := match l.socket with
  | [] => none
  | d::rest => some (d,⟨l.wire,rest⟩)

theorem send_length (l : Link δ) (d : δ) : (l.send d).inFlight.length = l.inFlight.length+1 := by
  simp only [send,inFlight,List.length_append,List.length_singleton]
  omega

theorem mem_send {l : Link δ} {d e : δ} (member : e ∈ (l.send d).inFlight) : e = d ∨ e ∈ l.inFlight := by
  simp only [send,inFlight,List.mem_append,List.mem_singleton] at member ⊢
  rcases member with (old | new) | waiting
  · exact .inr (.inl old)
  · exact .inl new
  · exact .inr (.inr waiting)

theorem deliver_length {l next : Link δ} {i : Nat} (delivered : l.deliver i = some next) :
    next.inFlight.length = l.inFlight.length := by
  obtain ⟨d,there,rfl⟩ := Option.map_eq_some_iff.mp delivered
  have bound := (List.getElem?_eq_some_iff.mp there).1
  simp only [inFlight,List.length_append,List.length_eraseIdx_of_lt bound,List.length_singleton]
  omega

theorem mem_deliver {l next : Link δ} {i : Nat} {e : δ} (delivered : l.deliver i = some next)
    (member : e ∈ next.inFlight) : e ∈ l.inFlight := by
  obtain ⟨d,there,rfl⟩ := Option.map_eq_some_iff.mp delivered
  simp only [inFlight,List.mem_append,List.mem_singleton] at member ⊢
  rcases member with wire | waiting | rfl
  · exact .inl (List.mem_of_mem_eraseIdx wire)
  · exact .inr waiting
  · exact .inl (List.mem_of_getElem? there)

theorem drop_length {l next : Link δ} {i : Nat} (lost : l.drop i = some next) :
    next.inFlight.length+1 = l.inFlight.length := by
  obtain ⟨d,there,rfl⟩ := Option.map_eq_some_iff.mp lost
  have bound := (List.getElem?_eq_some_iff.mp there).1
  simp only [inFlight,List.length_append,List.length_eraseIdx_of_lt bound]
  omega

theorem mem_drop {l next : Link δ} {i : Nat} {e : δ} (lost : l.drop i = some next)
    (member : e ∈ next.inFlight) : e ∈ l.inFlight := by
  obtain ⟨d,there,rfl⟩ := Option.map_eq_some_iff.mp lost
  simp only [inFlight,List.mem_append] at member ⊢
  exact member.imp List.mem_of_mem_eraseIdx id

theorem receive_length {l next : Link δ} {d : δ} (received : l.receive = some (d,next)) :
    next.inFlight.length+1 = l.inFlight.length := by
  unfold receive at received
  split at received
  · cases received
  · rename_i first rest waiting
    cases received
    simp only [inFlight,waiting,List.length_append,List.length_cons]
    omega

theorem mem_receive {l next : Link δ} {d e : δ} (received : l.receive = some (d,next))
    (member : e = d ∨ e ∈ next.inFlight) : e ∈ l.inFlight := by
  unfold receive at received
  split at received
  · cases received
  · rename_i first rest waiting
    cases received
    simp only [inFlight,waiting,List.mem_append,List.mem_cons] at member ⊢
    rcases member with rfl | wire | later
    · exact .inr (.inl rfl)
    · exact .inl wire
    · exact .inr (.inr later)

theorem deliver_wire {l next : Link δ} {i : Nat} (delivered : l.deliver i = some next) :
    next.wire.length+1 = l.wire.length := by
  obtain ⟨d,there,rfl⟩ := Option.map_eq_some_iff.mp delivered
  have bound := (List.getElem?_eq_some_iff.mp there).1
  simp only [List.length_eraseIdx_of_lt bound]
  omega

theorem drop_wire {l next : Link δ} {i : Nat} (lost : l.drop i = some next) :
    next.wire.length+1 = l.wire.length := by
  obtain ⟨d,there,rfl⟩ := Option.map_eq_some_iff.mp lost
  have bound := (List.getElem?_eq_some_iff.mp there).1
  simp only [List.length_eraseIdx_of_lt bound]
  omega

theorem receive_wire {l next : Link δ} {d : δ} (received : l.receive = some (d,next)) : next.wire = l.wire := by
  unfold receive at received
  split at received
  · cases received
  · cases received; rfl

theorem send_wire (l : Link δ) (d : δ) : (l.send d).wire.length = l.wire.length+1 := by simp [send]

theorem ready {l : Link δ} (carries : l.inFlight ≠ []) :
    (∃ next, l.deliver 0 = some next) ∨ ∃ got, l.receive = some got := by
  cases wire : l.wire with
  | cons d rest => exact .inl ⟨_,by rw [deliver,wire]; rfl⟩
  | nil =>
    cases socket : l.socket with
    | cons d rest => exact .inr ⟨(d,⟨l.wire,rest⟩),by simp [receive,socket]⟩
    | nil => exact absurd (by simp [inFlight,wire,socket]) carries

theorem wire_split {l : Link δ} {k : Nat} {d : δ} (there : l.wire[k]? = some d) :
    l.wire = l.wire.take k++d::l.wire.drop (k+1) ∧ l.wire.eraseIdx k = l.wire.take k++l.wire.drop (k+1) := by
  obtain ⟨bound,same⟩ := List.getElem?_eq_some_iff.mp there
  refine ⟨?_,List.eraseIdx_eq_take_drop_succ ..⟩
  rw [← same,List.getElem_cons_drop,List.take_append_drop]

section
variable {ι : Type} [DecidableEq ι]

-- What one sender's datagrams see of a link that several senders share.
def pick (i : ι) (d : ι × δ) : Option δ := if d.1 = i then some d.2 else none

def of (l : Link (ι × δ)) (i : ι) : Link δ := ⟨l.wire.filterMap (pick i),l.socket.filterMap (pick i)⟩

def rank (l : Link (ι × δ)) (i : ι) (k : Nat) : Nat := ((l.wire.take k).filterMap (pick i)).length

theorem pick_own (i : ι) (d : δ) : pick i (i,d) = some d := if_pos rfl
theorem pick_other {i j : ι} (other : j ≠ i) (d : δ) : pick i (j,d) = none := if_neg other

theorem mem_of_pick {i : ι} {l : List (ι × δ)} {d : δ} (picked : d ∈ l.filterMap (pick i)) : (i,d) ∈ l := by
  obtain ⟨⟨j,e⟩,among,own⟩ := List.mem_filterMap.mp picked
  by_cases mine : j = i
  · subst mine
    rw [pick_own] at own
    cases own
    exact among
  · rw [pick_other mine] at own
    cases own

theorem pick_length (i : ι) (l : List (ι × δ)) : (l.filterMap (pick i)).length = l.countP (·.1 = i) := by
  induction l with
  | nil => rfl
  | cons first rest previous =>
    obtain ⟨j,d⟩ := first
    by_cases own : j = i
    · subst own
      rw [List.filterMap_cons_some (pick_own j d),List.length_cons,previous,List.countP_cons_of_pos (by simp)]
    · rw [List.filterMap_cons_none (pick_other own d),previous,List.countP_cons_of_neg (by simpa using own)]

theorem of_send_own (l : Link (ι × δ)) (i : ι) (d : δ) : (l.send (i,d)).of i = (l.of i).send d := by
  simp [of,send,pick_own]

theorem of_send_other (l : Link (ι × δ)) {i j : ι} (other : j ≠ i) (d : δ) : (l.send (j,d)).of i = l.of i := by
  simp [of,send,pick_other other]

theorem of_wire_own {l : Link (ι × δ)} {k : Nat} {i : ι} {d : δ} (there : l.wire[k]? = some (i,d)) :
    (l.of i).wire[l.rank i k]? = some d ∧ (l.of i).wire.eraseIdx (l.rank i k) = (l.wire.eraseIdx k).filterMap (pick i) := by
  obtain ⟨whole,rest⟩ := wire_split there
  have parts : (l.of i).wire =
      (l.wire.take k).filterMap (pick i)++d::(l.wire.drop (k+1)).filterMap (pick i) := by
    calc (l.of i).wire = (l.wire.take k++(i,d)::l.wire.drop (k+1)).filterMap (pick i) := congrArg _ whole
      _ = _ := by rw [List.filterMap_append,List.filterMap_cons_some (pick_own i d)]
  rw [rest,List.filterMap_append,parts,rank]
  simp [List.eraseIdx_append_of_length_le]

theorem of_wire_other {l : Link (ι × δ)} {k : Nat} {i j : ι} {d : δ} (other : j ≠ i) (there : l.wire[k]? = some (j,d)) :
    (l.wire.eraseIdx k).filterMap (pick i) = (l.of i).wire := by
  obtain ⟨whole,rest⟩ := wire_split there
  calc (l.wire.eraseIdx k).filterMap (pick i)
      = (l.wire.take k++(j,d)::l.wire.drop (k+1)).filterMap (pick i) := by
        rw [rest,List.filterMap_append,List.filterMap_append,List.filterMap_cons_none (pick_other other d)]
    _ = (l.of i).wire := congrArg _ whole.symm

theorem of_deliver_own {l : Link (ι × δ)} {k : Nat} {i : ι} {d : δ} (there : l.wire[k]? = some (i,d)) :
    (l.of i).deliver (l.rank i k) = some (of ⟨l.wire.eraseIdx k,l.socket++[(i,d)]⟩ i) := by
  obtain ⟨own,rest⟩ := of_wire_own there
  rw [deliver,own,Option.map_some,rest]
  simp [of,pick_own]

theorem of_deliver_other {l : Link (ι × δ)} {k : Nat} {i j : ι} {d : δ} (other : j ≠ i) (there : l.wire[k]? = some (j,d)) :
    of ⟨l.wire.eraseIdx k,l.socket++[(j,d)]⟩ i = l.of i := by
  rw [of,of_wire_other other there]
  simp [of,pick_other other]

theorem of_drop_own {l : Link (ι × δ)} {k : Nat} {i : ι} {d : δ} (there : l.wire[k]? = some (i,d)) :
    (l.of i).drop (l.rank i k) = some (of ⟨l.wire.eraseIdx k,l.socket⟩ i) := by
  obtain ⟨own,rest⟩ := of_wire_own there
  rw [drop,own,Option.map_some,rest]
  rfl

theorem of_drop_other {l : Link (ι × δ)} {k : Nat} {i j : ι} {d : δ} (other : j ≠ i) (there : l.wire[k]? = some (j,d)) :
    of ⟨l.wire.eraseIdx k,l.socket⟩ i = l.of i := by
  rw [of,of_wire_other other there]
  rfl

theorem of_receive_own {l : Link (ι × δ)} {i : ι} {d : δ} {rest : List (ι × δ)} (waiting : l.socket = (i,d)::rest) :
    (l.of i).receive = some (d,of ⟨l.wire,rest⟩ i) := by
  simp [receive,of,waiting,pick_own]

theorem of_receive_other {l : Link (ι × δ)} {i j : ι} {d : δ} {rest : List (ι × δ)} (other : j ≠ i)
    (waiting : l.socket = (j,d)::rest) : of ⟨l.wire,rest⟩ i = l.of i := by
  simp [of,waiting,pick_other other]

end

end Link
end Scada.LossyLinks
