import Scada.Polling

namespace Scada.Polling
open Exchange Machines LossyLinks

variable {ι : Type} [DecidableEq ι] {abi : Abi}

-- Counting the answer under way and one for each request in the front of the queue.
def State.turns (s : State ι abi) (g : ι) (ahead : List (ι × Datagram)) : Nat :=
  (s.clients g).repliesSent+(s.phase g).token+ahead.countP (·.1 = g)

def Waits (h g : ι) (turns : Nat) (s : State ι abi) : Prop :=
  ∃ ahead d behind, s.requests.socket = ahead++(h,d)::behind ∧ s.turns g ahead = turns

section
variable {h g : ι} {turns : Nat} {s next : State ι abi} {action : Action ι}

theorem waits_frame (more : List (ι × Datagram)) (waits : Waits h g turns s) (socket : next.requests.socket = s.requests.socket++more)
    (replies : (next.clients g).repliesSent = (s.clients g).repliesSent) (phase : next.phase g = s.phase g) :
    Waits h g turns next := by
  obtain ⟨ahead,d,behind,split,count⟩ := waits
  refine ⟨ahead,d,behind++more,by rw [socket,split,List.append_assoc,List.cons_append],?_⟩
  rw [State.turns,replies,phase]
  exact count

theorem phase_idle (idle : s.rtu.token = 0) : (s.phase g).token = 0 := by
  rw [State.phase]
  split
  · exact idle
  · rfl

theorem step_received (taken : s.step action = some next) :
    (s.clients h).requestsReceived ≤ (next.clients h).requestsReceived := by
  cases s.step_moved taken with
  | @receiveRequest k d rest here waiting =>
    by_cases own : h = k
    · subst own
      simp [State.receiveRequest]
    · exact le_of_eq (congrArg Client.requestsReceived (State.set_other s own _)).symm
  | waitPeriod | deliverRequest => exact le_rfl
  | _ => exact le_of_eq (Eq.symm (set_field Client.requestsReceived rfl))

-- Whatever happens while the request waits, the turns before it only pass from
-- the queue to the RTU and from there to the replies sent.
theorem step_waits (waits : Waits h g turns s) (taken : s.step action = some next)
    (still : (next.clients h).requestsReceived = (s.clients h).requestsReceived) : Waits h g turns next := by
  cases s.step_moved taken with
  | sendRequest | receiveReply | eventLog | deliverReply | dropReply | dropRequest =>
    exact waits_frame [] waits (List.append_nil _).symm (set_field Client.repliesSent rfl) rfl
  | deliverRequest => exact waits_frame _ waits rfl rfl rfl
  | waitPeriod here =>
    obtain ⟨ahead,d,behind,split,rfl⟩ := waits
    have before := phase_idle (g := g) (by rw [here]; rfl)
    have after : (State.phase {s with rtu:=.recvfrom} g).token = 0 := phase_idle rfl
    exact ⟨ahead,d,behind,split,by rw [State.turns,State.turns,before,after]⟩
  | @sendReply k here sender =>
    obtain ⟨ahead,d,behind,split,rfl⟩ := waits
    refine ⟨ahead,d,behind,split,?_⟩
    have after : ((s.sendReply k).phase g).token = 0 := phase_idle rfl
    by_cases own : k = g
    · subst own
      have before : s.phase k = .sendto := by rw [State.phase,if_pos sender,here]
      have sent : ((s.sendReply k).clients k).repliesSent = (s.clients k).repliesSent+1 := by simp [State.sendReply]
      rw [State.turns,State.turns,after,before,sent,RtuAt.token]
    · have before : s.phase g = .recvfrom := by simp [State.phase,sender,own]
      have sent : ((s.sendReply k).clients g).repliesSent = (s.clients g).repliesSent :=
        congrArg Client.repliesSent (State.set_other s (Ne.symm own) _)
      rw [State.turns,State.turns,after,before,sent,RtuAt.token]
  | @receiveRequest k e rest here waiting =>
    obtain ⟨ahead,d,behind,split,rfl⟩ := waits
    rw [waiting] at split
    cases ahead with
    | nil =>
      cases split
      simp [State.receiveRequest] at still
    | cons first ahead =>
      rw [List.cons_append] at split
      obtain ⟨rfl,rfl⟩ := List.cons.inj split
      refine ⟨ahead,d,behind,rfl,?_⟩
      have before := phase_idle (g := g) (by rw [here]; rfl)
      have sent : ((s.receiveRequest k e (ahead++(h,d)::behind)).clients g).repliesSent = (s.clients g).repliesSent :=
        set_field Client.repliesSent rfl
      rw [State.turns,State.turns,before,sent,List.countP_cons]
      by_cases own : k = g
      · subst own
        have after : (s.receiveRequest k e (ahead++(h,d)::behind)).phase k = .sendto := if_pos rfl
        simp [after,RtuAt.token]
        omega
      · have after : (s.receiveRequest k e (ahead++(h,d)::behind)).phase g = .recvfrom := by simp [State.phase,State.receiveRequest,own]
        simp [after,RtuAt.token,own]

theorem runs_waits {later : List (Action ι)} {t : State ι abi} (waits : Waits h g turns s) (path : Runs State.step s later t) :
    (s.clients h).requestsReceived ≤ (t.clients h).requestsReceived ∧
      ((t.clients h).requestsReceived = (s.clients h).requestsReceived → Waits h g turns t) := by
  induction path with
  | nil => exact ⟨le_rfl,fun _ => waits⟩
  | step prior taken previous =>
    obtain ⟨grown,waiting⟩ := previous
    have more := step_received (h := h) taken
    refine ⟨grown.trans more,fun same => ?_⟩
    have still := le_antisymm (same ▸ more) grown
    exact step_waits (waiting still) taken (same.trans still.symm)

theorem turns_le {ahead behind : List (ι × Datagram)} {d : Datagram} (kept : Kept s)
    (split : s.requests.socket = ahead++(h,d)::behind) : s.turns g ahead ≤ (s.clients g).repliesSent+1 := by
  obtain ⟨x,shown,accounting,_⟩ := kept.shown g
  have token := accounting.token
  have some : ahead.countP (·.1 = g) ≤ (s.requests.of g).inFlight.length := by
    have picked := Link.pick_length g ahead
    rw [Link.inFlight,Link.of,split,List.filterMap_append,List.length_append,List.length_append]
    omega
  rw [State.turns,← shown.rtu]
  rw [← shown.requests] at some
  omega

end

theorem overtaken_once (ι : Type) [DecidableEq ι] (abi : Abi) (actions : List (Action ι)) :
    Always State.step (fun s => ∀ h g later t, (s.requests.of h).socket ≠ [] → Runs State.step s later t →
      (t.clients h).requestsReceived = (s.clients h).requestsReceived →
        (t.clients g).repliesSent ≤ (s.clients g).repliesSent+1) (.start ι abi) actions := by
  intro s visited h g later t waiting path still
  have kept := visited.invariant start_kept step_kept
  obtain ⟨d,member⟩ := List.exists_mem_of_ne_nil _ waiting
  obtain ⟨ahead,behind,split⟩ := List.append_of_mem (Link.mem_of_pick member)
  obtain ⟨_,_,_,_,turns⟩ := (runs_waits ⟨ahead,d,behind,split,rfl⟩ path).2 still
  have bound := turns_le (g := g) kept split
  rw [← turns,State.turns] at bound
  omega

end Scada.Polling
