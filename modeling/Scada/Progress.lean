import Scada.Exchange

namespace Scada.Exchange
open Machines LossyLinks

def RtuAt.waiting : RtuAt → Nat
  | .waitPeriod => 1
  | .recvfrom | .sendto => 0

-- Every step taken is in the counters, or still to be made up for: a datagram
-- on the wire by its delivery or loss, the RTU's wait by its end.
def Paced (taken : Nat) (s : State abi) : Prop :=
  taken+s.requests.wire.length+s.replies.wire.length+s.rtu.waiting =
    2*s.requestsSent+s.requestsReceived+3*s.repliesSent+s.repliesReceived+s.logged.length

variable {abi : Abi}

theorem step_paced {s next : State abi} {action : Action} {taken : Nat} (paced : Paced taken s)
    (moved : s.step action = some next) : Paced (taken+1) next := by
  unfold Paced at paced ⊢
  cases State.step_moved moved with
  | sendRequest => simp only [State.sendRequest,Link.send_wire]; omega
  | receiveReply _ got => simp only [State.receiveReply,Link.receive_wire got]; omega
  | eventLog => simp only [State.eventLog,List.length_append,List.length_singleton]; omega
  | receiveRequest here got =>
    simp only [here,RtuAt.waiting] at paced
    simp only [State.receiveRequest,Link.receive_wire got,RtuAt.waiting]
    omega
  | sendReply here =>
    simp only [here,RtuAt.waiting] at paced
    simp only [State.sendReply,Link.send_wire,RtuAt.waiting]
    omega
  | waitPeriod here =>
    simp only [here,RtuAt.waiting] at paced
    simp only [RtuAt.waiting]
    omega
  | deliverRequest there | deliverReply there =>
    have shorter := Link.deliver_wire there
    simp only
    omega
  | dropRequest there | dropReply there =>
    have shorter := Link.drop_wire there
    simp only
    omega

def Action.loses : Action → Bool
  | .dropRequest _ | .dropReply _ => true
  | _ => false

def Moves (s : State abi) : Prop := ∃ action next, action.loses = false ∧ s.step action = some next

theorem lossless_moves {s : State abi} (accounting : Accounting s) (lossless : s.dropped = 0) : Moves s := by
  have token := accounting.token
  rw [State.dropped] at lossless
  cases historian : s.historian with
  | sendto => exact ⟨.sendRequest,_,rfl,if_pos historian⟩
  | eventLog => exact ⟨.eventLog,_,rfl,if_pos historian⟩
  | recvfrom =>
    cases rtu : s.rtu with
    | sendto => exact ⟨.sendReply,_,rfl,if_pos rtu⟩
    | waitPeriod => exact ⟨.waitPeriod,_,rfl,if_pos rtu⟩
    | recvfrom =>
      simp only [historian,rtu,HistorianAt.token,RtuAt.token] at token
      by_cases asking : s.requests.inFlight = []
      · have flying : s.replies.inFlight ≠ [] := by
          intro none
          rw [asking,none,List.length_nil] at token
          omega
        rcases Link.ready flying with ⟨next,moved⟩ | ⟨got,received⟩
        · exact ⟨.deliverReply 0,_,rfl,by rw [State.step,moved]; rfl⟩
        · exact ⟨.receiveReply,_,rfl,by rw [State.step,if_pos historian,received]; rfl⟩
      · rcases Link.ready asking with ⟨next,moved⟩ | ⟨got,received⟩
        · exact ⟨.deliverRequest 0,_,rfl,by rw [State.step,moved]; rfl⟩
        · exact ⟨.receiveRequest,_,rfl,by rw [State.step,if_pos rtu,received]; rfl⟩

-- Eight steps a record at most, and without a loss always one more to take.
theorem logs_every_eight_steps (abi : Abi) (actions : List Action) (s : State abi)
    (path : Runs State.step (.start abi) actions s) :
    actions.length ≤ 8*s.logged.length+7 ∧ (s.dropped = 0 → Moves s) := by
  have accounting := path.invariant start_accounting step_accounting
  refine ⟨?_,lossless_moves accounting⟩
  have paced : Paced actions.length s := by
    clear accounting
    induction path with
    | nil => rfl
    | step prior taken ih =>
      rw [List.length_append,List.length_singleton]
      exact step_paced ih taken
  obtain ⟨_,asked,carried,served,returned,read⟩ := accounting
  have one : s.historian.asked ≤ 1 := by cases s.historian <;> decide
  rw [Paced] at paced
  omega

def poll : List Action :=
  [.sendRequest,.deliverRequest 0,.receiveRequest,.sendReply,.deliverReply 0,.receiveReply,.eventLog,.waitPeriod,.sendRequest]

theorem logs_every_eight_steps_poll : ∃ s : State .ilp32, s.logged.length = 1 ∧
    poll.length ≤ 8*s.logged.length+7 ∧ (s.dropped = 0 → Moves s) := by
  obtain ⟨s,path,logged⟩ := run_observed State.step (.start .ilp32) poll (·.logged.length) 1 (by decide +kernel)
  exact ⟨s,logged,logs_every_eight_steps .ilp32 poll s path⟩

end Scada.Exchange
