import Scada.Exchange

namespace Scada.Rtu
open Machines Exchange

-- `answers` is the request that its own iteration has received.
structure Reply where
  recipient : SockaddrIn
  answers : Option Nat
  payload : List UInt8

-- `request` is the number of the request received in the current iteration.
structure Sender where
  place : RtuAt
  fromAddr : SockaddrIn
  n : Int
  buf1 : List UInt8
  buf2 : List UInt8
  received : List Incoming
  request : Option Nat
  sent : List Reply

inductive SenderAction where
  | recvfrom (got : Option Incoming)
  | sendto (sent : Bool)
  | waitPeriod

namespace Sender

def start : Sender :=
  ⟨.recvfrom,.unset,0,List.replicate msgSize 0,List.replicate msgSize 0,[],none,[]⟩

-- A failing recvfrom leaves `from` alone; nothing but `n` shows it.
def fail (s : Sender) : Sender := {s with place:=.sendto,n:=-1,buf2:=List.replicate msgSize 0,request:=none}

def receive (s : Sender) (d : Incoming) : Sender :=
  {s with
    place:=.sendto
    fromAddr:=d.source
    n:=min d.payload.length msgSize
    buf2:=fill (List.replicate msgSize 0) d.payload
    received:=s.received++[d]
    request:=some s.received.length}

def send (s : Sender) : Sender :=
  {s with place:=.waitPeriod,n:=msgSize,sent:=s.sent++[⟨s.fromAddr,s.request,s.buf1⟩]}

def step (s : Sender) : SenderAction → Option Sender
  | .recvfrom none => if s.place = .recvfrom then some s.fail else none
  | .recvfrom (some d) => if s.place = .recvfrom then some (s.receive d) else none
  | .sendto true => if s.place = .sendto then some s.send else none
  | .sendto false => if s.place = .sendto then some {s with place:=.waitPeriod,n:=-1} else none
  | .waitPeriod => if s.place = .waitPeriod then some {s with place:=.recvfrom} else none

inductive Moved (s : Sender) : SenderAction → Sender → Prop where
  | failed : s.place = .recvfrom → Moved s (.recvfrom none) s.fail
  | received : s.place = .recvfrom → Moved s (.recvfrom (some d)) (s.receive d)
  | sent : s.place = .sendto → Moved s (.sendto true) s.send
  | unsent : s.place = .sendto → Moved s (.sendto false) {s with place:=.waitPeriod,n:=-1}
  | waited : s.place = .waitPeriod → Moved s .waitPeriod {s with place:=.recvfrom}

theorem step_moved {s next : Sender} {action : SenderAction} (taken : s.step action = some next) : s.Moved action next := by
  cases action with
  | recvfrom got =>
    cases got with
    | none =>
      obtain ⟨here,rfl⟩ := guarded taken
      exact .failed here
    | some d =>
      obtain ⟨here,rfl⟩ := guarded taken
      exact .received here
  | sendto sent =>
    cases sent with
    | true =>
      obtain ⟨here,rfl⟩ := guarded taken
      exact .sent here
    | false =>
      obtain ⟨here,rfl⟩ := guarded taken
      exact .unsent here
  | waitPeriod =>
    obtain ⟨here,rfl⟩ := guarded taken
    exact .waited here

def repliesTo (s : Sender) (client : SockaddrIn) : Nat := s.sent.countP (·.recipient = client)

def requestsFrom (s : Sender) (client : SockaddrIn) : Nat := s.received.countP (·.source = client)

def Requested (s : Sender) (client : SockaddrIn) (number : Option Nat) : Prop :=
  ∃ i d, number = some i ∧ s.received[i]? = some d ∧ d.source = client

structure Lawful (s : Sender) : Prop where
  answers : ∀ reply ∈ s.sent, s.Requested reply.recipient reply.answers
  counts : ∀ client, s.repliesTo client ≤ s.requestsFrom client

structure Serving (s : Sender) : Prop where
  request : s.place = .sendto → 0 ≤ s.n → s.Requested s.fromAddr s.request
  spare : s.place = .sendto → 0 ≤ s.n → s.repliesTo s.fromAddr < s.requestsFrom s.fromAddr

def Checked (s : Sender) : SenderAction → Prop
  | .sendto true => 0 ≤ s.n
  | _ => True

def Unserved (s : Sender) : Prop := s.place = .sendto → s.n < 0 → s.request = none

theorem requested_later {s : Sender} {client : SockaddrIn} {number : Option Nat} (requested : s.Requested client number)
    (d : Incoming) : (s.receive d).Requested client number := by
  obtain ⟨i,e,same,there,source⟩ := requested
  refine ⟨i,e,same,?_,source⟩
  rw [receive,List.getElem?_append_left (List.getElem?_eq_some_iff.mp there).1,there]

theorem requested_latest (s : Sender) (d : Incoming) : (s.receive d).Requested d.source (s.receive d).request :=
  ⟨_,d,rfl,by simp [receive],rfl⟩

theorem requests_receive (s : Sender) (d : Incoming) (client : SockaddrIn) :
    (s.receive d).requestsFrom client = s.requestsFrom client+(if d.source = client then 1 else 0) := by
  simp [requestsFrom,receive,List.countP_append,List.countP_singleton]

theorem replies_send (s : Sender) (client : SockaddrIn) :
    s.send.repliesTo client = s.repliesTo client+(if s.fromAddr = client then 1 else 0) := by
  simp [repliesTo,send,List.countP_append,List.countP_singleton]

theorem start_unserved : start.Unserved := by
  intro here
  cases here

theorem step_unserved {s next : Sender} {action : SenderAction} (taken : s.step action = some next) : next.Unserved := by
  cases step_moved taken with
  | failed => exact fun _ _ => rfl
  | received =>
    intro _ negative
    simp only [receive] at negative
    omega
  | sent | unsent | waited => exact nofun

theorem step_serving {s next : Sender} {action : SenderAction} (lawful : s.Lawful) (taken : s.step action = some next) :
    next.Serving := by
  cases step_moved taken with
  | failed =>
    constructor <;>
    · intro _ positive
      simp only [fail] at positive
      omega
  | @received d here =>
    refine ⟨fun _ _ => requested_latest s d,fun _ _ => ?_⟩
    have one := requests_receive s d d.source
    have before := lawful.counts d.source
    rw [if_pos rfl] at one
    rw [show (s.receive d).fromAddr = d.source from rfl,one]
    exact Nat.lt_succ_of_le before
  | sent | unsent | waited => exact ⟨nofun,nofun⟩

theorem step_lawful {s next : Sender} {action : SenderAction} (serving : s.Serving) (lawful : s.Lawful)
    (taken : s.step action = some next) (checked : s.Checked action) : next.Lawful := by
  obtain ⟨answers,counts⟩ := lawful
  cases step_moved taken with
  | failed | unsent | waited => exact ⟨answers,counts⟩
  | @received d here =>
    refine ⟨fun reply member => requested_later (answers reply member) d,fun client => ?_⟩
    rw [requests_receive]
    exact (counts client).trans (Nat.le_add_right _ _)
  | sent here =>
    refine ⟨fun reply member => ?_,fun client => ?_⟩
    · rcases List.mem_append.mp member with old | new
      · exact answers reply old
      · rw [List.mem_singleton.mp new]
        exact serving.request here checked
    · rw [replies_send]
      split
      · rename_i same
        exact same ▸ serving.spare here checked
      · exact counts client

theorem step_checked {s next : Sender} {action : SenderAction} (unserved : s.Unserved) (taken : s.step action = some next)
    (lawful : next.Lawful) : s.Checked action := by
  cases step_moved taken with
  | failed | received | unsent | waited => trivial
  | sent here =>
    by_contra negative
    have none := unserved here (not_le.mp negative)
    obtain ⟨i,_,same,_⟩ := lawful.answers ⟨s.fromAddr,s.request,s.buf1⟩ (by simp [send])
    cases none.symm.trans same

end Sender

theorem lawful_iff_checked (actions : List SenderAction) : Always Sender.step Sender.Lawful .start actions ↔
    ∀ s action next, Takes Sender.step .start actions s action next → s.Checked action := by
  refine always_iff_takes (J := fun s => s.Serving ∧ s.Lawful) ⟨⟨nofun,nofun⟩,nofun,fun _ => le_rfl⟩ (fun both => both.2) ?_ ?_
  · intro s action next both taken checked
    exact ⟨Sender.step_serving both.2 taken,Sender.step_lawful both.1 both.2 taken checked⟩
  · intro s action next visited taken _ lawful
    have unserved := visited.invariant Sender.start_unserved fun _ => Sender.step_unserved
    exact Sender.step_checked unserved taken lawful

theorem failed_receive_answered : ¬ ∀ actions s, Runs Sender.step .start actions s →
    ∀ client, s.repliesTo client ≤ s.requestsFrom client := by
  intro answered
  let client : SockaddrIn := ⟨2,4000,0x0A000001⟩
  obtain ⟨s,path,seen⟩ := run_observed Sender.step .start
    [.recvfrom (some ⟨client,handshake⟩),.sendto true,.waitPeriod,.recvfrom none,.sendto true]
    (fun s => (s.repliesTo client,s.requestsFrom client)) (2,1) (by decide +kernel)
  have counts := answered _ s path client
  rw [(Prod.mk.inj seen).1,(Prod.mk.inj seen).2] at counts
  omega

end Scada.Rtu
