import Scada.Library.LossyLink
import Scada.Library.Runs
import Scada.Status

namespace Scada.Exchange
open Machines LossyLinks

inductive HistorianAt where
  | sendto | recvfrom | eventLog
  deriving DecidableEq, Repr

inductive RtuAt where
  | recvfrom | sendto | waitPeriod
  deriving DecidableEq, Repr

-- struct sockaddr_in, its padding apart, and what recvfrom delivers of a datagram.
structure SockaddrIn where
  family : BitVec 16
  port : BitVec 16
  addr : BitVec 32
  deriving DecidableEq

def SockaddrIn.unset : SockaddrIn := ⟨0,0,0⟩

structure Incoming where
  source : SockaddrIn
  payload : List UInt8

-- The programs see the payload only; a reply carries the number of the request it answers.
structure Datagram where
  request : Nat
  payload : List UInt8

def msgSize : Nat := 150
def handshake : List UInt8 := "HANDSHAKE".toList.map fun c => UInt8.ofNat c.toNat

-- recvfrom into a buffer: a longer datagram is cut, a shorter one leaves the
-- rest of the buffer alone.
def fill (buffer payload : List UInt8) : List UInt8 := payload.take buffer.length++buffer.drop payload.length

structure Logged (abi : Abi) where
  event : Status abi
  answers : Nat
  latest : Nat

structure State (abi : Abi) where
  historian : HistorianAt
  event : List UInt8
  answered : Nat
  rtu : RtuAt
  buf1 : List UInt8
  buf2 : List UInt8
  answering : Nat
  requests : Link Datagram
  replies : Link Datagram
  requestsSent : Nat
  requestsReceived : Nat
  requestsDropped : Nat
  repliesSent : Nat
  repliesReceived : Nat
  repliesDropped : Nat
  logged : List (Logged abi)

inductive Action where
  | sendRequest | receiveReply | eventLog
  | receiveRequest | sendReply | waitPeriod
  | deliverRequest (i : Nat) | deliverReply (i : Nat)
  | dropRequest (i : Nat) | dropReply (i : Nat)
  deriving DecidableEq

variable {abi : Abi}

namespace State

-- `buf1` and `buf2` are globals of rtu.c and start out zero; nothing but
-- sendToHistorian names either.
def start (abi : Abi) : State abi where
  historian := .sendto
  event := List.replicate (Status.sizeof abi) 0
  answered := 0
  rtu := .recvfrom
  buf1 := List.replicate msgSize 0
  buf2 := List.replicate msgSize 0
  answering := 0
  requests := .idle
  replies := .idle
  requestsSent := 0
  requestsReceived := 0
  requestsDropped := 0
  repliesSent := 0
  repliesReceived := 0
  repliesDropped := 0
  logged := []

def sendRequest (s : State abi) : State abi :=
  {s with
    historian:=.recvfrom
    event:=List.replicate (Status.sizeof abi) 0
    requests:=s.requests.send ⟨s.requestsSent+1,handshake⟩
    requestsSent:=s.requestsSent+1}

def receiveReply (s : State abi) (d : Datagram) (rest : Link Datagram) : State abi :=
  {s with
    historian:=.eventLog
    event:=fill s.event d.payload
    answered:=d.request
    replies:=rest
    repliesReceived:=s.repliesReceived+1}

def eventLog (s : State abi) : State abi :=
  {s with historian:=.sendto,logged:=s.logged++[⟨Status.ofBytes abi s.event,s.answered,s.requestsSent⟩]}

def receiveRequest (s : State abi) (d : Datagram) (rest : Link Datagram) : State abi :=
  {s with
    rtu:=.sendto
    buf2:=fill (List.replicate msgSize 0) d.payload
    answering:=d.request
    requests:=rest
    requestsReceived:=s.requestsReceived+1}

def sendReply (s : State abi) : State abi :=
  {s with rtu:=.waitPeriod,replies:=s.replies.send ⟨s.answering,s.buf1⟩,repliesSent:=s.repliesSent+1}

def step (s : State abi) : Action → Option (State abi)
  | .sendRequest => if s.historian = .sendto then some s.sendRequest else none
  | .receiveReply => if s.historian = .recvfrom then s.replies.receive.map fun got => s.receiveReply got.1 got.2 else none
  | .eventLog => if s.historian = .eventLog then some s.eventLog else none
  | .receiveRequest => if s.rtu = .recvfrom then s.requests.receive.map fun got => s.receiveRequest got.1 got.2 else none
  | .sendReply => if s.rtu = .sendto then some s.sendReply else none
  | .waitPeriod => if s.rtu = .waitPeriod then some {s with rtu:=.recvfrom} else none
  | .deliverRequest i => (s.requests.deliver i).map fun rest => {s with requests:=rest}
  | .deliverReply i => (s.replies.deliver i).map fun rest => {s with replies:=rest}
  | .dropRequest i => (s.requests.drop i).map fun rest => {s with requests:=rest,requestsDropped:=s.requestsDropped+1}
  | .dropReply i => (s.replies.drop i).map fun rest => {s with replies:=rest,repliesDropped:=s.repliesDropped+1}

inductive Moved (s : State abi) : Action → State abi → Prop where
  | sendRequest : s.historian = .sendto → Moved s .sendRequest s.sendRequest
  | receiveReply : s.historian = .recvfrom → s.replies.receive = some (d,rest) → Moved s .receiveReply (s.receiveReply d rest)
  | eventLog : s.historian = .eventLog → Moved s .eventLog s.eventLog
  | receiveRequest : s.rtu = .recvfrom → s.requests.receive = some (d,rest) →
      Moved s .receiveRequest (s.receiveRequest d rest)
  | sendReply : s.rtu = .sendto → Moved s .sendReply s.sendReply
  | waitPeriod : s.rtu = .waitPeriod → Moved s .waitPeriod {s with rtu:=.recvfrom}
  | deliverRequest : s.requests.deliver i = some rest → Moved s (.deliverRequest i) {s with requests:=rest}
  | deliverReply : s.replies.deliver i = some rest → Moved s (.deliverReply i) {s with replies:=rest}
  | dropRequest : s.requests.drop i = some rest →
      Moved s (.dropRequest i) {s with requests:=rest,requestsDropped:=s.requestsDropped+1}
  | dropReply : s.replies.drop i = some rest →
      Moved s (.dropReply i) {s with replies:=rest,repliesDropped:=s.repliesDropped+1}

theorem step_moved {s next : State abi} {action : Action} (taken : s.step action = some next) : s.Moved action next := by
  cases action with
  | sendRequest | eventLog | sendReply | waitPeriod =>
    obtain ⟨here,rfl⟩ := guarded taken
    constructor
    exact here
  | receiveReply | receiveRequest =>
    simp only [step] at taken
    split at taken
    · rename_i here
      obtain ⟨⟨d,rest⟩,got,rfl⟩ := Option.map_eq_some_iff.mp taken
      constructor
      · exact here
      · exact got
    · cases taken
  | deliverRequest i | deliverReply i | dropRequest i | dropReply i =>
    obtain ⟨link,there,rfl⟩ := Option.map_eq_some_iff.mp taken
    constructor
    exact there

-- The replies all carry `buf1`, which nothing in rtu.c writes.
structure Sends (buf1 : List UInt8) (s : State abi) : Prop where
  buffer : s.buf1 = buf1
  replies : ∀ d ∈ s.replies.inFlight, d.payload = buf1

theorem step_sends {buf1 : List UInt8} {s next : State abi} {action : Action} (sends : s.Sends buf1)
    (moved : s.Moved action next) : next.Sends buf1 := by
  obtain ⟨buffer,replies⟩ := sends
  cases moved with
  | receiveReply _ got => exact ⟨buffer,fun d member => replies d (Link.mem_receive got (.inr member))⟩
  | sendReply =>
    refine ⟨buffer,fun d member => ?_⟩
    rcases Link.mem_send member with rfl | old
    · exact buffer
    · exact replies d old
  | deliverReply moved => exact ⟨buffer,fun d member => replies d (Link.mem_deliver moved member)⟩
  | dropReply lost => exact ⟨buffer,fun d member => replies d (Link.mem_drop lost member)⟩
  | sendRequest | eventLog | receiveRequest | waitPeriod | deliverRequest | dropRequest => exact ⟨buffer,replies⟩

end State

def HistorianAt.token : HistorianAt → Nat
  | .recvfrom => 0
  | .sendto | .eventLog => 1

def HistorianAt.asked : HistorianAt → Nat
  | .sendto => 0
  | .recvfrom | .eventLog => 1

def HistorianAt.unlogged : HistorianAt → Nat
  | .eventLog => 1
  | .sendto | .recvfrom => 0

def RtuAt.token : RtuAt → Nat
  | .sendto => 1
  | .recvfrom | .waitPeriod => 0

-- The token is with the historian, in a request, with the RTU, in a reply, or
-- lost; the period wait holds none.
structure Accounting (s : State abi) : Prop where
  token : s.historian.token+s.requests.inFlight.length+s.rtu.token+s.replies.inFlight.length+
    s.requestsDropped+s.repliesDropped = 1
  asked : s.requestsSent = s.logged.length+s.historian.asked
  carried : s.requestsSent = s.requestsReceived+s.requests.inFlight.length+s.requestsDropped
  served : s.requestsReceived = s.repliesSent+s.rtu.token
  returned : s.repliesSent = s.repliesReceived+s.replies.inFlight.length+s.repliesDropped
  read : s.repliesReceived = s.logged.length+s.historian.unlogged

theorem start_accounting : Accounting (State.start abi) := ⟨rfl,rfl,rfl,rfl,rfl,rfl⟩

theorem step_accounting {s next : State abi} {action : Action} (accounting : Accounting s)
    (taken : s.step action = some next) : Accounting next := by
  obtain ⟨token,asked,carried,served,returned,read⟩ := accounting
  cases State.step_moved taken with
  | sendRequest here =>
    simp only [here,HistorianAt.token,HistorianAt.asked,HistorianAt.unlogged] at token asked read
    have grown := Link.send_length s.requests ⟨s.requestsSent+1,handshake⟩
    constructor <;> simp only [State.sendRequest,HistorianAt.token,HistorianAt.asked,HistorianAt.unlogged,grown] <;> omega
  | receiveReply here got =>
    simp only [here,HistorianAt.token,HistorianAt.asked,HistorianAt.unlogged] at token asked read
    have shrunk := Link.receive_length got
    constructor <;> simp only [State.receiveReply,HistorianAt.token,HistorianAt.asked,HistorianAt.unlogged] <;> omega
  | eventLog here =>
    simp only [here,HistorianAt.token,HistorianAt.asked,HistorianAt.unlogged] at token asked read
    constructor <;> simp only [State.eventLog,HistorianAt.token,HistorianAt.asked,HistorianAt.unlogged,List.length_append,
      List.length_singleton] <;> omega
  | receiveRequest here got =>
    simp only [here,RtuAt.token] at token served
    have shrunk := Link.receive_length got
    constructor <;> simp only [State.receiveRequest,RtuAt.token] <;> omega
  | sendReply here =>
    simp only [here,RtuAt.token] at token served
    have grown := Link.send_length s.replies ⟨s.answering,s.buf1⟩
    constructor <;> simp only [State.sendReply,RtuAt.token,grown] <;> omega
  | waitPeriod here =>
    simp only [here,RtuAt.token] at token served
    constructor <;> simp only [RtuAt.token] <;> omega
  | deliverRequest moved | deliverReply moved =>
    have same := Link.deliver_length moved
    constructor <;> simp only [same] <;> omega
  | dropRequest lost | dropReply lost =>
    have shrunk := Link.drop_length lost
    constructor <;> simp only <;> omega

structure Current (s : State abi) : Prop where
  requests : ∀ d ∈ s.requests.inFlight, d.request = s.requestsSent
  replies : ∀ d ∈ s.replies.inFlight, d.request = s.requestsSent
  serving : s.rtu = .sendto → s.answering = s.requestsSent
  reading : s.historian = .eventLog → s.answered = s.requestsSent
  logged : ∀ entry ∈ s.logged, entry.answers = entry.latest

theorem start_current : Current (State.start abi) := ⟨nofun,nofun,nofun,nofun,nofun⟩

theorem step_current {s next : State abi} {action : Action} (accounting : Accounting s) (current : Current s)
    (taken : s.step action = some next) : Current next := by
  have token := accounting.token
  obtain ⟨requests,replies,serving,reading,logged⟩ := current
  cases State.step_moved taken with
  | sendRequest here =>
    simp only [here,HistorianAt.token] at token
    have none : s.requests.inFlight = [] := List.length_eq_zero_iff.mp (by omega)
    have empty : s.replies.inFlight = [] := List.length_eq_zero_iff.mp (by omega)
    refine ⟨fun d member => ?_,?_,fun sending => ?_,nofun,logged⟩
    · rcases Link.mem_send member with rfl | old
      · rfl
      · rw [none] at old; cases old
    · simp [State.sendRequest,empty]
    · rw [show s.rtu = .sendto from sending] at token
      simp only [RtuAt.token] at token
      omega
  | receiveReply here got =>
    refine ⟨requests,fun d member => replies d (Link.mem_receive got (.inr member)),serving,fun _ => ?_,logged⟩
    exact replies _ (Link.mem_receive got (.inl rfl))
  | eventLog here =>
    refine ⟨requests,replies,serving,nofun,fun entry member => ?_⟩
    rcases List.mem_append.mp member with old | new
    · exact logged entry old
    · rw [List.mem_singleton.mp new]; exact reading here
  | receiveRequest here got =>
    refine ⟨fun d member => requests d (Link.mem_receive got (.inr member)),replies,fun _ => ?_,reading,logged⟩
    exact requests _ (Link.mem_receive got (.inl rfl))
  | sendReply here =>
    refine ⟨requests,fun d member => ?_,nofun,reading,logged⟩
    rcases Link.mem_send member with rfl | old
    · exact serving here
    · exact replies d old
  | waitPeriod here => exact ⟨requests,replies,nofun,reading,logged⟩
  | deliverRequest moved => exact ⟨fun d member => requests d (Link.mem_deliver moved member),replies,serving,reading,logged⟩
  | deliverReply moved => exact ⟨requests,fun d member => replies d (Link.mem_deliver moved member),serving,reading,logged⟩
  | dropRequest lost => exact ⟨fun d member => requests d (Link.mem_drop lost member),replies,serving,reading,logged⟩
  | dropReply lost => exact ⟨requests,fun d member => replies d (Link.mem_drop lost member),serving,reading,logged⟩

theorem visits_accounted {actions : List Action} {s : State abi} (visited : Visits State.step (.start abi) actions s) :
    Accounting s ∧ Current s :=
  visited.invariant (P := fun s => Accounting s ∧ Current s) ⟨start_accounting,start_current⟩ fun both taken =>
    ⟨step_accounting both.1 taken,step_current both.1 both.2 taken⟩

structure LockStep (s : State abi) : Prop where
  single : s.requests.inFlight.length+s.replies.inFlight.length ≤ 1
  logged : s.logged.length ≤ s.repliesReceived
  received : s.repliesReceived ≤ s.repliesSent
  answered : s.repliesSent ≤ s.requestsReceived
  asked : s.requestsReceived ≤ s.requestsSent
  ahead : s.requestsSent ≤ s.logged.length+1
  latest : ∀ entry ∈ s.logged, entry.answers = entry.latest

theorem exchange_in_lock_step (abi : Abi) (actions : List Action) : Always State.step LockStep (.start abi) actions := by
  intro s visited
  obtain ⟨⟨token,asked,carried,served,returned,read⟩,current⟩ := visits_accounted visited
  have one : s.historian.asked ≤ 1 := by cases s.historian <;> decide
  exact ⟨by omega,by omega,by omega,by omega,by omega,by omega,current.logged⟩

namespace State

structure Wedged (s : State abi) : Prop where
  historian : s.historian = .recvfrom
  rtu : s.rtu = .recvfrom
  requests : s.requests.inFlight = []
  replies : s.replies.inFlight = []

def dropped (s : State abi) : Nat := s.requestsDropped+s.repliesDropped

end State

-- Neither program ever sends again by itself: the exchange is wedged once a
-- datagram has been lost and the RTU is through its period, and never before.
theorem wedged_iff_dropped (abi : Abi) (actions : List Action) :
    Always State.step (fun s => s.Wedged ↔ 0 < s.dropped ∧ s.rtu = .recvfrom) (.start abi) actions := by
  intro s visited
  obtain ⟨⟨token,_,_,_,_,_⟩,_⟩ := visits_accounted visited
  constructor
  · rintro ⟨historian,rtu,requests,replies⟩
    simp only [historian,rtu,requests,replies,HistorianAt.token,RtuAt.token,List.length_nil] at token
    exact ⟨by rw [State.dropped]; omega,rtu⟩
  · rintro ⟨lost,rtu⟩
    rw [State.dropped] at lost
    refine ⟨?_,rtu,List.length_eq_zero_iff.mp (by omega),List.length_eq_zero_iff.mp (by omega)⟩
    cases here : s.historian with
    | recvfrom => rfl
    | sendto | eventLog => simp only [here,HistorianAt.token] at token; omega

theorem lost_request_wedges : ¬ ∀ abi actions (s : State abi), Runs State.step (.start abi) actions s → ¬ s.Wedged := by
  intro all
  obtain ⟨s,path,seen⟩ := run_observed State.step (.start .ilp32) [.sendRequest,.dropRequest 0]
    (fun s => (s.historian,s.rtu,s.requests.inFlight.length,s.replies.inFlight.length))
    (.recvfrom,.recvfrom,0,0) (by decide +kernel)
  obtain ⟨historian,rtu,requests,replies⟩ : s.historian = .recvfrom ∧ s.rtu = .recvfrom ∧ s.requests.inFlight.length = 0 ∧
      s.replies.inFlight.length = 0 := by simpa using seen
  exact all _ _ s path ⟨historian,rtu,List.length_eq_zero_iff.mp requests,List.length_eq_zero_iff.mp replies⟩

end Scada.Exchange
