import Scada.Exchange

namespace Scada.Polling
open Exchange Machines LossyLinks

structure Client (abi : Abi) where
  historian : HistorianAt
  event : List UInt8
  answered : Nat
  replies : Link Datagram
  requestsSent : Nat
  requestsReceived : Nat
  requestsDropped : Nat
  repliesSent : Nat
  repliesReceived : Nat
  repliesDropped : Nat
  logged : List (Logged abi)

-- sendToHistorian has one socket for them all and answers `from`, whoever sent
-- the request it received last.
structure State (ι : Type) (abi : Abi) where
  clients : ι → Client abi
  rtu : RtuAt
  fromAddr : Option ι
  buf1 : List UInt8
  buf2 : List UInt8
  answering : Nat
  requests : Link (ι × Datagram)

inductive Action (ι : Type) where
  | sendRequest (h : ι) | receiveReply (h : ι) | eventLog (h : ι)
  | receiveRequest | sendReply | waitPeriod
  | deliverRequest (i : Nat) | deliverReply (h : ι) (i : Nat)
  | dropRequest (i : Nat) | dropReply (h : ι) (i : Nat)

variable {ι : Type} [DecidableEq ι] {abi : Abi}

namespace Client

def start (abi : Abi) : Client abi := ⟨.sendto,List.replicate (Status.sizeof abi) 0,0,.idle,0,0,0,0,0,0,[]⟩

def sendRequest (c : Client abi) : Client abi :=
  {c with historian:=.recvfrom,event:=List.replicate (Status.sizeof abi) 0,requestsSent:=c.requestsSent+1}

def receiveReply (c : Client abi) (d : Datagram) (rest : Link Datagram) : Client abi :=
  {c with
    historian:=.eventLog
    event:=fill c.event d.payload
    answered:=d.request
    replies:=rest
    repliesReceived:=c.repliesReceived+1}

def eventLog (c : Client abi) : Client abi :=
  {c with historian:=.sendto,logged:=c.logged++[⟨Status.ofBytes abi c.event,c.answered,c.requestsSent⟩]}

end Client

namespace State

def start (ι : Type) (abi : Abi) : State ι abi :=
  ⟨fun _ => .start abi,.recvfrom,none,List.replicate msgSize 0,List.replicate msgSize 0,0,.idle⟩

def set (s : State ι abi) (h : ι) (c : Client abi) : State ι abi := {s with clients:=Function.update s.clients h c}

def receiveRequest (s : State ι abi) (h : ι) (d : Datagram) (rest : List (ι × Datagram)) : State ι abi :=
  {s.set h {s.clients h with requestsReceived:=(s.clients h).requestsReceived+1} with
    rtu:=.sendto
    fromAddr:=some h
    buf2:=fill (List.replicate msgSize 0) d.payload
    answering:=d.request
    requests:=⟨s.requests.wire,rest⟩}

def sendReply (s : State ι abi) (h : ι) : State ι abi :=
  let c := s.clients h
  {s.set h {c with replies:=c.replies.send ⟨s.answering,s.buf1⟩,repliesSent:=c.repliesSent+1} with rtu:=.waitPeriod}

def step (s : State ι abi) : Action ι → Option (State ι abi)
  | .sendRequest h =>
    let c := s.clients h
    if c.historian = .sendto then
      some {s.set h c.sendRequest with requests:=s.requests.send (h,⟨c.requestsSent+1,handshake⟩)}
    else none
  | .receiveReply h =>
    let c := s.clients h
    if c.historian = .recvfrom then c.replies.receive.map fun got => s.set h (c.receiveReply got.1 got.2) else none
  | .eventLog h => if (s.clients h).historian = .eventLog then some (s.set h (s.clients h).eventLog) else none
  | .receiveRequest => match s.rtu,s.requests.socket with
    | .recvfrom,(h,d)::rest => some (s.receiveRequest h d rest)
    | _,_ => none
  | .sendReply => match s.rtu,s.fromAddr with
    | .sendto,some h => some (s.sendReply h)
    | _,_ => none
  | .waitPeriod => if s.rtu = .waitPeriod then some {s with rtu:=.recvfrom} else none
  | .deliverRequest i => s.requests.wire[i]?.map fun d =>
    {s with requests:=⟨s.requests.wire.eraseIdx i,s.requests.socket++[d]⟩}
  | .dropRequest i => s.requests.wire[i]?.map fun d =>
    let c := s.clients d.1
    {s.set d.1 {c with requestsDropped:=c.requestsDropped+1} with
      requests:=⟨s.requests.wire.eraseIdx i,s.requests.socket⟩}
  | .deliverReply h i =>
    let c := s.clients h
    (c.replies.deliver i).map fun replies => s.set h {c with replies}
  | .dropReply h i =>
    let c := s.clients h
    (c.replies.drop i).map fun replies => s.set h {c with replies,repliesDropped:=c.repliesDropped+1}

inductive Moved (s : State ι abi) : Action ι → State ι abi → Prop where
  | sendRequest {h : ι} : (s.clients h).historian = .sendto → Moved s (.sendRequest h) {s.set h (s.clients h).sendRequest with
      requests:=s.requests.send (h,⟨(s.clients h).requestsSent+1,handshake⟩)}
  | receiveReply {h : ι} {d : Datagram} {rest : Link Datagram} : (s.clients h).historian = .recvfrom →
      (s.clients h).replies.receive = some (d,rest) → Moved s (.receiveReply h) (s.set h ((s.clients h).receiveReply d rest))
  | eventLog {h : ι} : (s.clients h).historian = .eventLog → Moved s (.eventLog h) (s.set h (s.clients h).eventLog)
  | receiveRequest {h : ι} {d : Datagram} {rest : List (ι × Datagram)} : s.rtu = .recvfrom →
      s.requests.socket = (h,d)::rest → Moved s .receiveRequest (s.receiveRequest h d rest)
  | sendReply {h : ι} : s.rtu = .sendto → s.fromAddr = some h → Moved s .sendReply (s.sendReply h)
  | waitPeriod : s.rtu = .waitPeriod → Moved s .waitPeriod {s with rtu:=.recvfrom}
  | deliverRequest {i : Nat} {h : ι} {d : Datagram} : s.requests.wire[i]? = some (h,d) →
      Moved s (.deliverRequest i) {s with requests:=⟨s.requests.wire.eraseIdx i,s.requests.socket++[(h,d)]⟩}
  | dropRequest {i : Nat} {h : ι} {d : Datagram} : s.requests.wire[i]? = some (h,d) →
      Moved s (.dropRequest i) {s.set h {s.clients h with requestsDropped:=(s.clients h).requestsDropped+1} with
        requests:=⟨s.requests.wire.eraseIdx i,s.requests.socket⟩}
  | deliverReply {i : Nat} {h : ι} {replies : Link Datagram} : (s.clients h).replies.deliver i = some replies →
      Moved s (.deliverReply h i) (s.set h {s.clients h with replies})
  | dropReply {i : Nat} {h : ι} {replies : Link Datagram} : (s.clients h).replies.drop i = some replies →
      Moved s (.dropReply h i) (s.set h {s.clients h with replies,repliesDropped:=(s.clients h).repliesDropped+1})

theorem step_moved {s next : State ι abi} {action : Action ι} (taken : s.step action = some next) : s.Moved action next := by
  cases action with
  | sendRequest h =>
    obtain ⟨here,rfl⟩ := guarded taken
    exact .sendRequest here
  | receiveReply h =>
    simp only [step] at taken
    split at taken
    · rename_i here
      obtain ⟨⟨d,rest⟩,got,rfl⟩ := Option.map_eq_some_iff.mp taken
      exact .receiveReply here got
    · cases taken
  | eventLog h =>
    obtain ⟨here,rfl⟩ := guarded taken
    exact .eventLog here
  | receiveRequest =>
    simp only [step] at taken
    split at taken
    · rename_i here waiting
      cases taken
      exact .receiveRequest here waiting
    · cases taken
  | sendReply =>
    simp only [step] at taken
    split at taken
    · rename_i here client
      cases taken
      exact .sendReply here client
    · cases taken
  | waitPeriod =>
    obtain ⟨here,rfl⟩ := guarded taken
    exact .waitPeriod here
  | deliverRequest i =>
    obtain ⟨⟨h,d⟩,there,rfl⟩ := Option.map_eq_some_iff.mp taken
    exact .deliverRequest there
  | dropRequest i =>
    obtain ⟨⟨h,d⟩,there,rfl⟩ := Option.map_eq_some_iff.mp taken
    exact .dropRequest there
  | deliverReply h i =>
    obtain ⟨replies,there,rfl⟩ := Option.map_eq_some_iff.mp taken
    exact .deliverReply there
  | dropReply h i =>
    obtain ⟨replies,there,rfl⟩ := Option.map_eq_some_iff.mp taken
    exact .dropReply there

@[simp] theorem set_same (s : State ι abi) (h : ι) (c : Client abi) : (s.set h c).clients h = c := Function.update_self ..
theorem set_other (s : State ι abi) {h g : ι} (other : g ≠ h) (c : Client abi) : (s.set h c).clients g = s.clients g :=
  Function.update_of_ne other ..

-- Where the RTU stands as far as one historian can tell: while it serves
-- another one, it might as well wait for a request.
def phase (s : State ι abi) (h : ι) : RtuAt := if s.fromAddr = some h then s.rtu else .recvfrom

end State

def side (x : Exchange.State abi) : Client abi :=
  ⟨x.historian,x.event,x.answered,x.replies,x.requestsSent,x.requestsReceived,x.requestsDropped,x.repliesSent,
    x.repliesReceived,x.repliesDropped,x.logged⟩

structure Shows (h : ι) (s : State ι abi) (x : Exchange.State abi) : Prop where
  client : side x = s.clients h
  rtu : x.rtu = s.phase h
  buf1 : x.buf1 = s.buf1
  answering : s.phase h = .sendto → x.answering = s.answering
  requests : x.requests = s.requests.of h

theorem start_shows (h : ι) : Shows h (.start ι abi) (.start abi) := ⟨rfl,rfl,rfl,nofun,rfl⟩

theorem shows_frame {h : ι} {s next : State ι abi} {x : Exchange.State abi} (shown : Shows h s x)
    (client : next.clients h = s.clients h) (phase : next.phase h = s.phase h) (buf1 : next.buf1 = s.buf1)
    (answering : s.phase h = .sendto → next.answering = s.answering) (requests : next.requests.of h = s.requests.of h) :
    ∃ x', Runs Exchange.State.step x [] x' ∧ Shows h next x' := by
  refine ⟨x,.nil,shown.client.trans client.symm,shown.rtu.trans phase.symm,shown.buf1.trans buf1.symm,fun serving => ?_,
    shown.requests.trans requests.symm⟩
  rw [phase] at serving
  exact (shown.answering serving).trans (answering serving).symm

def see (h : ι) (s : State ι abi) : Action ι → List Exchange.Action
  | .sendRequest g => if g = h then [.sendRequest] else []
  | .receiveReply g => if g = h then [.receiveReply] else []
  | .eventLog g => if g = h then [.eventLog] else []
  | .receiveRequest => if s.requests.socket.head?.map Prod.fst = some h then [.receiveRequest] else []
  | .sendReply => if s.fromAddr = some h then [.sendReply] else []
  | .waitPeriod => if s.fromAddr = some h then [.waitPeriod] else []
  | .deliverRequest i =>
    if s.requests.wire[i]?.map Prod.fst = some h then [.deliverRequest (s.requests.rank h i)] else []
  | .dropRequest i => if s.requests.wire[i]?.map Prod.fst = some h then [.dropRequest (s.requests.rank h i)] else []
  | .deliverReply g i => if g = h then [.deliverReply i] else []
  | .dropReply g i => if g = h then [.dropReply i] else []

section
variable {h g : ι} {s next : State ι abi} {x : Exchange.State abi} {d : Datagram}

theorem elsewhere (shown : Shows h s x) (c : Client abi) (other : g ≠ h) :
    ∃ x', Runs Exchange.State.step x [] x' ∧ Shows h (s.set g c) x' :=
  shows_frame shown (State.set_other s (Ne.symm other) c) rfl rfl (fun _ => rfl) rfl

theorem receiveRequest_refines {rest : List (ι × Datagram)} (shown : Shows h s x) (here : s.rtu = .recvfrom)
    (waiting : s.requests.socket = (g,d)::rest) :
    ∃ x', Runs Exchange.State.step x (see h s .receiveRequest) x' ∧ Shows h (s.receiveRequest g d rest) x' := by
  simp only [see,waiting,List.head?_cons,Option.map_some,Option.some.injEq]
  have free : s.phase h = .recvfrom := by simp [State.phase,here]
  by_cases own : g = h
  · subst own
    rw [if_pos rfl]
    have got := Link.of_receive_own waiting
    rw [← shown.requests] at got
    refine ⟨x.receiveRequest d (Link.of ⟨s.requests.wire,rest⟩ g),.single ?_,?_,?_,shown.buf1,fun _ => rfl,rfl⟩
    · rw [Exchange.State.step,if_pos (shown.rtu.trans free),got]; rfl
    · simp only [State.receiveRequest,State.set_same,← shown.client]; rfl
    · simp [State.phase,State.receiveRequest,Exchange.State.receiveRequest]
  · rw [if_neg own]
    refine shows_frame shown (State.set_other s (Ne.symm own) _) ?_ rfl ?_ (Link.of_receive_other own waiting)
    · rw [free]; simp [State.phase,State.receiveRequest,own]
    · intro serving; rw [free] at serving; cases serving

theorem sendReply_refines (shown : Shows h s x) (here : s.rtu = .sendto) (sender : s.fromAddr = some g) :
    ∃ x', Runs Exchange.State.step x (see h s .sendReply) x' ∧ Shows h (s.sendReply g) x' := by
  simp only [see,sender,Option.some.injEq]
  by_cases own : g = h
  · subst own
    rw [if_pos rfl]
    have serving : s.phase g = .sendto := by rw [State.phase,if_pos sender,here]
    refine ⟨x.sendReply,.single (if_pos (shown.rtu.trans serving)),?_,?_,shown.buf1,?_,shown.requests⟩
    · simp only [State.sendReply,State.set_same,← shown.client,← shown.buf1,← shown.answering serving]; rfl
    · simp [State.phase,State.sendReply,State.set,sender,Exchange.State.sendReply]
    · simp [State.phase,State.sendReply,State.set,sender]
  · rw [if_neg own]
    have free : s.phase h = .recvfrom := by simp [State.phase,sender,own]
    refine shows_frame shown (State.set_other s (Ne.symm own) _) ?_ rfl (fun _ => rfl) rfl
    rw [free]; simp [State.phase,State.sendReply,State.set,sender,own]

theorem waitPeriod_refines (shown : Shows h s x) (here : s.rtu = .waitPeriod) :
    ∃ x', Runs Exchange.State.step x (see h s .waitPeriod) x' ∧ Shows h {s with rtu:=.recvfrom} x' := by
  simp only [see]
  by_cases own : s.fromAddr = some h
  · rw [if_pos own]
    have waiting : s.phase h = .waitPeriod := by rw [State.phase,if_pos own,here]
    refine ⟨{x with rtu:=.recvfrom},.single (if_pos (shown.rtu.trans waiting)),shown.client,?_,shown.buf1,?_,shown.requests⟩
    · simp [State.phase]
    · simp [State.phase]
  · rw [if_neg own]
    exact shows_frame shown rfl (by simp [State.phase,own]) rfl (fun _ => rfl) rfl

theorem deliverRequest_refines {i : Nat} (shown : Shows h s x) (there : s.requests.wire[i]? = some (g,d)) :
    ∃ x', Runs Exchange.State.step x (see h s (.deliverRequest i)) x' ∧
      Shows h {s with requests:=⟨s.requests.wire.eraseIdx i,s.requests.socket++[(g,d)]⟩} x' := by
  simp only [see,there,Option.map_some,Option.some.injEq]
  by_cases own : g = h
  · subst own
    rw [if_pos rfl]
    have moved := Link.of_deliver_own there
    rw [← shown.requests] at moved
    refine ⟨{x with requests:=Link.of ⟨s.requests.wire.eraseIdx i,s.requests.socket++[(g,d)]⟩ g},.single ?_,shown.client,
      shown.rtu,shown.buf1,shown.answering,rfl⟩
    rw [Exchange.State.step,moved]; rfl
  · rw [if_neg own]
    exact shows_frame shown rfl rfl rfl (fun _ => rfl) (Link.of_deliver_other own there)

theorem dropRequest_refines {i : Nat} (shown : Shows h s x) (there : s.requests.wire[i]? = some (g,d)) :
    ∃ x', Runs Exchange.State.step x (see h s (.dropRequest i)) x' ∧
      Shows h {s.set g {s.clients g with requestsDropped:=(s.clients g).requestsDropped+1} with
        requests:=⟨s.requests.wire.eraseIdx i,s.requests.socket⟩} x' := by
  simp only [see,there,Option.map_some,Option.some.injEq]
  by_cases own : g = h
  · subst own
    rw [if_pos rfl]
    have lost := Link.of_drop_own there
    rw [← shown.requests] at lost
    refine ⟨{x with
      requests:=Link.of ⟨s.requests.wire.eraseIdx i,s.requests.socket⟩ g
      requestsDropped:=x.requestsDropped+1},.single ?_,?_,shown.rtu,shown.buf1,shown.answering,rfl⟩
    · rw [Exchange.State.step,lost]; rfl
    · simp only [State.set_same,← shown.client]; rfl
  · rw [if_neg own]
    exact shows_frame shown (State.set_other s (Ne.symm own) _) rfl rfl (fun _ => rfl) (Link.of_drop_other own there)

end

theorem refines_exchange (h : ι) :
    Refines State.step Exchange.State.step (fun (s : State ι abi) x => Shows h s x) (see h) := by
  intro s action next x shown taken
  have client := shown.client
  cases s.step_moved taken with
  | @sendRequest g here =>
    simp only [see]
    by_cases own : g = h
    · subst own
      rw [if_pos rfl]
      rw [← client] at here
      refine ⟨x.sendRequest,.single (if_pos here),?_,shown.rtu,shown.buf1,shown.answering,?_⟩
      · rw [State.set_same,← client]; rfl
      · simp only [Exchange.State.sendRequest,Link.of_send_own,shown.requests,← client]; rfl
    · rw [if_neg own]
      exact shows_frame shown (State.set_other s (Ne.symm own) _) rfl rfl (fun _ => rfl) (Link.of_send_other _ own _)
  | @receiveReply g d rest here got =>
    simp only [see]
    by_cases own : g = h
    · subst own
      rw [if_pos rfl]
      rw [← client] at here got
      refine ⟨x.receiveReply d rest,.single ?_,?_,shown.rtu,shown.buf1,shown.answering,shown.requests⟩
      · rw [Exchange.State.step,if_pos (show x.historian = .recvfrom from here),
          show x.replies.receive = some (d,rest) from got]; rfl
      · rw [State.set_same,← client]; rfl
    · rw [if_neg own]
      exact elsewhere shown _ own
  | @eventLog g here =>
    simp only [see]
    by_cases own : g = h
    · subst own
      rw [if_pos rfl]
      rw [← client] at here
      refine ⟨x.eventLog,.single (if_pos here),?_,shown.rtu,shown.buf1,shown.answering,shown.requests⟩
      rw [State.set_same,← client]; rfl
    · rw [if_neg own]
      exact elsewhere shown _ own
  | receiveRequest here waiting => exact receiveRequest_refines shown here waiting
  | sendReply here sender => exact sendReply_refines shown here sender
  | waitPeriod here => exact waitPeriod_refines shown here
  | deliverRequest there => exact deliverRequest_refines shown there
  | dropRequest there => exact dropRequest_refines shown there
  | @deliverReply i g replies there =>
    simp only [see]
    by_cases own : g = h
    · subst own
      rw [if_pos rfl]
      rw [← client] at there
      refine ⟨{x with replies},.single ?_,?_,shown.rtu,shown.buf1,shown.answering,shown.requests⟩
      · rw [Exchange.State.step,show x.replies.deliver i = some replies from there]; rfl
      · rw [State.set_same,← client]; rfl
    · rw [if_neg own]
      exact elsewhere shown _ own
  | @dropReply i g replies there =>
    simp only [see]
    by_cases own : g = h
    · subst own
      rw [if_pos rfl]
      rw [← client] at there
      refine ⟨{x with replies,repliesDropped:=x.repliesDropped+1},.single ?_,?_,shown.rtu,shown.buf1,shown.answering,
        shown.requests⟩
      · rw [Exchange.State.step,show x.replies.drop i = some replies from there]; rfl
      · rw [State.set_same,← client]; rfl
    · rw [if_neg own]
      exact elsewhere shown _ own

theorem each_historian_alone (ι : Type) [DecidableEq ι] (abi : Abi) (actions : List (Action ι)) :
    Always State.step (fun s => ∀ h, ∃ seen x, Runs Exchange.State.step (.start abi) seen x ∧ Shows h s x)
      (.start ι abi) actions := by
  rintro s ⟨_,_,_,path⟩ h
  exact Refines.runs (refines_exchange h) (start_shows h) path

def Addressed (s : State ι abi) : Prop := s.rtu = .sendto → ∃ h, s.fromAddr = some h

structure Kept (s : State ι abi) : Prop where
  addressed : Addressed s
  shown : ∀ h, ∃ x, Shows h s x ∧ Accounting x ∧ Current x

theorem start_kept : Kept (State.start ι abi) :=
  ⟨nofun,fun h => ⟨_,start_shows h,start_accounting,start_current⟩⟩

theorem exchange_kept {x next : Exchange.State abi} {actions : List Exchange.Action} (accounting : Accounting x)
    (current : Current x) (path : Runs Exchange.State.step x actions next) : Accounting next ∧ Current next :=
  path.invariant (P := fun x => Accounting x ∧ Current x) ⟨accounting,current⟩ fun both taken =>
    ⟨step_accounting both.1 taken,step_current both.1 both.2 taken⟩

theorem step_kept {s next : State ι abi} {action : Action ι} (kept : Kept s) (taken : s.step action = some next) :
    Kept next := by
  refine ⟨?_,fun h => ?_⟩
  · have addressed := kept.addressed
    cases s.step_moved taken with
    | receiveRequest => exact fun _ => ⟨_,rfl⟩
    | sendReply | waitPeriod => exact nofun
    | _ => exact addressed
  · obtain ⟨x,shown,accounting,current⟩ := kept.shown h
    obtain ⟨x',path,later⟩ := refines_exchange h shown taken
    exact ⟨x',later,exchange_kept accounting current path⟩

structure LockStep (h : ι) (s : State ι abi) : Prop where
  single : (s.requests.of h).inFlight.length+(s.clients h).replies.inFlight.length ≤ 1
  logged : (s.clients h).logged.length ≤ (s.clients h).repliesReceived
  received : (s.clients h).repliesReceived ≤ (s.clients h).repliesSent
  answered : (s.clients h).repliesSent ≤ (s.clients h).requestsReceived
  asked : (s.clients h).requestsReceived ≤ (s.clients h).requestsSent
  ahead : (s.clients h).requestsSent ≤ (s.clients h).logged.length+1
  latest : ∀ entry ∈ (s.clients h).logged, entry.answers = entry.latest

theorem historians_in_lock_step (ι : Type) [DecidableEq ι] (abi : Abi) (actions : List (Action ι)) :
    Always State.step (fun s => ∀ h, LockStep h s) (.start ι abi) actions := by
  intro s visited h
  obtain ⟨x,shown,⟨token,asked,carried,served,returned,read⟩,current⟩ :=
    (visited.invariant start_kept step_kept).shown h
  have one : x.historian.asked ≤ 1 := by cases x.historian <;> decide
  constructor
  all_goals simp only [← shown.client,← shown.requests,side]
  case latest => exact current.logged
  all_goals omega

def Client.dropped (c : Client abi) : Nat := c.requestsDropped+c.repliesDropped

def Completes (h : ι) (s : State ι abi) : Prop :=
  ∃ actions next, Runs State.step s actions next ∧ (next.clients h).logged.length = (s.clients h).logged.length+1

section
variable {h g : ι} {s next : State ι abi} {d : Datagram}

theorem completes_step (action : Action ι) (taken : s.step action = some next)
    (same : (next.clients h).logged = (s.clients h).logged) (completes : Completes h next) : Completes h s := by
  obtain ⟨actions,last,path,grown⟩ := completes
  exact ⟨action::actions,last,.cons taken path,by rw [grown,same]⟩

theorem step_waitPeriod (here : s.rtu = .waitPeriod) : s.step .waitPeriod = some {s with rtu:=.recvfrom} := if_pos here

theorem completes_log (here : (s.clients h).historian = .eventLog) : Completes h s :=
  ⟨[.eventLog h],_,.single (if_pos here),by simp [Client.eventLog]⟩

theorem completes_socket (here : (s.clients h).historian = .recvfrom) (waiting : (s.clients h).replies.socket ≠ []) :
    Completes h s := by
  obtain ⟨d,rest,socket⟩ := List.exists_cons_of_ne_nil waiting
  have got : (s.clients h).replies.receive = some (d,⟨(s.clients h).replies.wire,rest⟩) := by simp [Link.receive,socket]
  refine completes_step (.receiveReply h) (by rw [State.step,if_pos here,got]; rfl) ?_ (completes_log ?_)
  · rw [State.set_same]; rfl
  · rw [State.set_same]; rfl

theorem completes_wire (here : (s.clients h).historian = .recvfrom) (flying : (s.clients h).replies.wire ≠ []) :
    Completes h s := by
  obtain ⟨d,rest,wire⟩ := List.exists_cons_of_ne_nil flying
  have moved : (s.clients h).replies.deliver 0 = some ⟨rest,(s.clients h).replies.socket++[d]⟩ := by simp [Link.deliver,wire]
  refine completes_step (.deliverReply h 0) (by rw [State.step,moved]; rfl) ?_ (completes_socket ?_ ?_)
  · rw [State.set_same]
  · rw [State.set_same]; exact here
  · simp

theorem completes_serving (here : (s.clients h).historian = .recvfrom) (rtu : s.rtu = .sendto) (client : s.fromAddr = some h) :
    Completes h s := by
  refine completes_step .sendReply (by simp only [State.step,rtu,client]; rfl) ?_ (completes_wire ?_ ?_)
  · simp [State.sendReply]
  · simpa [State.sendReply] using here
  · simp [State.sendReply,Link.send]

theorem set_field (f : Client abi → β) {c : Client abi} (same : f c = f (s.clients g)) : f ((s.set g c).clients h) = f (s.clients h) := by
  by_cases own : h = g
  · subst own
    rw [State.set_same,same]
  · rw [State.set_other s own]

theorem receiveRequest_client (rest : List (ι × Datagram)) :
    ((s.receiveRequest g d rest).clients h).historian = (s.clients h).historian ∧
      ((s.receiveRequest g d rest).clients h).logged = (s.clients h).logged :=
  ⟨set_field Client.historian rfl,set_field Client.logged rfl⟩

theorem sendReply_client : ((s.sendReply g).clients h).historian = (s.clients h).historian ∧
    ((s.sendReply g).clients h).logged = (s.clients h).logged :=
  ⟨set_field Client.historian rfl,set_field Client.logged rfl⟩

-- The RTU works through the requests ahead, whoever sent them.
theorem completes_queued {ahead : List (ι × Datagram)} {behind : List (ι × Datagram)}
    (here : (s.clients h).historian = .recvfrom) (rtu : s.rtu = .recvfrom)
    (socket : s.requests.socket = ahead++(h,d)::behind) : Completes h s := by
  induction ahead generalizing s with
  | nil =>
    refine completes_step .receiveRequest (by simp only [State.step,rtu,socket,List.nil_append]; rfl) ?_
      (completes_serving ?_ rfl rfl)
    · simp [State.receiveRequest]
    · simpa [State.receiveRequest] using here
  | cons first rest ih =>
    obtain ⟨g,e⟩ := first
    have first : s.step .receiveRequest = some (s.receiveRequest g e (rest++(h,d)::behind)) := by
      simp only [State.step,rtu,socket,List.cons_append]
    refine completes_step .receiveRequest first (receiveRequest_client _).2 ?_
    refine completes_step .sendReply rfl sendReply_client.2 ?_
    refine completes_step .waitPeriod (step_waitPeriod rfl) rfl (ih ?_ rfl rfl)
    exact sendReply_client.1.trans ((receiveRequest_client _).1.trans here)

theorem completes_asked (addressed : Addressed s) (here : (s.clients h).historian = .recvfrom)
    (asked : (s.requests.of h).socket ≠ []) : Completes h s := by
  obtain ⟨d,member⟩ := List.exists_mem_of_ne_nil _ asked
  obtain ⟨ahead,behind,socket⟩ := List.append_of_mem (Link.mem_of_pick member)
  cases rtu : s.rtu with
  | recvfrom => exact completes_queued here rtu socket
  | waitPeriod => exact completes_step .waitPeriod (step_waitPeriod rtu) rfl (completes_queued here rfl socket)
  | sendto =>
    obtain ⟨other,client⟩ := addressed rtu
    have sent : s.step .sendReply = some (s.sendReply other) := by simp only [State.step,rtu,client]
    refine completes_step .sendReply sent sendReply_client.2 ?_
    exact completes_step .waitPeriod (step_waitPeriod rfl) rfl (completes_queued (sendReply_client.1.trans here) rfl socket)

theorem completes_asking (addressed : Addressed s) (here : (s.clients h).historian = .recvfrom)
    (asking : (s.requests.of h).wire ≠ []) : Completes h s := by
  obtain ⟨d,member⟩ := List.exists_mem_of_ne_nil _ asking
  obtain ⟨i,there⟩ := List.mem_iff_getElem?.mp (Link.mem_of_pick member)
  have moved : s.step (.deliverRequest i) =
      some {s with requests:=⟨s.requests.wire.eraseIdx i,s.requests.socket++[(h,d)]⟩} := by rw [State.step,there]; rfl
  refine completes_step (.deliverRequest i) moved rfl (completes_asked addressed here ?_)
  simp [Link.of,Link.pick]

end

theorem completes_lossless {h : ι} {s : State ι abi} (kept : Kept s) (lossless : (s.clients h).dropped = 0) :
    Completes h s := by
  obtain ⟨x,shown,accounting,_⟩ := kept.shown h
  have token := accounting.token
  have rtu := shown.rtu
  rw [Client.dropped,← shown.client] at lossless
  simp only [side] at lossless
  cases here : (s.clients h).historian with
  | eventLog => exact completes_log here
  | sendto =>
    refine completes_step (.sendRequest h) (if_pos here) (by simp [Client.sendRequest]) ?_
    refine completes_asking kept.addressed (by simp [Client.sendRequest]) ?_
    rw [Link.of_send_own]
    simp [Link.send]
  | recvfrom =>
    have at_ : x.historian = .recvfrom := (congrArg Client.historian shown.client).trans here
    simp only [at_,HistorianAt.token] at token
    by_cases asking : (s.requests.of h).wire = []
    · by_cases asked : (s.requests.of h).socket = []
      · by_cases flying : (s.clients h).replies.wire = []
        · by_cases waiting : (s.clients h).replies.socket = []
          · -- nothing is in flight: the token is with the RTU
            have requests : x.requests.inFlight.length = 0 := by simp [shown.requests,Link.inFlight,asking,asked]
            have same : x.replies = (s.clients h).replies := congrArg Client.replies shown.client
            have replies : x.replies.inFlight.length = 0 := by simp [same,Link.inFlight,flying,waiting]
            have serving : s.phase h = .sendto := by
              rw [← rtu]
              cases place : x.rtu with
              | sendto => rfl
              | recvfrom | waitPeriod => simp only [place,RtuAt.token] at token; omega
            rw [State.phase] at serving
            split at serving
            · rename_i client
              exact completes_serving here serving client
            · cases serving
          · exact completes_socket here waiting
        · exact completes_wire here flying
      · exact completes_asked kept.addressed here asked
    · exact completes_asking kept.addressed here asking

-- Once one of its own datagrams has been lost a historian never logs again.
theorem exchange_stalled {x next : Exchange.State abi} {actions : List Exchange.Action} (accounting : Accounting x)
    (lost : 0 < x.dropped) (path : Runs Exchange.State.step x actions next) : next.logged = x.logged := by
  have invariant := path.invariant (P := fun y => Accounting y ∧ 0 < y.dropped ∧ y.logged = x.logged) ⟨accounting,lost,rfl⟩ ?_
  · exact invariant.2.2
  · rintro y action after ⟨valid,some,same⟩ taken
    refine ⟨step_accounting valid taken,?_⟩
    have token := valid.token
    rw [Exchange.State.dropped] at some ⊢
    cases Exchange.State.step_moved taken with
    | eventLog here =>
      simp only [here,HistorianAt.token] at token
      omega
    | dropRequest | dropReply => exact ⟨by simp only; omega,same⟩
    | _ => exact ⟨some,same⟩

def State.Pollable (s : State ι abi) (h : ι) : Prop :=
  ∃ later next, Runs State.step s later next ∧ (s.clients h).logged.length < (next.clients h).logged.length

theorem another_poll_iff (ι : Type) [DecidableEq ι] (abi : Abi) (actions : List (Action ι)) :
    Always State.step (fun s => ∀ h, s.Pollable h ↔ (s.clients h).dropped = 0) (.start ι abi) actions := by
  intro s visited h
  have kept := visited.invariant start_kept step_kept
  constructor
  · rintro ⟨later,next,onward,grown⟩
    obtain ⟨x,shown,accounting,_⟩ := kept.shown h
    obtain ⟨seen,x',run,after⟩ := Refines.runs (refines_exchange h) shown onward
    by_contra lost
    rw [Client.dropped,← shown.client] at lost
    have same := exchange_stalled accounting (Nat.pos_of_ne_zero lost) run
    rw [← shown.client,← after.client] at grown
    simp only [side,same] at grown
    omega
  · intro lossless
    obtain ⟨later,next,onward,grown⟩ := completes_lossless kept lossless
    exact ⟨later,next,onward,by omega⟩

end Scada.Polling
