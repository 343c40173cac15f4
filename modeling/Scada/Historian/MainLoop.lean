import Scada.Exchange
import Scada.Historian.LogFormat

namespace Scada.Historian
open Machines LittleEndian
open Exchange (SockaddrIn Incoming)

-- `undefined` is after an event_log call to which C gives no meaning.
inductive LoopAt where
  | sendto | recvfrom | eventLog | exited | undefined
  deriving DecidableEq, Repr

-- `called` are the event_log calls made, each with whether its fopen succeeds.
structure MainLoop (abi : Abi) where
  place : LoopAt
  server : SockaddrIn
  fromAddr : SockaddrIn
  event : List UInt8
  files : Files
  arrived : List Incoming
  called : List (Bool × Status abi)

inductive LoopAction where
  | sendto (sent : Bool)
  | recvfrom (got : Option Incoming)
  | eventLog (opens : Bool)

variable {round : ℚ → ℚ} {abi : Abi}

def cleared (abi : Abi) : List UInt8 := List.replicate (Status.sizeof abi) 0

def received (abi : Abi) (payload : List UInt8) : Status abi := Status.ofBytes abi (Exchange.fill (cleared abi) payload)

namespace MainLoop

-- `from` and `event` are main's own and hold anything at first.
def start (server fromAddr : SockaddrIn) (event : List UInt8) (files : Files) : MainLoop abi :=
  ⟨.sendto,server,fromAddr,event,files,[],[]⟩

def record (s : MainLoop abi) : Status abi := Status.ofBytes abi s.event

def receive (s : MainLoop abi) (d : Incoming) : MainLoop abi :=
  {s with place:=.eventLog,fromAddr:=d.source,event:=Exchange.fill s.event d.payload,arrived:=s.arrived++[d]}

def log (round : ℚ → ℚ) (s : MainLoop abi) (opens : Bool) : MainLoop abi :=
  let called := s.called++[(opens,s.record)]
  match eventLog round opens s.files s.record with
  | some done => {s with place:=.sendto,files:=done.2,called}
  | none => {s with place:=.undefined,called}

def step (round : ℚ → ℚ) (s : MainLoop abi) : LoopAction → Option (MainLoop abi)
  | .sendto sent =>
    if s.place = .sendto then some {s with place:=if sent then .recvfrom else .exited,event:=cleared abi} else none
  | .recvfrom none => if s.place = .recvfrom then some {s with place:=.exited} else none
  | .recvfrom (some d) => if s.place = .recvfrom then some (s.receive d) else none
  | .eventLog opens => if s.place = .eventLog then some (s.log round opens) else none

inductive Moved (round : ℚ → ℚ) (s : MainLoop abi) : LoopAction → MainLoop abi → Prop where
  | sent : s.place = .sendto → Moved round s (.sendto true) {s with place:=.recvfrom,event:=cleared abi}
  | unsent : s.place = .sendto → Moved round s (.sendto false) {s with place:=.exited,event:=cleared abi}
  | got : s.place = .recvfrom → Moved round s (.recvfrom (some d)) (s.receive d)
  | failed : s.place = .recvfrom → Moved round s (.recvfrom none) {s with place:=.exited}
  | logged : s.place = .eventLog → eventLog round opens s.files s.record = some done →
      Moved round s (.eventLog opens) {s with place:=.sendto,files:=done.2,called:=s.called++[(opens,s.record)]}
  | undefined : s.place = .eventLog → eventLog round opens s.files s.record = none →
      Moved round s (.eventLog opens) {s with place:=.undefined,called:=s.called++[(opens,s.record)]}

theorem step_moved {s next : MainLoop abi} {action : LoopAction} (taken : s.step round action = some next) :
    s.Moved round action next := by
  cases action with
  | sendto sent =>
    obtain ⟨here,rfl⟩ := guarded taken
    cases sent <;> constructor <;> exact here
  | recvfrom got =>
    cases got <;>
    · obtain ⟨here,rfl⟩ := guarded taken
      constructor
      exact here
  | eventLog opens =>
    obtain ⟨here,rfl⟩ := guarded taken
    unfold log
    split
    · rename_i done ran
      exact .logged here ran
    · rename_i ran
      exact .undefined here ran

def pending (s : MainLoop abi) : List (Status abi) := if s.place = .eventLog then [s.record] else []

structure Polls (round : ℚ → ℚ) (files : Files) (s : MainLoop abi) : Prop where
  calls : s.called.map Prod.snd++s.pending = s.arrived.map fun d => received abi d.payload
  logs : s.place ≠ .undefined → logAll round s.called files = some s.files

def Clear (s : MainLoop abi) : Prop := s.place = .recvfrom → s.event = cleared abi

theorem step_clear {s next : MainLoop abi} {action : LoopAction} (taken : s.step round action = some next) : next.Clear := by
  cases step_moved taken with
  | sent => exact fun _ => rfl
  | unsent | failed | got | logged | undefined => exact nofun

theorem step_polls {files : Files} {s next : MainLoop abi} {action : LoopAction} (clear : s.Clear)
    (polls : Polls round files s) (taken : s.step round action = some next) : Polls round files next := by
  obtain ⟨calls,logs⟩ := polls
  cases step_moved taken with
  | sent here | unsent here | failed here =>
    simp only [pending,here,reduceCtorEq,if_false] at calls
    exact ⟨by simpa [pending] using calls,fun _ => logs (by simp [here])⟩
  | got here =>
    simp only [pending,here,reduceCtorEq,if_false,List.append_nil] at calls
    refine ⟨?_,fun _ => logs (by simp [here])⟩
    simp [pending,receive,record,calls,clear here,received]
  | @logged opens done here ran =>
    simp only [pending,here,if_true] at calls
    refine ⟨by simpa [pending] using calls,fun _ => ?_⟩
    rw [logAll_append,logs (by simp [here]),Option.bind_some,logAll,ran]
    rfl
  | undefined here =>
    simp only [pending,here,if_true] at calls
    exact ⟨by simpa [pending] using calls,fun defined => absurd rfl defined⟩

theorem visits_polled {server fromAddr : SockaddrIn} {event : List UInt8} {files : Files} {actions : List LoopAction}
    {s : MainLoop abi} (visited : Visits (step round) (.start server fromAddr event files) actions s) :
    s.Clear ∧ s.Polls round files :=
  visited.invariant (P := fun s => s.Clear ∧ s.Polls round files) ⟨nofun,rfl,fun _ => rfl⟩ fun both taken =>
    ⟨step_clear taken,step_polls both.1 both.2 taken⟩

end MainLoop

-- The loop asks nothing of a datagram: whoever sent it, and however short it is,
-- event_log is called with what it leaves in `event`.
theorem every_datagram_logged (round : ℚ → ℚ) (abi : Abi) (server fromAddr : SockaddrIn) (event : List UInt8) (files : Files)
    (actions : List LoopAction) : Always (MainLoop.step round) (MainLoop.Polls round files)
      (.start server fromAddr event files : MainLoop abi) actions := by
  intro s visited
  exact (MainLoop.visits_polled visited).2

-- A reply in the sense of the exchange: from the server, and a whole status_t.
def AskedFor (abi : Abi) (server : SockaddrIn) (d : Incoming) : Prop :=
  d.source = server ∧ Status.sizeof abi ≤ d.payload.length

instance (server : SockaddrIn) (d : Incoming) : Decidable (AskedFor abi server d) := inferInstanceAs (Decidable (_ ∧ _))

theorem stray_datagram_logged : ¬ ∀ (round : ℚ → ℚ) (abi : Abi) server fromAddr event files actions (s : MainLoop abi),
    Runs (MainLoop.step round) (.start server fromAddr event files) actions s → s.place = .sendto →
      s.called.map Prod.snd = (s.arrived.filter (AskedFor abi s.server ·)).map fun d => received abi d.payload := by
  intro only
  let stray : Incoming := ⟨⟨2,4000,0x0A000009⟩,[]⟩
  obtain ⟨s,path,seen⟩ := run_observed (MainLoop.step id)
    (.start ⟨2,4000,0x0A000001⟩ .unset [] (fun _ => none) : MainLoop .ilp32)
    [.sendto true,.recvfrom (some stray),.eventLog true]
    (fun s => (s.place,s.called.length,(s.arrived.filter (AskedFor .ilp32 s.server ·)).length)) (.sendto,1,0) (by decide +kernel)
  simp only [Prod.mk.injEq] at seen
  obtain ⟨place,called,asked⟩ := seen
  have same := congrArg List.length (only id .ilp32 _ _ _ _ _ s path place)
  rw [List.length_map,List.length_map,called,asked] at same
  cases same

end Scada.Historian
