import Scada.Exchange
import Scada.Rtu.Reader

namespace Scada.Delivery
open Kernel Programs BoundedQueues LossyLinks Machines

-- Both machines lay out status_t as the kernel module does.
structure System where
  reader : Rtu.Reader
  exchange : Exchange.State .ilp32

inductive Action where
  | rtu (a : Rtu.Action)
  | exchange (a : Exchange.Action)

def room (r : Rtu.Reader) : Rtu.Action → Bool
  | .interrupt _ => match r.board.fifo with
    | some q => decide (Status.sizeof .ilp32 ≤ q.free)
    | none => false
  | .read => true

def lossless : Exchange.Action → Bool
  | .dropRequest _ | .dropReply _ => false
  | _ => true

namespace System

def start (before : Board) (setup : Nat → Oracle) (capacity : Nat) : System :=
  ⟨.start before setup capacity,.start .ilp32⟩

def step (s : System) : Action → Option System
  | .rtu a => if room s.reader a then (s.reader.step a).map fun reader => {s with reader} else none
  | .exchange a => if lossless a then (s.exchange.step a).map fun exchange => {s with exchange} else none

theorem step_cases {s next : System} {action : Action} (taken : s.step action = some next) :
    (∃ a reader, action = .rtu a ∧ s.reader.step a = some reader ∧ next = ⟨reader,s.exchange⟩) ∨
    ∃ a exchange, action = .exchange a ∧ s.exchange.step a = some exchange ∧ next = ⟨s.reader,exchange⟩ := by
  cases action with
  | rtu a =>
    simp only [step] at taken
    split at taken
    · obtain ⟨reader,moved,rfl⟩ := Option.map_eq_some_iff.mp taken
      exact .inl ⟨a,reader,rfl,moved,rfl⟩
    · cases taken
  | exchange a =>
    simp only [step] at taken
    split at taken
    · obtain ⟨exchange,moved,rfl⟩ := Option.map_eq_some_iff.mp taken
      exact .inr ⟨a,exchange,rfl,moved,rfl⟩
    · cases taken

end System

def facts (st : Status .ilp32) : Word × Timeval .ilp32 × (Button → Word) × Word :=
  (st.eventType,st.eventTv,st.buttonStatus,st.lineVoltage)

def System.Delivered (s : System) : Prop :=
  s.exchange.logged.map (fun entry => facts entry.event) <+: s.reader.puts.map facts

-- `buf1`, the buffer of every reply, is never written.
structure Blank (x : Exchange.State .ilp32) : Prop where
  buf1 : x.buf1 = List.replicate Exchange.msgSize 0
  replies : ∀ d ∈ x.replies.inFlight, d.payload = List.replicate Exchange.msgSize 0
  event : x.event = List.replicate (Status.sizeof .ilp32) 0
  logged : ∀ entry ∈ x.logged, entry.event = Status.zero .ilp32

theorem fill_zero {size count : Nat} (covers : size ≤ count) :
    Exchange.fill (List.replicate size 0) (List.replicate count 0) = List.replicate size 0 := by
  simp [Exchange.fill,covers]

theorem start_blank : Blank (.start .ilp32) := ⟨rfl,nofun,rfl,nofun⟩

theorem step_blank {x next : Exchange.State .ilp32} {a : Exchange.Action} (blank : Blank x)
    (taken : x.step a = some next) : Blank next := by
  obtain ⟨buf1,replies,event,logged⟩ := blank
  have moved := Exchange.State.step_moved taken
  have sends := Exchange.State.step_sends ⟨buf1,replies⟩ moved
  refine ⟨sends.buffer,sends.replies,?_,?_⟩
  · cases moved with
    | sendRequest => rfl
    | receiveReply here got =>
      simp only [Exchange.State.receiveReply,event,replies _ (Link.mem_receive got (.inl rfl))]
      exact fill_zero (by decide)
    | _ => exact event
  · cases moved with
    | eventLog =>
      intro entry member
      rcases List.mem_append.mp member with old | new
      · exact logged entry old
      · rw [List.mem_singleton.mp new,event]
        exact Status.ofBytes_zero .ilp32 _
    | _ => exact logged

def Charged (r : Rtu.Reader) : Prop := ∀ record ∈ r.puts, record.lineVoltage = 555

theorem start_charged (before : Board) (setup : Nat → Oracle) (capacity : Nat) :
    Charged (.start before setup capacity) := nofun

theorem step_charged {r next : Rtu.Reader} {a : Rtu.Action} (charged : Charged r) (taken : r.step a = some next) :
    Charged next := by
  cases Rtu.Reader.step_moved taken with
  | silent | read => exact charged
  | put =>
    intro record member
    rcases List.mem_append.mp member with old | new
    · exact charged record old
    · rw [List.mem_singleton.mp new]; rfl

theorem visits_blank {before : Board} {setup : Nat → Oracle} {capacity : Nat} {actions : List Action} {s : System}
    (visited : Visits System.step (.start before setup capacity) actions s) : Blank s.exchange ∧ Charged s.reader := by
  refine visited.invariant (P := fun s => Blank s.exchange ∧ Charged s.reader)
    ⟨start_blank,start_charged before setup capacity⟩ ?_
  intro s action next both taken
  rcases System.step_cases taken with ⟨a,reader,_,moved,rfl⟩ | ⟨a,exchange,_,moved,rfl⟩
  · exact ⟨both.1,step_charged both.2 moved⟩
  · exact ⟨step_blank both.1 moved,both.2⟩

theorem step_unlogged {s next : System} {action : Action} (none : s.exchange.logged = [])
    (taken : s.step action = some next) (other : action ≠ .exchange .eventLog) : next.exchange.logged = [] := by
  rcases System.step_cases taken with ⟨a,reader,_,_,rfl⟩ | ⟨a,exchange,same,moved,rfl⟩
  · exact none
  · cases Exchange.State.step_moved moved with
    | eventLog => exact absurd same other
    | _ => exact none

-- What has been logged is a prefix of what has been put only as long as nothing
-- has been logged.
theorem delivered_iff_unlogged (before : Board) (setup : Nat → Oracle) (capacity : Nat) (actions : List Action) :
    Always System.step System.Delivered (.start before setup capacity) actions ↔
      ∀ s action next, Takes System.step (.start before setup capacity) actions s action next →
        action ≠ .exchange .eventLog := by
  refine always_iff_takes (J := fun s => s.exchange.logged = []) rfl ?_ step_unlogged ?_
  · intro s none
    simp [System.Delivered,none]
  · intro s action next visited taken _ delivered logs
    obtain ⟨blank,charged⟩ := visits_blank visited
    rcases System.step_cases taken with ⟨a,reader,same,_,_⟩ | ⟨a,exchange,same,moved,rfl⟩
    · cases same.symm.trans logs
    · cases same.symm.trans logs
      have later := step_blank blank moved
      cases Exchange.State.step_moved moved with
      | eventLog here =>
        let entry : Exchange.Logged .ilp32 := ⟨Status.ofBytes .ilp32 s.exchange.event,s.exchange.answered,s.exchange.requestsSent⟩
        have last : entry ∈ s.exchange.eventLog.logged := by simp [Exchange.State.eventLog,entry]
        have kept := delivered.subset (List.mem_map_of_mem last)
        obtain ⟨record,member,same⟩ := List.mem_map.mp kept
        have voltage := congrArg (fun f => f.2.2.2) same
        simp only [facts,charged record member,later.logged entry last] at voltage
        exact absurd voltage (by decide)

theorem pressed_button_undelivered : ¬ ∀ before setup capacity actions s,
    Runs System.step (.start before setup capacity) actions s → s.Delivered := by
  intro all
  let poll : List Action := [.sendRequest,.deliverRequest 0,.receiveRequest,.sendReply,.deliverReply 0,.receiveReply,.eventLog].map
    .exchange
  obtain ⟨s,path,seen⟩ := run_observed System.step (.start .off (fun _ => .uneventful) 40)
    ([.rtu (.interrupt fun _ => .pressed),.rtu .read]++poll)
    (fun s => (s.exchange.logged.map (·.event.lineVoltage),s.reader.puts.map (·.lineVoltage)))
    ([0],[555]) (by decide +kernel)
  obtain ⟨logged,puts⟩ := Prod.mk.inj seen
  have delivered := (all _ _ _ _ s path).map (fun f => f.2.2.2)
  simp only [List.map_map] at delivered
  have voltages : [0] <+: [(555 : Word)] := by
    rw [← logged,← puts]; exact delivered
  exact absurd voltages (by decide)

end Scada.Delivery
