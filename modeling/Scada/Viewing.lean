import Scada.Historian.LogView
import Scada.Historian.MainLoop

namespace Scada.Viewing
open Historian Delimited KeySorts LossyLinks Machines

-- `viewed` are the records whose calls had completed when log_view last started.
structure Station (abi : Abi) where
  exchange : Exchange.State abi
  files : Files
  viewed : List (Status abi)

inductive Action where
  | exchange (a : Exchange.Action)
  | logView
  deriving DecidableEq

variable {round : ℚ → ℚ} {abi : Abi}

namespace Station

-- Nothing is in the files that are present. rtu.c leaves `buf1`, the content of
-- its replies, all zeros.
def start (abi : Abi) (present : Text → Bool) (buf1 : List UInt8) : Station abi :=
  ⟨{Exchange.State.start abi with buf1},fun name => if present name then some [] else none,[]⟩

def events (s : Station abi) : List (Status abi) := s.exchange.logged.map (·.event)

def log (round : ℚ → ℚ) (s : Station abi) : Exchange.Action → Option Files
  | .eventLog => (eventLog round true s.files (Status.ofBytes abi s.exchange.event)).map Prod.snd
  | _ => some s.files

def step (round : ℚ → ℚ) (s : Station abi) : Action → Option (Station abi)
  | .exchange a => (s.exchange.step a).bind fun exchange => (s.log round a).map fun files => {s with exchange,files}
  | .logView => some {s with files:=(logView s.files).1,viewed:=s.events}

inductive Moved (round : ℚ → ℚ) (s : Station abi) : Action → Station abi → Prop where
  | logged : s.exchange.historian = .eventLog →
      eventLog round true s.files (Status.ofBytes abi s.exchange.event) = some done →
      Moved round s (.exchange .eventLog) {s with exchange:=s.exchange.eventLog,files:=done.2}
  | moved : s.exchange.Moved a later → a ≠ .eventLog → Moved round s (.exchange a) {s with exchange:=later}
  | viewed : Moved round s .logView {s with files:=(logView s.files).1,viewed:=s.events}

theorem step_moved {s next : Station abi} {action : Action} (taken : s.step round action = some next) :
    s.Moved round action next := by
  cases action with
  | logView => exact Option.some.inj taken ▸ .viewed
  | exchange a =>
    obtain ⟨exchange,exchanged,rest⟩ := Option.bind_eq_some_iff.mp taken
    obtain ⟨files,written,rfl⟩ := Option.map_eq_some_iff.mp rest
    have moved := Exchange.State.step_moved exchanged
    by_cases logs : a = .eventLog
    · subst logs
      obtain ⟨done,ran,rfl⟩ := Option.map_eq_some_iff.mp written
      cases moved with
      | eventLog here => exact .logged here ran
    · have same : some s.files = some files := by
        cases a <;> first | exact written | exact absurd rfl logs
      cases Option.some.inj same
      exact .moved moved logs

end Station

structure Carries (buf1 : List UInt8) (x : Exchange.State abi) : Prop where
  buffer : x.buf1 = buf1
  replies : ∀ d ∈ x.replies.inFlight, d.payload = buf1
  fresh : x.historian = .recvfrom → x.event = cleared abi
  filled : x.historian = .eventLog → Status.ofBytes abi x.event = received abi buf1
  logged : ∀ entry ∈ x.logged, entry.event = received abi buf1

theorem start_carries (buf1 : List UInt8) : Carries buf1 {Exchange.State.start abi with buf1} :=
  ⟨rfl,nofun,nofun,nofun,nofun⟩

theorem step_carries {buf1 : List UInt8} {x next : Exchange.State abi} {a : Exchange.Action} (carries : Carries buf1 x)
    (moved : x.Moved a next) : Carries buf1 next := by
  obtain ⟨own,replies,fresh,filled,logged⟩ := carries
  have sends := Exchange.State.step_sends ⟨own,replies⟩ moved
  refine ⟨sends.buffer,sends.replies,?_,?_,?_⟩
  · cases moved with
    | sendRequest => exact fun _ => rfl
    | receiveReply | eventLog => exact nofun
    | _ => exact fresh
  · cases moved with
    | sendRequest | eventLog => exact nofun
    | receiveReply here got =>
      intro _
      simp only [Exchange.State.receiveReply,fresh here,replies _ (Link.mem_receive got (.inl rfl)),received]
    | _ => exact filled
  · cases moved with
    | eventLog here =>
      intro entry member
      rcases List.mem_append.mp member with old | new
      · exact logged entry old
      · rw [List.mem_singleton.mp new]
        exact filled here
    | _ => exact logged

-- log_view reads the files of RTUs 1 and 2 only.
def Readable (event : Status abi) : Prop := event.rtuId = 1 ∨ event.rtuId = 2

instance (event : Status abi) : Decidable (Readable event) := inferInstanceAs (Decidable (_ ∨ _))

def line (round : ℚ → ℚ) (event : Status abi) : Text := (logLine round event).getD []

def Station.shown (s : Station abi) : List Text := pieces '\n' ((s.files eventLogTxt).getD [])

def Station.Viewable (round : ℚ → ℚ) (s : Station abi) : Prop := s.shown.Perm (s.viewed.map (line round))

structure Filed (round : ℚ → ℚ) (s : Station abi) : Prop where
  own : ∀ rtuId, Written round (s.events.filter (·.rtuId = rtuId)) (s.files (filename rtuId))
  shown : s.shown.Perm ((s.viewed.filter (Readable ·)).map (line round))

theorem eventLogTxt_other (rtuId : Word) : filename rtuId ≠ eventLogTxt := by
  intro same
  have starts : "rtu_".toList = 'r'::"tu_".toList := rfl
  rw [filename,starts,List.append_assoc,List.cons_append] at same
  exact absurd (List.cons.inj same).1 (by decide)

theorem lines_of {records : List (Status abi)} {lines : List Text}
    (each : List.Forall₂ (fun record line => logLine round record = some line) records lines) :
    lines = records.map (line round) := by
  induction each with
  | nil => rfl
  | cons own _ previous => rw [List.map_cons,line,own,← previous,Option.getD_some]

theorem readable_split (records : List (Status abi)) :
    (records.filter (·.rtuId = 1)++records.filter (·.rtuId = 2)).Perm (records.filter (Readable ·)) := by
  have split := List.filter_append_perm (fun event : Status abi => decide (event.rtuId = 1)) (records.filter (Readable ·))
  rw [List.filter_filter,List.filter_filter] at split
  have first : records.filter (fun event => decide (event.rtuId = 1) && decide (Readable event)) =
      records.filter (·.rtuId = 1) := by
    apply List.filter_congr
    intro event _
    by_cases one : event.rtuId = 1 <;> simp only [Readable,one,decide_true,decide_false,true_or,Bool.and_true,Bool.false_and]
  have second : records.filter (fun event => (!decide (event.rtuId = 1)) && decide (Readable event)) =
      records.filter (·.rtuId = 2) := by
    apply List.filter_congr
    intro event _
    by_cases one : event.rtuId = 1
    · have other : (1 : Word) ≠ 2 := by decide
      simp only [one,other,decide_true,decide_false,Bool.not_true,Bool.false_and]
    · simp only [Readable,one,false_or,decide_false,Bool.not_false,Bool.true_and]
  rwa [first,second] at split

theorem logView_shows {files : Files} {events : List (Status abi)}
    (own : ∀ rtuId, Written round (events.filter (·.rtuId = rtuId)) (files (filename rtuId))) :
    (pieces '\n' (((logView files).1 eventLogTxt).getD [])).Perm ((events.filter (Readable ·)).map (line round)) := by
  obtain ⟨first,left,content1⟩ := own 1
  obtain ⟨second,right,content2⟩ := own 2
  have file1 : filename 1 = "rtu_1_log.txt".toList := by decide
  have file2 : filename 2 = "rtu_2_log.txt".toList := by decide
  rw [file1] at content1
  rw [file2] at content2
  rw [logView_lines files left right content1 content2]
  refine (keySort_perm _ _).trans ?_
  rw [lines_of left,lines_of right,← List.map_append]
  exact (readable_split events).map _

theorem step_filed {s next : Station abi} {action : Action} (filed : Filed round s) (taken : s.step round action = some next) :
    Filed round next := by
  obtain ⟨own,shown⟩ := filed
  cases Station.step_moved taken with
  | @logged done here ran =>
    constructor
    · intro rtuId
      have written := eventLog_written (show _ = some (done.1,done.2) from ran) own rtuId
      have grown : Station.events ({s with exchange:=s.exchange.eventLog,files:=done.2} : Station abi) =
          s.events++[Status.ofBytes abi s.exchange.event] := by simp [Station.events,Exchange.State.eventLog]
      rw [grown,List.filter_append]
      by_cases mine : (Status.ofBytes abi s.exchange.event).rtuId = rtuId
      · simpa [recorded,mine] using written
      · simpa [recorded,mine] using written
    · have kept := eventLog_other ran (Ne.symm (eventLogTxt_other _))
      simpa only [Station.shown,kept] using shown
  | @moved a later moved other =>
    have same : Station.events ({s with exchange:=later} : Station abi) = s.events := by
      cases moved with
      | eventLog => exact absurd rfl other
      | _ => rfl
    exact ⟨fun rtuId => same ▸ own rtuId,shown⟩
  | viewed =>
    constructor
    · intro rtuId
      simp only [logView_other s.files (eventLogTxt_other rtuId)]
      exact own rtuId
    · exact logView_shows own

theorem start_filed (present : Text → Bool) (buf1 : List UInt8) : Filed round (Station.start abi present buf1) := by
  have empty : ∀ name, ((Station.start abi present buf1).files name).getD [] = [] := by
    intro name
    simp only [Station.start]
    split <;> rfl
  refine ⟨fun rtuId => ⟨[],.nil,empty _⟩,?_⟩
  rw [Station.shown,empty]
  exact .nil

structure Kept (round : ℚ → ℚ) (buf1 : List UInt8) (s : Station abi) : Prop where
  carries : Carries buf1 s.exchange
  filed : Filed round s

theorem start_kept (present : Text → Bool) (buf1 : List UInt8) : Kept round buf1 (Station.start abi present buf1) :=
  ⟨start_carries buf1,start_filed present buf1⟩

theorem step_kept {buf1 : List UInt8} {s next : Station abi} {action : Action} (kept : Kept round buf1 s)
    (taken : s.step round action = some next) : Kept round buf1 next := by
  refine ⟨?_,step_filed kept.filed taken⟩
  cases Station.step_moved taken with
  | logged here => exact step_carries kept.carries (.eventLog here)
  | moved moved => exact step_carries kept.carries moved
  | viewed => exact kept.carries

theorem viewable_iff {s : Station abi} (filed : Filed round s) : s.Viewable round ↔ ∀ event ∈ s.viewed, Readable event := by
  constructor
  · intro viewable
    have lengths := (viewable.symm.trans filed.shown).length_eq
    rw [List.length_map,List.length_map] at lengths
    have all := List.length_filter_eq_length_iff.mp lengths.symm
    exact fun event member => of_decide_eq_true (all event member)
  · intro all
    have whole : s.viewed.filter (Readable ·) = s.viewed :=
      List.filter_eq_self.mpr fun event member => decide_eq_true (all event member)
    have shown := filed.shown
    rwa [whole] at shown

def Station.Numbered (s : Station abi) : Action → Prop
  | .exchange _ => True
  | .logView => s.exchange.logged = [] ∨ Readable (received abi s.exchange.buf1)

theorem numbered_iff {buf1 : List UInt8} {s : Station abi} (carries : Carries buf1 s.exchange) :
    s.Numbered .logView ↔ ∀ event ∈ s.events, Readable event := by
  simp only [Station.Numbered,Station.events,List.forall_mem_map,carries.buffer]
  constructor
  · rintro (none | readable) entry member
    · rw [none] at member
      cases member
    · rw [carries.logged entry member]
      exact readable
  · intro all
    cases logged : s.exchange.logged with
    | nil => exact .inl rfl
    | cons entry rest =>
      have member : entry ∈ s.exchange.logged := by simp [logged]
      exact .inr (carries.logged entry member ▸ all entry member)

theorem viewed_iff_numbered (round : ℚ → ℚ) (abi : Abi) (present : Text → Bool) (buf1 : List UInt8) (actions : List Action) :
    Always (Station.step round) (Station.Viewable round) (.start abi present buf1) actions ↔
      ∀ s action next, Takes (Station.step round) (.start abi present buf1) actions s action next → s.Numbered action := by
  refine always_iff_takes (J := fun s => Kept round buf1 s ∧ ∀ event ∈ s.viewed, Readable event)
    ⟨start_kept present buf1,nofun⟩ (fun both => (viewable_iff both.1.filed).mpr both.2) ?_ ?_
  · intro s action next both taken numbered
    refine ⟨step_kept both.1 taken,?_⟩
    cases Station.step_moved taken with
    | logged | moved => exact both.2
    | viewed => exact (numbered_iff both.1.carries).mp numbered
  · intro s action next visited taken _ viewable
    have kept := visited.invariant (start_kept present buf1) step_kept
    have readable := (viewable_iff (step_kept kept taken).filed).mp viewable
    cases Station.step_moved taken with
    | logged | moved => trivial
    | viewed => exact (numbered_iff kept.carries).mpr readable

-- The RTU as it is: one poll, and the user asks for the log.
theorem logged_event_unviewed : ¬ ∀ (round : ℚ → ℚ) (abi : Abi) present actions (s : Station abi),
    Runs (Station.step round) (.start abi present (List.replicate Exchange.msgSize 0)) actions s → s.Viewable round := by
  intro viewable
  let poll : List Action := [.sendRequest,.deliverRequest 0,.receiveRequest,.sendReply,.deliverReply 0,.receiveReply,.eventLog].map
    .exchange
  obtain ⟨s,path,seen⟩ := run_observed (Station.step id)
    (.start .ilp32 (fun _ => false) (List.replicate Exchange.msgSize 0)) (poll++[.logView])
    (fun s => (s.shown.length,s.viewed.length)) (0,1) (by decide +kernel)
  have lengths := (viewable _ _ _ _ s path).length_eq
  rw [List.length_map,(Prod.mk.inj seen).1,(Prod.mk.inj seen).2] at lengths
  cases lengths

end Scada.Viewing
