import Scada.Delivery
import Scada.Library.Decimal
import Scada.Library.Delimited
import Scada.Rtu.Sender

namespace Scada.Rtu
open Kernel Decimals Delimited Machines

abbrev Text := List Char

-- htons keeps the lower half of the int.
def port (argv : List Text) : BitVec 16 := BitVec.ofInt 16 (atoi Abi.ilp32.long (argv.getD 1 []))

def stamp (tv : Timeval .ilp32) : Text := decimal tv.tvSec.toInt++ '.'::decimal tv.tvUsec.toInt

def reportLines (events : Status .ilp32) : List (List Text) := [
  [[],"RTU_ID: 5".toList],
  ["Button 1: ".toList++decimal (events.buttonStatus 0).toInt],
  ["Button 2: ".toList++decimal (events.buttonStatus 1).toInt],
  ["Button 3: ".toList++decimal (events.buttonStatus 2).toInt],
  ["Time Stamp: ".toList++stamp events.eventTv],
  ["Events: ".toList++decimal events.eventType.toInt],
  ["Voltage: ".toList++decimal events.lineVoltage.toInt]]

def reports (events : Status .ilp32) : List Text := (reportLines events).map (terminate '\n')

inductive MainAt where
  | args | socket | bind | setsockopt | createReader | createSender | ready | join
  deriving DecidableEq

-- `left` are the texts of the structure last read that are still to be printed.
inductive ReaderAt where
  | opening
  | reading (fifo1 : Bool) (left : List Text)

-- `complaint` is what a failing main leaves on stderr, up to what perror adds.
structure Process where
  argv : List Text
  kernel : Reader
  main : MainAt
  bound : Option (BitVec 16)
  broadcast : Bool
  reader : Option ReaderAt
  sender : Option Sender
  console : Text
  complaint : Text
  exited : Option Nat

inductive Doing where
  | interrupt (inputs : Nat → Oracle)
  | main (ok : Bool)
  | opened (ok : Bool)
  | read (ok : Bool)
  | printf
  | sender (a : SenderAction)

namespace Process

def start (argv : List Text) (before : Board) (setup : Nat → Oracle) (capacity : Nat) : Process :=
  ⟨argv,.start before setup capacity,.args,none,false,none,none,[],[],none⟩

def exit (p : Process) (status : Int) : Process := {p with exited:=some (status % 256).toNat}

def error (p : Process) (msg : Text) : Process := {p with complaint:=msg}.exit 0

def advance (p : Process) (ok : Bool) : Option Process := match p.main with
  | .args => some (if p.argv.length < 2 then {p with complaint:="ERROR, no port provided\n".toList}.exit 0
      else {p with main:=.socket})
  | .socket => some (if ok then {p with main:=.bind} else p.error "Opening socket".toList)
  | .bind => some (if ok then {p with main:=.setsockopt,bound:=some (port p.argv)} else p.error "binding".toList)
  | .setsockopt => some (if ok then {p with main:=.createReader,broadcast:=true}
      else {p with console:=p.console++terminate '\n' ["error setting socket options".toList]}.exit (-1))
  | .createReader => some {p with main:=.createSender,reader:=if ok then some .opening else none}
  | .createSender => some {p with main:=.ready,sender:=if ok then some .start else none}
  | .ready => some {p with main:=.join,console:=p.console++terminate '\n' ["Ready".toList]}
  -- The reader never returns, and without one the handle to join was never set.
  | .join => if p.reader.isNone then some (p.exit 0) else none

def step (p : Process) : Doing → Option Process
  | .interrupt inputs => (p.kernel.step (.interrupt inputs)).map fun kernel => {p with kernel}
  | .main ok => if p.exited = none then p.advance ok else none
  | .opened ok => match p.exited,p.reader with
    | none,some .opening => some {p with reader:=some (.reading ok [])}
    | _,_ => none
  | .read true => match p.exited,p.reader with
    | none,some (.reading true []) => (p.kernel.step .read).map fun kernel =>
      {p with kernel,reader:=some (.reading true ((kernel.events.getLast?.map reports).getD []))}
    | _,_ => none
  | .read false => match p.exited,p.reader with
    | none,some (.reading _ []) => some (p.exit 1)
    | _,_ => none
  | .printf => match p.exited,p.reader with
    | none,some (.reading fifo1 (text::left)) => some {p with console:=p.console++text,reader:=some (.reading fifo1 left)}
    | _,_ => none
  | .sender a => match p.exited,p.sender with
    | none,some sender => (sender.step a).map fun sender => {p with sender:=some sender}
    | _,_ => none

inductive Moved (p : Process) : Doing → Process → Prop where
  | interrupt {next : Reader} : p.kernel.step (.interrupt inputs) = some next → Moved p (.interrupt inputs) {p with kernel:=next}
  | main : p.exited = none → p.advance ok = some later → Moved p (.main ok) later
  | opened : p.exited = none → p.reader = some .opening → Moved p (.opened ok) {p with reader:=some (.reading ok [])}
  | read {next : Reader} : p.exited = none → p.reader = some (.reading true []) → p.kernel.step .read = some next →
      Moved p (.read true) {p with kernel:=next,reader:=some (.reading true ((next.events.getLast?.map reports).getD []))}
  | failed : p.exited = none → p.reader = some (.reading fifo1 []) → Moved p (.read false) (p.exit 1)
  | printf : p.exited = none → p.reader = some (.reading fifo1 (text::left)) →
      Moved p .printf {p with console:=p.console++text,reader:=some (.reading fifo1 left)}
  | sender {now next : Sender} : p.exited = none → p.sender = some now → now.step a = some next →
      Moved p (.sender a) {p with sender:=some next}

theorem step_moved {p next : Process} {action : Doing} (taken : p.step action = some next) : p.Moved action next := by
  cases action with
  | interrupt inputs =>
    simp only [step] at taken
    obtain ⟨kernel,moved,rfl⟩ := Option.map_eq_some_iff.mp taken
    exact .interrupt moved
  | main ok =>
    simp only [step] at taken
    split at taken
    · rename_i running; exact .main running taken
    · cases taken
  | opened ok =>
    simp only [step] at taken
    split at taken
    · rename_i running opening; cases taken; exact .opened running opening
    · cases taken
  | read ok =>
    cases ok <;> simp only [step] at taken <;> split at taken
    · rename_i running reading; cases taken; exact .failed running reading
    · cases taken
    · rename_i running reading
      obtain ⟨kernel,moved,rfl⟩ := Option.map_eq_some_iff.mp taken
      exact .read running reading moved
    · cases taken
  | printf =>
    simp only [step] at taken
    split at taken
    · rename_i running reading; cases taken; exact .printf running reading
    · cases taken
  | sender a =>
    simp only [step] at taken
    split at taken
    · rename_i running there
      obtain ⟨sender,moved,rfl⟩ := Option.map_eq_some_iff.mp taken
      exact .sender running there moved
    · cases taken

def Stage (p : Process) : MainAt → Prop
  | .args | .socket | .bind => p.bound = none ∧ p.broadcast = false ∧ p.reader = none ∧ p.sender = none ∧
      ∀ status, p.exited = some status → status = 0
  | .setsockopt => p.bound = some (port p.argv) ∧ p.broadcast = false ∧ p.reader = none ∧ p.sender = none ∧
      ∀ status, p.exited = some status → status = 255
  | .createReader => p.bound = some (port p.argv) ∧ p.broadcast = true ∧ p.reader = none ∧ p.sender = none ∧ p.exited = none
  | .createSender | .ready | .join => p.bound = some (port p.argv) ∧ p.broadcast = true ∧
      ∀ status, p.exited = some status → status = if p.reader = none then 0 else 1

theorem stage_reader {p : Process} {place : MainAt} {now : ReaderAt} (stage : p.Stage place) (there : p.reader = some now)
    (later : ReaderAt) : Stage {p with reader:=some later} place := by
  cases place with
  | args | socket | bind | setsockopt | createReader =>
    obtain ⟨_,_,none,_⟩ := stage
    cases there.symm.trans none
  | createSender | ready | join =>
    obtain ⟨bound,broadcast,ended⟩ := stage
    refine ⟨bound,broadcast,fun status gone => ?_⟩
    rw [ended status gone,there]
    rfl

theorem stage_sender {p : Process} {place : MainAt} {now : Sender} (stage : p.Stage place) (there : p.sender = some now)
    (later : Sender) : Stage {p with sender:=some later} place := by
  cases place with
  | args | socket | bind | setsockopt | createReader =>
    obtain ⟨_,_,_,none,_⟩ := stage
    cases there.symm.trans none
  | createSender | ready | join => exact stage

theorem stage_failed {p : Process} {place : MainAt} {now : ReaderAt} (stage : p.Stage place) (there : p.reader = some now) :
    (p.exit 1).Stage place := by
  cases place with
  | args | socket | bind | setsockopt | createReader =>
    obtain ⟨_,_,none,_⟩ := stage
    cases there.symm.trans none
  | createSender | ready | join =>
    obtain ⟨bound,broadcast,_⟩ := stage
    refine ⟨bound,broadcast,fun status gone => ?_⟩
    rw [show (p.exit 1).reader = some now from there]
    exact (Option.some.inj gone).symm

theorem advance_stage {p next : Process} {ok : Bool} (stage : p.Stage p.main) (running : p.exited = none)
    (taken : p.advance ok = some next) : next.Stage next.main := by
  have alive : ∀ code status, p.exited = some status → status = code := fun _ _ ended => by cases running.symm.trans ended
  have dead : ∀ code : Nat, ∀ status, some code = some status → status = code := fun _ _ same => (Option.some.inj same).symm
  cases place : p.main <;> rw [place] at stage <;> simp only [advance,place] at taken
  case args =>
    obtain ⟨bound,broadcast,reader,sender,_⟩ := stage
    split at taken <;> cases taken
    · exact ⟨bound,broadcast,reader,sender,dead 0⟩
    · exact ⟨bound,broadcast,reader,sender,alive 0⟩
  case socket =>
    obtain ⟨bound,broadcast,reader,sender,_⟩ := stage
    split at taken <;> cases taken
    · exact ⟨bound,broadcast,reader,sender,alive 0⟩
    · rw [error,exit,place]
      exact ⟨bound,broadcast,reader,sender,dead 0⟩
  case bind =>
    obtain ⟨bound,broadcast,reader,sender,_⟩ := stage
    split at taken <;> cases taken
    · exact ⟨rfl,broadcast,reader,sender,alive 255⟩
    · rw [error,exit,place]
      exact ⟨bound,broadcast,reader,sender,dead 0⟩
  case setsockopt =>
    obtain ⟨bound,broadcast,reader,sender,_⟩ := stage
    split at taken <;> cases taken
    · exact ⟨bound,rfl,reader,sender,running⟩
    · exact ⟨bound,broadcast,reader,sender,dead 255⟩
  case createReader | createSender =>
    obtain ⟨bound,broadcast,_⟩ := stage
    cases taken
    exact ⟨bound,broadcast,fun _ gone => by cases running.symm.trans gone⟩
  case ready =>
    cases taken
    exact stage
  case join =>
    obtain ⟨bound,broadcast,_⟩ := stage
    obtain ⟨none,rfl⟩ := guarded taken
    rw [exit,place]
    refine ⟨bound,broadcast,fun status gone => ?_⟩
    rw [if_pos (Option.isNone_iff_eq_none.mp none)]
    exact (Option.some.inj gone).symm

theorem step_stage {p next : Process} {action : Doing} (stage : p.Stage p.main) (taken : p.step action = some next) :
    next.Stage next.main := by
  cases p.step_moved taken with
  | interrupt moved => exact stage
  | main running taken => exact advance_stage stage running taken
  | opened _ there => exact stage_reader stage there _
  | read _ there moved => exact stage_reader (p := {p with kernel:=_}) stage there _
  | failed _ there => exact stage_failed stage there
  | printf _ there => exact stage_reader (p := {p with console:=_}) stage there _
  | sender _ there moved => exact stage_sender stage there _

end Process

def chatter : List Text := ["Ready".toList,"error setting socket options".toList]

def number (line : Text) : Word := BitVec.ofInt 32 ⌊numeric line⌋

def told : List Text → List (Word × Timeval .ilp32 × (Button → Word) × Word)
  | _::_::btn1::btn2::btn3::stamp::event::voltage::rest =>
    (number (event.drop 8),⟨number (upTo '.' (stamp.drop 12)),number (after '.' stamp)⟩,
      ![number (btn1.drop 10),number (btn2.drop 10),number (btn3.drop 10)],number (voltage.drop 9))::told rest
  | _ => []

def tells (console : Text) : List (Word × Timeval .ilp32 × (Button → Word) × Word) :=
  told ((pieces '\n' console).filter (· ∉ chatter))

theorem number_decimal (word : Word) : number (decimal word.toInt) = word := by
  have stops : Stops [] := ⟨rfl,nofun⟩
  have value := numeric_decimal word.toInt stops
  rw [List.append_nil] at value
  rw [number,value,Int.floor_intCast,BitVec.ofInt_toInt]

-- Each number of a report is what follows its label, of the time stamp up to
-- the point and after it.
theorem told_report (e : Status .ilp32) (rest : List Text) :
    told ((reportLines e).flatten++rest) = Delivery.facts e::told rest := by
  have seconds : upTo '.' (("Time Stamp: ".toList++stamp e.eventTv).drop 12) = decimal e.eventTv.tvSec.toInt :=
    upTo_append (decimal_clean _ (by decide)) _
  have micros : after '.' ("Time Stamp: ".toList++stamp e.eventTv) = decimal e.eventTv.tvUsec.toInt := by
    rw [stamp,← List.append_assoc]
    refine after_append ?_ _
    intro member
    rcases List.mem_append.mp member with word | digits
    · exact absurd word (by decide)
    · exact decimal_clean _ (by decide) digits
  have buttons : ![e.buttonStatus 0,e.buttonStatus 1,e.buttonStatus 2] = e.buttonStatus := by
    funext i
    fin_cases i <;> rfl
  have dropped : ∀ (label : Text) (k : Nat) (word : Word), label.length = k → number ((label++decimal word.toInt).drop k) = word := by
    rintro label _ word rfl
    rw [List.drop_left,number_decimal]
  simp only [reportLines,List.flatten_cons,List.flatten_nil,List.cons_append,List.nil_append,List.append_nil,told,seconds,micros]
  rw [dropped _ 8 _ rfl,dropped _ 10 _ rfl,dropped _ 10 _ rfl,dropped _ 10 _ rfl,dropped _ 9 _ rfl,buttons]
  have sec : number (decimal e.eventTv.tvSec.toInt) = e.eventTv.tvSec := number_decimal e.eventTv.tvSec
  have usec : number (decimal e.eventTv.tvUsec.toInt) = e.eventTv.tvUsec := number_decimal e.eventTv.tvUsec
  rw [sec,usec]
  rfl

theorem told_reports (events : List (Status .ilp32)) (rest : List Text) :
    told (events.flatMap (fun e => (reportLines e).flatten)++rest) = events.map Delivery.facts++told rest := by
  induction events with
  | nil => rfl
  | cons e events ih => rw [List.flatMap_cons,List.append_assoc,told_report,ih,List.map_cons,List.cons_append]

theorem told_short {lines : List Text} (short : lines.length < 8) : told lines = [] := by
  unfold told
  split
  · simp only [List.length_cons] at short
    omega
  · rfl

theorem reportLines_clean (e : Status .ilp32) : ∀ line ∈ (reportLines e).flatten, '\n' ∉ line := by
  have number : ∀ n : Int, '\n' ∉ decimal n := fun n => decimal_clean n (by decide)
  simp [reportLines,stamp,number]

theorem reportLines_own (e : Status .ilp32) : ∀ line ∈ (reportLines e).flatten, line ∉ chatter := by
  simp [reportLines,chatter]

theorem reportLines_count (e : Status .ilp32) : (reportLines e).flatten.length = 8 := rfl

theorem reportLines_some (e : Status .ilp32) : ∀ lines ∈ reportLines e, lines ≠ [] := by
  simp [reportLines]

def completed (left : List Text) (events : List (Status .ilp32)) : List (Status .ilp32) :=
  if left = [] then events else events.dropLast

structure Printed (console : Text) (left : List Text) (events : List (Status .ilp32)) (lines : List Text)
    (done rest : List (List Text)) : Prop where
  clean : ∀ line ∈ lines, '\n' ∉ line
  text : console = terminate '\n' lines
  remain : left = rest.map (terminate '\n')
  told : lines.filter (· ∉ chatter) = (completed left events).flatMap (fun e => (reportLines e).flatten)++done.flatten
  whole : rest = [] → done = []
  partial_ : rest ≠ [] → ∃ e, events = completed left events++[e] ∧ reportLines e = done++rest

theorem printed_tells {console : Text} {left : List Text} {events : List (Status .ilp32)} {lines : List Text}
    {done rest : List (List Text)} (printed : Printed console left events lines done rest) :
    tells console = (completed left events).map Delivery.facts := by
  have short : done.flatten.length < 8 := by
    rcases eq_or_ne rest [] with ended | more
    · rw [printed.whole ended]
      decide
    · obtain ⟨e,_,split⟩ := printed.partial_ more
      obtain ⟨next,later,rfl⟩ := List.exists_cons_of_ne_nil more
      have some := List.length_pos_iff.mpr (reportLines_some e next (by simp [split]))
      have count := reportLines_count e
      rw [split] at count
      simp only [List.flatten_append,List.flatten_cons,List.length_append] at count
      omega
  rw [tells,printed.text,pieces_terminate printed.clean,printed.told,told_reports,told_short short,List.append_nil]

theorem printed_chatter {console : Text} {left : List Text} {events : List (Status .ilp32)} {lines : List Text}
    {done rest : List (List Text)} (printed : Printed console left events lines done rest) {line : Text} (own : line ∈ chatter) :
    Printed (console++terminate '\n' [line]) left events (lines++[line]) done rest := by
  obtain ⟨clean,text,left,told,whole,partial_⟩ := printed
  refine ⟨?_,by rw [text,terminate_append],left,?_,whole,partial_⟩
  · have plain : ∀ line ∈ chatter, '\n' ∉ line := by decide
    intro other member
    rcases List.mem_append.mp member with old | new
    · exact clean other old
    · rw [List.mem_singleton.mp new]
      exact plain line own
  · rw [List.filter_append,told,List.filter_singleton]
    simp [own]

theorem printed_read {console : Text} {events : List (Status .ilp32)} {lines : List Text} {done rest : List (List Text)}
    (printed : Printed console [] events lines done rest) (e : Status .ilp32) :
    Printed console (reports e) (events++[e]) lines [] (reportLines e) := by
  obtain ⟨clean,text,left,told,whole,_⟩ := printed
  have ended : rest = [] := List.map_eq_nil_iff.mp left.symm
  have complete : completed (reports e) (events++[e]) = events := by
    rw [completed,if_neg (by simp [reports,reportLines]),List.dropLast_concat]
  refine ⟨clean,text,rfl,?_,fun none => absurd none (by simp [reportLines]),fun _ => ⟨e,by rw [complete],rfl⟩⟩
  rw [told,whole ended,complete]
  rfl

theorem printed_printf {console text : Text} {left : List Text} {events : List (Status .ilp32)} {lines : List Text}
    {done rest : List (List Text)} (printed : Printed console (text::left) events lines done rest) :
    ∃ lines done rest, Printed (console++text) left events lines done rest := by
  obtain ⟨clean,shown,remain,told,_,partial_⟩ := printed
  obtain ⟨next,more,rfl,rfl,rfl⟩ := List.map_eq_cons_iff.mp remain.symm
  obtain ⟨e,split,report⟩ := partial_ (List.cons_ne_nil _ _)
  have among : ∀ line ∈ next, line ∈ (reportLines e).flatten := fun line member =>
    List.mem_flatten.mpr ⟨next,by simp [report],member⟩
  have own : next.filter (· ∉ chatter) = next := by
    rw [List.filter_eq_self]
    exact fun line member => decide_eq_true (reportLines_own e line (among line member))
  have grown : ∀ line ∈ lines++next, '\n' ∉ line := by
    intro line member
    rcases List.mem_append.mp member with old | new
    · exact clean line old
    · exact reportLines_clean e line (among line new)
  have started : completed (terminate '\n' next::more.map (terminate '\n')) events = events.dropLast := if_neg (List.cons_ne_nil _ _)
  rw [started] at told split
  cases more with
  | nil =>
    refine ⟨lines++next,[],[],grown,by rw [shown,terminate_append],rfl,?_,fun _ => rfl,fun some => absurd rfl some⟩
    have complete : completed ([].map (terminate '\n')) events = events.dropLast++[e] := split
    rw [complete,List.filter_append,told,own,List.flatMap_append,List.flatMap_singleton,report]
    simp
  | cons after others =>
    have still : completed ((after::others).map (terminate '\n')) events = events.dropLast := if_neg (List.cons_ne_nil _ _)
    refine ⟨lines++next,done++[next],after::others,grown,by rw [shown,terminate_append],rfl,?_,nofun,fun _ => ⟨e,?_,?_⟩⟩
    · rw [still,List.filter_append,told,own]
      simp
    · rw [still]
      exact split
    · rw [report]
      simp

namespace Process

def unprinted (p : Process) : List Text := match p.reader with
  | some (.reading _ left) => left
  | _ => []

def reported (p : Process) : List (Status .ilp32) := completed p.unprinted p.kernel.events

structure Kept (p : Process) : Prop where
  stage : p.Stage p.main
  idle : p.reader = none → p.kernel.blocks = []
  ended : p.exited ≠ none → p.unprinted = []
  failed : p.exited = some 1 → ∃ fifo1, p.reader = some (.reading fifo1 [])
  printed : ∃ lines done rest, Printed p.console p.unprinted p.kernel.events lines done rest

theorem start_kept (argv : List Text) (before : Board) (setup : Nat → Oracle) (capacity : Nat) :
    (start argv before setup capacity).Kept :=
  ⟨⟨rfl,rfl,rfl,rfl,nofun⟩,fun _ => rfl,fun _ => rfl,nofun,[],[],[],nofun,rfl,rfl,rfl,fun _ => rfl,fun some => absurd rfl some⟩

theorem interrupt_blocks {r next : Reader} {inputs : Nat → Oracle} (taken : r.step (.interrupt inputs) = some next) :
    next.blocks = r.blocks := by
  cases taken
  rfl

theorem read_events {r next : Reader} (taken : r.step .read = some next) : ∃ e, next.events = r.events++[e] := by
  cases r.step_moved taken with
  | @read q block rest there took => exact ⟨Status.ofBytes .ilp32 block,by simp [Reader.events]⟩

theorem unprinted_none {p : Process} (none : p.reader = none) : p.unprinted = [] := by rw [unprinted,none]

theorem advance_kept {p next : Process} {ok : Bool} (kept : p.Kept) (running : p.exited = none)
    (taken : p.advance ok = some next) : next.Kept := by
  obtain ⟨stage,idle,ended,failed,lines,done,rest,printed⟩ := kept
  have later := advance_stage stage running taken
  cases place : p.main <;> rw [place] at stage <;> simp only [advance,place] at taken
  case args =>
    obtain ⟨_,_,none,_⟩ := stage
    split at taken <;> cases taken
    · exact ⟨later,idle,fun _ => unprinted_none none,nofun,lines,done,rest,printed⟩
    · exact ⟨later,idle,fun _ => unprinted_none none,failed,lines,done,rest,printed⟩
  case socket | bind =>
    obtain ⟨_,_,none,_⟩ := stage
    split at taken <;> cases taken
    · exact ⟨later,idle,fun _ => unprinted_none none,failed,lines,done,rest,printed⟩
    · exact ⟨later,idle,fun _ => unprinted_none none,nofun,lines,done,rest,printed⟩
  case setsockopt =>
    obtain ⟨_,_,none,_⟩ := stage
    split at taken <;> cases taken
    · exact ⟨later,idle,fun _ => unprinted_none none,failed,lines,done,rest,printed⟩
    · exact ⟨later,idle,fun _ => unprinted_none none,nofun,_,done,rest,printed_chatter printed (by decide)⟩
  case createReader =>
    obtain ⟨_,_,none,_⟩ := stage
    rw [unprinted_none none] at printed
    have going : p.exited ≠ some 1 := by rw [running]; exact nofun
    cases ok <;> cases taken <;>
      exact ⟨later,fun _ => idle none,fun _ => rfl,fun one => absurd one going,lines,done,rest,printed⟩
  case createSender =>
    cases taken
    exact ⟨later,idle,fun gone => absurd running gone,failed,lines,done,rest,printed⟩
  case ready =>
    cases taken
    exact ⟨later,idle,fun gone => absurd running gone,failed,_,done,rest,printed_chatter printed (by decide)⟩
  case join =>
    obtain ⟨none,rfl⟩ := guarded taken
    exact ⟨later,idle,fun _ => unprinted_none (Option.isNone_iff_eq_none.mp none),nofun,lines,done,rest,printed⟩

theorem step_kept {p next : Process} {action : Doing} (kept : p.Kept) (taken : p.step action = some next) : next.Kept := by
  have later := step_stage kept.stage taken
  obtain ⟨stage,idle,ended,failed,lines,done,rest,printed⟩ := kept
  cases p.step_moved taken with
  | interrupt moved =>
    have same := interrupt_blocks moved
    refine ⟨later,fun none => same.trans (idle none),ended,failed,lines,done,rest,?_⟩
    rw [Reader.events,same]
    exact printed
  | main running taken => exact advance_kept ⟨stage,idle,ended,failed,lines,done,rest,printed⟩ running taken
  | opened _ there =>
    have empty : p.unprinted = [] := by rw [unprinted,there]
    rw [empty] at printed
    exact ⟨later,nofun,fun _ => rfl,fun _ => ⟨_,rfl⟩,lines,done,rest,printed⟩
  | read running there moved =>
    obtain ⟨e,grown⟩ := read_events moved
    have empty : p.unprinted = [] := by rw [unprinted,there]
    rw [empty] at printed
    refine ⟨later,nofun,fun gone => absurd running gone,fun one => ?_,lines,[],reportLines e,?_⟩
    · cases running.symm.trans one
    · have latest := printed_read printed e
      simpa [unprinted,grown] using latest
  | failed _ there =>
    have empty : p.unprinted = [] := by rw [unprinted,there]
    exact ⟨later,idle,fun _ => empty,fun _ => ⟨_,there⟩,lines,done,rest,printed⟩
  | @printf fifo1 text left running there =>
    have some : p.unprinted = text::left := by rw [unprinted,there]
    rw [some] at printed
    refine ⟨later,nofun,fun gone => absurd running gone,fun one => ?_,printed_printf printed⟩
    cases running.symm.trans one
  | sender => exact ⟨later,idle,ended,failed,lines,done,rest,printed⟩

end Process

-- The fraction is printed without its leading zeros: of the first tenth of a second
-- all but its start is shown as later than it was.
theorem stamp_exact_iff {tv : Timeval .ilp32} (seconds : 0 ≤ tv.tvSec.toInt) (micros : 0 ≤ tv.tvUsec.toInt)
    (second : tv.tvUsec.toInt < 1000000) :
    (numeric (stamp tv) = tv.tvSec.toInt+tv.tvUsec.toInt/1000000 ↔ tv.tvUsec.toInt = 0 ∨ 100000 ≤ tv.tvUsec.toInt) ∧
    (0 < tv.tvUsec.toInt → tv.tvUsec.toInt < 100000 → tv.tvSec.toInt+tv.tvUsec.toInt/1000000 < numeric (stamp tv)) := by
  rw [stamp]
  generalize tv.tvSec.toInt = s at seconds ⊢
  generalize tv.tvUsec.toInt = u at micros second ⊢
  lift s to ℕ using seconds
  lift u to ℕ using micros
  have natural : ∀ n : ℕ, decimal n = Nat.toDigits 10 n := fun n => by simp [decimal]
  have size := Nat.length_toDigits_le_iff (n := u) (k := 6) (by decide : 1 < 10) (by decide)
  have smaller := Nat.length_toDigits_le_iff (n := u) (k := 5) (by decide : 1 < 10) (by decide)
  rw [natural,natural,numeric_point]
  push_cast
  rw [add_right_inj,add_lt_add_iff_left]
  generalize (Nat.toDigits 10 u).length = places at *
  have fewer : 0 < u → u < 100000 → (u : ℚ)/1000000 < u/10^places := by
    intro some tenth
    have short : places < 6 := by omega
    have power : (10 : ℚ)^places < 10^6 := pow_lt_pow_right₀ (by norm_num) short
    exact div_lt_div_of_pos_left (by exact_mod_cast some) (by positivity) (by norm_num at power ⊢; exact power)
  refine ⟨⟨fun equal => ?_,fun exact => ?_⟩,fun some tenth => fewer (by omega) (by omega)⟩
  · by_contra other
    have apart := fewer (by omega) (by omega)
    rw [equal] at apart
    exact lt_irrefl _ apart
  · rcases exact with zero | late
    · obtain rfl : u = 0 := by omega
      simp
    · have six : places = 6 := by omega
      rw [six]
      norm_num

theorem stamp_exact_iff_twentieth :
    let tv : Timeval .ilp32 := ⟨1493739115,50000⟩
    (numeric (stamp tv) = tv.tvSec.toInt+tv.tvUsec.toInt/1000000 ↔ tv.tvUsec.toInt = 0 ∨ 100000 ≤ tv.tvUsec.toInt) ∧
    tv.tvSec.toInt+tv.tvUsec.toInt/1000000 < numeric (stamp tv) := by
  have told := @stamp_exact_iff ⟨1493739115,50000⟩ (by decide) (by decide) (by decide)
  exact ⟨told.1,told.2 (by decide) (by decide)⟩

variable (argv : List Text) (before : Board) (setup : Nat → Oracle) (capacity : Nat) (actions : List Doing)

theorem process_kept {p : Process} (visited : Visits Process.step (.start argv before setup capacity) actions p) : p.Kept :=
  visited.invariant (Process.start_kept argv before setup capacity) Process.step_kept

theorem console_tells : Always Process.step (fun p => tells p.console = p.reported.map Delivery.facts)
    (.start argv before setup capacity) actions := by
  intro p visited
  obtain ⟨lines,done,rest,printed⟩ := (process_kept argv before setup capacity actions visited).printed
  exact printed_tells printed

end Scada.Rtu
