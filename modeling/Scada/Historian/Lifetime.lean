import Scada.Historian.Commands
import Scada.Historian.MainLoop

namespace Scada.Historian
open Machines Decimals
open Exchange (SockaddrIn Incoming)

structure Errno where
  value : Nat
  named : 0 < value ∧ value < 134

variable {abi : Abi}

def afInet : BitVec 16 := 2

def port (abi : Abi) (argv : List Text) : BitVec 16 := BitVec.ofInt 16 (atoi abi.long (argv.getD 2 []))

inductive MainAt (abi : Abi) where
  | pthreadCreate | args | socket | gethostbyname
  | looping (loop : MainLoop abi)

structure Polling (round : ℚ → ℚ) (files : Files) (argv : List Text) (loop : MainLoop abi) : Prop where
  argc : argv.length = 3
  server : ∃ addr, loop.server = ⟨afInet,port abi argv,addr⟩
  polls : loop.Polls round files

def MainAt.Ready (round : ℚ → ℚ) (files : Files) (argv : List Text) : MainAt abi → Prop
  | .pthreadCreate | .args => True
  | .socket | .gethostbyname => argv.length = 3
  | .looping loop => loop.Clear ∧ Polling round files argv loop

inductive CommandAt where
  | absent | fgets | logView | returned
  deriving DecidableEq

structure Process (abi : Abi) where
  argv : List Text
  main : MainAt abi
  command : CommandAt
  stdin : Bytes
  position : Nat
  obeyed : List (Nat × Command)
  complaint : Text
  exited : Option Nat

inductive Doing (abi : Abi) where
  | pthreadCreate (ok : Bool)
  | args
  | socket (failed : Option Errno)
  | gethostbyname (found : Option (BitVec 32)) (fromAddr : SockaddrIn) (event : List UInt8)
  | loop (a : LoopAction) (errno : Errno)
  | fgets
  | logView

namespace Process

def start (argv : List Text) (stdin : Bytes) : Process abi := ⟨argv,.pthreadCreate,.absent,stdin,0,[],[],none⟩

def exit (p : Process abi) (status : Int) : Process abi := {p with exited:=some (status % 256).toNat}

def error (p : Process abi) (msg : Option Text) (errval : Int) : Process abi := match msg with
  | none => p
  | some msg => {p with complaint:="Error: ".toList++msg++['\n']}.exit errval

def usage (argv : List Text) : Text := "Usage: ".toList++argv.headD []++" hostname port\n".toList

def receive (p : Process abi) (cmdBuf rest : Bytes) : Process abi :=
  let read : Process abi := {p with stdin:=rest,position:=p.position+cmdBuf.length}
  match cmdBuf.head?.bind Historian.command with
  | some .logView => {read with command:=.logView,obeyed:=p.obeyed++[(p.position,.logView)]}
  | some .exit => Process.exit {read with obeyed:=p.obeyed++[(p.position,.exit)]} 0
  | none => read

def looped (p : Process abi) (errno : Errno) (before next : MainLoop abi) : Process abi :=
  let p : Process abi := {p with main:=.looping next}
  match next.place,before.place with
  | .exited,.sendto => p.error (some "sendto".toList) errno.value
  | .exited,_ => p.error (some "recvfrom".toList) errno.value
  | _,_ => p

-- `from` and `event` are main's own and hold anything at first.
def step (round : ℚ → ℚ) (files : Files) (p : Process abi) : Doing abi → Option (Process abi)
  | .pthreadCreate ok => match p.exited,p.main with
    | none,.pthreadCreate => some {p with main:=.args,command:=if ok then .fgets else .absent}
    | _,_ => none
  | .args => match p.exited,p.main with
    | none,.args => some (if p.argv.length = 3 then {p with main:=.socket} else {p with complaint:=usage p.argv}.exit (-1))
    | _,_ => none
  | .socket failed => match p.exited,p.main,failed with
    | none,.socket,some errno => some (p.error (some "socket()".toList) errno.value)
    | none,.socket,none => some {p with main:=.gethostbyname}
    | _,_,_ => none
  | .gethostbyname found fromAddr event => match p.exited,p.main,found with
    | none,.gethostbyname,none => some (p.error (some "Unknown host".toList) (-1))
    | none,.gethostbyname,some addr =>
      some {p with main:=.looping (.start ⟨afInet,port abi p.argv,addr⟩ fromAddr event files)}
    | _,_,_ => none
  | .loop a errno => match p.exited,p.main with
    | none,.looping loop => (loop.step round a).map (p.looped errno loop)
    | _,_ => none
  | .fgets => match p.exited,p.command,Historian.fgets msgSize p.stdin with
    | none,.fgets,none => some {p with command:=.returned}
    | none,.fgets,some (cmdBuf,rest) => some (p.receive cmdBuf rest)
    | _,_,_ => none
  | .logView => match p.exited,p.command with
    | none,.logView => some {p with command:=.fgets}
    | _,_ => none

inductive Moved (round : ℚ → ℚ) (files : Files) (p : Process abi) : Doing abi → Process abi → Prop where
  | pthreadCreate : p.exited = none → p.main = .pthreadCreate →
      Moved round files p (.pthreadCreate ok) {p with main:=.args,command:=if ok then .fgets else .absent}
  | args : p.exited = none → p.main = .args → p.argv.length = 3 → Moved round files p .args {p with main:=.socket}
  | usage : p.exited = none → p.main = .args →
      Moved round files p .args ({p with complaint:=Process.usage p.argv}.exit (-1))
  | unopened {errno : Errno} : p.exited = none → p.main = .socket →
      Moved round files p (.socket (some errno)) (p.error (some "socket()".toList) errno.value)
  | opened : p.exited = none → p.main = .socket → Moved round files p (.socket none) {p with main:=.gethostbyname}
  | unknown : p.exited = none → p.main = .gethostbyname →
      Moved round files p (.gethostbyname none fromAddr event) (p.error (some "Unknown host".toList) (-1))
  | found : p.exited = none → p.main = .gethostbyname → Moved round files p (.gethostbyname (some addr) fromAddr event)
      {p with main:=.looping (.start ⟨afInet,port abi p.argv,addr⟩ fromAddr event files)}
  | looped {loop next : MainLoop abi} {errno : Errno} : p.exited = none → p.main = .looping loop →
      loop.step round a = some next → Moved round files p (.loop a errno) (p.looped errno loop next)
  | ended : p.exited = none → p.command = .fgets → Historian.fgets msgSize p.stdin = none →
      Moved round files p .fgets {p with command:=.returned}
  | received : p.exited = none → p.command = .fgets → Historian.fgets msgSize p.stdin = some (cmdBuf,rest) →
      Moved round files p .fgets (p.receive cmdBuf rest)
  | viewed : p.exited = none → p.command = .logView → Moved round files p .logView {p with command:=.fgets}

theorem step_moved {round : ℚ → ℚ} {files : Files} {p next : Process abi} {action : Doing abi}
    (taken : p.step round files action = some next) : p.Moved round files action next := by
  cases action with
  | pthreadCreate ok =>
    simp only [step] at taken
    split at taken
    · rename_i running here; cases taken; exact .pthreadCreate running here
    · cases taken
  | args =>
    simp only [step] at taken
    split at taken
    · rename_i running here
      cases taken
      split
      · rename_i three; exact .args running here three
      · exact .usage running here
    · cases taken
  | socket failed =>
    simp only [step] at taken
    split at taken
    · rename_i running here; cases taken; exact .unopened running here
    · rename_i running here; cases taken; exact .opened running here
    · cases taken
  | gethostbyname found fromAddr event =>
    simp only [step] at taken
    split at taken
    · rename_i running here; cases taken; exact .unknown running here
    · rename_i running here; cases taken; exact .found running here
    · cases taken
  | loop a errno =>
    simp only [step] at taken
    split at taken
    · rename_i running here
      obtain ⟨loop,moved,rfl⟩ := Option.map_eq_some_iff.mp taken
      exact .looped running here moved
    · cases taken
  | fgets =>
    simp only [step] at taken
    split at taken
    · rename_i running here none; cases taken; exact .ended running here none
    · rename_i running here read; cases taken; exact .received running here read
    · cases taken
  | logView =>
    simp only [step] at taken
    split at taken
    · rename_i running here; cases taken; exact .viewed running here
    · cases taken

def Quit (p : Process abi) : Prop := ∃ position, (position,Command.exit) ∈ p.obeyed

variable {round : ℚ → ℚ} {files : Files} {input : Bytes}

structure Kept (round : ℚ → ℚ) (files : Files) (input : Bytes) (p : Process abi) : Prop where
  going : ¬ p.Quit → commandReceive 0 input = p.obeyed++commandReceive p.position p.stdin
  quit : p.Quit → commandReceive 0 input = p.obeyed
  status : ∀ status, p.exited = some status → (status = 0 ↔ p.Quit)
  running : p.exited = none → ¬ p.Quit
  returned : p.command = .returned → p.stdin = []
  ready : p.main.Ready round files p.argv

theorem start_kept (argv : List Text) : (start argv input : Process abi).Kept round files input := by
  refine ⟨fun _ => rfl,?_,nofun,?_,nofun,trivial⟩
  · rintro ⟨_,among⟩
    cases among
  · rintro _ ⟨_,among⟩
    cases among

variable {p next : Process abi}

theorem kept_main (kept : p.Kept round files input) {main : MainAt abi} (ready : main.Ready round files p.argv) :
    Kept round files input {p with main} :=
  ⟨kept.going,kept.quit,kept.status,kept.running,kept.returned,ready⟩

theorem kept_failed (kept : p.Kept round files input) (running : p.exited = none) (complaint : Text) {status : Int}
    (nonzero : (status % 256).toNat ≠ 0) : Kept round files input (Process.exit {p with complaint} status) := by
  refine ⟨kept.going,kept.quit,fun other same => ?_,nofun,kept.returned,kept.ready⟩
  rw [← Option.some.inj same]
  exact iff_of_false nonzero (kept.running running)

theorem errno_nonzero (errno : Errno) : ((errno.value : Int) % 256).toNat ≠ 0 := by
  obtain ⟨value,positive,small⟩ := errno
  dsimp only
  omega

theorem looped_kept (kept : p.Kept round files input) (running : p.exited = none) {errno : Errno} {a : LoopAction}
    {loop later : MainLoop abi} (here : p.main = .looping loop) (moved : loop.step round a = some later) :
    (p.looped errno loop later).Kept round files input := by
  obtain ⟨clear,argc,server,polls⟩ : loop.Clear ∧ Polling round files p.argv loop := by
    have ready := kept.ready
    rwa [here] at ready
  have same : later.server = loop.server := by
    cases MainLoop.step_moved moved <;> rfl
  have looping : Kept round files input {p with main:=.looping later} :=
    kept_main kept ⟨MainLoop.step_clear moved,argc,same ▸ server,MainLoop.step_polls clear polls moved⟩
  unfold looped
  dsimp only
  split
  · exact kept_failed looping running _ (errno_nonzero errno)
  · exact kept_failed looping running _ (errno_nonzero errno)
  · exact looping

theorem receive_kept (kept : p.Kept round files input) (running : p.exited = none) (here : p.command = .fgets)
    {cmdBuf rest : Bytes} (read : Historian.fgets msgSize p.stdin = some (cmdBuf,rest)) :
    (p.receive cmdBuf rest).Kept round files input := by
  have open_ := kept.running running
  have whole := (kept.going open_).trans (congrArg (p.obeyed++·) (commandReceive_chunk read p.position))
  unfold receive
  split
  · rename_i asked
    rw [asked] at whole
    have still : ¬ ∃ position, (position,Command.exit) ∈ p.obeyed++[(p.position,.logView)] := by
      rintro ⟨position,among⟩
      rcases List.mem_append.mp among with old | new
      · exact open_ ⟨position,old⟩
      · cases List.mem_singleton.mp new
    refine ⟨fun _ => ?_,fun quit => absurd quit still,?_,fun _ => still,?_,kept.ready⟩
    · simpa [obey] using whole
    · intro status exited
      cases running.symm.trans exited
    · intro returned
      cases returned
  · rename_i asked
    rw [asked] at whole
    have quit : ∃ position, (position,Command.exit) ∈ p.obeyed++[(p.position,.exit)] := ⟨p.position,by simp⟩
    refine ⟨fun still => absurd quit still,fun _ => whole,fun status exited => ?_,?_,?_,kept.ready⟩
    · exact iff_of_true (Option.some.inj exited).symm quit
    · intro running
      cases running
    · intro returned
      cases here.symm.trans returned
  · rename_i asked
    rw [asked] at whole
    refine ⟨fun _ => whole,fun quit => absurd quit open_,kept.status,kept.running,?_,kept.ready⟩
    intro returned
    cases here.symm.trans returned

theorem step_kept {action : Doing abi} (kept : p.Kept round files input) (taken : p.step round files action = some next) :
    next.Kept round files input := by
  cases step_moved taken with
  | @pthreadCreate ok =>
    have absent : (if ok then CommandAt.fgets else .absent) ≠ .returned := by cases ok <;> decide
    exact ⟨kept.going,kept.quit,kept.status,kept.running,fun returned => absurd returned absent,trivial⟩
  | args _ _ three => exact kept_main kept three
  | usage running => exact kept_failed kept running _ (by decide)
  | unopened running => exact kept_failed kept running _ (errno_nonzero _)
  | opened _ here =>
    have ready := kept.ready
    rw [here] at ready
    exact kept_main kept ready
  | unknown running => exact kept_failed kept running _ (by decide)
  | found _ here =>
    have ready := kept.ready
    rw [here] at ready
    exact kept_main kept ⟨nofun,ready,⟨_,rfl⟩,⟨rfl,fun _ => rfl⟩⟩
  | looped running here moved => exact looped_kept kept running here moved
  | ended _ _ none =>
    have empty : p.stdin = [] := by
      by_contra more
      rw [Historian.fgets,if_neg more] at none
      cases none
    exact ⟨kept.going,kept.quit,kept.status,kept.running,fun _ => empty,kept.ready⟩
  | received running here read => exact receive_kept kept running here read
  | viewed => exact ⟨kept.going,kept.quit,kept.status,kept.running,nofun,kept.ready⟩

end Process

end Scada.Historian
