import Scada.Viewing
import Scada.Library.AppendStore
import Scada.Library.Runs

namespace Scada.Processes
open Historian Viewing AppendStores Delimited KeySorts Machines

-- Where the main thread stands: polling, or in event_log, whose line is in the
-- buffer of the stream once printed and reaches the file at fclose.
inductive MainAt (abi : Abi) where
  | polling
  | opened (event : Status abi)
  | printed (event : Status abi) (line : Text)

-- `read` is what cat has read of the two logs, `written` how much sort has put out
-- of it, and `since` counts the records that the logs had.
inductive CommandAt where
  | fgets
  | command1 (since : Nat) (truncated : Bool) (read : List Text) (written : Nat)
  | command2 (since : Nat)

structure View where
  since : Nat
  upto : Nat
  text : Text

structure Process (abi : Abi) where
  running : Bool
  main : MainAt abi
  command : CommandAt
  shown : List View

inductive Call (abi : Abi) where
  | fopen (event : Status abi) (opens : Bool)
  | fprintf
  | fclose
  | logView
  | truncate
  | cat
  | sort (count : Nat)
  | waited
  | shown
  | exit
  | error

variable {round : ℚ → ℚ} {abi : Abi}

def logNames : List Text := ["rtu_1_log.txt".toList,"rtu_2_log.txt".toList]

-- write(2) at an offset, past the end leaving a gap of zeros.
def writeAt (old : Text) (offset : Nat) (text : Text) : Text :=
  old.take offset++List.replicate (offset-old.length) (Char.ofNat 0)++text++old.drop (offset+text.length)

def content (files : Files) (name : Text) : Text := (files name).getD []

def flush (files : Files) : MainAt abi → Files × List (Status abi)
  | .printed event line => (append files (filename event.rtuId) (line++['\n']),[event])
  | _ => (files,[])

namespace Process

def start (abi : Abi) : Process abi := ⟨true,.polling,.fgets,[]⟩

-- One system call of a process, or of the shell it started, which goes on
-- without it. `count` is the number of records appended so far.
def act (round : ℚ → ℚ) (count : Nat) (files : Files) (c : Process abi) :
    Call abi → Option (Process abi × Files × List (Status abi))
  | .fopen event opens => match c.running,c.main with
    | true,.polling => some (if opens then ({c with main:=.opened event},append files (filename event.rtuId) [],[]) else (c,files,[]))
    | _,_ => none
  | .fprintf => match c.running,c.main with
    | true,.opened event => (logLine round event).map fun line => ({c with main:=.printed event line},files,[])
    | _,_ => none
  | .fclose => match c.running,c.main with
    | true,.printed event line => some ({c with main:=.polling},flush files (.printed event line))
    | _,_ => none
  | .logView => match c.running,c.command with
    | true,.fgets => some ({c with command:=.command1 count false [] 0},files,[])
    | _,_ => none
  | .truncate => match c.command with
    | .command1 since false read written =>
      some ({c with command:=.command1 since true read written},Function.update files eventLogTxt (some []),[])
    | _ => none
  | .cat => match c.command with
    | .command1 since truncated read written => logNames[read.length]?.map fun name =>
      ({c with command:=.command1 since truncated (read++[content files name]) written},files,[])
    | _ => none
  | .sort size => match c.command with
    | .command1 since true read written =>
      let output := sortLines read.flatten
      if read.length = logNames.length ∧ 0 < size ∧ written+size ≤ output.length then
        some ({c with command:=.command1 since true read (written+size)},
          Function.update files eventLogTxt (some (writeAt (content files eventLogTxt) written ((output.drop written).take size))),[])
      else none
    | _ => none
  | .waited => match c.running,c.command with
    | true,.command1 since true read written =>
      if read.length = logNames.length ∧ written = (sortLines read.flatten).length then
        some ({c with command:=.command2 since},files,[])
      else none
    | _,_ => none
  | .shown => match c.running,c.command with
    | true,.command2 since =>
      some ({c with command:=.fgets,shown:=c.shown++[⟨since,count,content files eventLogTxt⟩]},files,[])
    | _,_ => none
  | .exit => match c.running,c.command with
    | true,.fgets => some ({c with running:=false,main:=.polling},flush files c.main)
    | _,_ => none
  | .error => match c.running,c.main with
    | true,.polling => some ({c with running:=false},files,[])
    | _,_ => none

inductive Acted (round : ℚ → ℚ) (count : Nat) (files : Files) (c : Process abi) :
    Call abi → Process abi × Files × List (Status abi) → Prop where
  | opened {event : Status abi} : c.main = .polling →
      Acted round count files c (.fopen event true) ({c with main:=.opened event},append files (filename event.rtuId) [],[])
  | unopened {event : Status abi} : Acted round count files c (.fopen event false) (c,files,[])
  | printed {event : Status abi} {line : Text} : c.main = .opened event → logLine round event = some line →
      Acted round count files c .fprintf ({c with main:=.printed event line},files,[])
  | closed {event : Status abi} {line : Text} : c.main = .printed event line →
      Acted round count files c .fclose ({c with main:=.polling},append files (filename event.rtuId) (line++['\n']),[event])
  | viewing : c.command = .fgets →
      Acted round count files c .logView ({c with command:=.command1 count false [] 0},files,[])
  | truncated {since : Nat} {read : List Text} {written : Nat} : c.command = .command1 since false read written →
      Acted round count files c .truncate
        ({c with command:=.command1 since true read written},Function.update files eventLogTxt (some []),[])
  | read {since : Nat} {truncated : Bool} {read : List Text} {written : Nat} {name : Text} :
      c.command = .command1 since truncated read written → logNames[read.length]? = some name →
      Acted round count files c .cat ({c with command:=.command1 since truncated (read++[content files name]) written},files,[])
  | sorted {since : Nat} {read : List Text} {written size : Nat} : c.command = .command1 since true read written →
      read.length = logNames.length → written+size ≤ (sortLines read.flatten).length →
      Acted round count files c (.sort size) ({c with command:=.command1 since true read (written+size)},
        Function.update files eventLogTxt (some (writeAt (content files eventLogTxt) written
          (((sortLines read.flatten).drop written).take size))),[])
  | waited {since : Nat} {read : List Text} : c.command = .command1 since true read (sortLines read.flatten).length →
      read.length = logNames.length → Acted round count files c .waited ({c with command:=.command2 since},files,[])
  | shown {since : Nat} : c.command = .command2 since → Acted round count files c .shown
      ({c with command:=.fgets,shown:=c.shown++[⟨since,count,content files eventLogTxt⟩]},files,[])
  | exited : c.command = .fgets →
      Acted round count files c .exit ({c with running:=false,main:=.polling},flush files c.main)
  | failed : c.main = .polling → Acted round count files c .error ({c with running:=false},files,[])

theorem act_acted {count : Nat} {files : Files} {c : Process abi} {call : Call abi} {done : Process abi × Files × List (Status abi)}
    (taken : c.act round count files call = some done) : Acted round count files c call done := by
  cases call with
  | fopen event opens =>
    simp only [act] at taken
    split at taken
    · rename_i main
      cases opens with
      | true => cases taken; exact .opened main
      | false => cases taken; exact .unopened
    · cases taken
  | fprintf =>
    simp only [act] at taken
    split at taken
    · rename_i main
      obtain ⟨line,logged,rfl⟩ := Option.map_eq_some_iff.mp taken
      exact .printed main logged
    · cases taken
  | fclose =>
    simp only [act] at taken
    split at taken
    · rename_i main; cases taken; exact .closed main
    · cases taken
  | logView =>
    simp only [act] at taken
    split at taken
    · rename_i command; cases taken; exact .viewing command
    · cases taken
  | truncate =>
    simp only [act] at taken
    split at taken
    · rename_i command; cases taken; exact .truncated command
    · cases taken
  | cat =>
    simp only [act] at taken
    split at taken
    · rename_i command
      obtain ⟨name,next,rfl⟩ := Option.map_eq_some_iff.mp taken
      exact .read command next
    · cases taken
  | sort size =>
    simp only [act] at taken
    split at taken
    · rename_i command
      obtain ⟨⟨both,_,room⟩,rfl⟩ := guarded taken
      exact .sorted command both room
    · cases taken
  | waited =>
    simp only [act] at taken
    split at taken
    · rename_i command
      obtain ⟨⟨both,all⟩,rfl⟩ := guarded taken
      exact .waited (all ▸ command) both
    · cases taken
  | shown =>
    simp only [act] at taken
    split at taken
    · rename_i command; cases taken; exact .shown command
    · cases taken
  | exit =>
    simp only [act] at taken
    split at taken
    · rename_i command; cases taken; exact .exited command
    · cases taken
  | error =>
    simp only [act] at taken
    split at taken
    · rename_i main; cases taken; exact .failed main
    · cases taken

end Process

-- `appended` are the records whose lines are in the files, with the process each.
structure Directory (π : Type) (abi : Abi) where
  files : Files
  processes : π → Process abi
  appended : List (π × Status abi)

variable {π : Type}

namespace Directory

def start (π : Type) (abi : Abi) (files : Files) : Directory π abi := ⟨files,fun _ => .start abi,[]⟩

def step [DecidableEq π] (round : ℚ → ℚ) (d : Directory π abi) (action : π × Call abi) : Option (Directory π abi) :=
  ((d.processes action.1).act round d.appended.length d.files action.2).map fun done =>
    ⟨done.2.1,Function.update d.processes action.1 done.1,d.appended++done.2.2.map fun event => (action.1,event)⟩

end Directory

def recordsOf (rtuId : Word) (appended : List (π × Status abi)) : List (Status abi) :=
  (appended.map Prod.snd).filter (·.rtuId = rtuId)

theorem recordsOf_append (rtuId : Word) (earlier : List (π × Status abi)) (p : π) (later : List (Status abi)) :
    recordsOf rtuId (earlier++later.map fun event => (p,event)) = recordsOf rtuId earlier++later.filter (·.rtuId = rtuId) := by
  simp [recordsOf,Function.comp_def]

theorem append_written {files : Files} {event : Status abi} {line : Text} (logged : logLine round event = some line)
    {rs : Word → List (Status abi)} (own : ∀ rtuId, Written round (rs rtuId) (files (filename rtuId))) (rtuId : Word) :
    Written round (rs rtuId++[event].filter (·.rtuId = rtuId))
      (append files (filename event.rtuId) (line++['\n']) (filename rtuId)) := by
  have ran : eventLog round true files event = some (0,append files (filename event.rtuId) (line++['\n'])) := by
    simp [eventLog,logged,append]
  have written := eventLog_written ran own rtuId
  by_cases mine : event.rtuId = rtuId
  · simpa [recorded,mine] using written
  · simpa [recorded,mine] using written

theorem create_content (files : Files) (name other : Text) : content (append files name []) other = content files other := by
  by_cases same : other = name
  · subst same
    simp [content]
  · rw [content,append_other files [] same,content]

theorem written_content {rs : List (Status abi)} {left right : Option Text} (written : Written round rs left)
    (same : right.getD [] = left.getD []) : Written round rs right := by
  obtain ⟨lines,each,text⟩ := written
  exact ⟨lines,each,same.trans text⟩

-- Nobody but event_log writes to a log, and it writes whole lines.
theorem acted_written {count : Nat} {files : Files} {c : Process abi} {call : Call abi}
    {done : Process abi × Files × List (Status abi)} (acted : Process.Acted round count files c call done)
    (printed : ∀ event line, c.main = .printed event line → logLine round event = some line)
    {rs : Word → List (Status abi)} (own : ∀ rtuId, Written round (rs rtuId) (files (filename rtuId))) (rtuId : Word) :
    Written round (rs rtuId++done.2.2.filter (·.rtuId = rtuId)) (done.2.1 (filename rtuId)) := by
  have kept : Written round (rs rtuId++[]) (files (filename rtuId)) := by simpa using own rtuId
  cases acted with
  | opened => exact written_content kept (create_content _ _ _)
  | closed main => exact append_written (printed _ _ main) own rtuId
  | truncated | sorted =>
    simpa [Function.update_of_ne (eventLogTxt_other rtuId)] using own rtuId
  | exited =>
    cases main : c.main with
    | polling | opened => exact kept
    | printed event line => exact append_written (printed _ _ main) own rtuId
  | _ => exact kept

theorem acted_printed {count : Nat} {files : Files} {c : Process abi} {call : Call abi}
    {done : Process abi × Files × List (Status abi)} (acted : Process.Acted round count files c call done)
    (printed : ∀ event line, c.main = .printed event line → logLine round event = some line) :
    ∀ event line, done.1.main = .printed event line → logLine round event = some line := by
  cases acted with
  | opened | closed | exited => exact nofun
  | @printed event line _ logged =>
    intro _ _ same
    cases same
    exact logged
  | _ => exact printed

structure Filed (round : ℚ → ℚ) (before : Word → List (Status abi)) (d : Directory π abi) : Prop where
  own : ∀ rtuId, Written round (before rtuId++recordsOf rtuId d.appended) (d.files (filename rtuId))
  printed : ∀ p event line, (d.processes p).main = .printed event line → logLine round event = some line

theorem start_filed {files : Files} {before : Word → List (Status abi)}
    (written : ∀ rtuId, Written round (before rtuId) (files (filename rtuId))) : Filed round before (.start π abi files) :=
  ⟨fun rtuId => by simpa [recordsOf,Directory.start] using written rtuId,nofun⟩

structure Reads (round : ℚ → ℚ) (before : Word → List (Status abi)) (appended : List (π × Status abi)) (since upto : Nat)
    (rtuId : Word) (text : Text) : Prop where
  snapshot : ∃ count, since ≤ count ∧ count ≤ upto ∧ upto ≤ appended.length ∧
    Written round (before rtuId++recordsOf rtuId (appended.take count)) (some text)

def logIds : List Word := [1,2]

theorem logNames_ids : logNames = logIds.map filename := by decide

abbrev ReadsAll (round : ℚ → ℚ) (before : Word → List (Status abi)) (appended : List (π × Status abi)) (since upto : Nat)
    (read : List Text) : Prop :=
  List.Forall₂ (Reads round before appended since upto) (logIds.take read.length) read

theorem reads_grow {before : Word → List (Status abi)} {appended more : List (π × Status abi)} {since upto : Nat}
    {read : List Text} (reads : ReadsAll round before appended since upto read) :
    ReadsAll round before (appended++more) since upto read := by
  refine reads.imp fun rtuId text one => ?_
  obtain ⟨count,after,bound,within,written⟩ := one.snapshot
  refine ⟨count,after,bound,by simp; omega,?_⟩
  rwa [List.take_append_of_le_length (bound.trans within)]

theorem reads_until {before : Word → List (Status abi)} {appended : List (π × Status abi)} {since upto : Nat} {read : List Text}
    (reads : ReadsAll round before appended since upto read) (bound : upto ≤ appended.length) :
    ReadsAll round before appended since appended.length read := by
  refine reads.imp fun rtuId text one => ?_
  obtain ⟨count,after,within,_,written⟩ := one.snapshot
  exact ⟨count,after,within.trans bound,Nat.le_refl _,written⟩


def Stage (round : ℚ → ℚ) (before : Word → List (Status abi)) (appended : List (π × Status abi)) (text : Text) : CommandAt → Prop
  | .fgets => True
  | .command1 since truncated read written => since ≤ appended.length ∧ ReadsAll round before appended since appended.length read ∧
      (truncated = false ∨ read.length < logNames.length → written = 0) ∧
      (truncated = true → text = (sortLines read.flatten).take written)
  | .command2 since => ∃ read, read.length = logNames.length ∧
      ReadsAll round before appended since appended.length read ∧ text = sortLines read.flatten

structure Current (round : ℚ → ℚ) (before : Word → List (Status abi)) (appended : List (π × Status abi)) (v : View) : Prop where
  shown : ∃ read, read.length = logNames.length ∧ ReadsAll round before appended v.since v.upto read ∧
    v.text = sortLines read.flatten

structure Viewer (round : ℚ → ℚ) (before : Word → List (Status abi)) (p : π) (d : Directory π abi) : Prop where
  stage : Stage round before d.appended (content d.files eventLogTxt) (d.processes p).command
  shown : ∀ v ∈ (d.processes p).shown, Current round before d.appended v

theorem stage_grow {before : Word → List (Status abi)} {appended more : List (π × Status abi)} {text : Text} {command : CommandAt}
    (stage : Stage round before appended text command) : Stage round before (appended++more) text command := by
  have later : ∀ {since read}, ReadsAll round before appended since appended.length read →
      ReadsAll round before (appended++more) since (appended++more).length read := fun reads =>
    reads_until (reads_grow reads) (by simp)
  cases command with
  | fgets => trivial
  | command1 since truncated read written =>
    obtain ⟨start,reads,none,text⟩ := stage
    exact ⟨by simp; omega,later reads,none,text⟩
  | command2 since =>
    obtain ⟨read,both,reads,text⟩ := stage
    exact ⟨read,both,later reads,text⟩

theorem current_grow {before : Word → List (Status abi)} {appended more : List (π × Status abi)} {v : View}
    (current : Current round before appended v) : Current round before (appended++more) v := by
  obtain ⟨read,both,reads,text⟩ := current.shown
  exact ⟨read,both,reads_grow reads,text⟩

theorem take_writeAt {output : Text} {written size : Nat} (room : written+size ≤ output.length) :
    writeAt (output.take written) written ((output.drop written).take size) = output.take (written+size) := by
  have length : (output.take written).length = written := by simp; omega
  have beyond : (output.take written).drop (written+((output.drop written).take size).length) = [] := by
    apply List.drop_eq_nil_of_le
    omega
  rw [writeAt,beyond,length,Nat.sub_self,List.replicate_zero,List.append_nil,List.append_nil,List.take_take,Nat.min_self,
    List.take_add]

theorem reads_next {before : Word → List (Status abi)} {appended : List (π × Status abi)} {since : Nat} {read : List Text}
    {name : Text} {files : Files} (start : since ≤ appended.length)
    (own : ∀ rtuId, Written round (before rtuId++recordsOf rtuId appended) (files (filename rtuId)))
    (reads : ReadsAll round before appended since appended.length read) (next : logNames[read.length]? = some name) :
    ReadsAll round before appended since appended.length (read++[content files name]) := by
  rw [logNames_ids,List.getElem?_map] at next
  obtain ⟨rtuId,there,rfl⟩ := Option.map_eq_some_iff.mp next
  have one : Reads round before appended since appended.length rtuId (content files (filename rtuId)) := by
    refine ⟨appended.length,start,Nat.le_refl _,Nat.le_refl _,?_⟩
    rw [List.take_length]
    exact written_content (own rtuId) rfl
  have grown : logIds.take (read++[content files (filename rtuId)]).length = logIds.take read.length++[rtuId] := by
    rw [List.length_append,List.length_singleton,List.take_add_one,there]; rfl
  rw [ReadsAll,grown]
  exact List.rel_append reads (.cons one .nil)

def Call.writesView : Call abi → Bool
  | .truncate | .sort _ => true
  | _ => false

theorem acted_view {count : Nat} {files : Files} {c : Process abi} {call : Call abi}
    {done : Process abi × Files × List (Status abi)} (acted : Process.Acted round count files c call done)
    (other : call.writesView = false) : content done.2.1 eventLogTxt = content files eventLogTxt := by
  have elsewhere : ∀ (rtuId : Word) text, content (append files (filename rtuId) text) eventLogTxt = content files eventLogTxt :=
    fun rtuId text => congrArg (fun file : Option Text => file.getD []) (append_other files text (eventLogTxt_other rtuId).symm)
  cases acted with
  | opened | closed => exact elsewhere _ _
  | truncated | sorted => cases other
  | exited =>
    cases main : c.main with
    | polling | opened => rfl
    | printed event line => exact elsewhere _ _
  | _ => rfl

theorem acted_stage {before : Word → List (Status abi)} {appended : List (π × Status abi)} {files : Files} {c : Process abi}
    {call : Call abi} {done : Process abi × Files × List (Status abi)} {p : π}
    (own : ∀ rtuId, Written round (before rtuId++recordsOf rtuId appended) (files (filename rtuId)))
    (stage : Stage round before appended (content files eventLogTxt) c.command)
    (acted : Process.Acted round appended.length files c call done) :
    Stage round before (appended++done.2.2.map fun event => (p,event)) (content done.2.1 eventLogTxt) done.1.command := by
  have quiet : call.writesView = false → done.1.command = c.command →
      Stage round before (appended++done.2.2.map fun event => (p,event)) (content done.2.1 eventLogTxt) done.1.command := by
    intro other same
    rw [acted_view acted other,same]
    exact stage_grow stage
  cases acted with
  | opened | unopened | printed | closed | exited | failed => exact quiet rfl rfl
  | viewing => simp [Stage,ReadsAll]
  | truncated command =>
    rw [command] at stage
    obtain ⟨start,reads,none,_⟩ := stage
    have zero := none (.inl rfl)
    simp only [List.map_nil,List.append_nil]
    exact ⟨start,reads,fun _ => zero,fun _ => by simp [content,zero]⟩
  | @read since truncated read written name command next =>
    rw [command] at stage
    obtain ⟨start,reads,none,text⟩ := stage
    have room : read.length < logNames.length := (List.getElem?_eq_some_iff.mp next).1
    have zero := none (.inr room)
    simp only [List.map_nil,List.append_nil]
    refine ⟨start,reads_next start own reads next,fun _ => zero,fun emptied => ?_⟩
    rw [text emptied,zero,List.take_zero,List.take_zero]
  | sorted command both room =>
    rw [command] at stage
    obtain ⟨start,reads,_,text⟩ := stage
    simp only [List.map_nil,List.append_nil]
    refine ⟨start,reads,fun short => ?_,fun _ => ?_⟩
    · rcases short with absurd_ | short
      · cases absurd_
      · omega
    · rw [text rfl,take_writeAt room]
      simp [content]
  | waited command both =>
    rw [command] at stage
    obtain ⟨start,reads,_,text⟩ := stage
    simp only [List.map_nil,List.append_nil]
    exact ⟨_,both,reads,by rw [text rfl,List.take_length]⟩
  | shown => trivial

theorem acted_shown {before : Word → List (Status abi)} {appended : List (π × Status abi)} {files : Files} {c : Process abi}
    {call : Call abi} {done : Process abi × Files × List (Status abi)} {p : π}
    (stage : Stage round before appended (content files eventLogTxt) c.command)
    (shown : ∀ v ∈ c.shown, Current round before appended v)
    (acted : Process.Acted round appended.length files c call done) :
    ∀ v ∈ done.1.shown, Current round before (appended++done.2.2.map fun event => (p,event)) v := by
  have kept : ∀ v ∈ c.shown, Current round before (appended++done.2.2.map fun event => (p,event)) v :=
    fun v member => current_grow (shown v member)
  cases acted with
  | shown command =>
    rw [command] at stage
    intro v member
    rcases List.mem_append.mp member with old | new
    · exact kept v old
    · rw [List.mem_singleton.mp new]
      obtain ⟨read,both,reads,text⟩ := stage
      exact current_grow ⟨read,both,reads,text⟩
  | _ => exact kept

theorem sortLines_pieces {lines : List Text} (clean : ∀ line ∈ lines, '\n' ∉ line) :
    pieces '\n' (sortLines (terminate '\n' lines)) = keySort sortKey lines := by
  have sorted : ∀ line ∈ keySort sortKey lines, '\n' ∉ line := fun line member => clean line ((mem_keySort sortKey).mp member)
  rw [sortLines,pieces_terminate clean,pieces_terminate sorted]

def Between (before : Word → List (Status abi)) (appended : List (π × Status abi)) (v : View) (rtuId : Word)
    (records : List (Status abi)) : Prop :=
  ∃ count, v.since ≤ count ∧ count ≤ v.upto ∧ records = before rtuId++recordsOf rtuId (appended.take count)

def Merged (round : ℚ → ℚ) (before : Word → List (Status abi)) (appended : List (π × Status abi)) (v : View) : Prop :=
  ∃ one two, Between before appended v 1 one ∧ Between before appended v 2 two ∧
    pieces '\n' v.text = keySort sortKey ((one++two).map (line round))

theorem current_merged {before : Word → List (Status abi)} {appended : List (π × Status abi)} {v : View}
    (current : Current round before appended v) : Merged round before appended v := by
  obtain ⟨read,both,reads,text⟩ := current.shown
  rw [ReadsAll,both] at reads
  obtain ⟨a,rest,⟨count1,after1,within1,_,first,left,content1⟩,others,rfl⟩ := List.forall₂_cons_left_iff.mp reads
  obtain ⟨b,rest,⟨count2,after2,within2,_,second,right,content2⟩,none,rfl⟩ := List.forall₂_cons_left_iff.mp others
  cases List.forall₂_nil_left_iff.mp none
  refine ⟨_,_,⟨count1,after1,within1,rfl⟩,⟨count2,after2,within2,rfl⟩,?_⟩
  have each := List.rel_append left right
  have clean : ∀ line ∈ first++second, '\n' ∉ line := by
    intro line member
    obtain ⟨record,_,logged⟩ := (Written.line_of each).2 line member
    exact logLine_no_newline logged
  have whole : [a,b].flatten = terminate '\n' (first++second) := by
    rw [terminate_append,← content1,← content2]
    simp
  rw [text,whole,sortLines_pieces clean,← lines_of each]

variable [DecidableEq π]

theorem step_acted {d next : Directory π abi} {p : π} {call : Call abi} (taken : d.step round (p,call) = some next) :
    ∃ done, Process.Acted round d.appended.length d.files (d.processes p) call done ∧
      next = ⟨done.2.1,Function.update d.processes p done.1,d.appended++done.2.2.map fun event => (p,event)⟩ := by
  obtain ⟨done,ran,rfl⟩ := Option.map_eq_some_iff.mp taken
  exact ⟨done,Process.act_acted ran,rfl⟩

theorem step_filed {before : Word → List (Status abi)} {d next : Directory π abi} {action : π × Call abi}
    (filed : Filed round before d) (taken : d.step round action = some next) : Filed round before next := by
  obtain ⟨own,printed⟩ := filed
  obtain ⟨p,call⟩ := action
  obtain ⟨done,acted,rfl⟩ := step_acted taken
  refine ⟨fun rtuId => ?_,?_⟩
  · rw [recordsOf_append,← List.append_assoc]
    exact acted_written acted (printed p) own rtuId
  · exact (Function.forall_update_iff d.processes fun _ (c : Process abi) => ∀ event line, c.main = .printed event line →
      logLine round event = some line).mpr ⟨acted_printed acted (printed p),fun q _ => printed q⟩

theorem logs_stay_whole (round : ℚ → ℚ) (abi : Abi) (π : Type) [DecidableEq π] (files : Files)
    (before : Word → List (Status abi)) (actions : List (π × Call abi))
    (written : ∀ rtuId, Written round (before rtuId) (files (filename rtuId))) :
    Always (Directory.step round) (fun d => ∀ rtuId, Written round (before rtuId++recordsOf rtuId d.appended)
      (d.files (filename rtuId))) (.start π abi files) actions := by
  intro d visited
  exact (visited.invariant (start_filed written) step_filed).own

def twoHistorians : List (Bool × Call .ilp32) :=
  [(false,.fopen released true),(true,.fopen pressed true),(false,.fprintf),(true,.fprintf),(true,.fclose),(false,.fclose)]

theorem logs_stay_whole_two : Always (Directory.step id)
    (fun d => ∀ rtuId, Written id ([]++recordsOf rtuId d.appended) (d.files (filename rtuId)))
    (.start Bool .ilp32 fun _ => none) twoHistorians :=
  logs_stay_whole id .ilp32 Bool _ (fun _ => []) _ fun _ => ⟨[],.nil,rfl⟩

def viewing : List (Bool × Call .ilp32) :=
  [(false,.logView),(false,.truncate),(false,.cat),(false,.cat),(false,.sort 124),(false,.waited),(false,.shown)]

theorem step_viewer {before : Word → List (Status abi)} {p : π} {d next : Directory π abi} {action : π × Call abi}
    (filed : Filed round before d) (viewer : Viewer round before p d) (taken : d.step round action = some next)
    (sole : action.2.writesView = true → action.1 = p) : Viewer round before p next := by
  obtain ⟨stage,shown⟩ := viewer
  obtain ⟨q,call⟩ := action
  obtain ⟨done,acted,rfl⟩ := step_acted taken
  by_cases own : q = p
  · subst own
    constructor
    · simp only [Function.update_self]
      exact acted_stage filed.own stage acted
    · simp only [Function.update_self]
      exact acted_shown stage shown acted
  · have silent : call.writesView = false := Bool.eq_false_iff.mpr fun writes => own (sole writes)
    constructor
    · simp only [Function.update_of_ne (Ne.symm own),acted_view acted silent]
      exact stage_grow stage
    · simp only [Function.update_of_ne (Ne.symm own)]
      exact fun v member => current_grow (shown v member)

-- While only one of them runs log_view: no line is torn, no record of before it is
-- missing and none appears twice.
theorem views_are_merged (round : ℚ → ℚ) (abi : Abi) (π : Type) [DecidableEq π] (files : Files)
    (before : Word → List (Status abi)) (p : π) (actions : List (π × Call abi))
    (written : ∀ rtuId, Written round (before rtuId) (files (filename rtuId)))
    (sole : ∀ action ∈ actions, action.2.writesView = true → action.1 = p) :
    Always (Directory.step round) (fun d => ∀ v ∈ (d.processes p).shown, Merged round before d.appended v)
      (.start π abi files) actions := by
  have valid : Always (Directory.step round) (fun d => Filed round before d ∧ Viewer round before p d) (.start π abi files)
      actions := by
    refine always_of_takes ⟨start_filed written,trivial,nofun⟩ ?_
    rintro d action next ⟨earlier,later,rfl,_,taken⟩ ⟨filed,viewer⟩
    exact ⟨step_filed filed taken,step_viewer filed viewer taken (sole action (by simp))⟩
  exact fun d visited v member => current_merged ((valid d visited).2.shown v member)

theorem views_are_merged_two : Always (Directory.step id)
    (fun d => ∀ v ∈ (d.processes false).shown, Merged id (fun _ => []) d.appended v)
    (.start Bool .ilp32 fun _ => none) (twoHistorians++viewing) :=
  views_are_merged id .ilp32 Bool _ (fun _ => []) false _ (fun _ => ⟨[],.nil,rfl⟩) (by decide)

end Scada.Processes
