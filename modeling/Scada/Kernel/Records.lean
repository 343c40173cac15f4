import Scada.Historian.Exactness
import Scada.Kernel.Nesting

namespace Scada.Kernel
open Programs BoundedQueues Machines Historian Binary64 Decimals Delimited

def clockReading : (c : Call) → c.Reply → List (Timeval .ilp32)
  | .doGettimeofday,now => [now]
  | _,_ => []

def clockReadings (trace : List (Event Call Call.Reply σ)) : List (Timeval .ilp32) := trace.flatMap fun e => clockReading e.call e.reply

structure Ledger where
  readings : List (Timeval .ilp32)
  reported : List (Status .ilp32)

def ledger (trace : List (Event Call Call.Reply σ)) : Ledger := ⟨clockReadings trace,puts trace⟩

structure Sound (st : Status .ilp32) : Prop where
  event : ∃ i, st.eventType = (RtuEvent.rising i).code ∨ st.eventType = (RtuEvent.falling i).code
  voltage : st.lineVoltage = 555
  buttons : ∀ i, st.buttonStatus i = 0 ∨ st.buttonStatus i = 1

namespace Ledger

def times (r : Ledger) : List (Timeval .ilp32) := r.reported.map (·.eventTv)

structure Timed (r : Ledger) : Prop where
  times : r.times <+: r.readings
  ahead : r.readings.length ≤ r.reported.length+1
  sound : ∀ st ∈ r.reported, Sound st

structure Settled (r : Ledger) : Prop where
  times : r.readings = r.times
  sound : ∀ st ∈ r.reported, Sound st

def after (r : Ledger) (c : Call) (reply : c.Reply) : Ledger := ⟨r.readings++clockReading c reply,r.reported++c.putRecord⟩

def Permits (r : Ledger) : Call → Prop
  | .doGettimeofday => r.readings = r.times
  | .rtfPut _ st => r.readings = r.times++[st.eventTv] ∧ Sound st
  | _ => True

theorem Settled.timed {r : Ledger} (settled : r.Settled) : r.Timed :=
  ⟨settled.times ▸ List.prefix_refl _,by rw [settled.times,Ledger.times,List.length_map]; omega,settled.sound⟩

theorem after_timed {r : Ledger} (timed : r.Timed) {c : Call} (permitted : r.Permits c) (reply : c.Reply) :
    (r.after c reply).Timed := by
  have same : ∀ {next : Ledger}, next.readings = r.readings → next.reported = r.reported → next.Timed := by
    rintro ⟨readings,reported⟩ rfl rfl
    exact timed
  cases c with
  | doGettimeofday =>
    have level : r.readings = r.times := permitted
    have reported : (r.after .doGettimeofday reply).reported = r.reported := List.append_nil _
    refine ⟨?_,?_,reported ▸ timed.sound⟩
    · rw [times,reported]
      exact timed.times.trans (List.prefix_append _ _)
    · rw [reported]
      simp only [after,clockReading,level,times,List.length_append,List.length_map,List.length_singleton]
      omega
  | rtfPut fifo st =>
    obtain ⟨outstanding,sound⟩ := permitted
    have level : (r.after (.rtfPut fifo st) reply).readings = (r.after (.rtfPut fifo st) reply).times := by
      simp [after,clockReading,times,Call.putRecord,outstanding]
    have settled : (r.after (.rtfPut fifo st) reply).Settled := by
      refine ⟨level,fun other member => ?_⟩
      rcases List.mem_append.mp member with old | new
      · exact timed.sound other old
      · rw [List.mem_singleton.mp new]
        exact sound
    exact settled.timed
  | _ => exact same (List.append_nil _) (List.append_nil _)

end Ledger

def ledgerSpec : Spec Call Call.Reply Ledger where
  moves := Eq
  permits := Ledger.Permits
  replies _ _ _ := True
  effect := Ledger.after

theorem ledger_describes (earlier : List (Event Call Call.Reply Board)) (inputs : Nat → Oracle) :
    Describes free inputs ledgerSpec (fun trace _ r => r = ledger (earlier++trace) ∧ r.Timed) where
  arrive related := ⟨_,rfl,related⟩
  answer _ := trivial
  after related permitted _ := by
    obtain ⟨rfl,timed⟩ := related
    refine ⟨?_,Ledger.after_timed timed permitted _⟩
    simp [ledgerSpec,Ledger.after,ledger,clockReadings,puts,← List.append_assoc]

section
variable {α : Type} {post : α → Ledger → Prop} {r : Ledger}

def Call.untimed : Call → Prop
  | .doGettimeofday | .rtfPut _ _ => False
  | _ => True

theorem ledger_pass {c : Call} {rest : c.Reply → Code α} (untimed : c.untimed)
    (each : ∀ reply, Meets ledgerSpec post (rest reply) r) : Meets ledgerSpec post (.call c rest) r := by
  rintro _ rfl
  cases c with
  | doGettimeofday | rtfPut => exact untimed.elim
  | _ => exact ⟨trivial,fun reply _ => by simpa [ledgerSpec,Ledger.after,clockReading,Call.putRecord] using each reply⟩

theorem ledger_put {st : Timeval .ilp32 → Status .ilp32} {rest : Int → Code α} (settled : r.Settled)
    (sound : ∀ now, Sound (st now)) (stamped : ∀ now, (st now).eventTv = now)
    (each : ∀ ret next, next.Settled → Meets ledgerSpec post (rest ret) next) :
    Meets ledgerSpec post (.call .doGettimeofday fun now => .call (.rtfPut fifoWrite (st now)) rest) r := by
  rintro _ rfl
  refine ⟨settled.times,fun now _ => ?_⟩
  rintro _ rfl
  have outstanding : (r.after .doGettimeofday now).readings = (r.after .doGettimeofday now).times++[(st now).eventTv] := by
    simp [Ledger.after,clockReading,Ledger.times,Call.putRecord,stamped,settled.times]
  refine ⟨⟨outstanding,sound now⟩,fun ret _ => each ret _ ⟨?_,fun other member => ?_⟩⟩
  · simp [ledgerSpec,Ledger.after,clockReading,Ledger.times,Call.putRecord,stamped,settled.times]
  · have among : other ∈ r.reported++[st now] := by simpa [ledgerSpec,Ledger.after,Call.putRecord] using member
    rcases List.mem_append.mp among with old | new
    · exact settled.sound other old
    · rw [List.mem_singleton.mp new]
      exact sound now

end

variable {r : Ledger}

theorem sampled_buttons (raw : Status .ilp32) (levels : Button → Word) (j : Button) :
    (sampled raw levels).buttonStatus j = 0 ∨ (sampled raw levels).buttonStatus j = 1 := by
  simp only [sampled]
  split
  · exact .inr rfl
  · exact .inl rfl

theorem sampleButtons_ledger {post : Status .ilp32 → Ledger → Prop}
    (ready : ∀ raw levels, post (sampled raw levels) r) : Meets ledgerSpec post sampleButtons r := by
  unfold sampleButtons load stack
  simp only [Program.bind_perform,Program.pure_done]
  refine ledger_pass trivial fun raw => ledger_pass trivial fun p0 => ledger_pass trivial fun p1 =>
    ledger_pass trivial fun p2 => ?_
  have filled := ready raw ![p0,p1,p2]
  rw [sampled_eq] at filled
  exact filled

theorem recordEvent_ledger (i : Button) (st : Status .ilp32) {post : Unit → Ledger → Prop} (settled : r.Settled)
    (buttons : ∀ j, st.buttonStatus j = 0 ∨ st.buttonStatus j = 1) (ready : ∀ next : Ledger, next.Settled → post () next) :
    Meets ledgerSpec post (recordEvent i (RtuEvent.rising i) (RtuEvent.falling i) st) r := by
  unfold recordEvent load store doGettimeofday rtfPut
  simp only [Program.bind_perform]
  refine ledger_pass trivial fun type => ?_
  split
  · refine ledger_pass trivial fun word => ledger_pass trivial fun _ => ?_
    exact ledger_put settled (fun now => ⟨⟨i,.inl rfl⟩,rfl,buttons⟩) (fun _ => rfl) fun _ => ready
  · refine ledger_pass trivial fun word => ledger_pass trivial fun _ => ?_
    exact ledger_put settled (fun now => ⟨⟨i,.inr rfl⟩,rfl,buttons⟩) (fun _ => rfl) fun _ => ready

theorem reportEdge_ledger (st : Status .ilp32) {post : Unit → Ledger → Prop} (settled : r.Settled)
    (buttons : ∀ j, st.buttonStatus j = 0 ∨ st.buttonStatus j = 1) (ready : ∀ next : Ledger, next.Settled → post () next) :
    Meets ledgerSpec post (reportEdge st) r := by
  unfold reportEdge load
  simp only [Program.bind_perform]
  refine ledger_pass trivial fun first => ?_
  split
  · exact recordEvent_ledger 0 st settled buttons ready
  · refine ledger_pass trivial fun second => ?_
    split
    · exact recordEvent_ledger 1 st settled buttons ready
    · refine ledger_pass trivial fun third => ?_
      split
      · exact recordEvent_ledger 2 st settled buttons ready
      · exact ready r settled

theorem clearEoi_ledger {post : Unit → Ledger → Prop} (ready : post () r) : Meets ledgerSpec post (clearEoi hwIrq) r := by
  unfold clearEoi load store rtEnableIrq
  simp only [Program.bind_perform]
  exact ledger_pass trivial fun value => ledger_pass trivial fun _ => ledger_pass trivial fun _ => ready

theorem buttonHandler_ledger (settled : r.Settled) :
    Meets ledgerSpec (fun _ => Ledger.Settled) (buttonHandler hwIrq) r := by
  unfold buttonHandler rtDisableIrq
  simp only [Program.bind_perform]
  refine ledger_pass trivial fun _ => meets_bind (sampleButtons_ledger fun raw levels => meets_bind ?_)
  exact reportEdge_ledger _ settled (sampled_buttons raw levels) fun next later => clearEoi_ledger later

theorem settled_start : (ledger ([] : List (Event Call Call.Reply Board))).Settled := ⟨rfl,List.forall_mem_nil _⟩

theorem step_settled {h next : Host} {a : Action} (settled : (ledger h.handled).Settled) (taken : h.step a = some next) :
    (ledger next.handled).Settled := by
  cases a with
  | interrupt inputs =>
    obtain ⟨_,rfl⟩ := guarded taken
    have related : ledger h.handled = ledger (h.handled++[]) ∧ (ledger h.handled).Timed := by
      rw [List.append_nil]
      exact ⟨rfl,settled.timed⟩
    obtain ⟨last,⟨rfl,_⟩,later⟩ := meets_run (ledger_describes h.handled inputs) related (buttonHandler_ledger settled)
    exact later
  | _ => exact (thread_handled rfl taken).symm ▸ settled

theorem stands_timed {n : Preempted} {h : Host} (settled : (ledger h.handled).Settled) (stands : Stands n h) :
    (ledger n.host.handled).Timed := by
  cases stands with
  | idle => exact settled.timed
  | @running h board frame below inputs trace _ _ steps _ _ =>
    have related : ledger h.handled = ledger (h.handled++[]) ∧ (ledger h.handled).Timed := by
      rw [List.append_nil]
      exact ⟨rfl,settled.timed⟩
    obtain ⟨last,⟨rfl,timed⟩,_⟩ := steps.meets (ledger_describes h.handled) related (buttonHandler_ledger settled)
    exact timed

theorem run_settled {h next : Host} {actions : List Action} (settled : (ledger h.handled).Settled)
    (path : Runs Host.step h actions next) : (ledger next.handled).Settled :=
  path.invariant (P := fun h => (ledger h.handled).Settled) settled step_settled

theorem preempted_timed {n : Preempted} {registers : Register → Word} {actions : List Progress}
    (visited : Visits Preempted.step (.start registers) actions n) : (ledger n.host.handled).Timed := by
  have invariant : ∃ h, Stands n h ∧ (ledger h.handled).Settled := by
    refine visited.invariant (P := fun n => ∃ h, Stands n h ∧ (ledger h.handled).Settled)
      ⟨_,.idle (n := .start registers) nofun fun some => absurd rfl some,settled_start⟩ ?_
    rintro n action next ⟨h,stands,settled⟩ taken
    obtain ⟨_,h',path,_,later⟩ := step_stands stands taken
    exact ⟨h',later,run_settled settled path⟩
  obtain ⟨h,stands,settled⟩ := invariant
  exact stands_timed settled stands

def Ledger.Ordered (r : Ledger) : Prop :=
  r.readings.Pairwise (fun a b => a.tvSec.toInt*1000000+a.tvUsec.toInt ≤ b.tvSec.toInt*1000000+b.tvUsec.toInt) →
    r.times.Pairwise (fun a b => clock double a ≤ clock double b)

theorem Ledger.Timed.ordered {r : Ledger} (timed : r.Timed) : r.Ordered := by
  intro forward
  refine (forward.sublist timed.times.sublist).imp fun {a b} before => ?_
  rw [clock_word,clock_word]
  exact before

-- Whatever breaks in and whenever, each record carries the clock reading made
-- for it, in the order of the readings.
theorem records_timed (registers : Register → Word) (actions : List Progress) :
    Always Preempted.step (fun n => (ledger n.host.handled).Timed ∧ (ledger n.host.handled).Ordered)
      (.start registers) actions := by
  intro n visited
  have timed := preempted_timed visited
  exact ⟨timed,timed.ordered⟩

def pressed (level : Bool) : Text := if level then ['1'] else ['0']

-- What nothing fills in, the id and the LEDs, is what the stack held.
def Printed (st : Status .ilp32) : Prop := ∃ levels : Button → Bool, ∃ name ∈ eventStrings.take 6,
  logLine double (Status.ofBytes .ilp32 st.toBytes) = some (terminate '|' [
    decimal st.rtuId.toInt,fixed (time id st.eventTv),pressed (levels 0),pressed (levels 1),pressed (levels 2),
    decimal (st.ledStatus 0).toInt,decimal (st.ledStatus 1).toInt,"0.677656".toList,name])

theorem event_named (i : Button) : (∃ name ∈ eventStrings.take 6, eventToString (RtuEvent.rising i).code = some name) ∧
    ∃ name ∈ eventStrings.take 6, eventToString (RtuEvent.falling i).code = some name := by
  fin_cases i <;> exact ⟨⟨_,by decide,rfl⟩,⟨_,by decide,rfl⟩⟩

theorem decimal_level {word : Word} (level : word = 0 ∨ word = 1) : ∃ up, decimal word.toInt = pressed up := by
  rcases level with rfl | rfl
  · exact ⟨false,by decide +kernel⟩
  · exact ⟨true,by decide +kernel⟩

theorem fixed_reading : fixed (adcToVolts double 555) = "0.677656".toList := by
  rw [fixed_volts]
  decide +kernel

theorem Sound.printed {st : Status .ilp32} (sound : Sound st) : Printed st := by
  have level : ∀ i, ∃ up, decimal (st.buttonStatus i).toInt = pressed up := fun i => decimal_level (sound.buttons i)
  choose levels shown using level
  have named : ∃ name ∈ eventStrings.take 6, eventToString st.eventType = some name := by
    obtain ⟨i,rising | falling⟩ := sound.event
    · rw [rising]; exact (event_named i).1
    · rw [falling]; exact (event_named i).2
  obtain ⟨name,among,known⟩ := named
  refine ⟨levels,name,among,?_⟩
  rw [Status.ofBytes_toBytes,logLine,known]
  simp only [Option.map_some,logFields,shown,sound.voltage,fixed_reading,
    fixed_time (word_size st.eventTv.tvSec) (word_size st.eventTv.tvUsec)]

theorem records_printed (registers : Register → Word) (actions : List Progress) :
    Always Preempted.step (fun n => ∀ st ∈ puts n.host.handled, Printed st) (.start registers) actions := by
  intro n visited st among
  exact ((preempted_timed visited).sound st among).printed

end Scada.Kernel
