import Scada.Rtu.Reader

namespace Scada.Rtu
open Kernel Programs BoundedQueues BitMasks Machines

namespace Reader

def Carries (r : Reader) (c : Channel UInt8) : Prop :=
  r.board.fifo = some c.queue ∧ c.puts = r.puts.map Status.toBytes ∧ c.blocks = r.blocks

def sends (r : Reader) : Action → List (BoundedQueues.Action UInt8)
  | .interrupt inputs => (Kernel.puts (invoke r.board inputs).trace).map (.put ·.toBytes)
  | .read => [.take]

theorem start_carries (before : Board) (setup : Nat → Oracle) (capacity : Nat) :
    (start before setup capacity).Carries (.start capacity) := ⟨rfl,rfl,rfl⟩

theorem invoke_puts (b : Board) (inputs : Nat → Oracle) :
    (selects inputs = false → Kernel.puts (invoke b inputs).trace = []) ∧
    (selects inputs = true → ∃ record, Kernel.puts (invoke b inputs).trace = [record]) := by
  obtain ⟨_,_,quiet,loud⟩ := handler_visits b inputs
  exact ⟨fun unselected => (quiet unselected).1,fun selected => (loud selected).imp fun _ one => one.1⟩

theorem step_carries : Refines step (Channel.step (β := UInt8) (Status.sizeof .ilp32)) Carries sends := by
  intro r action next c carries taken
  obtain ⟨there,puts,blocks⟩ := carries
  obtain ⟨q,sent,got⟩ := c
  cases puts
  cases blocks
  have puts' : ∀ inputs, action = .interrupt inputs → next.puts = r.puts++Kernel.puts (invoke r.board inputs).trace := by
    rintro inputs rfl
    cases taken
    rfl
  cases step_moved taken with
  | @silent inputs eoi unselected =>
    refine ⟨⟨q,_,_⟩,?_,there,rfl,rfl⟩
    rw [sends,(invoke_puts r.board inputs).1 unselected]
    exact .nil
  | @put inputs kept i st now eoi selected whole =>
    obtain ⟨record,one⟩ := (invoke_puts r.board inputs).2 selected
    have same : record = r.board.record i st now := by
      have tail := puts' inputs rfl
      rw [one] at tail
      simpa using tail.symm
    subst same
    refine ⟨⟨q.put (r.board.record i st now).toBytes,_,_⟩,?_,?_,rfl,rfl⟩
    · rw [sends,one]
      apply Runs.single
      simp [Channel.step]
    · simp [Board.acknowledged,Board.recorded,there]
  | @read q' block rest there' took =>
    cases Option.some.inj (there.symm.trans there')
    refine ⟨⟨rest,_,_⟩,?_,rfl,rfl,rfl⟩
    apply Runs.single
    simp [Channel.step,took]

theorem runs_whole {before : Board} {setup : Nat → Oracle} {capacity : Nat} {actions : List Action} {r : Reader}
    (aligned : Status.sizeof .ilp32 ∣ capacity) (path : Runs step (start before setup capacity) actions r) :
    ∃ records : List (Status .ilp32), r.blocks = records.map Status.toBytes ∧ records.Sublist r.puts := by
  obtain ⟨sent,c,channel,_,puts,blocks⟩ := step_carries.runs (start_carries before setup capacity) path
  have framed := runs_blocks (by decide) aligned channel
  rw [puts,blocks] at framed
  obtain ⟨records,sublist,same⟩ := List.sublist_map_iff.mp framed
  exact ⟨records,same,sublist⟩

def pressing (marker : Word) : Oracle
  | .stack => {Status.zero .ilp32 with rtuId:=marker}
  | .load .intStsB => 1
  | c => Oracle.uneventful c

def marked (marker : Word) (rising : Bool) : Status .ilp32 :=
  {Status.zero .ilp32 with rtuId:=marker,lineVoltage:=555,eventType:=if rising then 1 else 0}

theorem pressing_record {b : Board} {marker : Word} {i : Button} {st : Status .ilp32} {now : Timeval .ilp32}
    (grounded : Grounded (told (pressing marker)) i st now) : i = 0 ∧ b.record i st now = marked marker (b.polarity 0) := by
  obtain ⟨⟨raw,levels,stack,low,rfl⟩,⟨status,chosen,set⟩,timed⟩ := grounded
  cases stack rfl
  cases chosen rfl
  cases timed rfl
  have only : ∀ i : Button, BitVec.getLsbD (1 : Word) i.val = true → i = 0 := by decide
  obtain rfl := only i set
  refine ⟨rfl,?_⟩
  have zero : ∀ j, levels j = 0 := fun j => low j rfl
  cases polarity : b.polarity 0 <;>
    simp [Board.record,sampled,marked,zero,polarity,Status.zero,pressing,Oracle.uneventful,RtuEvent.code,RtuEvent.falling,
      RtuEvent.rising]

theorem press_step (r : Reader) (marker : Word) : ∃ next, r.step (.interrupt fun _ => pressing marker) = some next ∧
    r.sends (.interrupt fun _ => pressing marker) = [.put (marked marker (r.board.polarity 0)).toBytes] ∧
    next.board.polarity 0 = !r.board.polarity 0 := by
  refine ⟨_,rfl,?_⟩
  have chosen : BitVec.getLsbD (1 : Word) 0 = true := by decide
  obtain ⟨record,one⟩ := (invoke_puts r.board fun _ => pressing marker).2 (selects_iff.mpr (.inl chosen))
  obtain ⟨eoi,⟨none,_⟩ | ⟨i,st,now,grounded,reported,board⟩⟩ :=
    (handler_heard free_tracks (hears_always _ (fun _ => pressing marker) (free_told (pressing marker))) r.board trivial).2
  · rw [invoke,none] at one
    cases one
  · obtain ⟨rfl,same⟩ := pressing_record (b := r.board) grounded
    simp only [id_eq] at reported board
    refine ⟨?_,?_⟩
    · rw [sends,invoke,reported,same]; rfl
    · rw [invoke,board,acknowledged_polarity,recorded_polarity,if_pos rfl]

-- A plan presses with a mark or reads; every press turns the polarity.
def doings (plan : List (Option Word)) : List Action := plan.map fun
  | some marker => .interrupt fun _ => pressing marker
  | none => .read

def planned : Bool → List (Option Word) → List (BoundedQueues.Action UInt8)
  | _,[] => []
  | rising,some marker::rest => .put (marked marker rising).toBytes::planned (!rising) rest
  | rising,none::rest => .take::planned rising rest

theorem follows {r : Reader} {c last : Channel UInt8} {plan : List (Option Word)} (carries : r.Carries c)
    (path : Runs (Channel.step (Status.sizeof .ilp32)) c (planned (r.board.polarity 0) plan) last) :
    ∃ next, Runs step r (doings plan) next ∧ next.Carries last := by
  induction plan generalizing r c with
  | nil =>
    cases run_exact.mpr path
    exact ⟨r,.nil,carries⟩
  | cons first rest ih =>
    cases first with
    | some marker =>
      obtain ⟨middle,taken,later⟩ := Runs.uncons path
      obtain ⟨next,one,sent,turned⟩ := press_step r marker
      obtain ⟨c',channel,related⟩ := step_carries carries one
      rw [sent] at channel
      cases channel.unique (.single taken)
      rw [← turned] at later
      obtain ⟨final,tail,ends⟩ := ih related later
      exact ⟨final,.cons one tail,ends⟩
    | none =>
      obtain ⟨middle,taken,later⟩ := Runs.uncons path
      rcases Channel.step_cases taken with ⟨_,absurd,_⟩ | ⟨block,left,_,got,_⟩
      · cases absurd
      · have one : r.step .read = some {r with board:={r.board with fifo:=some left},blocks:=r.blocks++[block]} := by
          simp [step,carries.1,got]
        obtain ⟨c',channel,related⟩ := step_carries carries one
        cases channel.unique (.single taken)
        obtain ⟨final,tail,ends⟩ := ih related later
        exact ⟨final,.cons one tail,ends⟩

def marks : Bool → List Word → List (Status .ilp32)
  | _,[] => []
  | rising,marker::rest => marked marker rising::marks (!rising) rest

def turned : Bool → Nat → Bool
  | rising,0 => rising
  | rising,n+1 => turned (!rising) n

theorem planned_presses (rising : Bool) (markers : List Word) (rest : List (Option Word)) :
    planned rising (markers.map some++rest) =
      (marks rising markers).map (.put ·.toBytes)++planned (turned rising markers.length) rest := by
  induction markers generalizing rising with
  | nil => rfl
  | cons marker later ih => simp [planned,marks,turned,ih]

theorem planned_reads (rising : Bool) (count : Nat) :
    planned rising (List.replicate count none) = List.replicate count .take := by
  induction count with
  | zero => rfl
  | succ count ih => simp [List.replicate_succ,planned,ih]

theorem marks_length (rising : Bool) (markers : List Word) : (marks rising markers).length = markers.length := by
  induction markers generalizing rising with
  | nil => rfl
  | cons marker later ih => simp [marks,ih]

theorem marks_unmarked {rising : Bool} {count : Nat} {record : Status .ilp32}
    (member : record ∈ marks rising (List.replicate count 0)) : ∃ side, record = marked 0 side := by
  induction count generalizing rising with
  | zero => cases member
  | succ count ih =>
    rcases List.mem_cons.mp member with rfl | later
    · exact ⟨rising,rfl⟩
    · exact ih later

theorem marked_tail {marker : Word} (either : marker = 0 ∨ marker = 0xA5) (side : Bool) :
    0xA5 ∉ (marked marker side).toBytes.drop 1 := by
  have clear : ((marked marker side).toBytes.drop 1).elem 0xA5 = false := by
    rcases either with rfl | rfl <;> cases side <;> decide +kernel
  simpa using clear

theorem marked_front (side : Bool) : (marked 0xA5 side).toBytes.head? = some 0xA5 := by
  cases side <;> decide +kernel

def Mixed (block : List UInt8) (a b : Status .ilp32) : Prop :=
  ∃ n, 0 < n ∧ n < Status.sizeof .ilp32 ∧ block = a.toBytes.take n++b.toBytes.take (Status.sizeof .ilp32-n)

theorem torn_unmatched {marker : Word} (either : marker = 0 ∨ marker = 0xA5) (side other mark : Bool) {n : Nat} (positive : 0 < n)
    (inside : n < Status.sizeof .ilp32) :
    (marked 0 other).toBytes.take n++(marked 0xA5 mark).toBytes.take (Status.sizeof .ilp32-n) ≠ (marked marker side).toBytes := by
  intro same
  obtain ⟨rest,front⟩ : ∃ rest, (marked 0xA5 mark).toBytes.take (Status.sizeof .ilp32-n) = 0xA5::rest := by
    obtain ⟨tail,split⟩ := List.head?_eq_some_iff.mp (marked_front mark)
    obtain ⟨k,more⟩ : ∃ k, Status.sizeof .ilp32-n = k+1 := ⟨Status.sizeof .ilp32-n-1,by omega⟩
    exact ⟨tail.take k,by rw [split,more,List.take_succ_cons]⟩
  have length : ((marked 0 other).toBytes.take n).length = n := by
    rw [List.length_take,Status.toBytes_length]; omega
  have member : (0xA5 : UInt8) ∈ ((marked marker side).toBytes.drop 1) := by
    rw [← same,front,List.drop_append_of_le_length (by omega)]
    simp
  exact marked_tail either side member

theorem start_polarity (before : Board) (setup : Nat → Oracle) (capacity : Nat) (i : Button) :
    (start before setup capacity).board.polarity i = false := (armed_tracking before setup).parity i

theorem torn_read {capacity : Nat} (fits : Status.sizeof .ilp32 ≤ capacity) (unaligned : ¬ Status.sizeof .ilp32 ∣ capacity) :
    ∃ before setup actions r, Runs step (start before setup capacity) actions r ∧
      ∃ a ∈ r.puts, ∃ b ∈ r.puts, a ≠ b ∧ ∃ block ∈ r.blocks, Mixed block a b ∧ ∀ record ∈ r.puts, block ≠ record.toBytes := by
  obtain ⟨k,count⟩ : ∃ k, capacity/Status.sizeof .ilp32 = k+1 :=
    ⟨capacity/Status.sizeof .ilp32-1,by have := Nat.div_pos fits (by decide); omega⟩
  have division := Nat.div_add_mod capacity (Status.sizeof .ilp32)
  have inside := Nat.mod_lt capacity (show 0 < Status.sizeof .ilp32 by decide)
  have positive : 0 < capacity % Status.sizeof .ilp32 := Nat.pos_of_ne_zero fun zero => unaligned (Nat.dvd_of_mod_eq_zero zero)
  rw [count] at division
  let whole := marks true (List.replicate k 0)
  let side := turned false (k+1)
  have rows : (whole.map Status.toBytes).length = k := by simp [whole,marks_length]
  have left : capacity-Status.sizeof .ilp32*((whole.map Status.toBytes).length+1) = capacity % Status.sizeof .ilp32 := by
    rw [rows]; omega
  obtain ⟨q,channel⟩ := torn_run capacity (marked 0 false).toBytes (marked 0 side).toBytes (marked 0xA5 (!side)).toBytes
    (whole.map Status.toBytes)
    (by
      intro block member
      rcases List.mem_cons.mp member with rfl | later
      · exact Status.toBytes_length _
      · obtain ⟨record,_,rfl⟩ := List.mem_map.mp later
        exact Status.toBytes_length record)
    (Status.toBytes_length _) (Status.toBytes_length _) (by rw [rows]; omega) (by rw [left]; exact inside)
  rw [left,rows] at channel
  have plan : planned ((start .off (fun _ => .uneventful) capacity).board.polarity 0)
      ((List.replicate (k+1) 0).map some++some 0::none::some 0xA5::List.replicate (k+1) none) =
      (((marked 0 false).toBytes::whole.map Status.toBytes).map .put++
        [.put (marked 0 side).toBytes,.take,.put (marked 0xA5 (!side)).toBytes])++List.replicate (k+1) .take := by
    rw [start_polarity,planned_presses,List.length_replicate]
    simp only [planned,planned_reads]
    simp [List.replicate_succ (n := k),marks,whole,side]
  rw [← plan] at channel
  obtain ⟨r,path,_,puts,blocks⟩ := follows (start_carries _ _ _) channel
  have records : r.puts = marks false (List.replicate (k+1) 0)++[marked 0 side,marked 0xA5 (!side)] := by
    apply List.map_injective_iff.mpr Status.toBytes_injective
    rw [← puts]
    simp [List.replicate_succ (n := k),marks,whole]
  refine ⟨_,_,_,r,path,marked 0 side,by simp [records],marked 0xA5 (!side),by simp [records],?_,_,?_,
    ⟨_,positive,inside,rfl⟩,?_⟩
  · exact fun same => absurd (congrArg Status.rtuId same) (by simp [marked])
  · rw [← blocks]; simp
  · intro record member
    rw [records] at member
    rcases List.mem_append.mp member with early | late
    · obtain ⟨other,rfl⟩ := marks_unmarked early
      exact torn_unmatched (.inl rfl) other side _ positive inside
    · rcases List.mem_cons.mp late with rfl | last
      · exact torn_unmatched (.inl rfl) side side _ positive inside
      · cases List.mem_singleton.mp last
        exact torn_unmatched (.inr rfl) _ side _ positive inside

end Reader

-- Records keep their frame across FIFO 0 exactly when its capacity is a
-- multiple of their size.
theorem framed_iff_aligned (capacity : Nat) (fits : Status.sizeof .ilp32 ≤ capacity) :
    (Status.sizeof .ilp32 ∣ capacity → ∀ before setup actions r,
      Runs Reader.step (.start before setup capacity) actions r →
        ∃ records : List (Status .ilp32), r.blocks = records.map Status.toBytes ∧ records.Sublist r.puts) ∧
    (¬ Status.sizeof .ilp32 ∣ capacity → ∃ before setup actions r,
      Runs Reader.step (.start before setup capacity) actions r ∧
        ∃ a ∈ r.puts, ∃ b ∈ r.puts, a ≠ b ∧
          ∃ block ∈ r.blocks, Reader.Mixed block a b ∧ ∀ record ∈ r.puts, block ≠ record.toBytes) :=
  ⟨fun aligned _ _ _ _ path => Reader.runs_whole aligned path,Reader.torn_read fits⟩

theorem framed_iff_aligned_requested :
    (∀ before setup actions r, Runs Reader.step (.start before setup 40) actions r →
      ∃ records : List (Status .ilp32), r.blocks = records.map Status.toBytes ∧ records.Sublist r.puts) ∧
    ∃ before setup actions r, Runs Reader.step (.start before setup 50) actions r ∧
      ∃ a ∈ r.puts, ∃ b ∈ r.puts, a ≠ b ∧
        ∃ block ∈ r.blocks, Reader.Mixed block a b ∧ ∀ record ∈ r.puts, block ≠ record.toBytes :=
  ⟨(framed_iff_aligned 40 (by decide)).1 (by decide),(framed_iff_aligned 50 (by decide)).2 (by decide)⟩

end Scada.Rtu
