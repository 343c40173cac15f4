import Scada.Historian.MainLoop

namespace Scada.Historian
open Machines LittleEndian
open Exchange (SockaddrIn Incoming)

variable {round : ℚ → ℚ} {abi : Abi}

-- The four bytes of a datagram that end up in event_type, least significant
-- first; those it does not have count as zero.
def Enumerated (abi : Abi) (payload : List UInt8) : Prop :=
  payload.getD (Status.typeOffset abi) 0 ≤ 12 ∧ ∀ i, 1 ≤ i → i < 4 → payload.getD (Status.typeOffset abi+i) 0 = 0

theorem fill_cleared (size : Nat) (payload : List UInt8) {i : Nat} (within : i < size) :
    (Exchange.fill (List.replicate size 0) payload)[i]? = some (payload.getD i 0) := by
  rw [Exchange.fill,List.length_replicate,List.drop_replicate]
  by_cases there : i < payload.length
  · have taken : i < (payload.take size).length := by
      rw [List.length_take]
      omega
    rw [List.getElem?_append_left taken,List.getElem?_take_of_lt within,List.getD,List.getElem?_eq_getElem there]
    rfl
  · have past : (payload.take size).length ≤ i := by
      rw [List.length_take]
      omega
    rw [List.getElem?_append_right past,List.getElem?_replicate,List.getD,List.getElem?_eq_none (not_lt.mp there),if_pos]
    · rfl
    · rw [List.length_take]
      omega

theorem word_bytes {bytes : List UInt8} {offset : Nat} {b : Nat → UInt8} (known : ∀ j < 4, bytes[offset+j]? = some (b j)) :
    (Status.wordAt bytes offset).toNat = (b 0).toNat+256*((b 1).toNat+256*((b 2).toNat+256*(b 3).toNat)) := by
  have slice : (bytes.drop offset).take 4 = [b 0,b 1,b 2,b 3] := by
    apply List.ext_getElem?
    intro j
    rcases Nat.lt_or_ge j 4 with inside | outside
    · rw [List.getElem?_take_of_lt inside,List.getElem?_drop,known j inside]
      have index : j = 0 ∨ j = 1 ∨ j = 2 ∨ j = 3 := by omega
      rcases index with rfl | rfl | rfl | rfl <;> rfl
    · rw [List.getElem?_eq_none (by rw [List.length_take]; omega),List.getElem?_eq_none outside]
  have small : ∀ j, (b j).toNat < 256 := fun j => (b j).toNat_lt
  have := small 0
  have := small 1
  have := small 2
  have := small 3
  rw [Status.wordAt,slice,BitVec.toNat_ofNat]
  simp only [decode]
  omega

theorem received_inTable (payload : List UInt8) : InTable (received abi payload) ↔ Enumerated abi payload := by
  have inside : ∀ j < 4, Status.typeOffset abi+j < Status.sizeof abi := by
    cases abi <;> decide
  have value := word_bytes fun j bound => fill_cleared (Status.sizeof abi) payload (inside j bound)
  have type : (received abi payload).eventType = Status.wordAt (Exchange.fill (cleared abi) payload) (Status.typeOffset abi) := rfl
  rw [inTable_iff,type,cleared,value,Enumerated,UInt8.le_iff_toNat_le]
  have digit : ∀ {b : UInt8}, b = 0 ↔ b.toNat = 0 := UInt8.toNat_inj.symm
  simp only [Nat.add_zero,eventStrings_count]
  constructor
  · intro bound
    refine ⟨Nat.le_of_lt_succ (lt_of_le_of_lt (Nat.le_add_right _ _) bound),fun i low high => digit.mpr ?_⟩
    have index : i = 1 ∨ i = 2 ∨ i = 3 := by omega
    rcases index with rfl | rfl | rfl <;> omega
  · rintro ⟨first,others⟩
    rw [digit.mp (others 1 (by decide) (by decide)),digit.mp (others 2 (by decide) (by decide)),
      digit.mp (others 3 (by decide) (by decide))]
    exact Nat.lt_succ_of_le first

namespace MainLoop

-- One for each call whose file could be opened.
def lookups (s : MainLoop abi) : List Int := (s.called.filter Prod.fst).map fun call => eventIndex call.2

def InBounds (s : MainLoop abi) : Prop := ∀ index ∈ s.lookups, 0 ≤ index ∧ index ≤ 12

def Named (s : MainLoop abi) : LoopAction → Prop
  | .eventLog true => ∀ d ∈ s.arrived.getLast?, Enumerated abi d.payload
  | _ => True

theorem latest_pending {files : Files} {s : MainLoop abi} (polls : Polls round files s) (here : s.place = .eventLog) :
    ∃ d, s.arrived.getLast? = some d ∧ s.record = received abi d.payload := by
  have calls := congrArg List.getLast? polls.calls
  rw [pending,if_pos here,List.getLast?_concat,List.getLast?_map] at calls
  obtain ⟨d,last,same⟩ := Option.map_eq_some_iff.mp calls.symm
  exact ⟨d,last,same.symm⟩

theorem step_lookups {files : Files} {s next : MainLoop abi} {action : LoopAction} (polls : Polls round files s)
    (taken : s.step round action = some next) : next.InBounds ↔ s.InBounds ∧ s.Named action := by
  have called : ∀ opens, s.place = .eventLog →
      ((∀ index ∈ ((s.called++[(opens,s.record)]).filter Prod.fst).map fun call => eventIndex call.2,
        0 ≤ index ∧ index ≤ 12) ↔ s.InBounds ∧ s.Named (.eventLog opens)) := by
    intro opens here
    obtain ⟨d,last,same⟩ := latest_pending polls here
    cases opens with
    | false => simp [InBounds,lookups,Named]
    | true =>
      have inTable : InTable s.record ↔ Enumerated abi d.payload := same ▸ received_inTable d.payload
      rw [InTable] at inTable
      simp only [InBounds,lookups,Named,last,Option.mem_some_iff,forall_eq',← inTable,List.filter_append,List.map_append,
        List.forall_mem_append]
      simp
  cases step_moved taken with
  | sent | unsent | got | failed => exact (and_iff_left trivial).symm
  | logged here | undefined here => exact called _ here

end MainLoop

theorem in_bounds_iff_named (round : ℚ → ℚ) (abi : Abi) (server fromAddr : SockaddrIn) (event : List UInt8) (files : Files)
    (actions : List LoopAction) :
    Always (MainLoop.step round) MainLoop.InBounds (.start server fromAddr event files : MainLoop abi) actions ↔
      ∀ s action next, Takes (MainLoop.step round) (.start server fromAddr event files : MainLoop abi) actions s action next →
        s.Named action := by
  refine always_iff_takes (J := fun s => (s.Clear ∧ s.Polls round files) ∧ s.InBounds) ⟨⟨nofun,rfl,fun _ => rfl⟩,nofun⟩
    (fun all => all.2) ?_ ?_
  · intro s action next all taken named
    have polled := MainLoop.step_polls all.1.1 all.1.2 taken
    exact ⟨⟨MainLoop.step_clear taken,polled⟩,(MainLoop.step_lookups all.1.2 taken).mpr ⟨all.2,named⟩⟩
  · intro s action next visited taken _ there
    exact ((MainLoop.step_lookups (MainLoop.visits_polled visited).2 taken).mp there).2

theorem unknown_type_out_of_bounds : ¬ ∀ (round : ℚ → ℚ) (abi : Abi) server fromAddr event files actions (s : MainLoop abi),
    Runs (MainLoop.step round) (.start server fromAddr event files) actions s → s.InBounds := by
  intro bounded
  let server : SockaddrIn := ⟨2,4000,0x0A000001⟩
  obtain ⟨s,path,seen⟩ := run_observed (MainLoop.step id) (.start server .unset [] (fun _ => none) : MainLoop .lp64)
    [.sendto true,.recvfrom (some ⟨server,List.replicate 48 0++[13]⟩),.eventLog true] MainLoop.lookups [13] (by decide +kernel)
  have bound := bounded id .lp64 _ _ _ _ _ s path 13 (seen ▸ List.mem_singleton_self 13)
  exact absurd bound.2 (by decide)

end Scada.Historian
