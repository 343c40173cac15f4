import Scada.Historian.Exactness
import Scada.Historian.MainLoop

namespace Scada.Historian
open Binary64 Decimals Delimited LittleEndian

theorem wordAt_words (words : List Nat) (i : Nat) (bound : i < words.length) :
    Status.wordAt (encodeAll 4 words) (4*i) = BitVec.ofNat 32 words[i] := by
  rw [Status.wordAt,encodeAll_slice 4 words i bound,decode_encode]
  apply BitVec.eq_of_toNat_eq
  rw [BitVec.toNat_ofNat,BitVec.toNat_ofNat]
  norm_num

theorem longAt_words (words : List Nat) (i : Nat) (bound : i+1 < words.length) (small : ∀ word ∈ words, word < 2^32) :
    Status.longAt .lp64 (encodeAll 4 words) (4*i) = BitVec.ofNat 64 (words[i]+2^32*words[i+1]) := by
  have low := encodeAll_slice 4 words i (by omega)
  have high := encodeAll_slice 4 words (i+1) bound
  have slice : ((encodeAll 4 words).drop (4*i)).take 8 = encode 4 words[i]++encode 4 words[i+1] := by
    rw [show 8 = 4+4 from rfl,List.take_add,List.drop_drop,low,show 4*i+4 = 4*(i+1) by omega,high]
  have first := small _ (List.getElem_mem (show i < words.length by omega))
  have second := small _ (List.getElem_mem bound)
  have eight : Abi.lp64.long/8 = 8 := rfl
  rw [Status.longAt,eight,slice,decode_append,encode_length,decode_encode,decode_encode,Nat.mod_eq_of_lt (by omega),
    Nat.mod_eq_of_lt (by omega)]
  rfl

def padded (st : Status .ilp32) (count : Nat) : List UInt8 := st.toBytes++List.replicate count 0

def native (st : Status .ilp32) : List Nat := st.fields.map BitVec.toNat++[0,0,0,0]

theorem fill_padded (abi : Abi) (st : Status .ilp32) (count : Nat) : Exchange.fill (cleared abi) (padded st count) =
    st.toBytes++List.replicate (Status.sizeof abi-Status.sizeof .ilp32) 0 := by
  have covers : Status.sizeof .ilp32 ≤ Status.sizeof abi := by cases abi <;> decide
  have size := st.toBytes_length
  rw [Exchange.fill,cleared,padded,List.length_replicate,List.take_append,List.take_of_length_le (by omega),List.length_append,
    List.length_replicate,List.drop_replicate,List.take_replicate,List.append_assoc,List.replicate_append_replicate,size]
  congr 2
  omega

theorem fill_native (st : Status .ilp32) (count : Nat) :
    Exchange.fill (cleared .lp64) (padded st count) = encodeAll 4 (native st) := by
  have rest : List.replicate 16 (0 : UInt8) = encodeAll 4 [0,0,0,0] := by decide
  rw [fill_padded,show Status.sizeof .lp64-Status.sizeof .ilp32 = 16 from rfl,rest,native,encodeAll,encodeAll,
    List.flatMap_append]
  rfl

theorem native_small (st : Status .ilp32) : ∀ word ∈ native st, word < 2^32 := by
  intro word member
  rcases List.mem_append.mp member with field | zero
  · obtain ⟨own,_,rfl⟩ := List.mem_map.mp field
    exact own.isLt
  · simp only [List.mem_cons,List.not_mem_nil,or_false,or_self] at zero
    rw [zero]
    decide

theorem native_word (st : Status .ilp32) (i : Fin 10) :
    Status.wordAt (encodeAll 4 (native st)) (4*i.val) = st.fields.get i := by
  have inside : i.val < (native st).length := by
    have count : (native st).length = 14 := rfl
    omega
  have field : (native st)[i.val] = (st.fields.get i).toNat := by
    fin_cases i <;> rfl
  rw [wordAt_words _ _ inside,field,BitVec.ofNat_toNat,BitVec.setWidth_eq]

-- From the time on nothing is where a native historian looks for it.
def misread (st : Status .ilp32) : Status .lp64 where
  rtuId := st.rtuId
  buttonStatus := st.buttonStatus
  ledStatus := st.ledStatus
  lineVoltage := st.lineVoltage
  eventTv := ⟨BitVec.ofNat 64 (st.eventTv.tvUsec.toNat+2^32*st.eventType.toNat),0⟩
  eventType := 0

theorem received_native (st : Status .ilp32) (count : Nat) : received .lp64 (padded st count) = misread st := by
  have count : (native st).length = 14 := rfl
  have field := native_word st
  have long := fun i bound => longAt_words (native st) i bound (native_small st)
  rw [received,fill_native]
  ext1
  · exact field 0
  · funext i
    fin_cases i
    · exact field 1
    · exact field 2
    · exact field 3
  · funext i
    fin_cases i
    · exact field 4
    · exact field 5
  · exact field 6
  · exact Timeval.ext (long 8 (by omega)) (long 10 (by omega))
  · exact wordAt_words (native st) 12 (by omega)

structure Agrees (left : Status abi) (right : Status other) : Prop where
  rtuId : left.rtuId = right.rtuId
  buttons : left.buttonStatus = right.buttonStatus
  leds : left.ledStatus = right.ledStatus
  voltage : left.lineVoltage = right.lineVoltage
  seconds : left.eventTv.tvSec.toInt = right.eventTv.tvSec.toInt
  micros : left.eventTv.tvUsec.toInt = right.eventTv.tvUsec.toInt
  event : left.eventType = right.eventType

theorem misread_agrees (st : Status .ilp32) : Agrees (misread st) st ↔ st.eventType = 0 ∧ st.eventTv = ⟨0,0⟩ := by
  have zero : ∀ {long : BitVec Abi.ilp32.long}, long.toInt = 0 → long = 0 := fun same =>
    BitVec.eq_of_toInt_eq (same.trans BitVec.toInt_zero.symm)
  constructor
  · rintro ⟨_,_,_,_,seconds,micros,event⟩
    have none : st.eventType = 0 := event.symm
    have usec : st.eventTv.tvUsec = 0 := zero micros.symm
    have sec : st.eventTv.tvSec = 0 := by
      refine zero (seconds.symm.trans ?_)
      simp only [misread,none,usec]
      rfl
    exact ⟨none,Timeval.ext sec usec⟩
  · rintro ⟨event,time⟩
    refine ⟨rfl,rfl,rfl,rfl,?_,?_,event.symm⟩
    · simp only [misread,event,time]
      rfl
    · rw [time]
      rfl

-- A historian built for a 64-bit host logs each record as button 0 falling.
theorem layouts_agree_iff (st : Status .ilp32) (count : Nat) : received .ilp32 (padded st count) = st ∧
    eventToString (received .lp64 (padded st count)).eventType = some "Button 0 Falling Edge".toList ∧
    (Agrees (received .lp64 (padded st count)) st ↔ st.eventType = 0 ∧ st.eventTv = ⟨0,0⟩) := by
  rw [received_native]
  refine ⟨?_,rfl,misread_agrees st⟩
  rw [received,fill_padded,Nat.sub_self,List.replicate_zero,List.append_nil,Status.ofBytes_toBytes]

end Scada.Historian
