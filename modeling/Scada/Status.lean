import Mathlib.Data.Fintype.Pi
import Mathlib.Data.Fin.VecNotation
import Mathlib.Tactic.FinCases
import Scada.Library.LittleEndian

namespace Scada

abbrev Word := BitVec 32
abbrev Button := Fin 3
abbrev Led := Fin 2

instance numButtons : NeZero 3 := ⟨by decide⟩
instance numLed : NeZero 2 := ⟨by decide⟩

-- status.h. The two compilers of the repository differ in `long` only: the
-- TS-7250 cross compiler has 32 bits, a native 64-bit gcc has 64.
inductive RtuEvent where
  | btn0Falling | btn0Rising | btn1Falling | btn1Rising | btn2Falling | btn2Rising
  | lineOvervolt | lineUndervolt | lineNopower
  | led1On | led1Off | led2On | led2Off
  deriving DecidableEq, Repr

namespace RtuEvent

def code : RtuEvent → Word
  | btn0Falling => 0 | btn0Rising => 1 | btn1Falling => 2 | btn1Rising => 3 | btn2Falling => 4 | btn2Rising => 5
  | lineOvervolt => 6 | lineUndervolt => 7 | lineNopower => 8
  | led1On => 9 | led1Off => 10 | led2On => 11 | led2Off => 12

def falling : Button → RtuEvent := ![btn0Falling,btn1Falling,btn2Falling]
def rising : Button → RtuEvent := ![btn0Rising,btn1Rising,btn2Rising]

end RtuEvent

inductive Abi where
  | ilp32 | lp64
  deriving DecidableEq, Repr

def Abi.long : Abi → Nat
  | .ilp32 => 32
  | .lp64 => 64

@[ext] structure Timeval (abi : Abi) where
  tvSec : BitVec abi.long
  tvUsec : BitVec abi.long
  deriving DecidableEq

@[ext] structure Status (abi : Abi) where
  rtuId : Word
  buttonStatus : Button → Word
  ledStatus : Led → Word
  lineVoltage : Word
  eventTv : Timeval abi
  eventType : Word
  deriving DecidableEq

namespace Status
open LittleEndian

-- Offsets of `event_tv`, of `event_type` and of the end; 64-bit longs are
-- aligned to eight bytes, which pads the structure twice.
def tvOffset : Abi → Nat
  | .ilp32 => 28
  | .lp64 => 32
def typeOffset (abi : Abi) : Nat := tvOffset abi + 2*(abi.long/8)
def sizeof : Abi → Nat
  | .ilp32 => 40
  | .lp64 => 56

def wordAt (bytes : List UInt8) (offset : Nat) : Word :=
  BitVec.ofNat 32 (decode ((bytes.drop offset).take 4))
def longAt (abi : Abi) (bytes : List UInt8) (offset : Nat) : BitVec abi.long :=
  BitVec.ofNat abi.long (decode ((bytes.drop offset).take (abi.long/8)))

def ofBytes (abi : Abi) (bytes : List UInt8) : Status abi where
  rtuId := wordAt bytes 0
  buttonStatus := fun i => wordAt bytes (4+4*i.val)
  ledStatus := fun i => wordAt bytes (16+4*i.val)
  lineVoltage := wordAt bytes 24
  eventTv := ⟨longAt abi bytes (tvOffset abi),longAt abi bytes (tvOffset abi+abi.long/8)⟩
  eventType := wordAt bytes (typeOffset abi)

-- The memory image of the kernel module's `st`. The module is built for the
-- 32-bit ABI only, where no field needs padding.
def fields (st : Status .ilp32) : List Word :=
  [st.rtuId,st.buttonStatus 0,st.buttonStatus 1,st.buttonStatus 2,st.ledStatus 0,st.ledStatus 1,
    st.lineVoltage,st.eventTv.tvSec,st.eventTv.tvUsec,st.eventType]
def toBytes (st : Status .ilp32) : List UInt8 := encodeAll 4 (st.fields.map BitVec.toNat)

def zero (abi : Abi) : Status abi := ⟨0,fun _ => 0,fun _ => 0,0,⟨0,0⟩,0⟩

@[simp] theorem toBytes_length (st : Status .ilp32) : st.toBytes.length = sizeof .ilp32 := by
  rw [toBytes,encodeAll_length]; rfl

theorem wordAt_toBytes (st : Status .ilp32) (i : Fin 10) :
    wordAt st.toBytes (4*i.val) = st.fields.get i := by
  have bound : i.val < (st.fields.map BitVec.toNat).length := i.isLt
  rw [wordAt,toBytes,encodeAll_slice 4 _ i.val bound]
  rw [List.getElem_map]
  exact word_roundtrip rfl (st.fields.get i)

theorem ofBytes_toBytes (st : Status .ilp32) : ofBytes .ilp32 st.toBytes = st := by
  have field := wordAt_toBytes st
  ext1
  · exact field 0
  · funext i
    fin_cases i
    · exact field 1
    · exact field 2
    · exact field 3
  · funext i
    fin_cases i
    · exact field 4
    · exact field 5
  · exact field 6
  · exact Timeval.ext (field 7) (field 8)
  · exact field 9

theorem toBytes_injective : Function.Injective toBytes := by
  intro left right same
  rw [← ofBytes_toBytes left,same,ofBytes_toBytes]

theorem ofBytes_zero (abi : Abi) (count : Nat) : ofBytes abi (List.replicate count 0) = zero abi := by
  simp [ofBytes,zero,wordAt,longAt,List.drop_replicate,List.take_replicate,decode_replicate_zero]

end Status
end Scada
