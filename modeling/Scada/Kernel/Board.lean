import Mathlib.Logic.Function.Basic
import Scada.Library.BoundedQueue
import Scada.Library.Program
import Scada.Status

namespace Scada.Kernel
open Programs BoundedQueues

inductive Register where
  | pbdr | pbddr | gpioBIntEn | gpioBIntType1 | gpioBIntType2 | gpioBEoi | gpioBDb | intStsB | adcOptInstalled
  deriving DecidableEq, Repr

-- The hardware decides these; the others return what was last written.
def Register.volatile : Register → Bool
  | .pbdr | .gpioBEoi | .intStsB | .adcOptInstalled => true
  | _ => false

-- `stack` is the declaration of the uninitialised local `st`; adc.c itself never calls `iounmap`.
inductive Call where
  | stack
  | load (r : Register)
  | store (r : Register) (value : Word)
  | doGettimeofday
  | rtfPut (fifo : Nat) (st : Status .ilp32)
  | rtfCreate (fifo size : Nat)
  | rtfDestroy (fifo : Nat)
  | rtRequestIrq (irq : Nat)
  | rtReleaseIrq (irq : Nat)
  | rtEnableIrq (irq : Nat)
  | rtDisableIrq (irq : Nat)
  | ioremap (address size flags : Word)
  | iounmap (pointer : Word)
  | printk (message : String)
  deriving DecidableEq

@[reducible] def Call.Reply : Call → Type
  | .stack => Status .ilp32
  | .load _ => Word
  | .doGettimeofday => Timeval .ilp32
  | .rtfPut _ _ | .rtfCreate _ _ | .rtRequestIrq _ => Int
  | .ioremap _ _ _ => Word
  | _ => Unit

abbrev Code := Program Call Call.Reply

def stack : Code (Status .ilp32) := .perform Call.stack
def load (r : Register) : Code Word := .perform (Call.load r)
def store (r : Register) (value : Word) : Code Unit := .perform (Call.store r value)
def doGettimeofday : Code (Timeval .ilp32) := .perform Call.doGettimeofday
def rtfPut (fifo : Nat) (st : Status .ilp32) : Code Int := .perform (Call.rtfPut fifo st)
def rtfCreate (fifo size : Nat) : Code Int := .perform (Call.rtfCreate fifo size)
def rtfDestroy (fifo : Nat) : Code Unit := .perform (Call.rtfDestroy fifo)
def rtRequestIrq (irq : Nat) : Code Int := .perform (Call.rtRequestIrq irq)
def rtReleaseIrq (irq : Nat) : Code Unit := .perform (Call.rtReleaseIrq irq)
def rtEnableIrq (irq : Nat) : Code Unit := .perform (Call.rtEnableIrq irq)
def rtDisableIrq (irq : Nat) : Code Unit := .perform (Call.rtDisableIrq irq)
def ioremap (address size flags : Word) : Code Word := .perform (Call.ioremap address size flags)
def printk (message : String) : Code Unit := .perform (Call.printk message)

def hwIrq : Nat := 59
def fifoWrite : Nat := 0

structure Board where
  registers : Register → Word
  attached : Bool
  enabled : Bool
  fifo : Option (Queue UInt8)
  held : List Word

namespace Board

def after (b : Board) : (c : Call) → c.Reply → Board
  | .store r value,_ => {b with registers:=Function.update b.registers r value}
  | .rtfPut fifo st,_ => if fifo = fifoWrite then {b with fifo:=b.fifo.map (·.put st.toBytes)} else b
  | .rtfCreate fifo size,reply =>
    if fifo = fifoWrite ∧ (0 : Int) ≤ reply then {b with fifo:=some (.empty size)} else b
  | .rtfDestroy fifo,_ => if fifo = fifoWrite then {b with fifo:=none} else b
  | .rtRequestIrq irq,reply => if irq = hwIrq ∧ (0 : Int) ≤ reply then {b with attached:=true} else b
  | .rtReleaseIrq irq,_ => if irq = hwIrq then {b with attached:=false} else b
  | .rtEnableIrq irq,_ => if irq = hwIrq then {b with enabled:=true} else b
  | .rtDisableIrq irq,_ => if irq = hwIrq then {b with enabled:=false} else b
  | .ioremap _ _ _,reply => if reply = (0 : Word) then b else {b with held:=reply::b.held}
  | .iounmap pointer,_ => {b with held:=b.held.erase pointer}
  | .stack,_ | .load _,_ | .doGettimeofday,_ | .printk _,_ => b

end Board

abbrev Oracle := (c : Call) → c.Reply

-- Plain registers read back what they hold, and a put into FIFO 0 reports the bytes it stored.
def answer (b : Board) (o : Oracle) : (c : Call) → c.Reply
  | .load r => if r.volatile then o (.load r) else b.registers r
  | .rtfPut fifo st => match b.fifo with
    | some q => if fifo = fifoWrite then ((q.stored st.toBytes : Nat) : Int) else o (.rtfPut fifo st)
    | none => o (.rtfPut fifo st)
  | c => o c

def Oracle.uneventful : Oracle
  | .stack => Status.zero .ilp32
  | .load r => if r = .adcOptInstalled then 1 else 0
  | .doGettimeofday => ⟨0,0⟩
  | .rtfPut _ _ | .rtfCreate _ _ | .rtRequestIrq _ => 0
  | .ioremap address _ _ => address
  | .store _ _ | .rtfDestroy _ | .rtReleaseIrq _ | .rtEnableIrq _ | .rtDisableIrq _ | .iounmap _ | .printk _ => ()

def Oracle.pressed : Oracle
  | .load .intStsB => 1
  | c => uneventful c

def Board.off : Board := ⟨fun _ => 0,false,false,none,[]⟩

def free : Platform Call Call.Reply Board Oracle where
  arrive b _ := b
  reply := answer
  after := Board.after

def Board.deliverable (b : Board) : Prop := b.attached = true ∧ b.enabled = true

instance (b : Board) : Decidable b.deliverable := inferInstanceAs (Decidable (_ ∧ _))

end Scada.Kernel
