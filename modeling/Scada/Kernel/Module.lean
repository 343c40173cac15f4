import Scada.Kernel.Handler

namespace Scada.Kernel
open Programs BoundedQueues BitMasks

def btn1 : Nat := 0
def btn2 : Nat := 1
def btn3 : Nat := 2
def led1 : Nat := 6
def led2 : Nat := 7

-- C's `||` between two words, an int of 0 or 1.
def logicalOr (left right : Word) : Word := if left ≠ 0 ∨ right ≠ 0 then 1 else 0

def setupPortB : Code Unit := do
  store .pbddr ((← load .pbddr) &&& ~~~logicalOr (logicalOr (mask btn1) (mask btn2)) (mask btn3))
  store .pbdr ((← load .pbdr) ||| logicalOr (mask led1) (mask led2))
  store .gpioBEoi ((← load .gpioBEoi) ||| 0x07)
  store .gpioBIntEn 0x07
  store .gpioBIntType1 0x07
  store .gpioBIntType2 ((← load .gpioBIntType2) &&& ~~~0x07)
  store .gpioBDb 0x07

-- init_module from rt_enable_irq on, and before that the attempt to attach the handler.
def goLive : Code Int := do
  rtEnableIrq hwIrq
  if (← rtfCreate fifoWrite (Status.sizeof .ilp32)) < 0 then
    printk "Unable to create fifo\n"
    return -1
  printk "MODULE INSTALLED\n"
  return 0

def attachHandler : Code Int := do
  if (← rtRequestIrq hwIrq) < 0 then
    printk "Unable to request IRQ\n"
    return -1
  goLive

def initModule : Code Int := do
  let baseptrA ← ioremap 0x80840000 4096 0
  let baseptrB ← ioremap 0x800C0000 4096 0
  if baseptrA = 0 ∨ baseptrB = 0 then
    printk "Unable to map memory for base pointers\n"
    return -1
  setupPortB
  let adcOptInstalled ← ioremap 0x22400000 4096 0
  let adcInitiate ← ioremap 0x10F00000 4096 0
  let adcConvComplete ← ioremap 0x10800000 4096 0
  if adcOptInstalled = 0 ∨ adcInitiate = 0 ∨ adcConvComplete = 0 then
    printk "Unable to map memory space for ADC\n"
    return -1
  else if (← load .adcOptInstalled) &&& 0x01 = 0 then
    printk "ADC option not installed\n"
    return -1
  attachHandler

def cleanupModule : Code Unit := do
  rtDisableIrq hwIrq
  rtReleaseIrq hwIrq
  rtfDestroy fifoWrite
  printk "MODULE_REMOVED\n"

theorem setupPortB_meets (said : Said) (port : Port) : Meets (portSpec said) (fun _ last =>
    last.reported = port.reported ∧
    last.board.registers .gpioBIntEn = 0x07 ∧
    last.board.registers .gpioBIntType2 = port.board.registers .gpioBIntType2 &&& ~~~0x07) setupPortB port := by
  unfold setupPortB load store
  simp only [Program.bind_perform]
  refine port_plain rfl (port_store (port_volatile fun _ _ => port_store (port_volatile fun _ _ => port_store ?_)))
  refine port_store (port_store (port_plain rfl (port_store (port_store ⟨rfl,?_,?_⟩))))
  · simp
  · simp

end Scada.Kernel
