import GiantGecko.Gpio.IrqHandler

namespace GiantGecko.Gpio.PinDriver

open IrqHandler

deriving instance DecidableEq for Bank

inductive GpioPinPort
  | a | b | c | d | e | f
  deriving DecidableEq

def GpioPinPort.code : GpioPinPort → BitVec 16
  | .a => 1
  | .b => 2
  | .c => 3
  | .d => 4
  | .e => 5
  | .f => 6

def getPinNumber (port : GpioPinPort) (pin : BitVec 8) : BitVec 16 :=
  port.code <<< 8 ||| pin.setWidth 16

/-- The index in `GPIO->P`; an unknown port comes out as port A. -/
def getGpioPort (pinNumber : BitVec 16) : ℕ :=
  match ((pinNumber &&& 0xFF00) >>> 8).toNat with
  | 1 => 0
  | 2 => 1
  | 3 => 2
  | 4 => 3
  | 5 => 4
  | 6 => 5
  | _ => 0

def getGpioPin (pinNumber : BitVec 16) : ℕ := (pinNumber &&& 0xFF).toNat

inductive PinMode
  | disabled
  | input
  | inputPull
  | inputPullFilter
  | pushPull
  | wiredAnd
  deriving DecidableEq

structure Hook where
  cbFunc : Option ℕ
  userPtr : ℕ

def Hook.call (hook : Hook) : List (ℕ × ℕ) := (hook.cbFunc.map fun f ↦ (f, hook.userPtr)).toList

/-- The registers that decide what becomes of an edge, by port and pin, the
callback table, and the two lines that the NVIC lets through. -/
structure Regs where
  mode : ℕ → ℕ → PinMode
  extiPsel : ℕ → ℕ
  extiRise : BitVec 16
  extiFall : BitVec 16
  ien : BitVec 16
  gpioCbTable : ℕ → Hook
  nvic : Bank → Bool

def regBitWrite (reg : BitVec 16) (n : ℕ) (value : Bool) : BitVec 16 :=
  if value then reg ||| BitVec.twoPow 16 n else reg &&& ~~~BitVec.twoPow 16 n

@[simp] theorem getLsbD_regBitWrite (reg : BitVec 16) {n : ℕ} (hn : n < 16) (value : Bool) (i : ℕ) :
    (regBitWrite reg n value).getLsbD i = if i = n then value else reg.getLsbD i := by
  by_cases hi : i < 16
  · cases value <;> by_cases hin : n = i <;>
      simp [regBitWrite, hi, hin, eq_comm (a := i)]
  · rw [BitVec.getLsbD_of_ge _ _ (Nat.le_of_not_lt hi), if_neg (by omega),
      BitVec.getLsbD_of_ge _ _ (Nat.le_of_not_lt hi)]

def gpioPinModeSet (port pin : ℕ) (mode : PinMode) (g : Regs) : Regs :=
  { g with mode := fun port' pin' ↦ if port' = port ∧ pin' = pin then mode else g.mode port' pin' }

/-- One line serves the pins of all ports that have its number. -/
def gpioIntConfig (port pin : ℕ) (risingEdge fallingEdge enable : Bool) (g : Regs) : Regs :=
  { g with
    extiPsel := Function.update g.extiPsel pin port
    extiRise := regBitWrite g.extiRise pin risingEdge
    extiFall := regBitWrite g.extiFall pin fallingEdge
    ien := regBitWrite g.ien pin enable }

def irqHookRegister (pin : ℕ) (hook : Hook) (g : Regs) : Regs :=
  { g with gpioCbTable := Function.update g.gpioCbTable pin hook }

/-- The edges asked for by `PIN_IRQ_MODE_RISING` (0) to `PIN_IRQ_MODE_LOW_LEVEL`
(4); the two levels are served as edges. -/
def irqModeEdges : ℕ → Option (Bool × Bool)
  | 0 => some (true, false)
  | 1 => some (false, true)
  | 2 => some (true, true)
  | 3 => some (true, false)
  | 4 => some (false, true)
  | _ => none

/-- The callback is registered whether or not the mode is known. -/
def efm32PinAttachIrq (pinNumber : BitVec 16) (mode : ℕ) (hdr : Option ℕ) (args : ℕ) (g : Regs) :
    Regs :=
  let pin := getGpioPin pinNumber
  let port := getGpioPort pinNumber
  irqHookRegister pin ⟨hdr, args⟩ <|
    match irqModeEdges mode with
    | some (rising, falling) =>
      gpioIntConfig port pin rising falling true (gpioPinModeSet port pin .inputPullFilter g)
    | none => g

def efm32PinDetachIrq (pinNumber : BitVec 16) (g : Regs) : Regs :=
  let pin := getGpioPin pinNumber
  let port := getGpioPort pinNumber
  irqHookRegister pin ⟨none, 0⟩ (gpioPinModeSet port pin .disabled g)

def bankOf (pin : ℕ) : Bank := if pin % 2 = 1 then .odd else .even

/-- All pins of one parity share an interrupt of the NVIC. -/
def efm32PinIrqEnable (pinNumber : BitVec 16) (enabled : ℕ) (g : Regs) : Regs :=
  { g with nvic := Function.update g.nvic (bankOf (getGpioPin pinNumber)) (enabled == 1) }

def efm32PinMode (pinNumber : BitVec 16) (mode : ℕ) (g : Regs) : Regs :=
  let pin := getGpioPin pinNumber
  let port := getGpioPort pinNumber
  match mode with
  | 0 => gpioPinModeSet port pin .pushPull g
  | 1 => gpioPinModeSet port pin .input g
  | 2 => gpioPinModeSet port pin .inputPull g
  | 3 => gpioPinModeSet port pin .inputPull g
  | 4 => gpioPinModeSet port pin .wiredAnd g
  | _ => g

structure Pin where
  port : GpioPinPort
  pin : Fin 16
  deriving DecidableEq

def Pin.number (p : Pin) : BitVec 16 := getPinNumber p.port p.pin.val

def GpioPinPort.index : GpioPinPort → ℕ
  | .a => 0
  | .b => 1
  | .c => 2
  | .d => 3
  | .e => 4
  | .f => 5

theorem GpioPinPort.index_injective : Function.Injective GpioPinPort.index := by
  intro p q h
  cases p <;> cases q <;> first | rfl | cases h

@[simp] theorem getGpioPin_number (p : Pin) : getGpioPin p.number = p.pin := by
  obtain ⟨port, pin⟩ := p
  revert pin
  cases port <;> decide

@[simp] theorem getGpioPort_number (p : Pin) : getGpioPort p.number = p.port.index := by
  obtain ⟨port, pin⟩ := p
  revert pin
  cases port <;> decide

def Regs.listens (g : Regs) (p : Pin) (rising : Bool) : Bool :=
  g.mode p.port.index p.pin ≠ .disabled && g.extiPsel p.pin == p.port.index &&
    (if rising then g.extiRise else g.extiFall).getLsbD p.pin

def Regs.hasCallback (g : Regs) (n : ℕ) : Bool := (g.gpioCbTable n).cbFunc.isSome

/-- The handler of the pin's bank serves the edge; nine turns are more than its
loop has. -/
def Regs.served (g : Regs) (p : Pin) : Irq :=
  (.edge p.pin :: .enter (bankOf p.pin) :: List.replicate 9 .turn).foldl
    (step g.ien g.hasCallback) ⟨0, .idle, []⟩

def Regs.called (g : Regs) : Occurrence → Option (ℕ × ℕ)
  | .edge _ => none
  | .call n => (g.gpioCbTable n).cbFunc.map fun f ↦ (f, (g.gpioCbTable n).userPtr)

def Regs.delivered (g : Regs) (p : Pin) (rising : Bool) : List (ℕ × ℕ) :=
  if g.listens p rising && g.nvic (bankOf p.pin) then (g.served p).history.filterMap g.called
  else []

end GiantGecko.Gpio.PinDriver
