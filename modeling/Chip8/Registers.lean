/-! The register file: sixteen general registers, the address register, the
program counter and the two timers. The last general register doubles as the
flag of arithmetic and drawing. The timers are counted down by the host, or by
the machine itself once in a fixed number of instructions. -/
namespace Chip8

structure Timers where
  delay : UInt8 := 0
  sound : UInt8 := 0
deriving DecidableEq

def countDown (timer : UInt8) : UInt8 := if timer = 0 then 0 else timer - 1

def Timers.tick (timers : Timers) : Timers × Bool :=
  (⟨countDown timers.delay,countDown timers.sound⟩,timers.sound = 1)

/-- What drives the timers. A period of zero works like a period of one. -/
inductive TimerDrive where
  | host
  | everyInstructions (period : UInt32)
deriving DecidableEq

def TimerDrive.advance : TimerDrive → Nat → Nat × Bool
  | .host, count => (count,false)
  | .everyInstructions period, count =>
    if max period.toNat 1 ≤ count + 1 then (0,true) else (count + 1,false)

abbrev Register := Fin 16

def Register.ofByte (byte : UInt8) : Register := ⟨byte.toNat % 16,Nat.mod_lt _ (by decide)⟩

def firstRegister : Register := ⟨0,by decide⟩

def flagRegister : Register := Fin.last 15

structure Registers where
  general : Vector UInt8 16
  index : UInt16
  counter : UInt16
  timers : Timers
deriving DecidableEq

namespace Registers

def zero : Registers := ⟨Vector.replicate 16 0,0,0,{}⟩

def get (registers : Registers) (x : Register) : UInt8 := registers.general[x]

def set (registers : Registers) (x : Register) (value : UInt8) : Registers :=
  {registers with general := registers.general.set x value}

@[simp] theorem get_set (registers : Registers) (x y : Register) (value : UInt8) :
    (registers.set x value).get y = if x = y then value else registers.get y := by
  simp [get,set,Vector.getElem_set,Fin.ext_iff]

def setFlag (registers : Registers) (raised : Bool) : Registers :=
  registers.set flagRegister (if raised then 1 else 0)

def jump (registers : Registers) (address : UInt16) : Registers :=
  {registers with counter := address}

def skip (registers : Registers) : Registers :=
  registers.jump (registers.counter + 2)

def tick (registers : Registers) : Registers × Bool :=
  let (timers,expired) := registers.timers.tick
  ({registers with timers},expired)

end Registers

end Chip8
