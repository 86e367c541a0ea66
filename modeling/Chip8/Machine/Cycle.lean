import Chip8.Machine.Execution

/-! The cycle of a machine: fetch a word, execute it, and count it towards the
next tick of the timers. A cycle that fails leaves the program counter on the
instruction that failed and does not count. -/
namespace Chip8.Machine

def tick (machine : Machine) : Reply Bool :=
  let (registers,expired) := machine.registers.tick
  ⟨expired,{machine with registers},if expired then [.soundExpired] else []⟩

def countInstruction (machine : Machine) : Reply Unit :=
  let (count,due) := machine.settings.drive.advance machine.sinceTick
  let counted := {machine with sinceTick := count}
  if due then
    let ticked := counted.tick
    ⟨(),ticked.machine,ticked.log⟩
  else
    ⟨(),counted,[]⟩

def fetch (machine : Machine) : Reply (Except Fault UInt16) :=
  match machine.memory.readWord machine.registers.counter.toNat with
  | .ok word => ⟨.ok word,machine.withRegisters .skip,[]⟩
  | .error fault => ⟨.error fault,machine,[]⟩

def step (machine : Machine) : Reply (Except Fault Status) :=
  match machine.activity with
  | .awaitingKey _ =>
    if machine.settings.ticksWhileWaiting then
      let counted := machine.countInstruction
      ⟨.ok .awaitingKey,counted.machine,counted.log⟩
    else
      ⟨.ok .awaitingKey,machine,[]⟩
  | .running =>
    let counter := machine.registers.counter
    let fetched := machine.fetch
    match fetched.answer with
    | .error fault => ⟨.error fault,fetched.machine,fetched.log⟩
    | .ok word =>
      let executed := fetched.machine.execute word
      match executed.answer with
      | .error fault =>
        ⟨.error fault,executed.machine.withRegisters (·.jump counter),executed.log⟩
      | .ok status =>
        let counted := executed.machine.countInstruction
        ⟨.ok status,counted.machine,executed.log ++ counted.log⟩

end Chip8.Machine
