import Chip8.Machine.Execution
import Chip8.Proofs.Device.Decoding
import Chip8.Proofs.Device.Parts

/-! Every word that a device performs does to it what the decoded instruction
does to the machine, and the sums and indices on the way are sound. -/
namespace Chip8
open Routine

def Activity.onDevice : Activity → Device.Activity
  | .running => .running
  | .awaitingKey register => .awaitingKey (Device.number register)

def Machine.onDevice (machine : Machine) : Device where
  settings := machine.settings
  registers := machine.registers
  stack := machine.stack.onDevice
  memory := machine.memory
  screen := machine.screen
  keypad := machine.keypad
  activity := machine.activity.onDevice
  sinceTick := UInt32.ofNat machine.sinceTick
  random := machine.random

namespace Device

@[simp] theorem number_toNat (register : Register) : (number register).toNat = register.val := by
  have bound := register.isLt
  rw [number,UInt8.toNat_ofNat']
  omega

@[simp] theorem ofByte_number (register : Register) : .ofByte (number register) = register := by
  apply Fin.ext
  simp only [Register.ofByte,number_toNat]
  exact Nat.mod_eq_of_lt register.isLt

theorem number_eq {place : Nat} (inside : place < 16) : UInt8.ofNat place = number ⟨place,inside⟩ :=
  rfl

section Parts
variable {α : Type} {value : α} (device : Device)

theorem onRegisters_done {routine : Routine Registers α} {registers : Registers}
    (done : routine.run device.registers = .done value registers) :
    (onRegisters routine).run device = .done value {device with registers} :=
  on_done done

theorem onStack_done {routine : Routine Stack α} {stack : Stack}
    (done : routine.run device.stack = .done value stack) :
    (onStack routine).run device = .done value {device with stack} :=
  on_done done

theorem onStack_refused {routine : Routine Stack α} {fault : Fault}
    (refused : routine.run device.stack = .refused fault device.stack) :
    (onStack routine).run device = .refused fault device :=
  on_refused refused

theorem onMemory_done {routine : Routine Memory α} {memory : Memory}
    (done : routine.run device.memory = .done value memory) :
    (onMemory routine).run device = .done value {device with memory} :=
  on_done done

theorem onMemory_refused {routine : Routine Memory α} {fault : Fault}
    (refused : routine.run device.memory = .refused fault device.memory) :
    (onMemory routine).run device = .refused fault device :=
  on_refused refused

theorem onMemory_crashed {routine : Routine Memory α} (crashed : routine.run device.memory = .crashed) :
    (onMemory routine).run device = .crashed :=
  on_crashed crashed

theorem onScreen_done {routine : Routine Screen α} {screen : Screen}
    (done : routine.run device.screen = .done value screen) :
    (onScreen routine).run device = .done value {device with screen} :=
  on_done done

theorem onKeypad_done {routine : Routine Keypad α} {keypad : Keypad}
    (done : routine.run device.keypad = .done value keypad) :
    (onKeypad routine).run device = .done value {device with keypad} :=
  on_done done

theorem onKeypad_refused {routine : Routine Keypad α} {fault : Fault}
    (refused : routine.run device.keypad = .refused fault device.keypad) :
    (onKeypad routine).run device = .refused fault device :=
  on_refused refused

end Parts

section Registers
variable (x y : Register) (byte : UInt8) (device : Device)

theorem value_run : (value (number x)).run device = .done (device.registers.get x) device := by
  have loaded := Registers.value_run (number x) device.registers
  rw [ofByte_number] at loaded
  exact onRegisters_done _ loaded

theorem assign_run :
    (assign (number x) byte).run device =
      .done () {device with registers := device.registers.set x byte} := by
  have stored := Registers.assign_run (number x) byte device.registers
  rw [ofByte_number] at stored
  exact onRegisters_done _ stored

theorem assignFlag_run (raised : Bool) :
    (assignFlag raised).run device =
      .done () {device with registers := device.registers.setFlag raised} :=
  onRegisters_done _ (Registers.assignFlag_run raised device.registers)

theorem opposite_run {condition : Routine Device Bool} {met : Bool}
    (tested : condition.run device = .done met device) :
    (opposite condition).run device = .done (!met) device :=
  bind_done tested

theorem conditionOf_run (condition : Condition) :
    (conditionOf condition).run device =
      .done (condition.holds device.registers device.keypad) device := by
  have equalsByte (x : Register) (byte : UInt8) :
      (equalsByte (number x) byte).run device = .done (device.registers.get x = byte : Bool) device :=
    bind_done (value_run x device)
  have equalsRegister (x y : Register) : (equalsRegister (number x) (number y)).run device =
      .done (device.registers.get x = device.registers.get y : Bool) device :=
    (bind_done (value_run x device)).trans (bind_done (value_run y device))
  have keyDown (x : Register) : (keyDown (number x)).run device =
      .done (device.keypad.isDown (device.registers.get x)) device :=
    (bind_done (value_run x device)).trans (onKeypad_done _ (Keypad.isDown_run _ device.keypad))
  cases condition with
  | equals x byte => exact equalsByte x byte
  | same x y => exact equalsRegister x y
  | keyDown x => exact keyDown x
  | keyUp x => exact opposite_run device (keyDown x)
  | differs x byte =>
    simp only [Condition.holds,ne_eq,decide_not]
    exact opposite_run device (equalsByte x byte)
  | different x y =>
    simp only [Condition.holds,ne_eq,decide_not]
    exact opposite_run device (equalsRegister x y)

theorem calculate_run (calculation : Calculation) :
    (calculate calculation (number x) (number y)).run device =
      .done () {device with registers := device.registers.calculate calculation x y} := by
  let a := device.registers.get x
  let b := device.registers.get y
  have stored := assign_run x (calculation.result a b) device
  have loaded : (calculate calculation (number x) (number y)).run device = _ :=
    (bind_done (value_run x device)).trans ((bind_done (value_run y device)).trans (bind_done stored))
  rw [loaded]
  simp only [Chip8.Registers.calculate]
  cases calculation.flag? (device.registers.get x) (device.registers.get y) with
  | none => rfl
  | some raised => exact assignFlag_run _ raised

end Registers

section Memory
variable (x y : Register) (device : Device)

theorem readAround_run {start offset : Nat} (fits : start + offset < 2 ^ 64) :
    (do onMemory (Memory.readAround (← sum 64 start offset))).run device =
      .done (device.memory.peek (start + offset)) device := by
  rw [sum_fits fits]
  exact onMemory_done _ (Memory.readAround_run _ device.memory)

/-- The rows behind those that are drawn are never looked at. -/
theorem draw_run (rows : Fin 16) :
    (draw (number x) (number y) (number rows)).run device =
      let registers := device.registers
      let drawn := device.screen.draw (registers.get x).toNat (registers.get y).toNat
        (device.memory.slice registers.index.toNat rows) rows
      .done () {device with screen := drawn.1,registers := registers.setFlag drawn.2} := by
  have left := (device.registers.get x).toNat_lt
  have top := (device.registers.get y).toNat_lt
  have start := device.registers.index.toNat_lt
  have height := rows.isLt
  have atMost : min rows.val 15 = rows.val := by omega
  let sprite := device.memory.slice device.registers.index.toNat rows
  have gathered := mapM_run (List.range rows) fun row member => by
    have below := List.mem_range.mp member
    exact readAround_run device (show device.registers.index.toNat + row < 2 ^ 64 by omega)
  have length : sprite.length = rows := by simp [sprite,Memory.slice]
  have shown : (sprite ++ List.replicate (15 - sprite.length) 0).take rows = sprite.take rows :=
    List.take_append_of_le_length (by omega)
  have drawn := Screen.draw_run (device.registers.get x).toNat (device.registers.get y).toNat
    (sprite ++ List.replicate (15 - sprite.length) 0) rows device.screen (by omega)
    (by rw [shown,List.length_take]; omega)
  simp only [Chip8.Screen.draw,shown] at drawn
  rw [draw]
  simp only [number_toNat,atMost]
  refine (bind_done (value_run x device)).trans ((bind_done (value_run y device)).trans ?_)
  refine (bind_look _ _ device).trans ((bind_done gathered).trans ?_)
  exact (bind_done (onScreen_done _ drawn)).trans (assignFlag_run _ _)

theorem storeDigits_run :
    (storeDigits (number x)).run device =
      let registers := device.registers
      .done () {device with
        memory := device.memory.store registers.index.toNat (decimalDigits (registers.get x))} := by
  have start := device.registers.index.toNat_lt
  let byte := device.registers.get x
  have hundreds := onMemory_done _ (Memory.writeAround_run device.registers.index.toNat (byte / 100) device.memory)
  refine (bind_done (value_run x device)).trans ((bind_look _ _ device).trans ?_)
  refine (bind_done hundreds).trans ?_
  simp only [sum_fits (show device.registers.index.toNat + 1 < 2 ^ 64 by omega),
    sum_fits (show device.registers.index.toNat + 2 < 2 ^ 64 by omega),bind_demand]
  refine (bind_done (onMemory_done _ (Memory.writeAround_run _ _ _))).trans ?_
  exact onMemory_done _ (Memory.writeAround_run _ _ _)

theorem storeRegisters_run :
    (storeRegisters (number x)).run device =
      let registers := device.registers
      .done () {device with
        memory := device.memory.store registers.index.toNat (registers.upTo x)} := by
  have start := device.registers.index.toNat_lt
  have inside := x.isLt
  let values := device.registers.general.toList
  let reached (count : Nat) : Device := {device with
    memory := device.memory.store device.registers.index.toNat (values.take count)}
  have turn (place : Nat) (below : place < x.val + 1) :
      (do let address ← sum 64 device.registers.index.toNat place
          onMemory (Memory.writeAround address (← value (UInt8.ofNat place)))).run (reached place) =
        .done () (reached (place + 1)) := by
    have here : place < 16 := by omega
    have loaded := value_run ⟨place,here⟩ (reached place)
    have length : (values.take place).length = place := by simp [values]; omega
    have further : values.take (place + 1) =
        values.take place ++ [device.registers.get ⟨place,here⟩] := by
      rw [List.take_add_one]
      simp [values,here,Chip8.Registers.get]
    rw [sum_fits (show device.registers.index.toNat + place < 2 ^ 64 by omega),bind_demand,number_eq here]
    refine (bind_done loaded).trans ((onMemory_done _ (Memory.writeAround_run _ _ _)).trans ?_)
    simp only [reached,further,Memory.store_append,length]
    rfl
  refine (bind_look _ _ device).trans ?_
  rw [number_toNat]
  exact forM_range_run (x.val + 1) turn

theorem loadRegisters_run :
    (loadRegisters (number x)).run device =
      .done () {device with
        registers := device.registers.fill x fun y =>
          device.memory.peek (device.registers.index.toNat + y)} := by
  have start := device.registers.index.toNat_lt
  have inside := x.isLt
  let byte (place : Nat) : UInt8 := device.memory.peek (device.registers.index.toNat + place)
  let reached (count : Nat) : Device := {device with
    registers := {device.registers with
      general := Vector.ofFn fun y => if y.val < count then byte y else device.registers.get y}}
  have before : reached 0 = device := by
    have same : (Vector.ofFn fun y => if y.val < 0 then byte y else device.registers.get y) =
        device.registers.general := by
      ext place below
      simp [Chip8.Registers.get]
    simp only [reached,same]
  have after : reached (x + 1) = {device with
      registers := device.registers.fill x fun y => byte y} := by
    simp only [reached,Chip8.Registers.fill,Fin.le_def,Nat.lt_succ_iff]
  have turn (place : Nat) (below : place < x.val + 1) :
      (do let read ← onMemory (Memory.readAround (← sum 64 device.registers.index.toNat place))
          assign (UInt8.ofNat place) read).run (reached place) = .done () (reached (place + 1)) := by
    have here : place < 16 := by omega
    have cells : (reached place).registers.general.set place (byte place) =
        (reached (place + 1)).registers.general := by
      refine Vector.ext fun y inside => ?_
      simp only [reached,Vector.getElem_set,Vector.getElem_ofFn]
      by_cases same : place = y
      · rw [if_pos same,if_pos (by omega),same]
      · have apart : y < place + 1 ↔ y < place := by omega
        rw [if_neg same]
        simp only [apart]
    have written : (reached place).registers.set ⟨place,here⟩ (byte place) =
        (reached (place + 1)).registers :=
      congrArg (fun general => {device.registers with general}) cells
    have loaded := Memory.readAround_run (device.registers.index.toNat + place) (reached place).memory
    have stored := assign_run ⟨place,here⟩ (byte place) (reached place)
    rw [written] at stored
    rw [sum_fits (show device.registers.index.toNat + place < 2 ^ 64 by omega),bind_demand]
    exact (bind_done (onMemory_done _ loaded)).trans stored
  have turns := forM_range_run (x.val + 1) turn
  rw [before,after] at turns
  refine (bind_look _ _ device).trans ?_
  rw [number_toNat]
  exact turns

end Memory

section Control
variable (machine : Machine)

theorem decode_jumpOffset {word base : UInt16} (decoded : .decode word = Instruction.jumpOffset base) :
    base.toNat < 0x1000 := by
  have masked : base = word % 0x1000 := by
    unfold Instruction.decode at decoded
    grind
  rw [masked,UInt16.toNat_mod]
  exact Nat.mod_lt _ (by decide)

theorem returnFromCall_run :
    returnFromCall.run machine.onDevice =
      .ofExcept machine.onDevice (fun _ => ()) Machine.onDevice
        (Instruction.apply machine .returnFromCall) := by
  have popped := Stack.pop_run machine.stack
  simp only [Instruction.apply]
  cases result : machine.stack.pop with
  | ok pair =>
    rw [result] at popped
    exact bind_done (onStack_done machine.onDevice popped)
  | error fault =>
    rw [result] at popped
    exact bind_refused (onStack_refused machine.onDevice popped)

theorem call_run (target : UInt16) :
    (call target).run machine.onDevice =
      .ofExcept machine.onDevice (fun _ => ()) Machine.onDevice
        (Instruction.apply machine (.call target)) := by
  have pushed := Stack.push_run machine.registers.counter machine.stack
  refine (bind_look _ _ machine.onDevice).trans ?_
  simp only [Instruction.apply]
  cases result : machine.stack.push machine.registers.counter with
  | ok stack =>
    rw [result] at pushed
    exact bind_done (onStack_done machine.onDevice pushed)
  | error fault =>
    rw [result] at pushed
    exact bind_refused (onStack_refused machine.onDevice pushed)

theorem jumpOffset_run (base : UInt16) (small : base.toNat < 0x1000) (device : Device) :
    (jumpOffset base).run device =
      .done () {device with
        registers := device.registers.jump (base + (device.registers.get firstRegister).toUInt16)} := by
  have offset := (device.registers.get firstRegister).toNat_lt
  have total : UInt16.ofNat (base.toNat + (device.registers.get firstRegister).toNat) =
      base + (device.registers.get firstRegister).toUInt16 := by
    apply UInt16.toNat_inj.mp
    rw [UInt16.toNat_ofNat',UInt16.toNat_add,UInt8.toNat_toUInt16]
  refine (bind_done (value_run firstRegister device)).trans ?_
  rw [sum_fits (by omega),bind_demand,total]
  rfl

theorem pointAtGlyph_run (x : Register) (device : Device) :
    (pointAtGlyph (number x)).run device =
      .done () {device with
        registers := {device.registers with index := Memory.glyphAddress (device.registers.get x)}} := by
  have digit := (device.registers.get x).toNat_lt
  have address : UInt16.ofNat ((device.registers.get x).toNat * 5) =
      Memory.glyphAddress (device.registers.get x) := by
    apply UInt16.toNat_inj.mp
    rw [Memory.glyphAddress,UInt16.toNat_ofNat',UInt16.toNat_mul,UInt8.toNat_toUInt16]
    rfl
  refine (bind_done (value_run x device)).trans ?_
  rw [product_fits (by omega),bind_demand,address]
  rfl

theorem skipIf_run (condition : Condition) (device : Device) :
    (skipIf (conditionOf condition)).run device =
      .done () (if condition.holds device.registers device.keypad
        then {device with registers := device.registers.skip} else device) := by
  refine (bind_done (conditionOf_run device condition)).trans ?_
  cases condition.holds device.registers device.keypad <;> rfl

/-- What a device makes of an instruction is what the machine makes of it. -/
theorem routineOf_run (instruction : Instruction)
    (small : ∀ base, instruction = .jumpOffset base → base.toNat < 0x1000) :
    (routineOf instruction).run machine.onDevice =
      .ofExcept machine.onDevice (fun _ => ()) Machine.onDevice (instruction.apply machine) := by
  cases instruction with
  | clearScreen => rfl
  | returnFromCall => exact returnFromCall_run machine
  | jump target => rfl
  | jumpOffset base => exact jumpOffset_run base (small base rfl) machine.onDevice
  | call target => exact call_run machine target
  | skipIf condition =>
    refine (skipIf_run condition machine.onDevice).trans ?_
    have same : condition.holds machine.onDevice.registers machine.onDevice.keypad =
        condition.holds machine.registers machine.keypad := rfl
    rw [same,Instruction.apply]
    cases condition.holds machine.registers machine.keypad <;> rfl
  | setByte x byte => exact assign_run x byte machine.onDevice
  | addByte x byte =>
    exact (bind_done (value_run x machine.onDevice)).trans (assign_run x _ machine.onDevice)
  | calculate calculation x y => exact calculate_run x y machine.onDevice calculation
  | setIndex address => rfl
  | addIndex x =>
    exact (bind_look _ _ machine.onDevice).trans (bind_done (value_run x machine.onDevice))
  | random x mask => exact assign_run x _ {machine.onDevice with random := machine.random.next.2}
  | draw x y rows => exact draw_run x y machine.onDevice rows
  | readDelay x => exact assign_run x _ machine.onDevice
  | setDelay x => exact bind_done (value_run x machine.onDevice)
  | setSound x => exact bind_done (value_run x machine.onDevice)
  | awaitKey x => rfl
  | pointAtGlyph x => exact pointAtGlyph_run x machine.onDevice
  | storeDigits x => exact storeDigits_run x machine.onDevice
  | storeRegisters last => exact storeRegisters_run last machine.onDevice
  | loadRegisters last => exact loadRegisters_run last machine.onDevice
  | unknown word => rfl

theorem perform_run (word : UInt16) :
    (perform word).run machine.onDevice =
      .ofExcept machine.onDevice (fun _ => ()) Machine.onDevice
        ((Instruction.decode word).apply machine) := by
  rw [perform_eq]
  exact routineOf_run machine _ fun base decoded => decode_jumpOffset decoded

end Control

end Device

end Chip8
