import Chip8.Proofs.Instruction.Forms
import Chip8.Proofs.Machine.Requests

/-! The parts of a machine, and which of them an instruction writes. An
instruction is a few writes of single parts one after the other, and what none
of them writes stays. The forms of the words that may write a part are listed
once more on their own. -/
namespace Chip8

inductive Part where
  | settings
  | keypad
  | sinceTick
  | screen
  | memory
  | stack
  | index
  | counter
  | delay
  | sound
  | general (x : Register)
  | random
  | activity
deriving DecidableEq

namespace Part

def Same (part : Part) (before after : Machine) : Prop :=
  match part with
  | .settings => after.settings = before.settings
  | .keypad => after.keypad = before.keypad
  | .sinceTick => after.sinceTick = before.sinceTick
  | .screen => after.screen = before.screen
  | .memory => after.memory = before.memory
  | .stack => after.stack = before.stack
  | .index => after.registers.index = before.registers.index
  | .counter => after.registers.counter = before.registers.counter
  | .delay => after.registers.timers.delay = before.registers.timers.delay
  | .sound => after.registers.timers.sound = before.registers.timers.sound
  | .general x => after.registers.get x = before.registers.get x
  | .random => after.random = before.random
  | .activity => after.activity = before.activity

variable {part : Part} {machine : Machine}

theorem Same.refl (part : Part) (machine : Machine) : part.Same machine machine := by
  cases part <;> rfl

theorem Same.trans {first second third : Machine} (former : part.Same first second)
    (latter : part.Same second third) : part.Same first third := by
  cases part <;> exact Eq.trans latter former

/-- Nothing of a machine lies outside its parts. -/
theorem eq_of_same {before after : Machine} (same : ∀ part : Part, part.Same before after) :
    after = before := by
  obtain ⟨settings,⟨general,index,counter,delay,sound⟩,stack,memory,screen,keypad,activity,sinceTick,
    random⟩ := before
  obtain ⟨settings',⟨general',index',counter',delay',sound'⟩,stack',memory',screen',keypad',activity',
    sinceTick',random'⟩ := after
  have registers : general' = general := by
    refine Vector.ext fun place inside => ?_
    exact same (.general ⟨place,inside⟩)
  cases registers
  cases same .settings
  cases same .keypad
  cases same .sinceTick
  cases same .screen
  cases same .memory
  cases same .stack
  cases same .index
  cases same .counter
  cases same .delay
  cases same .sound
  cases same .random
  cases same .activity
  rfl

theorem same_screen (screen : Screen) (other : part ≠ .screen) :
    part.Same machine {machine with screen} := by
  cases part with
  | screen => exact absurd rfl other
  | _ => rfl

theorem same_memory (memory : Memory) (other : part ≠ .memory) :
    part.Same machine {machine with memory} := by
  cases part with
  | memory => exact absurd rfl other
  | _ => rfl

theorem same_stack (stack : CallStack) (other : part ≠ .stack) :
    part.Same machine {machine with stack} := by
  cases part with
  | stack => exact absurd rfl other
  | _ => rfl

theorem same_random (random : RandomSource) (other : part ≠ .random) :
    part.Same machine {machine with random} := by
  cases part with
  | random => exact absurd rfl other
  | _ => rfl

theorem same_activity (activity : Activity) (other : part ≠ .activity) :
    part.Same machine {machine with activity} := by
  cases part with
  | activity => exact absurd rfl other
  | _ => rfl

theorem same_jump (target : UInt16) (other : part ≠ .counter) :
    part.Same machine (machine.withRegisters (·.jump target)) := by
  cases part with
  | counter => exact absurd rfl other
  | _ => rfl

theorem same_index (index : UInt16) (other : part ≠ .index) :
    part.Same machine (machine.withRegisters ({· with index})) := by
  cases part with
  | index => exact absurd rfl other
  | _ => rfl

theorem same_delay (delay : UInt8) (other : part ≠ .delay) :
    part.Same machine (machine.withRegisters fun registers =>
      {registers with timers := {registers.timers with delay}}) := by
  cases part with
  | delay => exact absurd rfl other
  | _ => rfl

theorem same_sound (sound : UInt8) (other : part ≠ .sound) :
    part.Same machine (machine.withRegisters fun registers =>
      {registers with timers := {registers.timers with sound}}) := by
  cases part with
  | sound => exact absurd rfl other
  | _ => rfl

theorem same_set {x : Register} (value : UInt8) (other : part ≠ .general x) :
    part.Same machine (machine.withRegisters (·.set x value)) := by
  cases part with
  | general y =>
    have apart : x ≠ y := by
      rintro rfl
      exact other rfl
    simp [Same,Machine.withRegisters,apart]
  | _ => rfl

theorem same_fill {last : Register} (value : Registers → Register → UInt8)
    (other : ¬∃ x ≤ last, part = .general x) :
    part.Same machine (machine.withRegisters fun registers => registers.fill last (value registers)) := by
  cases part with
  | general x =>
    have behind : ¬x ≤ last := fun inside => other ⟨x,inside,rfl⟩
    simp [Same,Machine.withRegisters,behind]
  | _ => simp only [Same,Machine.withRegisters,Registers.fill]

def timing : List Part := [.settings,.sinceTick,.delay,.sound]

theorem same_countInstruction (machine : Machine) (timeless : part ∉ timing) :
    part.Same machine machine.countInstruction.machine := by
  rw [Machine.countInstruction_machine]
  cases part with
  | settings | sinceTick | delay | sound => exact absurd (by simp [timing]) timeless
  | index | counter | general x =>
    simp only [Same]
    split <;> rfl
  | _ => rfl

theorem same_concluded (machine : Machine) (request : Request) (timeless : part ∉ timing) :
    part.Same machine (machine.concluded request) := by
  cases request with
  | step => exact same_countInstruction machine timeless
  | _ => exact .refl part machine

theorem same_behindWord (machine : Machine) (request : Request) (other : part ≠ .counter) :
    part.Same machine (machine.behindWord request) := by
  cases request with
  | step => exact same_jump _ other
  | _ => exact .refl part machine

end Part

def Calculation.flags : Calculation → Bool
  | .copy | .or | .and | .xor => false
  | .add | .subtract | .shiftRight | .subtractFrom | .shiftLeft => true

theorem Calculation.flags_of_raised {calculation : Calculation} {a b : UInt8} {up : Bool}
    (raised : calculation.flag? a b = some up) : calculation.flags = true := by
  cases calculation with
  | copy | or | and | xor => cases raised
  | _ => rfl

namespace Instruction
variable {machine after : Machine} {instruction : Instruction} {part : Part}

def Writes : Instruction → Part → Prop
  | .clearScreen, part => part = .screen
  | .returnFromCall, part | .call _, part => part = .stack ∨ part = .counter
  | .jump _, part | .jumpOffset _, part | .skipIf _, part => part = .counter
  | .setByte x _, part | .addByte x _, part | .readDelay x, part => part = .general x
  | .calculate calculation x _, part =>
    part = .general x ∨ calculation.flags = true ∧ part = .general flagRegister
  | .setIndex _, part | .addIndex _, part | .pointAtGlyph _, part => part = .index
  | .random x _, part => part = .random ∨ part = .general x
  | .draw _ _ _, part => part = .screen ∨ part = .general flagRegister
  | .setDelay _, part => part = .delay
  | .setSound _, part => part = .sound
  | .awaitKey _, part => part = .activity
  | .storeDigits _, part | .storeRegisters _, part => part = .memory
  | .loadRegisters last, part => ∃ x ≤ last, part = .general x
  | .unknown _, _ => False

theorem apply_draw {x y : Register} {rows : Fin 16}
    (applied : apply machine (.draw x y rows) = .ok after) :
    ∃ screen collision,
      after = {machine with screen,registers := machine.registers.setFlag collision} :=
  ⟨_,_,(Except.ok.inj applied).symm⟩

theorem same_calculate {calculation : Calculation} {x y : Register}
    (spared : ¬(Instruction.calculate calculation x y).Writes part) :
    part.Same machine (machine.withRegisters (·.calculate calculation x y)) := by
  obtain ⟨target,flag⟩ := not_or.mp spared
  have combined : part.Same machine (machine.withRegisters fun registers => registers.set x
      (calculation.result (machine.registers.get x) (machine.registers.get y))) :=
    Part.same_set _ target
  cases raised : calculation.flag? (machine.registers.get x) (machine.registers.get y) with
  | none =>
    simp only [Machine.withRegisters,Registers.calculate,raised]
    exact combined
  | some up =>
    have flags := Calculation.flags_of_raised raised
    simp only [Machine.withRegisters,Registers.calculate,raised]
    exact combined.trans (Part.same_set _ fun same => flag ⟨flags,same⟩)

theorem apply_same (applied : instruction.apply machine = .ok after)
    (spared : ¬instruction.Writes part) : part.Same machine after := by
  cases instruction with
  | clearScreen =>
    cases applied
    exact Part.same_screen _ spared
  | returnFromCall =>
    obtain ⟨address,stack,popped,rfl⟩ := apply_returnFromCall applied
    obtain ⟨top,target⟩ := not_or.mp spared
    exact (Part.same_stack stack top).trans (Part.same_jump address target)
  | call target =>
    obtain ⟨stack,pushed,rfl⟩ := apply_call applied
    obtain ⟨top,counter⟩ := not_or.mp spared
    exact (Part.same_stack stack top).trans (Part.same_jump target counter)
  | jump target | jumpOffset base =>
    cases applied
    exact Part.same_jump _ spared
  | skipIf condition =>
    cases applied
    split
    · exact Part.same_jump _ spared
    · exact .refl part machine
  | setByte x byte | addByte x byte | readDelay x =>
    cases applied
    exact Part.same_set _ spared
  | calculate calculation x y =>
    cases applied
    exact same_calculate spared
  | setIndex address | addIndex x | pointAtGlyph x =>
    cases applied
    exact Part.same_index _ spared
  | random x mask =>
    cases applied
    obtain ⟨source,target⟩ := not_or.mp spared
    have drawn : part.Same machine {machine with random := machine.random.next.2} :=
      Part.same_random _ source
    exact drawn.trans (Part.same_set _ target)
  | draw x y rows =>
    obtain ⟨screen,collision,rfl⟩ := apply_draw applied
    obtain ⟨other,flag⟩ := not_or.mp spared
    exact (Part.same_screen screen other).trans (Part.same_set _ flag)
  | setDelay x =>
    cases applied
    exact Part.same_delay _ spared
  | setSound x =>
    cases applied
    exact Part.same_sound _ spared
  | awaitKey x =>
    cases applied
    exact Part.same_activity _ spared
  | storeDigits x | storeRegisters last =>
    cases applied
    exact Part.same_memory _ spared
  | loadRegisters last =>
    cases applied
    exact Part.same_fill _ spared
  | unknown word =>
    cases applied
    exact .refl part machine

end Instruction

theorem Calculation.form_plain {calculation : Calculation} (plain : calculation.flags = false) :
    calculation.form ∈ ["6xkk","7xkk","8xy0","8xy1","8xy2","8xy3","Cxkk","Fx07"] := by
  cases calculation with
  | copy | or | and | xor => simp [form]
  | _ => cases plain

theorem Calculation.form_flagged {calculation : Calculation} (flagged : calculation.flags = true) :
    calculation.form ∈ ["8xy4","8xy5","8xy6","8xy7","8xyE"] := by
  cases calculation with
  | copy | or | and | xor => cases flagged
  | _ => simp [form]

/-- The forms of the words that may write a part. -/
def MayWrite (word : UInt16) : Part → Prop
  | .settings | .keypad | .sinceTick => False
  | .screen => OfForms ["00E0","Dxyn"] word
  | .memory => OfForms ["Fx33","Fx55"] word
  | .stack => OfForms ["00EE","2nnn"] word
  | .index => OfForms ["Annn","Fx1E","Fx29"] word
  | .counter => OfForms ["00EE","1nnn","2nnn","Bnnn","3xkk","4xkk","5xy0","9xy0","Ex9E",
      "ExA1"] word
  | .delay => OfForms ["Fx15"] word
  | .sound => OfForms ["Fx18"] word
  | .general x =>
    x = operand word ∧
      OfForms ["6xkk","7xkk","8xy0","8xy1","8xy2","8xy3","Cxkk","Fx07"] word ∨
    (x = operand word ∨ x = flagRegister) ∧
      OfForms ["8xy4","8xy5","8xy6","8xy7","8xyE"] word ∨
    x = flagRegister ∧ OfForms ["Dxyn"] word ∨
    x ≤ operand word ∧ OfForms ["Fx65"] word
  | .random => OfForms ["Cxkk"] word
  | .activity => OfForms ["Fx0A"] word

theorem mayWrite_of_writes {word : UInt16} {instruction : Instruction} {part : Part}
    (decoded : Instruction.decode word = instruction) (writes : instruction.Writes part) :
    MayWrite word part := by
  have operand {x : Register} (named : instruction.register? = some x) : x = operand word :=
    Instruction.decode_register (decoded ▸ named)
  have ofForms {form : String} {listed : List String} (known : instruction.form? = some form)
      (member : form ∈ listed) : OfForms listed word :=
    ⟨form,member,Instruction.decode_ofForm (decoded ▸ known)⟩
  cases instruction with
  | returnFromCall | call target =>
    rcases writes with rfl | rfl
    · exact ofForms rfl (by simp)
    · exact ofForms rfl (by simp)
  | skipIf condition =>
    cases writes
    exact ofForms rfl (by cases condition <;> simp [Condition.form])
  | setByte x byte | addByte x byte | readDelay x =>
    cases writes
    exact .inl ⟨operand rfl,ofForms rfl (by simp)⟩
  | calculate calculation x y =>
    rcases writes with rfl | ⟨flags,rfl⟩
    · cases flags : calculation.flags with
      | false => exact .inl ⟨operand rfl,ofForms rfl (Calculation.form_plain flags)⟩
      | true => exact .inr (.inl ⟨.inl (operand rfl),ofForms rfl (Calculation.form_flagged flags)⟩)
    · exact .inr (.inl ⟨.inr rfl,ofForms rfl (Calculation.form_flagged flags)⟩)
  | random x mask =>
    rcases writes with rfl | rfl
    · exact ofForms rfl (by simp)
    · exact .inl ⟨operand rfl,ofForms rfl (by simp)⟩
  | draw x y rows =>
    rcases writes with rfl | rfl
    · exact ofForms rfl (by simp)
    · exact .inr (.inr (.inl ⟨rfl,ofForms rfl (by simp)⟩))
  | loadRegisters last =>
    obtain ⟨x,inside,rfl⟩ := writes
    exact .inr (.inr (.inr ⟨operand rfl ▸ inside,ofForms rfl (by simp)⟩))
  | unknown word => exact writes.elim
  | _ =>
    cases writes
    exact ofForms rfl (by simp)

namespace Machine
variable {machine : Machine}

theorem execute_same (machine : Machine) {word : UInt16} {part : Part} (spared : ¬MayWrite word part) :
    part.Same machine (machine.execute word).machine := by
  cases machine.execute_cases word with
  | parked register waiting answer left =>
    rw [left]
    exact .refl part machine
  | refused fault running rejected answer left =>
    rw [left]
    exact .refl part machine
  | executed after running applied answer left =>
    rw [left]
    exact Instruction.apply_same applied fun writes => spared (mayWrite_of_writes rfl writes)

theorem step_keypad (machine : Machine) : machine.step.machine.keypad = machine.keypad := by
  cases machine.step_cases with
  | parked register waiting answer left =>
    rw [left]
    split
    · exact show Part.keypad.Same _ _ from Part.same_countInstruction machine (by decide)
    · rfl
  | unreadable fault running missing answer left | refused word fault running found rejected answer left =>
    rw [left]
  | executed word after running found applied answer left =>
    rw [left]
    have counted : after.countInstruction.machine.keypad = after.keypad :=
      show Part.keypad.Same _ _ from Part.same_countInstruction after (by decide)
    exact counted.trans (Instruction.apply_frame applied).keypad

theorem execute_unknown (running : machine.activity = .running) {word : UInt16}
    (formless : ¬OfForms forms word) :
    (machine.execute word).answer = .ok .running ∧ (machine.execute word).machine = machine :=
  execute_runs running (Instruction.decode_unknown_iff.mpr formless) rfl running

theorem unknownWord_iff (running : machine.activity = .running) {word : UInt16} :
    .unknownWord word ∈ (machine.execute word).log ↔ ¬OfForms forms word := by
  have log : (machine.execute word).log =
      .executing (machine.registers.counter - 2) word :: (Instruction.decode word).remarks := by
    simp only [execute,running]
    split <;> rfl
  rw [← Instruction.decode_unknown_iff,log]
  cases Instruction.decode word <;> simp [Instruction.remarks,eq_comm]

/-- What the executed word of a request does not write stays, but for the counter and the time. -/
theorem Executes.same {request : Request} {word : UInt16} {part : Part}
    (executes : machine.Executes request word) (spared : ¬MayWrite word part)
    (timeless : part ∉ Part.timing) (other : part ≠ .counter) :
    part.Same machine (machine.serve request).machine := by
  obtain ⟨after,applied,left⟩ := executes.applied
  have before := Part.same_behindWord machine request other
  have behind := Part.same_concluded after request timeless
  rw [left]
  exact (before.trans
    (Instruction.apply_same applied fun writes => spared (mayWrite_of_writes rfl writes))).trans behind

/-- A word has the form of the instruction that it is decoded to and no other one, and changes a part
of a machine only if it is of one of the forms that are listed for the part. The words that are of no
form at all change nothing, and they are those noted as unknown. -/
theorem execute_confined (machine : Machine) (running : machine.activity = .running)
    (word : UInt16) :
    (∀ form ∈ forms, OfForm form word ↔ (Instruction.decode word).form? = some form) ∧
    (∀ part, ¬MayWrite word part → part.Same machine (machine.execute word).machine) ∧
    (¬OfForms forms word →
      (machine.execute word).answer = .ok .running ∧ (machine.execute word).machine = machine) ∧
    (.unknownWord word ∈ (machine.execute word).log ↔ ¬OfForms forms word) :=
  ⟨fun _ => Instruction.ofForm_iff,fun _ => execute_same machine,execute_unknown running,
    unknownWord_iff running⟩

/-- `8xy8` is no calculation, and an addition into the flag register leaves the third one alone. -/
theorem execute_confined_calculation :
    let machine := (fresh {} (Vector.replicate 8 0)).after [.load [0x62,0x0A],.step]
    (machine.execute 0x8128).machine = machine ∧
      (machine.execute 0x8F24).machine.registers.get 2 = machine.registers.get 2 := by
  intro machine
  have running : machine.activity = .running := by decide +kernel
  obtain ⟨_,_,unknown,_⟩ := execute_confined machine running 0x8128
  obtain ⟨_,confined,_,_⟩ := execute_confined machine running 0x8F24
  refine ⟨(unknown (by decide)).2,confined (.general 2) ?_⟩
  unfold MayWrite
  decide

end Machine

end Chip8
