import Chip8.Proofs.Machine.Parts
import Chip8.Proofs.Memory.Windows
import Chip8.Proofs.Screen.Sprites

/-! The instruction that draws. Its sprite lies around the end of memory and goes
around the edges of the screen, and what it draws it takes back when it is executed
again, unless the flag is one of its coordinates. -/
namespace Chip8.Machine
variable {machine : Machine} {word : UInt16} {point : Point}

def Covers (machine : Machine) (word : UInt16) (point : Point) : Prop :=
  ∃ row < word.toNat % 16, ∃ column < 8,
    (machine.memory.peek ((machine.registers.index.toNat + row) % 4096)).toNat.testBit (7 - column) = true ∧
    ((machine.registers.get (operand word)).toNat + column) % 64 = point.column ∧
    ((machine.registers.get (secondOperand word)).toNat + row) % 32 = point.row

def Overlays (sprite : Nat → UInt8) (rows : Nat) (x y : UInt8) (point : Point) : Prop :=
  ∃ row < rows, ∃ column < 8, (sprite row).toNat.testBit (7 - column) = true ∧
    (x.toNat + column) % 64 = point.column ∧ (y.toNat + row) % 32 = point.row

structure Inverted (before after : Machine) (covers : Point → Prop) : Prop where
  screen : ∀ point, after.screen.lit point ≠ before.screen.lit point ↔ covers point
  flag : after.registers.get flagRegister = 1 ↔ ∃ point, covers point ∧ before.screen.lit point = true
  bit : after.registers.get flagRegister = 0 ∨ after.registers.get flagRegister = 1
  others : ∀ part : Part, part ≠ .screen → part ≠ .general flagRegister → part.Same before after

def touched (machine : Machine) (word : UInt16) : List Point :=
  spritePoints (machine.registers.get (operand word)).toNat
    (machine.registers.get (secondOperand word)).toNat
    (machine.memory.slice machine.registers.index.toNat (word.toNat % 16))

theorem mem_touched : point ∈ machine.touched word ↔ machine.Covers word point := by
  simp only [touched,mem_spritePoints,Memory.slice,List.length_map,List.length_range,Covers,
    Memory.peek_mod,Point.around_eq]
  refine exists_congr fun row => and_congr_right fun inside => ?_
  have byte : ((List.range (word.toNat % 16)).map fun offset =>
      machine.memory.peek (machine.registers.index.toNat + offset)).getD row 0 =
        machine.memory.peek (machine.registers.index.toNat + row) := by simp [inside]
  rw [byte]

theorem nodup_touched (machine : Machine) (word : UInt16) : (machine.touched word).Nodup := by
  refine nodup_spritePoints _ _ ?_
  simp only [Memory.slice,List.length_map,List.length_range]
  omega

theorem execute_draw (running : machine.activity = .running) (draws : OfForm "Dxyn" word) :
    (machine.execute word).answer = .ok .running ∧ (machine.execute word).machine = {machine with
      screen := (machine.screen.toggleAll (machine.touched word)).1
      registers := machine.registers.setFlag (machine.screen.toggleAll (machine.touched word)).2} := by
  have whole : (machine.memory.slice machine.registers.index.toNat (word.toNat % 16)).take
      (word.toNat % 16) = machine.memory.slice machine.registers.index.toNat (word.toNat % 16) :=
    List.take_of_length_le (by simp [Memory.slice])
  refine execute_runs running (Instruction.decode_draw draws (Nat.mod_lt _ (by decide))) ?_ running
  simp only [Instruction.apply,Screen.draw,whole]
  rfl

theorem execute_inverts (running : machine.activity = .running) (draws : OfForm "Dxyn" word) :
    machine.Inverted (machine.execute word).machine (machine.Covers word) := by
  have once := nodup_touched machine word
  have collides := machine.screen.meets_toggleAll once
  simp only [mem_touched] at collides
  rw [(execute_draw running draws).2]
  refine ⟨fun point => ?_,?_,?_,fun part other flag => ?_⟩
  · exact (machine.screen.flips_toggleAll once).trans mem_touched
  · rw [← collides]
    cases (machine.screen.toggleAll (machine.touched word)).2 <;> simp [Registers.setFlag]
  · cases (machine.screen.toggleAll (machine.touched word)).2 <;> simp [Registers.setFlag]
  · generalize machine.screen.toggleAll (machine.touched word) = drawn
    exact (Part.same_screen drawn.1 other).trans (Part.same_set _ flag)

/-- What a word draws is told by the bytes that it finds. -/
theorem execute_overlays {sprite : Nat → UInt8} (running : machine.activity = .running)
    (draws : OfForm "Dxyn" word)
    (rows : ∀ row < word.toNat % 16,
      machine.memory.peek ((machine.registers.index.toNat + row) % 4096) = sprite row) :
    (machine.execute word).answer = .ok .running ∧
      machine.Inverted (machine.execute word).machine
        (Overlays sprite (word.toNat % 16) (machine.registers.get (operand word))
          (machine.registers.get (secondOperand word))) := by
  have covers : machine.Covers word = Overlays sprite (word.toNat % 16)
      (machine.registers.get (operand word)) (machine.registers.get (secondOperand word)) := by
    funext point
    refine propext (exists_congr fun row => and_congr_right fun inside => ?_)
    rw [rows row inside]
  rw [← covers]
  exact ⟨(execute_draw running draws).1,execute_inverts running draws⟩

/-- A word draws as before if neither of its coordinates is the flag. -/
theorem Inverted.covers {after : Machine} {covers : Point → Prop} (inverted : machine.Inverted after covers)
    (kept : operand word ≠ flagRegister) (spared : secondOperand word ≠ flagRegister) :
    after.Covers word point ↔ machine.Covers word point := by
  have memory : after.memory = machine.memory := inverted.others .memory (by simp) (by simp)
  have index : after.registers.index = machine.registers.index := inverted.others .index (by simp) (by simp)
  have x : after.registers.get (operand word) = machine.registers.get (operand word) :=
    inverted.others (.general _) (by simp) (by simp [kept])
  have y : after.registers.get (secondOperand word) = machine.registers.get (secondOperand word) :=
    inverted.others (.general _) (by simp) (by simp [spared])
  simp only [Covers,memory,index,x,y]

/-- A drawing inverts the points under its sprite, which it takes from where the address register
points and puts where the coordinates were before the flag is written. Executed again the word undoes
it, and finds lit what was not. -/
theorem draw_twice (machine : Machine) (running : machine.activity = .running) (word : UInt16)
    (draws : OfForm "Dxyn" word) :
    let once := (machine.execute word).machine
    let twice := (once.execute word).machine
    (machine.execute word).answer = .ok .running ∧
    machine.Inverted once (machine.Covers word) ∧
    (operand word ≠ flagRegister → secondOperand word ≠ flagRegister →
      (once.execute word).answer = .ok .running ∧
      twice.screen = machine.screen ∧
      (twice.registers.get flagRegister = 1 ↔
        ∃ point, machine.Covers word point ∧ machine.screen.lit point = false) ∧
      (twice.registers.get flagRegister = 0 ∨ twice.registers.get flagRegister = 1) ∧
      ∀ part : Part, part ≠ .general flagRegister → part.Same machine twice) := by
  intro once twice
  have first := execute_inverts running draws
  refine ⟨(execute_draw running draws).1,first,fun kept spared => ?_⟩
  have activity : once.activity = machine.activity := first.others .activity (by simp) (by simp)
  have runs : once.activity = .running := activity.trans running
  have second := execute_inverts runs draws
  have covers {point : Point} : once.Covers word point ↔ machine.Covers word point :=
    first.covers kept spared
  have screen : twice.screen = machine.screen := by
    refine Screen.ext_lit fun point => ?_
    have inverted := first.screen point
    have again := (second.screen point).trans covers
    by_cases covered : machine.Covers word point
    · rw [Bool.eq_not.mpr (again.mpr covered),Bool.eq_not.mpr (inverted.mpr covered),Bool.not_not]
    · exact (not_not.mp (mt again.mp covered)).trans (not_not.mp (mt inverted.mp covered))
  refine ⟨(execute_draw runs draws).1,screen,?_,second.bit,fun part flag => ?_⟩
  · rw [second.flag]
    refine exists_congr fun point => ?_
    rw [covers]
    refine and_congr_right fun covered => ?_
    rw [Bool.eq_not.mpr ((first.screen point).mpr covered),Bool.not_eq_true']
  · by_cases drawn : part = .screen
    · rw [drawn]
      exact screen
    · exact (first.others part drawn flag).trans (second.others part drawn flag)

/-- The sprite is the last two cells of memory and the three upper rows of the first glyph, and goes
around both edges of the screen. Drawn again it meets the pixels that it lit. -/
theorem draw_twice_around :
    let machine := (fresh {} (Vector.replicate 8 0)).after
      [.execute 0x603E,.execute 0x611E,.execute 0xAFFE]
    let once := (machine.execute 0xD015).machine
    let twice := (once.execute 0xD015).machine
    once.screen.lit ⟨1,0⟩ ≠ machine.screen.lit ⟨1,0⟩ ∧ twice.screen = machine.screen ∧
      twice.registers.get flagRegister = 1 := by
  intro machine
  have running : machine.activity = .running := by decide +kernel
  have dark : machine.screen.lit ⟨1,0⟩ = false := by decide +kernel
  have covered : machine.Covers 0xD015 ⟨1,0⟩ := by
    refine ⟨2,by decide,3,by decide,?_⟩
    decide +kernel
  clear_value machine
  intro once twice
  obtain ⟨_,first,again⟩ := draw_twice machine running 0xD015 (by decide)
  obtain ⟨_,restored,met,_⟩ := again (by decide) (by decide)
  exact ⟨(first.screen _).mpr covered,restored,met.mpr ⟨_,covered,dark⟩⟩

end Chip8.Machine
