import Chip8.Proofs.Machine.Drawing
import Chip8.Proofs.Machine.Transfers

/-! The address register on its way to an address. It goes around at its sixteen bits and
the memory at its twelve, so that however often the register has gone around, every
instruction finds the cells of the address that has been summed up. -/
namespace Chip8.Machine
variable {machine after : Machine} {word : UInt16} {words : List UInt16}

structure Pointed (before after : Machine) (address : Nat) : Prop where
  index : after.registers.index.toNat = address % 65536
  others : ∀ part : Part, part ≠ .index → part.Same before after

namespace Pointed
variable {address : Nat} (pointed : machine.Pointed after address)
include pointed

/-- The end of the address register is an end of the memory, too. -/
theorem cell (offset : Nat) :
    (after.registers.index.toNat + offset) % 4096 = (address + offset) % 4096 := by
  rw [pointed.index,Nat.add_mod,Nat.mod_mod_of_dvd _ (by decide),← Nat.add_mod]

theorem get (x : Register) : after.registers.get x = machine.registers.get x :=
  pointed.others (.general x) (by simp)

theorem memory : after.memory = machine.memory := pointed.others .memory (by simp)

theorem activity : after.activity = machine.activity := pointed.others .activity (by simp)

end Pointed

theorem execute_addIndex (running : machine.activity = .running) (fits : OfForm "Fx1E" word) :
    (machine.execute word).answer = .ok .running ∧
      machine.Pointed (machine.execute word).machine
        (machine.registers.index.toNat + (machine.registers.get (operand word)).toNat) := by
  obtain ⟨answer,left⟩ := execute_runs running (Instruction.decode_addIndex fits) rfl running
  rw [left]
  refine ⟨answer,?_,fun part other => Part.same_index _ other⟩
  exact (UInt16.toNat_add _ _).trans (by rw [UInt8.toNat_toUInt16])

def summed (machine : Machine) (words : List UInt16) : Nat :=
  machine.registers.index.toNat +
    (words.map fun word => (machine.registers.get (operand word)).toNat).sum

/-- The registers that are added do not change on the way, so that their sum is known beforehand. -/
theorem after_addIndex (running : machine.activity = .running) (adds : ∀ word ∈ words, OfForm "Fx1E" word) :
    (machine.replies (words.map .execute)).map (·.answer) =
        List.replicate words.length (.status .running) ∧
      machine.Pointed (machine.after (words.map .execute)) (machine.summed words) := by
  induction words generalizing machine with
  | nil =>
    refine ⟨rfl,?_,fun part _ => .refl part machine⟩
    exact (Nat.mod_eq_of_lt machine.registers.index.toNat_lt).symm
  | cons word words ih =>
    obtain ⟨fits,others⟩ := List.forall_mem_cons.mp adds
    obtain ⟨answer,once⟩ := execute_addIndex running fits
    obtain ⟨answers,rest⟩ := ih (once.activity.trans running) others
    have values :
        (words.map fun other => ((machine.execute word).machine.registers.get (operand other)).toNat) =
          words.map fun other => (machine.registers.get (operand other)).toNat :=
      List.map_congr_left fun _ _ => congrArg UInt8.toNat (once.get _)
    refine ⟨congrArg₂ List.cons (congrArg (Answer.ofExcept .status) answer) answers,?_,
      fun part other => (once.others part other).trans (rest.others part other)⟩
    refine rest.index.trans ?_
    simp only [summed,once.index,values,List.map_cons,List.sum_cons]
    omega

section
variable {address : Nat} (pointed : machine.Pointed after address)
  (running : machine.activity = .running)
include pointed running

theorem Pointed.storeDigits (fits : OfForm "Fx33" word) :
    (after.execute word).answer = .ok .running ∧
      after.Written (after.execute word).machine address fun place : Fin 3 => UInt8.ofNat
        ((machine.registers.get (operand word)).toNat / 10 ^ (2 - place.val) % 10) := by
  obtain ⟨answer,written⟩ := execute_storeDigits (pointed.activity.trans running) fits
  rw [pointed.get] at written
  exact ⟨answer,written.shift (pointed.cell 0)⟩

theorem Pointed.storeRegisters (fits : OfForm "Fx55" word) :
    (after.execute word).answer = .ok .running ∧
      after.Written (after.execute word).machine address fun place : Fin (operand word + 1) =>
        machine.registers.get (place.castLE (operand word).isLt) := by
  obtain ⟨answer,stored⟩ := execute_storeRegisters (pointed.activity.trans running) fits
  have written := stored.written
  simp only [pointed.get] at written
  exact ⟨answer,written.shift (pointed.cell 0)⟩

theorem Pointed.loadRegisters (fits : OfForm "Fx65" word) :
    (after.execute word).answer = .ok .running ∧
      (∀ x ≤ operand word, (after.execute word).machine.registers.get x =
        machine.memory.peek ((address + x) % 4096)) ∧
      ∀ part : Part, (∀ x ≤ operand word, part ≠ .general x) →
        part.Same after (after.execute word).machine := by
  obtain ⟨answer,loaded⟩ := execute_loadRegisters (pointed.activity.trans running) fits
  refine ⟨answer,fun x listed => ?_,loaded.others⟩
  rw [loaded.inside x listed,pointed.memory,pointed.cell]

theorem Pointed.draw {sprite : Nat → UInt8} (draws : OfForm "Dxyn" word)
    (rows : ∀ row < word.toNat % 16, machine.memory.peek ((address + row) % 4096) = sprite row) :
    (after.execute word).answer = .ok .running ∧
      after.Inverted (after.execute word).machine
        (Overlays sprite (word.toNat % 16) (machine.registers.get (operand word))
          (machine.registers.get (secondOperand word))) := by
  have found (row : Nat) (inside : row < word.toNat % 16) :
      after.memory.peek ((after.registers.index.toNat + row) % 4096) = sprite row := by
    rw [pointed.memory,pointed.cell]
    exact rows row inside
  have drawn := execute_overlays (pointed.activity.trans running) draws found
  rwa [pointed.get,pointed.get] at drawn

end

/-- Whatever registers are added to the address register, the next instruction finds the cells of their
sum around the end of memory, one for each of its bytes, although the address register itself has gone
around at its own end before. -/
theorem effective_addresses (machine : Machine) (running : machine.activity = .running)
    (words : List UInt16) (adds : ∀ word ∈ words, OfForm "Fx1E" word) :
    let address := machine.summed words
    let moved := machine.after (words.map .execute)
    (machine.replies (words.map .execute)).map (·.answer) =
      List.replicate words.length (.status .running) ∧
    moved.registers.index.toNat = address % 65536 ∧
    (∀ part : Part, part ≠ .index → part.Same machine moved) ∧
    ∀ word : UInt16,
      let last := (moved.execute word).machine
      (OfForms ["Fx33","Fx55","Fx65","Dxyn"] word → (moved.execute word).answer = .ok .running) ∧
      (OfForm "Fx33" word → moved.Written last address fun place : Fin 3 => UInt8.ofNat
        ((machine.registers.get (operand word)).toNat / 10 ^ (2 - place.val) % 10)) ∧
      (OfForm "Fx55" word → moved.Written last address fun place : Fin (operand word + 1) =>
        machine.registers.get (place.castLE (operand word).isLt)) ∧
      (OfForm "Fx65" word →
        (∀ x ≤ operand word, last.registers.get x = machine.memory.peek ((address + x) % 4096)) ∧
        ∀ part : Part, (∀ x ≤ operand word, part ≠ .general x) → part.Same moved last) ∧
      (OfForm "Dxyn" word → moved.Inverted last (Overlays
        (fun row => machine.memory.peek ((address + row) % 4096)) (word.toNat % 16)
        (machine.registers.get (operand word)) (machine.registers.get (secondOperand word)))) := by
  intro address moved
  obtain ⟨answers,pointed⟩ := after_addIndex running adds
  refine ⟨answers,pointed.index,pointed.others,fun word => ?_⟩
  intro last
  refine ⟨fun fits => ?_,fun fits => (pointed.storeDigits running fits).2,
    fun fits => (pointed.storeRegisters running fits).2,
    fun fits => (pointed.loadRegisters running fits).2,
    fun fits => (pointed.draw running fits fun _ _ => rfl).2⟩
  obtain ⟨form,listed,fits⟩ := fits
  simp only [List.mem_cons,List.not_mem_nil,or_false] at listed
  rcases listed with rfl | rfl | rfl | rfl
  · exact (pointed.storeDigits running fits).1
  · exact (pointed.storeRegisters running fits).1
  · exact (pointed.loadRegisters running fits).1
  · exact (pointed.draw running fits fun _ _ => rfl).1

/-- The address register goes around once to where it has been, and two registers are loaded from the
last cell and the first one. -/
theorem effective_addresses_around :
    let machine := (fresh {} (Vector.replicate 8 0)).after
      [.execute 0x60FF,.execute 0x6101,.execute 0xAFFF]
    let words := 0xF11E :: List.replicate 257 0xF01E
    let moved := machine.after (words.map .execute)
    let loaded := (moved.execute 0xF165).machine
    machine.summed words = 0xFFF + 65536 ∧ moved.registers.index.toNat = 0xFFF ∧
      loaded.registers.get 0 = 0 ∧ loaded.registers.get 1 = 0xF0 := by
  intro machine words
  have running : machine.activity = .running := by decide +kernel
  have index : machine.registers.index.toNat = 0xFFF := by decide +kernel
  have one : (machine.registers.get (operand 0xF11E)).toNat = 1 := by decide +kernel
  have most : (machine.registers.get (operand 0xF01E)).toNat = 255 := by decide +kernel
  have last : machine.memory.peek 0xFFF = 0 := by decide +kernel
  have first : machine.memory.peek 0 = 0xF0 := by decide +kernel
  have adds : ∀ word ∈ words, OfForm "Fx1E" word := by
    simp only [words,List.forall_mem_cons,List.mem_replicate]
    exact ⟨by decide,fun word added => added.2 ▸ by decide⟩
  have address : machine.summed words = 0xFFF + 65536 := by
    simp only [summed,words,List.map_cons,List.map_replicate,List.sum_cons,List.sum_replicate_nat,
      index,one,most]
  clear_value machine words
  intro moved loaded
  obtain ⟨_,around,_,next⟩ := effective_addresses machine running words adds
  obtain ⟨_,_,_,found,_⟩ := next 0xF165
  obtain ⟨values,_⟩ := found (by decide)
  rw [address] at around values
  refine ⟨address,around,?_,?_⟩
  · rw [← last]
    exact values 0 (by decide)
  · rw [← first]
    exact values 1 (by decide)

end Chip8.Machine
