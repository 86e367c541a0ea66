import Chip8.Proofs.Machine.Provenance

/-! Numbers and registers stored to memory, and registers loaded from it. All of these
instructions go around the end of memory in the same way, so that a register finds
again what was stored into its cell, and elsewhere what has been there before. -/
namespace Chip8.Machine
variable {machine after : Machine} {word : UInt16}

structure Stored (before after : Machine) (last : Register) : Prop where
  inside : ∀ x ≤ last,
    after.memory.peek ((before.registers.index.toNat + x) % 4096) = before.registers.get x
  outside : ∀ cell : Fin 4096, (∀ x ≤ last, cell.val ≠ (before.registers.index.toNat + x) % 4096) →
    after.memory.peek cell = before.memory.peek cell
  others : ∀ part : Part, part ≠ .memory → part.Same before after

structure Loaded (before after : Machine) (last : Register) : Prop where
  inside : ∀ x ≤ last,
    after.registers.get x = before.memory.peek ((before.registers.index.toNat + x) % 4096)
  others : ∀ part : Part, (∀ x ≤ last, part ≠ .general x) → part.Same before after

structure Written {count : Nat} (before after : Machine) (start : Nat) (byte : Fin count → UInt8) :
    Prop where
  inside : ∀ place : Fin count, after.memory.peek ((start + place) % 4096) = byte place
  outside : ∀ cell : Fin 4096, (∀ place : Fin count, cell.val ≠ (start + place) % 4096) →
    after.memory.peek cell = before.memory.peek cell
  others : ∀ part : Part, part ≠ .memory → part.Same before after

/-- All that counts of an address is where it lies in memory. -/
theorem Written.shift {count start other : Nat} {byte : Fin count → UInt8}
    (written : machine.Written after start byte) (same : start % 4096 = other % 4096) :
    machine.Written after other byte := by
  have cells (place : Fin count) : (start + place) % 4096 = (other + place) % 4096 := by omega
  refine ⟨fun place => ?_,fun cell apart => written.outside cell fun place => ?_,written.others⟩
  · rw [← cells]
    exact written.inside place
  · rw [cells]
    exact apart place

theorem execute_storeDigits (running : machine.activity = .running) (fits : OfForm "Fx33" word) :
    (machine.execute word).answer = .ok .running ∧
      machine.Written (machine.execute word).machine machine.registers.index.toNat
        fun place : Fin 3 => UInt8.ofNat
          ((machine.registers.get (operand word)).toNat / 10 ^ (2 - place.val) % 10) := by
  obtain ⟨answer,left⟩ := execute_runs running (Instruction.decode_storeDigits fits) rfl running
  have short : (decimalDigits (machine.registers.get (operand word))).length ≤ 4096 := by
    simp [decimalDigits]
  rw [left]
  refine ⟨answer,fun place => ?_,fun cell apart => ?_,fun part other => Part.same_memory _ other⟩
  · have listed := getElem?_decimalDigits (machine.registers.get (operand word)) place
    obtain ⟨inside,digit⟩ := List.getElem?_eq_some_iff.mp listed
    rw [Memory.peek_mod,← digit]
    exact Memory.peek_store_inside short inside
  · refine Memory.peek_store_outside short cell.isLt fun offset inside reached => ?_
    exact apart ⟨offset,inside⟩ reached

theorem execute_storeRegisters (running : machine.activity = .running) (fits : OfForm "Fx55" word) :
    (machine.execute word).answer = .ok .running ∧
      machine.Stored (machine.execute word).machine (operand word) := by
  obtain ⟨answer,left⟩ := execute_runs running (Instruction.decode_storeRegisters fits) rfl running
  have length := Registers.length_upTo machine.registers (operand word)
  rw [left]
  refine ⟨answer,fun x listed => ?_,fun cell apart => ?_,fun part other => Part.same_memory _ other⟩
  · rw [Memory.peek_mod]
    exact Memory.peek_store_upTo _ _ listed
  · refine Memory.peek_store_outside (by omega) cell.isLt fun offset inside reached => ?_
    exact apart ⟨offset,by omega⟩ (Nat.le_of_lt_succ (length ▸ inside)) reached

theorem execute_loadRegisters (running : machine.activity = .running) (fits : OfForm "Fx65" word) :
    (machine.execute word).answer = .ok .running ∧
      machine.Loaded (machine.execute word).machine (operand word) := by
  obtain ⟨answer,left⟩ := execute_runs running (Instruction.decode_loadRegisters fits) rfl running
  rw [left]
  refine ⟨answer,fun x listed => ?_,fun part apart => Part.same_fill _ ?_⟩
  · rw [Memory.peek_mod]
    simp only [withRegisters,Registers.get_fill,if_pos listed]
  · rintro ⟨x,listed,same⟩
    exact apart x listed same

theorem Stored.written {last : Register} (stored : machine.Stored after last) :
    machine.Written after machine.registers.index.toNat
      fun place : Fin (last + 1) => machine.registers.get (place.castLE last.isLt) := by
  refine ⟨fun place => ?_,fun cell apart => stored.outside cell fun x listed => ?_,stored.others⟩
  · exact stored.inside (place.castLE last.isLt) (Nat.le_of_lt_succ place.isLt)
  · exact apart ⟨x,Nat.lt_succ_of_le listed⟩

section Overlap
variable {middle last : Machine} {x y : Register} (stored : machine.Stored after x)
  (loaded : middle.Loaded last y) (memory : middle.memory = after.memory)
include stored loaded memory

/-- A register that is loaded from the cell of a stored one gets its value. -/
theorem Stored.hit {j k : Register} (listed : j ≤ x) (wanted : k ≤ y)
    (same : (middle.registers.index.toNat + k) % 4096 = (machine.registers.index.toNat + j) % 4096) :
    last.registers.get k = machine.registers.get j := by
  rw [loaded.inside k wanted,memory,same]
  exact stored.inside j listed

/-- A register that is loaded from any other cell gets the byte from before the storing. -/
theorem Stored.miss {k : Register} (wanted : k ≤ y)
    (apart : ∀ j ≤ x,
      (middle.registers.index.toNat + k) % 4096 ≠ (machine.registers.index.toNat + j) % 4096) :
    last.registers.get k = machine.memory.peek ((middle.registers.index.toNat + k) % 4096) := by
  rw [loaded.inside k wanted,memory]
  exact stored.outside ⟨_,Nat.mod_lt _ (by decide)⟩ apart

end Overlap

/-- What has been loaded is stored back into the same cells. -/
theorem Loaded.back {last : Machine} {x : Register} (loaded : machine.Loaded after x)
    (stored : after.Stored last x) : last.memory = machine.memory := by
  have memory : after.memory = machine.memory := loaded.others .memory (by simp)
  have index : after.registers.index = machine.registers.index := loaded.others .index (by simp)
  refine Memory.ext_peek fun cell => ?_
  by_cases inside : ∃ j ≤ x, cell.val = (after.registers.index.toNat + j) % 4096
  · obtain ⟨j,listed,reached⟩ := inside
    rw [reached,stored.inside j listed,loaded.inside j listed,index]
  · have apart : ∀ j ≤ x, cell.val ≠ (after.registers.index.toNat + j) % 4096 :=
      fun j listed reached => inside ⟨j,listed,reached⟩
    rw [stored.outside cell apart,memory]

/-- Registers stored to memory are found again by a later load, each from its own cell, wherever the
two windows overlap and whatever the registers hold in between. Stored and loaded at one address they
are what they were, and so is the memory if they are loaded first. -/
theorem registers_through_memory (machine : Machine) (running : machine.activity = .running)
    (store load : UInt16) (stores : OfForm "Fx55" store) (loads : OfForm "Fx65" load) :
    let stored := (machine.execute store).machine
    (machine.execute store).answer = .ok .running ∧ machine.Stored stored (operand store) ∧
    (∀ middle : Machine, middle.activity = .running → middle.memory = stored.memory →
      let loaded := (middle.execute load).machine
      (middle.execute load).answer = .ok .running ∧
      (∀ k ≤ operand load,
        (∀ j ≤ operand store, (middle.registers.index.toNat + k) % 4096 =
            (machine.registers.index.toNat + j) % 4096 →
          loaded.registers.get k = machine.registers.get j) ∧
        ((∀ j ≤ operand store, (middle.registers.index.toNat + k) % 4096 ≠
            (machine.registers.index.toNat + j) % 4096) →
          loaded.registers.get k = machine.memory.peek ((middle.registers.index.toNat + k) % 4096))) ∧
      (∀ part : Part, (∀ k ≤ operand load, part ≠ .general k) → part.Same middle loaded) ∧
      (middle.registers.index = machine.registers.index → operand load = operand store →
        ∀ k ≤ operand store, loaded.registers.get k = machine.registers.get k)) ∧
    (operand load = operand store →
      ((machine.execute load).machine.execute store).machine.memory = machine.memory) := by
  intro stored
  obtain ⟨answer,window⟩ := execute_storeRegisters running stores
  refine ⟨answer,window,fun middle runs memory => ?_,fun same => ?_⟩
  · intro loaded
    obtain ⟨again,filled⟩ := execute_loadRegisters runs loads
    refine ⟨again,fun k wanted => ⟨fun j listed same => ?_,fun apart => ?_⟩,filled.others,
      fun index same k listed => ?_⟩
    · exact window.hit filled memory listed wanted same
    · exact window.miss filled memory wanted apart
    · exact window.hit filled memory listed (same ▸ listed) (by rw [index])
  · obtain ⟨_,filled⟩ := execute_loadRegisters running loads
    have activity : (machine.execute load).machine.activity = machine.activity :=
      filled.others .activity (by simp)
    obtain ⟨_,back⟩ := execute_storeRegisters (activity.trans running) stores
    rw [same] at filled
    exact filled.back back

/-- Three registers are stored around the end of memory and loaded again from one cell further on, so
that the last of them gets a row of the first glyph. -/
theorem registers_through_memory_around :
    let machine := (fresh {} (Vector.replicate 8 0)).after
      [.execute 0x6011,.execute 0x6122,.execute 0x6233,.execute 0xAFFE]
    let middle := ((machine.execute 0xF255).machine.execute 0xAFFF).machine
    let loaded := (middle.execute 0xF265).machine
    loaded.registers.get 0 = 0x22 ∧ loaded.registers.get 1 = 0x33 ∧ loaded.registers.get 2 = 0x90 := by
  intro machine middle
  have running : machine.activity = .running := by decide +kernel
  have runs : middle.activity = .running := by decide +kernel
  have first : machine.registers.index.toNat = 0xFFE := by decide +kernel
  have second : middle.registers.index.toNat = 0xFFF := by decide +kernel
  have one : machine.registers.get 1 = 0x22 := by decide +kernel
  have two : machine.registers.get 2 = 0x33 := by decide +kernel
  have row : machine.memory.peek 1 = 0x90 := by decide +kernel
  have memory : middle.memory = (machine.execute 0xF255).machine.memory :=
    show Part.memory.Same _ _ from execute_same _ (by unfold MayWrite; decide)
  clear_value middle machine
  intro loaded
  obtain ⟨_,_,found,_⟩ :=
    registers_through_memory machine running 0xF255 0xF265 (by decide) (by decide)
  obtain ⟨_,values,_⟩ := found middle runs memory
  rw [first,second] at values
  refine ⟨?_,?_,?_⟩
  · rw [← one]
    exact (values 0 (by decide)).1 1 (by decide) (by decide)
  · rw [← two]
    exact (values 1 (by decide)).1 2 (by decide) (by decide)
  · rw [← row]
    exact (values 2 (by decide)).2 (by decide)

end Chip8.Machine
