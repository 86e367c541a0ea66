import Chip8.Proofs.Machine.Indexing

/-! Numbers on the screen. The decimal digits of a register go through memory into the
first three registers, and every one of them is then drawn from its glyph. -/
namespace Chip8

/-- The words that draw a sprite of five rows are among those that draw. -/
theorem OfForm.draw {word : UInt16} (fits : OfForm "Dxy5" word) :
    OfForm "Dxyn" word ∧ word.toNat % 16 = 5 := by
  simpa [OfForm,digits,fixedDigit?] using fits

namespace Machine
variable {machine after : Machine} {word : UInt16}

def digitRegister (place : Fin 3) : Register := place.castLE (by decide)

theorem exists_digits (value : UInt8) :
    ∃ digit : Fin 3 → Fin 10,
      100 * (digit 0).val + 10 * (digit 1).val + (digit 2).val = value.toNat ∧
      ∀ place, (digit place).val = value.toNat / 10 ^ (2 - place.val) % 10 := by
  have below := value.toNat_lt
  refine ⟨fun place => ⟨value.toNat / 10 ^ (2 - place.val) % 10,Nat.mod_lt _ (by decide)⟩,?_,
    fun place => rfl⟩
  change 100 * (value.toNat / 100 % 10) + 10 * (value.toNat / 10 % 10) + value.toNat / 1 % 10 = _
  omega

theorem GlyphsIntact.row (intact : machine.GlyphsIntact) (digit : Fin 16) {row : Nat} (inside : row < 5) :
    machine.memory.peek (5 * digit + row) = (Memory.glyph digit).getD row 0 := by
  rw [← Memory.slice_glyph intact digit]
  simp [Memory.slice,inside]

theorem GlyphsIntact.of_memory (intact : machine.GlyphsIntact) (memory : after.memory = machine.memory) :
    after.GlyphsIntact := by
  unfold GlyphsIntact
  rw [memory]
  exact intact

theorem GlyphsIntact.written {count start : Nat} {byte : Fin count → UInt8}
    (intact : machine.GlyphsIntact) (written : machine.Written after start byte)
    (behind : ∀ place : Fin count, 0x50 ≤ (start + place) % 4096) : after.GlyphsIntact := by
  intro cell low
  have apart (place : Fin count) : cell.val ≠ (start + place) % 4096 :=
    (Nat.lt_of_lt_of_le low (behind place)).ne
  exact (written.outside cell apart).trans (intact cell low)

theorem execute_pointAtGlyph {digit : Fin 16} (running : machine.activity = .running)
    (fits : OfForm "Fx29" word) (value : (machine.registers.get (operand word)).toNat = digit) :
    (machine.execute word).answer = .ok .running ∧
      machine.Pointed (machine.execute word).machine (5 * digit) := by
  obtain ⟨answer,left⟩ := execute_runs running (Instruction.decode_pointAtGlyph fits) rfl running
  have near : 5 * digit.val % 65536 = 5 * digit := Nat.mod_eq_of_lt (by omega)
  rw [left]
  refine ⟨answer,?_,fun part other => Part.same_index _ other⟩
  rw [near]
  exact Memory.toNat_glyphAddress value

structure DigitDrawn (before : Machine) (digit : Fin 16) (point draw : UInt16) : Prop where
  points : (before.execute point).answer = .ok .running
  pointed : before.Pointed (before.execute point).machine (5 * digit)
  draws : ((before.execute point).machine.execute draw).answer = .ok .running
  inverted : (before.execute point).machine.Inverted
    ((before.execute point).machine.execute draw).machine
    (Overlays (fun row => (Memory.glyph digit).getD row 0) 5
      (before.registers.get (operand draw)) (before.registers.get (secondOperand draw)))

theorem GlyphsIntact.draws {digit : Fin 16} {point draw : UInt16} (intact : machine.GlyphsIntact)
    (running : machine.activity = .running) (points : OfForm "Fx29" point) (draws : OfForm "Dxy5" draw)
    (value : (machine.registers.get (operand point)).toNat = digit) :
    machine.DigitDrawn digit point draw := by
  obtain ⟨answer,pointed⟩ := execute_pointAtGlyph running points value
  obtain ⟨form,five⟩ := draws.draw
  have rows (row : Nat) (inside : row < draw.toNat % 16) :
      machine.memory.peek ((5 * digit + row) % 4096) = (Memory.glyph digit).getD row 0 := by
    rw [Memory.peek_mod]
    exact intact.row digit (five ▸ inside)
  obtain ⟨drawn,inverted⟩ := pointed.draw running form rows
  rw [five] at inverted
  exact ⟨answer,pointed,drawn,inverted⟩

/-- A byte is shown by its decimal digits. They lie around the end of memory from the address register
on, the first three registers get them from there, and if they do not lie on the glyphs, each of them
is drawn as its own glyph for as long as its register and the memory stay. -/
theorem digits_drawn (machine : Machine) (running : machine.activity = .running) (store : UInt16)
    (stores : OfForm "Fx33" store) :
    let index := machine.registers.index.toNat
    let stored := (machine.execute store).machine
    let loaded := (stored.execute 0xF265).machine
    ∃ digit : Fin 3 → Fin 10,
      100 * (digit 0).val + 10 * (digit 1).val + (digit 2).val =
        (machine.registers.get (operand store)).toNat ∧
      (machine.execute store).answer = .ok .running ∧
      machine.Written stored index (fun place => UInt8.ofNat (digit place)) ∧
      (stored.execute 0xF265).answer = .ok .running ∧
      (∀ place, (loaded.registers.get (digitRegister place)).toNat = digit place) ∧
      (∀ part : Part, (∀ place, part ≠ .general (digitRegister place)) → part.Same stored loaded) ∧
      (machine.GlyphsIntact → (∀ place : Fin 3, 0x50 ≤ (index + place) % 4096) →
        ∀ later : Machine, later.activity = .running → later.memory = loaded.memory →
        ∀ place, later.registers.get (digitRegister place) = loaded.registers.get (digitRegister place) →
        ∀ point draw, OfForm "Fx29" point → operand point = digitRegister place → OfForm "Dxy5" draw →
          later.DigitDrawn ((digit place).castLE (by decide)) point draw) := by
  intro index stored loaded
  obtain ⟨digit,sum,digits⟩ := exists_digits (machine.registers.get (operand store))
  obtain ⟨answer,written⟩ := execute_storeDigits running stores
  simp only [← digits] at written
  have activity : stored.activity = machine.activity := written.others .activity (by simp)
  have last : operand 0xF265 = 2 := by decide
  obtain ⟨again,filled⟩ := execute_loadRegisters (activity.trans running)
    (show OfForm "Fx65" 0xF265 by decide)
  have same : stored.registers.index = machine.registers.index := written.others .index (by simp)
  have among (place : Fin 3) : digitRegister place ≤ operand 0xF265 := by
    rw [last]
    exact Nat.le_of_lt_succ place.isLt
  have values (place : Fin 3) : (loaded.registers.get (digitRegister place)).toNat = digit place := by
    rw [filled.inside _ (among place),same]
    change (stored.memory.peek ((index + place) % 4096)).toNat = _
    rw [written.inside place,UInt8.toNat_ofNat_of_lt']
    exact Nat.lt_trans (digit place).isLt (by decide)
  refine ⟨digit,sum,answer,written,again,values,fun part spared => ?_,?_⟩
  · refine filled.others part fun x listed => ?_
    have short : x ≤ 2 := last ▸ listed
    exact spared ⟨x,Nat.lt_succ_of_le short⟩
  · intro intact behind later runs memory place kept point draw points named draws
    have stays : loaded.memory = stored.memory := filled.others .memory (by simp)
    have glyphs : later.GlyphsIntact := (intact.written written behind).of_memory (memory.trans stays)
    refine glyphs.draws runs points draws ?_
    rw [named,kept]
    exact values place

/-- The digits of 123 fill the last three cells, and the first of them is drawn into the corner. -/
theorem digits_drawn_last_cells :
    let machine := (fresh {} (Vector.replicate 8 0)).after [.execute 0x637B,.execute 0xAFFD]
    let loaded := ((machine.execute 0xF333).machine.execute 0xF265).machine
    let drawn := ((loaded.execute 0xF029).machine.execute 0xD455).machine
    loaded.registers.get 0 = 1 ∧ loaded.registers.get 1 = 2 ∧ loaded.registers.get 2 = 3 ∧
      drawn.screen.lit ⟨2,0⟩ = true := by
  intro machine
  have running : machine.activity = .running := by decide +kernel
  have index : machine.registers.index.toNat = 0xFFD := by decide +kernel
  have number : (machine.registers.get (operand 0xF333)).toNat = 123 := by decide +kernel
  have column : machine.registers.get (operand 0xD455) = 0 := by decide +kernel
  have row : machine.registers.get (secondOperand 0xD455) = 0 := by decide +kernel
  have dark : machine.screen.lit ⟨2,0⟩ = false := by decide +kernel
  have intact : machine.GlyphsIntact := (fresh_glyphsIntact _ _).after (by decide +kernel)
  clear_value machine
  intro loaded drawn
  obtain ⟨digit,sum,_,written,_,values,others,shown⟩ :=
    digits_drawn machine running 0xF333 (by decide)
  have hundreds : digit 0 = 1 := by omega
  have tens : digit 1 = 2 := by omega
  have ones : digit 2 = 3 := by omega
  have kept (part : Part) (memory : part ≠ .memory)
      (spared : ∀ place, part ≠ .general (digitRegister place)) : part.Same machine loaded :=
    (written.others part memory).trans (others part spared)
  have behind (place : Fin 3) : 0x50 ≤ (machine.registers.index.toNat + place) % 4096 := by omega
  have runs : loaded.activity = machine.activity := kept .activity (by simp) (by simp)
  have digitDrawn := shown intact behind loaded (runs.trans running) rfl 0 rfl 0xF029 0xD455
    (by decide) (by decide) (by decide)
  have x : loaded.registers.get (operand 0xD455) = machine.registers.get (operand 0xD455) :=
    kept (.general _) (by simp) (by decide)
  have y : loaded.registers.get (secondOperand 0xD455) = machine.registers.get (secondOperand 0xD455) :=
    kept (.general _) (by simp) (by decide)
  have still : loaded.screen = machine.screen := kept .screen (by simp) (by simp)
  have moved : (loaded.execute 0xF029).machine.screen = loaded.screen :=
    digitDrawn.pointed.others .screen (by simp)
  have flipped := (digitDrawn.inverted.screen ⟨2,0⟩).mpr (by
    rw [x,y,column,row,hundreds]
    exact ⟨0,by decide,2,by decide,by decide,by decide,by decide⟩)
  rw [moved,still,dark] at flipped
  refine ⟨?_,?_,?_,eq_true_of_ne_false flipped⟩
  · rw [← UInt8.toNat_inj]
    exact (values 0).trans (congrArg Fin.val hundreds)
  · rw [← UInt8.toNat_inj]
    exact (values 1).trans (congrArg Fin.val tens)
  · rw [← UInt8.toNat_inj]
    exact (values 2).trans (congrArg Fin.val ones)

end Machine

end Chip8
