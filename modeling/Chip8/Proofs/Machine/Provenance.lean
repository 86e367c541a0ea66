import Mathlib.Algebra.Group.Nat.Defs
import Chip8.Proofs.Machine.Histories
import Chip8.Proofs.Machine.Loading

/-! Where the bytes in memory come from. A new memory, a loaded program and two
instructions put bytes into cells, and a cell holds the byte that was put into it
last. -/
namespace Chip8

theorem getElem?_decimalDigits (value : UInt8) (place : Fin 3) :
    (decimalDigits value)[place.val]? =
      some (UInt8.ofNat (value.toNat / 10 ^ (2 - place.val) % 10)) := by
  have below := value.toNat_lt
  match place with
  | 0 | 1 | 2 =>
    simp [decimalDigits,← UInt8.toNat_inj]
    omega

theorem Registers.getElem?_upTo {registers : Registers} {last x : Register} (listed : x ≤ last) :
    (registers.upTo last)[x.val]? = some (registers.get x) := by
  have inside : x.val < last.val + 1 := Nat.lt_succ_of_le listed
  simp [upTo,get,inside]

theorem Registers.length_upTo (registers : Registers) (last : Register) :
    (registers.upTo last).length = last + 1 := by
  simp only [upTo,List.length_take,Vector.length_toList]
  omega

theorem Memory.peek_store_upTo {registers : Registers} {last x : Register} (memory : Memory)
    (address : Nat) (listed : x ≤ last) :
    (memory.store address (registers.upTo last)).peek (address + x) = registers.get x := by
  obtain ⟨inside,value⟩ := List.getElem?_eq_some_iff.mp (Registers.getElem?_upTo listed)
  have fits : (registers.upTo last).length ≤ 4096 := by
    rw [Registers.length_upTo]
    omega
  rw [← value]
  exact peek_store_inside fits inside

namespace Instruction

def stored (registers : Registers) : Instruction → List UInt8
  | .storeDigits x => decimalDigits (registers.get x)
  | .storeRegisters last => registers.upTo last
  | _ => []

theorem length_stored (registers : Registers) (instruction : Instruction) :
    (instruction.stored registers).length ≤ 4096 := by
  cases instruction with
  | storeRegisters last =>
    simp only [stored,Registers.length_upTo]
    omega
  | _ => simp [stored,decimalDigits]

theorem apply_memory {machine after : Machine} {instruction : Instruction}
    (applied : instruction.apply machine = .ok after) :
    after.memory =
      machine.memory.store machine.registers.index.toNat (instruction.stored machine.registers) := by
  cases instruction with
  | storeDigits x | storeRegisters last =>
    cases applied
    rfl
  | _ =>
    have same : Part.memory.Same machine after := apply_same applied (by simp [Writes])
    exact same

end Instruction

namespace Machine
variable {machine : Machine} {request : Request} {cell : Fin 4096}

/-- A request puts a byte into a cell. The digits of a number come with the hundreds first, and an
instruction goes around the end of memory. -/
inductive Puts (machine : Machine) (cell : Fin 4096) : Request → UInt8 → Prop where
  | restart (entropy : ChaCha.Key) : Puts machine cell (.reset entropy) (Memory.initialByte cell)
  | program (bytes : List UInt8) (offset : Nat) (inside : offset < bytes.length)
      (accepted : (machine.serve (.load bytes)).answer = .done)
      (reached : cell.val = 0x200 + offset) : Puts machine cell (.load bytes) bytes[offset]
  | digit (request : Request) (word : UInt16) (executes : machine.Executes request word)
      (fits : OfForm "Fx33" word) (place : Fin 3)
      (reached : cell.val = (machine.registers.index.toNat + place) % 4096) :
      Puts machine cell request
        (UInt8.ofNat ((machine.registers.get (operand word)).toNat / 10 ^ (2 - place.val) % 10))
  | register (request : Request) (word : UInt16) (executes : machine.Executes request word)
      (fits : OfForm "Fx55" word) (x : Register) (listed : x ≤ operand word)
      (reached : cell.val = (machine.registers.index.toNat + x) % 4096) :
      Puts machine cell request (machine.registers.get x)

def Leaves (cell : Fin 4096) (machine : Machine) (request : Request) : Prop :=
  ∀ byte, ¬machine.Puts cell request byte

theorem behindWord_stored (machine : Machine) (request : Request) (instruction : Instruction) :
    instruction.stored (machine.behindWord request).registers = instruction.stored machine.registers := by
  cases request with
  | step => cases instruction <;> rfl
  | _ => rfl

theorem Executes.memory {word : UInt16} (executes : machine.Executes request word) :
    (machine.serve request).machine.memory = machine.memory.store machine.registers.index.toNat
      ((Instruction.decode word).stored machine.registers) := by
  obtain ⟨after,applied,left⟩ := executes.applied
  have memory : (machine.behindWord request).memory = machine.memory :=
    show Part.memory.Same _ _ from Part.same_behindWord machine request (by decide)
  have index : (machine.behindWord request).registers.index = machine.registers.index :=
    show Part.index.Same _ _ from Part.same_behindWord machine request (by decide)
  have behind : (after.concluded request).memory = after.memory :=
    show Part.memory.Same _ _ from Part.same_concluded after request (by decide)
  rw [left,behind,Instruction.apply_memory applied,memory,index,behindWord_stored]

theorem load_done_iff {bytes : List UInt8} :
    (machine.serve (.load bytes)).answer = .done ↔ bytes.length ≤ 3583 := by
  have done : (machine.serve (.load bytes)).answer = .done ↔ (machine.load bytes).answer = .ok () := by
    change Answer.ofExcept (fun _ => .done) (machine.load bytes).answer = .done ↔ _
    cases (machine.load bytes).answer with
    | ok value => exact ⟨fun _ => rfl,fun _ => rfl⟩
    | error fault => exact ⟨nofun,nofun⟩
  exact done.trans load_ok_iff

theorem Puts.peek {byte : UInt8} (puts : machine.Puts cell request byte) :
    (machine.serve request).machine.memory.peek cell = byte := by
  cases puts with
  | restart entropy => exact Memory.peek_initial cell
  | program bytes offset inside accepted reached =>
    have programmed := load_programmed machine (load_done_iff.mp accepted)
    rw [reached]
    exact programmed.inside offset _ (List.getElem?_eq_getElem inside)
  | digit _ word executes fits place reached =>
    have digit := getElem?_decimalDigits (machine.registers.get (operand word)) place
    obtain ⟨inside,digit⟩ := List.getElem?_eq_some_iff.mp digit
    rw [executes.memory,Instruction.decode_storeDigits fits,reached,Memory.peek_mod,← digit]
    exact Memory.peek_store_inside (Instruction.length_stored _ (.storeDigits _)) inside
  | register _ word executes fits x listed reached =>
    rw [executes.memory,Instruction.decode_storeRegisters fits,reached,Memory.peek_mod]
    exact Memory.peek_store_upTo _ _ listed

/-- A word that stores reaches the cells of its window, and each of them gets a byte. -/
theorem Executes.puts {word : UInt16} (executes : machine.Executes request word) {offset : Nat}
    (inside : offset < ((Instruction.decode word).stored machine.registers).length)
    (reached : cell.val = (machine.registers.index.toNat + offset) % 4096) :
    ∃ byte, machine.Puts cell request byte := by
  cases decoded : Instruction.decode word with
  | storeDigits x =>
    rw [decoded] at inside
    have fits : OfForm "Fx33" word := Instruction.decode_ofForm (by rw [decoded]; rfl)
    exact ⟨_,.digit request word executes fits ⟨offset,inside⟩ reached⟩
  | storeRegisters last =>
    rw [decoded] at inside
    have fits : OfForm "Fx55" word := Instruction.decode_ofForm (by rw [decoded]; rfl)
    have listed : last = operand word := Instruction.decode_register (by rw [decoded]; rfl)
    have short : offset ≤ last.val := by
      simp only [Instruction.stored,Registers.length_upTo] at inside
      omega
    have known : offset < 16 := Nat.lt_of_le_of_lt short last.isLt
    exact ⟨_,.register request word executes fits ⟨offset,known⟩ (listed ▸ short) reached⟩
  | _ =>
    rw [decoded] at inside
    exact absurd inside (Nat.not_lt_zero offset)

theorem Leaves.executed {word : UInt16} (leaves : machine.Leaves cell request)
    (executes : machine.Executes request word) :
    (machine.serve request).machine.memory.peek cell = machine.memory.peek cell := by
  rw [executes.memory]
  refine Memory.peek_store_outside (Instruction.length_stored _ _) cell.isLt ?_
  intro offset inside reached
  obtain ⟨byte,puts⟩ := executes.puts inside reached
  exact leaves byte puts

theorem Leaves.loaded {bytes : List UInt8} (leaves : machine.Leaves cell (.load bytes)) :
    (machine.serve (.load bytes)).machine.memory.peek cell = machine.memory.peek cell := by
  rcases Nat.lt_or_ge 3583 bytes.length with long | fits
  · exact congrArg (·.machine.memory.peek cell) (load_overlong machine long)
  · have programmed := load_programmed machine fits
    refine programmed.outside cell ?_
    by_contra covered
    obtain ⟨low,high⟩ := not_or.mp covered
    exact leaves _ (.program bytes (cell - 0x200) (by omega) (load_done_iff.mpr fits) (by omega))

theorem receive_memory (machine : Machine) (key : Key) :
    (machine.receive key).memory = machine.memory := by
  cases activity : machine.activity with
  | running => rw [receive_running activity]
  | awaitingKey register => rw [receive_parked activity]

theorem received_memory {after : Machine}
    (received : after = machine ∨ ∃ key, after = machine.receive key) :
    after.memory = machine.memory := by
  rcases received with rfl | ⟨key,rfl⟩
  · rfl
  · exact receive_memory machine key

theorem Leaves.step (leaves : machine.Leaves cell .step) :
    machine.step.machine.memory.peek cell = machine.memory.peek cell := by
  cases machine.step_cases with
  | parked register waiting answer left =>
    have counted : machine.countInstruction.machine.memory = machine.memory :=
      show Part.memory.Same _ _ from Part.same_countInstruction machine (by decide)
    rw [left]
    split
    · rw [counted]
    · rfl
  | unreadable fault running missing answer left | refused word fault running found rejected answer left =>
    rw [left]
  | executed word after running found applied answer left =>
    have accepted := congrArg (Answer.ofExcept .status) answer
    exact leaves.executed ⟨running,.inr ⟨rfl,found⟩,_,accepted⟩

theorem Leaves.execute {word : UInt16} (leaves : machine.Leaves cell (.execute word)) :
    (machine.execute word).machine.memory.peek cell = machine.memory.peek cell := by
  cases machine.execute_cases word with
  | parked register waiting answer left | refused fault running rejected answer left => rw [left]
  | executed after running applied answer left =>
    have accepted := congrArg (Answer.ofExcept .status) answer
    exact leaves.executed ⟨running,.inl rfl,_,accepted⟩

/-- Nothing else writes memory. -/
theorem Leaves.peek (leaves : machine.Leaves cell request) :
    (machine.serve request).machine.memory.peek cell = machine.memory.peek cell := by
  cases request with
  | load bytes => exact leaves.loaded
  | step => exact leaves.step
  | execute word => exact leaves.execute
  | press code => exact congrArg (Memory.peek · cell) (received_memory (press_received machine code))
  | wait codes =>
    exact congrArg (Memory.peek · cell) (received_memory (waitForKey_received machine id codes))
  | reset entropy => exact absurd (.restart entropy) (leaves _)
  | fetch =>
    simp only [serve,Reply.map,fetch]
    split <;> rfl
  | release code =>
    simp only [serve,Reply.map,release]
    split <;> rfl
  | cancelWait =>
    simp only [serve,Reply.map,cancelWait]
    split <;> rfl
  | tick => rfl

/-- What a cell holds behind a history is what was put into it last, or what it held before. -/
theorem peek_after (machine : Machine) (history : List Request) (cell : Fin 4096) :
    machine.Throughout (Leaves cell) history ∧
        (machine.after history).memory.peek cell = machine.memory.peek cell ∨
      ∃ past request rest, history = past ++ request :: rest ∧
        (machine.after past).Puts cell request ((machine.after history).memory.peek cell) ∧
        (machine.after (past ++ [request])).Throughout (Leaves cell) rest := by
  induction history generalizing machine with
  | nil => exact .inl ⟨trivial,rfl⟩
  | cons request history ih =>
    rcases ih (machine.serve request).machine with ⟨later,kept⟩ | ⟨past,last,rest,rfl,puts,later⟩
    · by_cases leaves : machine.Leaves cell request
      · exact .inl ⟨⟨leaves,later⟩,kept.trans leaves.peek⟩
      · obtain ⟨byte,puts⟩ := not_forall_not.mp leaves
        have held : (machine.after (request :: history)).memory.peek cell = byte := kept.trans puts.peek
        exact .inr ⟨[],request,history,rfl,held ▸ puts,later⟩
    · exact .inr ⟨request :: past,last,rest,rfl,puts,later⟩

def SparesGlyphs (machine : Machine) (request : Request) : Prop :=
  ∀ word, machine.Executes request word →
    (OfForm "Fx33" word → ∀ place : Fin 3, 0x50 ≤ (machine.registers.index.toNat + place) % 4096) ∧
    (OfForm "Fx55" word → ∀ x ≤ operand word, 0x50 ≤ (machine.registers.index.toNat + x) % 4096)

def GlyphsIntact (machine : Machine) : Prop :=
  ∀ cell : Fin 4096, cell.val < 0x50 → machine.memory.peek cell = Memory.initialByte cell

theorem SparesGlyphs.serve (spares : machine.SparesGlyphs request) (intact : machine.GlyphsIntact) :
    (machine.serve request).machine.GlyphsIntact := by
  intro cell low
  by_cases leaves : machine.Leaves cell request
  · exact leaves.peek.trans (intact cell low)
  · obtain ⟨byte,puts⟩ := not_forall_not.mp leaves
    rw [puts.peek]
    cases puts with
    | restart entropy => rfl
    | program bytes offset inside accepted reached => omega
    | digit _ word executes fits place reached =>
      have behind := (spares word executes).1 fits place
      omega
    | register _ word executes fits x listed reached =>
      have behind := (spares word executes).2 fits x listed
      omega

theorem GlyphsIntact.after {history : List Request} (intact : machine.GlyphsIntact)
    (spares : machine.Throughout SparesGlyphs history) : (machine.after history).GlyphsIntact := by
  induction history generalizing machine with
  | nil => exact intact
  | cons request history ih => exact ih (spares.1.serve intact) spares.2

theorem fresh_glyphsIntact (settings : Settings) (entropy : ChaCha.Key) :
    (fresh settings entropy).GlyphsIntact :=
  fun cell _ => Memory.peek_initial cell

theorem Executes.glyph {word : UInt16} {digit : Fin 16} (executes : machine.Executes request word)
    (fits : OfForm "Fx29" word) (value : (machine.registers.get (operand word)).toNat = digit)
    (intact : machine.GlyphsIntact) :
    (machine.serve request).machine.registers.index.toNat = 5 * digit ∧
      (machine.serve request).machine.memory.slice (5 * digit) 5 = Memory.glyph digit := by
  have decoded := Instruction.decode_pointAtGlyph fits
  constructor
  · obtain ⟨after,applied,left⟩ := executes.applied
    have behind : (after.concluded request).registers.index = after.registers.index :=
      show Part.index.Same _ _ from Part.same_concluded after request (by decide)
    rw [decoded] at applied
    cases applied
    rw [left,behind]
    change (Memory.glyphAddress ((machine.behindWord request).registers.get (operand word))).toNat = _
    rw [behindWord_get]
    exact Memory.toNat_glyphAddress value
  · rw [executes.memory,decoded]
    exact Memory.slice_glyph intact digit

/-- Every cell holds the byte that was put into it last, or the one that it had in the new machine.
The glyphs stay for as long as no window reaches them after the machine was new or set back, and a
digit is then drawn from five rows of its own. -/
theorem memory_provenance (settings : Settings) (entropy : ChaCha.Key) (history : List Request) :
    let start := fresh settings entropy
    let machine := start.after history
    (∀ cell : Fin 4096,
      start.Throughout (Leaves cell) history ∧
          machine.memory.peek cell = Memory.initialByte cell ∨
        ∃ past request rest, history = past ++ request :: rest ∧
          (start.after past).Puts cell request (machine.memory.peek cell) ∧
          (start.after (past ++ [request])).Throughout (Leaves cell) rest) ∧
    (∀ cell request, machine.Leaves cell request →
      (machine.serve request).machine.memory.peek cell = machine.memory.peek cell) ∧
    ∀ past recent, history = past ++ recent →
      (past = [] ∨ ∃ earlier entropy, past = earlier ++ [.reset entropy]) →
      (start.after past).Throughout SparesGlyphs recent →
        (∀ digit : Fin 16, machine.memory.slice (5 * digit) 5 = Memory.glyph digit) ∧
        ∀ request word (digit : Fin 16), machine.Executes request word → OfForm "Fx29" word →
          (machine.registers.get (operand word)).toNat = digit →
            (machine.serve request).machine.registers.index.toNat = 5 * digit ∧
            (machine.serve request).machine.memory.slice (5 * digit) 5 = Memory.glyph digit := by
  intro start machine
  refine ⟨fun cell => ?_,fun _ _ leaves => leaves.peek,?_⟩
  · rcases peek_after start history cell with ⟨untouched,kept⟩ | put
    · exact .inl ⟨untouched,kept.trans (Memory.peek_initial cell)⟩
    · exact .inr put
  · intro past recent split new spares
    have intact : (start.after past).GlyphsIntact := by
      rcases new with rfl | ⟨earlier,again,rfl⟩
      · exact fresh_glyphsIntact settings entropy
      · rw [after_singleton]
        exact fresh_glyphsIntact _ again
    have later : machine.GlyphsIntact := by
      change (start.after history).GlyphsIntact
      rw [split,after_append]
      exact intact.after spares
    exact ⟨Memory.slice_glyph later,fun _ _ _ executes fits value => executes.glyph fits value later⟩

instance (machine : Machine) (request : Request) : Decidable (machine.SparesGlyphs request) :=
  have : Decidable (∀ word ∈ machine.executed? request,
      (OfForm "Fx33" word → ∀ place : Fin 3, 0x50 ≤ (machine.registers.index.toNat + place) % 4096) ∧
      (OfForm "Fx55" word →
        ∀ x ≤ operand word, 0x50 ≤ (machine.registers.index.toNat + x) % 4096)) :=
    Option.decidableForallMem _
  decidable_of_iff _ (forall_congr' fun _ => imp_congr_left executed?_eq_some)

/-- The digits of a number go behind the glyphs, and `B` is drawn from the twelfth of them. -/
theorem memory_provenance_digit :
    let history : List Request := [.execute 0xF055,.reset (Vector.replicate 8 0),
      .load [0x60,0x0B,0xA3,0x00,0xF0,0x33],.step,.step,.step]
    let machine := (fresh {} (Vector.replicate 8 0)).after history
    (machine.serve (.execute 0xF029)).machine.registers.index.toNat = 55 ∧
      (machine.serve (.execute 0xF029)).machine.memory.slice 55 5 = Memory.glyph 0xB := by
  intro history
  have provenance := memory_provenance {} (Vector.replicate 8 0) history
  dsimp only at provenance ⊢
  generalize made : after _ history = machine at provenance ⊢
  obtain ⟨_,_,glyphs⟩ := provenance
  have spares : ((fresh {} (Vector.replicate 8 0)).after
      [.execute 0xF055,.reset (Vector.replicate 8 0)]).Throughout SparesGlyphs
      [.load [0x60,0x0B,0xA3,0x00,0xF0,0x33],.step,.step,.step] := by
    decide +kernel
  obtain ⟨_,pointed⟩ := glyphs [.execute 0xF055,.reset (Vector.replicate 8 0)] _ rfl
    (.inr ⟨[.execute 0xF055],_,rfl⟩) spares
  have executes : machine.Executes (.execute 0xF029) 0xF029 := by
    subst made
    exact executed?_eq_some.mp (by decide +kernel)
  have value : (machine.registers.get (operand 0xF029)).toNat = (0xB : Fin 16) := by
    subst made
    decide +kernel
  exact pointed (.execute 0xF029) 0xF029 0xB executes (by decide) value

end Machine

end Chip8
