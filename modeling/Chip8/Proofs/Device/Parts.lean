import Chip8.CallStack
import Chip8.Device.Parts
import Chip8.Keypad.Arrival
import Mathlib.Data.Nat.Bitwise
import Mathlib.Tactic.IntervalCases

/-! The routines on the parts of a device never crash, and each does to its
part what the operation of the machine does. -/
namespace Chip8
open Routine

def CallStack.onDevice (stack : CallStack) : Device.Stack :=
  ⟨stack.slots,UInt8.ofNat stack.depth⟩

def Outcome.ofExcept {σ τ α : Type} (state : σ) (value : τ → α) (left : τ → σ) :
    Except Fault τ → Outcome σ α
  | .ok result => .done (value result) (left result)
  | .error fault => .refused fault state

namespace Device

theorem low_digit (x : UInt8) : (x &&& 0xF).toNat = x.toNat % 16 := by
  rw [UInt8.toNat_and]
  exact Nat.and_two_pow_sub_one_eq_mod x.toNat 4

namespace Registers

theorem value_run (x : UInt8) (registers : Registers) :
    (value x).run registers = .done (registers.get (.ofByte x)) registers := by
  have inside : x.toNat % 16 < 16 := Nat.mod_lt _ (by decide)
  simp only [value,bind_look,low_digit]
  rw [cell_inside _ inside]
  rfl

theorem assign_run (x byte : UInt8) (registers : Registers) :
    (assign x byte).run registers = .done () (registers.set (.ofByte x) byte) := by
  have inside : x.toNat % 16 < 16 := Nat.mod_lt _ (by decide)
  simp only [assign,bind_look,low_digit]
  rw [overwrite_inside _ _ inside]
  rfl

theorem assignFlag_run (raised : Bool) (registers : Registers) :
    (assignFlag raised).run registers = .done () (registers.setFlag raised) := by
  simp only [assignFlag,bind_look]
  rw [overwrite_inside _ _ (by decide)]
  rfl

end Registers

namespace Stack

theorem pointer_onDevice (stack : CallStack) : stack.onDevice.pointer.toNat = stack.depth := by
  have bound := stack.depth.isLt
  simp only [CallStack.onDevice,UInt8.toNat_ofNat']
  omega

theorem push_run (address : UInt16) (stack : CallStack) :
    (push address).run stack.onDevice =
      .ofExcept stack.onDevice (fun _ => ()) CallStack.onDevice (stack.push address) := by
  simp only [push,bind_look,pointer_onDevice,run_ite,run_refuse]
  unfold CallStack.push
  by_cases room : stack.depth.val < 16
  · rw [if_neg (by omega),dif_pos room,overwrite_inside _ _ room,sum_fits (by omega)]
    rfl
  · rw [if_pos (by omega),dif_neg room]
    rfl

theorem pop_run (stack : CallStack) :
    pop.run stack.onDevice =
      .ofExcept stack.onDevice Prod.fst (fun popped => popped.2.onDevice) stack.pop := by
  simp only [pop,bind_look,pointer_onDevice,run_ite,run_refuse]
  unfold CallStack.pop
  by_cases bare : stack.depth.val = 0
  · rw [if_pos bare,dif_pos bare]
    rfl
  · have bound := stack.depth.isLt
    have inside : stack.depth.val - 1 < 16 := by omega
    rw [if_neg bare,dif_neg bare,difference_fits (by omega)]
    simp only [bind_demand,bind_alter,bind_look]
    rw [cell_inside _ inside]
    rfl

theorem frames_run (stack : CallStack) :
    frames.run stack.onDevice = .done stack.frames stack.onDevice := by
  have bound := stack.depth.isLt
  simp only [frames,bind_look,pointer_onDevice]
  rw [upTo_inside _ (by omega)]
  rfl

end Stack

namespace Memory

theorem read_run (address : Nat) (memory : Memory) :
    (read address).run memory = .ofExcept memory id (fun _ => memory) (memory.read address) := by
  simp only [read,bind_look,Chip8.Memory.read]
  by_cases inside : address < 4096
  · rw [dif_pos inside,if_pos inside]
    simp only [Memory.peek,Nat.mod_eq_of_lt inside]
    rfl
  · rw [dif_neg inside,if_neg inside]
    rfl

theorem write_run (address : Nat) (byte : UInt8) (memory : Memory) :
    (write address byte).run memory =
      .ofExcept memory (fun _ => ()) id (memory.write address byte) := by
  simp only [write,bind_look,Chip8.Memory.write]
  by_cases inside : address < 4096
  · rw [dif_pos inside,if_pos inside]
    simp only [Memory.poke,Nat.mod_eq_of_lt inside]
    rfl
  · rw [dif_neg inside,if_neg inside]
    rfl

/-- The address of the low byte never overflows, because the high byte is missing first. -/
theorem readWord_run (address : Nat) (memory : Memory) :
    (readWord address).run memory =
      .ofExcept memory id (fun _ => memory) (memory.readWord address) := by
  unfold readWord Chip8.Memory.readWord
  have first := read_run address memory
  by_cases inside : address < 4096
  · have high : memory.read address = .ok (memory.peek address) := if_pos inside
    rw [high] at first ⊢
    rw [bind_done first,sum_fits (by omega),bind_demand]
    have second := read_run (address + 1) memory
    cases low : memory.read (address + 1) with
    | ok byte =>
      rw [low] at second
      exact bind_done second
    | error fault =>
      rw [low] at second
      exact bind_refused second
  · have high : memory.read address = .error (.addressOutOfRange address) := if_neg inside
    rw [high] at first ⊢
    exact bind_refused first

theorem readAround_run (address : Nat) (memory : Memory) :
    (readAround address).run memory = .done (memory.peek address) memory := by
  simp only [readAround,bind_look]
  rw [cell_inside _ (Nat.mod_lt address (by decide))]
  rfl

theorem writeAround_run (address : Nat) (byte : UInt8) (memory : Memory) :
    (writeAround address byte).run memory = .done () (memory.poke address byte) := by
  simp only [writeAround,bind_look]
  rw [overwrite_inside _ _ (Nat.mod_lt address (by decide))]
  rfl

theorem copy_run (address : Nat) (bytes : List UInt8) (memory : Memory)
    (inside : address + bytes.length ≤ 4096) :
    (copy address bytes).run memory = .done () (memory.store address bytes) := by
  induction bytes generalizing address memory with
  | nil => rfl
  | cons byte bytes ih =>
    rw [List.length_cons] at inside
    have here : address < 4096 := by omega
    have poked : memory.poke address byte = ⟨memory.cells.set address byte⟩ := by
      simp only [Memory.poke,Nat.mod_eq_of_lt here]
    simp only [copy,bind_look]
    rw [overwrite_inside _ _ here,bind_demand,bind_alter,ih (address + 1) _ (by omega),
      Memory.store,poked]

theorem load_run (program : List UInt8) (memory : Memory)
    (fits : program.length + programStart < 2 ^ 64) :
    (load program).run memory = .ofExcept memory (fun _ => ()) id (memory.load program) := by
  have room : program.length ≤ longestProgram ↔ ¬4096 ≤ program.length + programStart := by
    simp only [longestProgram,programStart]
    omega
  simp only [load,Chip8.Memory.load]
  rw [sum_fits fits,bind_demand,run_ite]
  by_cases short : program.length ≤ longestProgram
  · rw [if_neg (room.mp short),if_pos short,copy_run _ _ _ (by have := room.mp short; omega)]
    rfl
  · rw [if_pos (by have := mt room.mpr short; omega),if_neg short,
      difference_fits (by decide),bind_demand,difference_fits (by decide),bind_demand]
    rfl

theorem load_crashed (program : List UInt8) (memory : Memory)
    (large : ¬program.length + programStart < 2 ^ 64) : (load program).run memory = .crashed := by
  rw [load,sum,if_neg large]
  rfl

end Memory

namespace Keypad

theorem ofCode?_inside {code : UInt8} (inside : code.toNat < 16) :
    Key.ofCode? code = some ⟨code.toNat,inside⟩ := dif_pos inside

theorem ofCode?_outside {code : UInt8} (outside : ¬code.toNat < 16) :
    Key.ofCode? code = none := dif_neg outside

theorem record_run (code : UInt8) (down : Bool) (pad : Keypad) :
    (record code down).run pad = .ofExcept pad (fun _ => ()) id (pad.record code down) := by
  simp only [record,run_ite,bind_look,Chip8.Keypad.record]
  by_cases inside : code.toNat < 16
  · rw [if_pos inside,overwrite_inside _ _ inside,ofCode?_inside inside]
    rfl
  · rw [if_neg inside,ofCode?_outside inside]
    rfl

theorem isDown_run (code : UInt8) (pad : Keypad) :
    (isDown code).run pad = .done (pad.isDown code) pad := by
  simp only [isDown,bind_look,run_pure,Chip8.Keypad.isDown]
  by_cases inside : code.toNat < 16
  · rw [Vector.getElem?_eq_getElem inside,ofCode?_inside inside]
    rfl
  · rw [Vector.getElem?_eq_none (by omega),ofCode?_outside inside]
    rfl

theorem code_mk {code : UInt8} (inside : code.toNat < 16) :
    Key.code ⟨code.toNat,inside⟩ = code := UInt8.ofNat_toNat

theorem await_run {ε : Type} (map : ε → Option UInt8) (events : List ε) (pad : Keypad) :
    (await map events).run pad =
      let waited := pad.await map events
      .done (waited.1.key.map Key.code,waited.1.remaining) waited.2 := by
  induction events with
  | nil => rfl
  | cons event events ih =>
    simp only [await,Chip8.Keypad.await,Arrival.await] at ih ⊢
    cases mapped : map event with
    | none => exact ih
    | some code =>
      by_cases inside : code.toNat < 16
      · simp only [if_pos inside,bind_look,ofCode?_inside inside]
        rw [overwrite_inside _ _ inside]
        simp only [bind_demand,bind_alter,run_pure,Option.map_some,code_mk inside,Option.elim_some,
          Keypad.set]
      · simp only [if_neg inside,ofCode?_outside inside]
        exact ih

end Keypad

namespace Screen

def touch (state : Screen × Bool) (point : Point) : Screen × Bool :=
  (state.1.toggle point,state.2 || state.1.lit point)

theorem bit_set (bits : UInt8) {column : Nat} (inside : column < 8) :
    bits &&& (0x80 >>> UInt8.ofNat column) = 0 ↔ bits.toNat.testBit (7 - column) = false := by
  have single : (0x80 >>> UInt8.ofNat column : UInt8).toNat = 2 ^ (7 - column) := by
    interval_cases column <;> rfl
  rw [← UInt8.toNat_inj,UInt8.toNat_and,single,Nat.and_two_pow,UInt8.toNat_zero]
  cases bits.toNat.testBit (7 - column) <;> simp

theorem pixel_run (point : Point) (screen : Screen) :
    (pixel point.row point.column).run screen = .done (screen.lit point) screen := by
  have inside : 64 * point.row.val + point.column.val < 2048 := point.number.isLt
  simp only [pixel,if_pos (And.intro point.row.isLt point.column.isLt),bind_demand,bind_look]
  rw [cell_inside _ inside]
  rfl

theorem setPixel_run (point : Point) (screen : Screen) :
    (setPixel point.row point.column (!screen.lit point)).run screen = .done () (screen.toggle point) := by
  have inside : 64 * point.row.val + point.column.val < 2048 := point.number.isLt
  simp only [setPixel,if_pos (And.intro point.row.isLt point.column.isLt),bind_demand,bind_look]
  rw [overwrite_inside _ _ inside]
  rfl

theorem drawBit_run {x column : Nat} (y : Nat) (bits : UInt8) (collision : Bool) (screen : Screen)
    (fits : x + 8 ≤ 2 ^ 64) (inside : column < 8) :
    (drawBit x (y % 32) bits collision column).run screen =
      let state := if bits.toNat.testBit (7 - column)
        then touch (screen,collision) (.around (x + column) y) else (screen,collision)
      .done state.2 state.1 := by
  simp only [drawBit,run_ite,bit_set bits inside]
  cases bits.toNat.testBit (7 - column) with
  | false => rfl
  | true =>
    let point : Point := .around (x + column) y
    have found := pixel_run point screen
    have inverted := setPixel_run point screen
    rw [if_neg (by decide),sum_fits (by omega),bind_demand]
    exact (bind_done found).trans ((bind_done inverted).trans rfl)

theorem drawBits_run (x y : Nat) (bits : UInt8) (columns : List Nat) (screen : Screen)
    (collision : Bool) (fits : x + 8 ≤ 2 ^ 64) (inside : ∀ column ∈ columns, column < 8) :
    (columns.foldlM (drawBit x (y % 32) bits) collision).run screen =
      let state := ((columns.filter fun column => bits.toNat.testBit (7 - column)).map
        fun column => Point.around (x + column) y).foldl touch (screen,collision)
      .done state.2 state.1 := by
  induction columns generalizing screen collision with
  | nil => rfl
  | cons column columns ih =>
    have tail := fun screen collision =>
      ih screen collision (fun other member => inside other (by simp [member]))
    rw [List.foldlM_cons,bind_done (drawBit_run y bits collision screen fits (inside column (by simp))),
      tail]
    cases set : bits.toNat.testBit (7 - column) <;> simp [set]

theorem drawRows_run (x y : Nat) (rows : List (UInt8 × Nat)) (screen : Screen)
    (collision : Bool) (fits : x + 8 ≤ 2 ^ 64) (inside : ∀ row ∈ rows, y + row.2 < 2 ^ 64) :
    (rows.foldlM (drawRow x y) collision).run screen =
      let state := (rows.flatMap fun (bits,row) =>
        (rowColumns bits).map fun column => Point.around (x + column) (y + row)).foldl touch
          (screen,collision)
      .done state.2 state.1 := by
  induction rows generalizing screen collision with
  | nil => rfl
  | cons row rows ih =>
    have tail := fun screen collision =>
      ih screen collision (fun other member => inside other (by simp [member]))
    have drawn := drawBits_run x (y + row.2) row.1 (List.range 8) screen collision fits (by simp)
    rw [List.foldlM_cons,drawRow,sum_fits (inside row (by simp))]
    rw [List.flatMap_cons,List.foldl_append]
    exact (bind_done drawn).trans (tail _ _)

/-- Coordinates that leave room for the sprite never overflow. -/
theorem draw_run (x y : Nat) (sprite : List UInt8) (height : Nat) (screen : Screen)
    (columns : x + 8 ≤ 2 ^ 64) (rows : y + (sprite.take height).length ≤ 2 ^ 64) :
    (draw x y sprite height).run screen =
      .done (screen.draw x y sprite height).2 (screen.draw x y sprite height).1 := by
  apply drawRows_run x y _ screen false columns
  intro row member
  have bound := (List.mem_zipIdx member).2.1
  omega

end Screen

end Device

end Chip8
