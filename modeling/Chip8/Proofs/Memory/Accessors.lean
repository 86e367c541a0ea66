import Chip8.Proofs.Device.Parts
import Chip8.Proofs.Memory.Windows
import Chip8.Proofs.Memory.Words

/-! The ways to reach a cell. Some addresses have to lie inside memory and others go
around its end, but all of them name the same cells: whichever way a byte was put
into a cell, every way of reading finds the byte that was put there last. -/
namespace Chip8

inductive MemoryRequest where
  | write (address : Nat) (value : UInt8)
  | writeAround (address : Nat) (value : UInt8)
  | load (program : List UInt8)
  | reset
deriving DecidableEq

namespace MemoryRequest

def put? (cell : Fin 4096) : MemoryRequest → Option UInt8
  | .write address value => if address = cell then some value else none
  | .writeAround address value => if address % 4096 = cell then some value else none
  | .load program =>
    if program.length ≤ 3583 ∧ 0x200 ≤ cell.val then program[cell.val - 0x200]? else none
  | .reset => some (Memory.initialByte cell)

def lastPut? (cell : Fin 4096) (history : List MemoryRequest) : Option UInt8 :=
  history.reverse.findSome? (put? cell)

/-- No slice of bytes takes up more than half of the addresses of a processor. -/
def Sized : MemoryRequest → Prop
  | .load program => program.length < 2 ^ 63
  | _ => True

theorem lastPut?_cons (cell : Fin 4096) (request : MemoryRequest) (history : List MemoryRequest) :
    lastPut? cell (request :: history) = (lastPut? cell history).or (put? cell request) := by
  simp only [lastPut?,List.reverse_cons,List.findSome?_append,List.findSome?_singleton]

end MemoryRequest

namespace Memory
open MemoryRequest

def serve (memory : Memory) : MemoryRequest → Except Fault Memory
  | .write address value => memory.write address value
  | .writeAround address value => .ok (memory.poke address value)
  | .load program => memory.load program
  | .reset => .ok .initial

def left (memory : Memory) (request : MemoryRequest) : Memory :=
  match memory.serve request with
  | .ok changed => changed
  | .error _ => memory

def after (memory : Memory) (history : List MemoryRequest) : Memory := history.foldl left memory

theorem left_load (memory : Memory) (program : List UInt8) :
    memory.left (.load program) =
      if program.length ≤ 3583 then memory.store 0x200 program else memory := by
  by_cases fits : program.length ≤ longestProgram
  · simp only [left,serve,load,if_pos fits]
    exact (if_pos fits).symm
  · simp only [left,serve,load,if_neg fits]
    exact (if_neg fits).symm

theorem left_write (memory : Memory) (address : Nat) (value : UInt8) :
    memory.left (.write address value) =
      if address < 4096 then memory.poke address value else memory := by
  by_cases inside : address < 4096
  · simp only [left,serve,write,if_pos inside]
  · simp only [left,serve,write,if_neg inside]

theorem peek_left (memory : Memory) (request : MemoryRequest) (cell : Fin 4096) :
    (memory.left request).peek cell = (put? cell request).getD (memory.peek cell) := by
  have bound := cell.isLt
  cases request with
  | write address value =>
    rw [left_write,put?]
    by_cases inside : address < 4096
    · rw [if_pos inside,peek_poke,Nat.mod_eq_of_lt inside,Nat.mod_eq_of_lt bound]
      split <;> rfl
    · rw [if_neg inside,if_neg (by omega)]
      rfl
  | writeAround address value =>
    simp only [left,serve,peek_poke,Nat.mod_eq_of_lt bound,put?]
    split <;> rfl
  | load program =>
    rw [left_load,put?]
    by_cases fits : program.length ≤ 3583
    · rw [if_pos fits,peek_store _ _ _ _ (by omega),List.getD_eq_getElem?_getD]
      by_cases above : 0x200 ≤ cell.val
      · have offset : (cell.val + (4096 - 0x200 % 4096)) % 4096 = cell.val - 0x200 := by omega
        rw [offset,if_pos ⟨fits,above⟩]
      · have beyond : program.length ≤ (cell.val + (4096 - 0x200 % 4096)) % 4096 := by omega
        rw [List.getElem?_eq_none beyond,if_neg fun reached => above reached.2]
    · rw [if_neg fits,if_neg fun reached => fits reached.1]
      rfl
  | reset => exact peek_initial cell

/-- A cell holds what was put into it last, or what it held before. -/
theorem peek_after (memory : Memory) (history : List MemoryRequest) (cell : Fin 4096) :
    (memory.after history).peek cell = (lastPut? cell history).getD (memory.peek cell) := by
  induction history generalizing memory with
  | nil => rfl
  | cons request history ih =>
    have later := ih (memory.left request)
    rw [lastPut?_cons,Option.getD_or,← peek_left]
    exact later

theorem read_ok_iff {memory : Memory} {address : Nat} {byte : UInt8} :
    memory.read address = .ok byte ↔ address < 4096 ∧ memory.peek address = byte := by
  by_cases inside : address < 4096
  · simp [read,inside]
  · simp [read,inside]

theorem read_error_iff {memory : Memory} {address : Nat} {fault : Fault} :
    memory.read address = .error fault ↔ 4096 ≤ address ∧ fault = .addressOutOfRange address := by
  by_cases inside : address < 4096
  · simp [read,inside]
  · simp [read,inside,Nat.le_of_not_lt inside,eq_comm]

end Memory

def Device.Memory.serve : MemoryRequest → Routine Memory Unit
  | .write address value => write address value
  | .writeAround address value => writeAround address value
  | .load program => load program
  | .reset => .alter fun _ => .initial

theorem Device.Memory.serve_run (memory : Memory) {request : MemoryRequest} (sized : request.Sized) :
    (serve request).run memory = .ofExcept memory (fun _ => ()) id (memory.serve request) := by
  cases request with
  | write address value => exact write_run address value memory
  | writeAround address value => exact writeAround_run address value memory
  | load program =>
    have short : program.length < 2 ^ 63 := sized
    have room : program.length + programStart < 2 ^ 64 := by
      change program.length + 512 < _
      omega
    exact load_run program memory room
  | reset => rfl

namespace Memory
open MemoryRequest

/-- However a memory has been written, checked and unchecked addresses reach the same cells. A cell holds
the byte that was put there last, an address outside is refused by its own name, and a word is two bytes
that can both be read. On a device, which works in place, a refusal leaves all cells alone and no sum of
addresses overflows. -/
theorem accessors_agree (start : Memory) (history : List MemoryRequest) (address : Nat) :
    let memory := start.after history
    (∀ cell : Fin 4096, address % 4096 = cell →
      memory.peek address = (lastPut? cell history).getD (start.peek address)) ∧
    memory.peek address = memory.peek (address % 4096) ∧
    (∀ byte, memory.read address = .ok byte ↔ address < 4096 ∧ memory.peek address = byte) ∧
    (∀ fault, memory.read address = .error fault ↔
      4096 ≤ address ∧ fault = .addressOutOfRange address) ∧
    (∀ byte, (Device.Memory.write address byte).run memory =
      if address < 4096 then (Device.Memory.writeAround address byte).run memory
      else .refused (.addressOutOfRange address) memory) ∧
    (∀ word, memory.readWord address = .ok word ↔ address ≤ 4094 ∧
      ∃ high low, memory.read address = .ok high ∧ memory.read (address + 1) = .ok low ∧
        word.toNat = 256 * high.toNat + low.toNat) ∧
    (∀ fault, memory.readWord address = .error fault ↔
      4094 < address ∧ fault = .addressOutOfRange (max address 4096)) ∧
    (Device.Memory.read address).run memory =
      .ofExcept memory id (fun _ => memory) (memory.read address) ∧
    (Device.Memory.readAround address).run memory = .done (memory.peek address) memory ∧
    (Device.Memory.readWord address).run memory =
      .ofExcept memory id (fun _ => memory) (memory.readWord address) ∧
    ∀ request : MemoryRequest, request.Sized → (Device.Memory.serve request).run memory =
      .ofExcept memory (fun _ => ()) id (memory.serve request) := by
  intro memory
  refine ⟨fun cell names => ?_,(peek_mod memory address).symm,fun _ => read_ok_iff,fun _ => read_error_iff,
    fun byte => ?_,fun word => ?_,fun fault => ?_,Device.Memory.read_run address memory,
    Device.Memory.readAround_run address memory,Device.Memory.readWord_run address memory,
    fun _ sized => Device.Memory.serve_run memory sized⟩
  · rw [← peek_mod,names,← peek_mod start address,names]
    exact peek_after start history cell
  · rw [Device.Memory.write_run,Device.Memory.writeAround_run,write]
    split <;> rfl
  · rw [readWord_ok_iff]
    constructor
    · rintro ⟨inside,rfl⟩
      have first : address < 4096 := by omega
      exact ⟨by omega,_,_,read_ok_iff.mpr ⟨first,rfl⟩,read_ok_iff.mpr ⟨inside,rfl⟩,
        toNat_wordAt memory address⟩
    · rintro ⟨_,high,low,first,second,value⟩
      obtain ⟨inside,rfl⟩ := read_ok_iff.mp second
      obtain ⟨_,rfl⟩ := read_ok_iff.mp first
      exact ⟨inside,UInt16.toNat_inj.mp ((toNat_wordAt memory address).trans value.symm)⟩
  · rw [readWord_error_iff]
    exact and_congr_left fun _ => by omega

/-- The halves of a word have been written in two ways, one of them around the end of memory. At the
greatest address of a processor nothing is found, and nothing overflows on the way. -/
theorem accessors_agree_halves :
    let history : List MemoryRequest :=
      [.load [0xA2,0x2A],.writeAround 0x5201 0x33,.write 0x1200 0x44]
    let memory := initial.after history
    memory.readWord 0x200 = .ok 0xA233 ∧
      (Device.Memory.readWord (2 ^ 64 - 1)).run memory =
        .refused (.addressOutOfRange (2 ^ 64 - 1)) memory ∧
      (Device.Memory.serve (.load [0x12])).run memory = .done () (memory.store 0x200 [0x12]) := by
  intro history memory
  obtain ⟨high,_,first,_,_,word,_⟩ := accessors_agree initial history 0x200
  obtain ⟨low,_,second,_⟩ := accessors_agree initial history 0x201
  obtain ⟨_,_,_,_,_,_,missing,_,_,device,serves⟩ := accessors_agree initial history (2 ^ 64 - 1)
  refine ⟨?_,?_,serves (.load [0x12]) (by change 1 < 2 ^ 63; decide)⟩
  · exact (word 0xA233).mpr ⟨by decide,0xA2,0x33,(first _).mpr ⟨by decide,high 0x200 rfl⟩,
      (second _).mpr ⟨by decide,low 0x201 rfl⟩,by decide⟩
  · have beyond := (missing (.addressOutOfRange (2 ^ 64 - 1))).mpr ⟨by decide,by decide⟩
    rw [device,beyond]
    rfl

end Memory

end Chip8
