import Chip8.Proofs.Machine.Parts
import Chip8.Proofs.Memory.Windows
import Chip8.Proofs.Memory.Words

/-! Programs as they lie in memory. A program that fits is copied to where
programs start, and its words are found there one behind the other. -/
namespace Chip8

def bigEndian (word : UInt16) : List UInt8 := [(word >>> 8).toUInt8,word.toUInt8]

theorem ofNat_bigEndian (word : UInt16) :
    UInt16.ofNat (256 * (word >>> 8).toUInt8.toNat + word.toUInt8.toNat) = word := by
  have size := word.toNat_lt
  have high : (word >>> 8).toNat = word.toNat / 256 := by
    rw [UInt16.toNat_shiftRight]
    exact Nat.shiftRight_eq_div_pow word.toNat 8
  refine Instruction.ofNat_eq ?_
  rw [UInt16.toNat_toUInt8,UInt16.toNat_toUInt8,high]
  omega

theorem length_bigEndian (words : List UInt16) : (words.flatMap bigEndian).length = 2 * words.length := by
  induction words with
  | nil => rfl
  | cons word words ih =>
    rw [List.flatMap_cons,List.length_append,ih,List.length_cons]
    change 2 + _ = _
    omega

namespace Memory
variable {memory : Memory} {address : Nat} {words : List UInt16}

def Holds (memory : Memory) (address : Nat) : List UInt16 → Prop
  | [] => True
  | word :: words => memory.wordAt address = word ∧ memory.Holds (address + 2) words

theorem holds_of_bytes (lie : ∀ offset byte, (words.flatMap bigEndian)[offset]? = some byte →
    memory.peek (address + offset) = byte) : memory.Holds address words := by
  induction words generalizing address with
  | nil => trivial
  | cons word words ih =>
    refine ⟨?_,ih fun offset byte listed => ?_⟩
    · have high : memory.peek address = (word >>> 8).toUInt8 := lie 0 _ rfl
      have low : memory.peek (address + 1) = word.toUInt8 := lie 1 _ rfl
      rw [wordAt,high,low,ofNat_bigEndian]
    · rw [Nat.add_assoc,Nat.add_comm 2]
      exact lie (offset + 2) byte listed

theorem holds_stored (memory : Memory) (address : Nat) (fits : 2 * words.length ≤ 4096) :
    (memory.store address (words.flatMap bigEndian)).Holds address words := by
  rw [← length_bigEndian] at fits
  refine holds_of_bytes fun offset byte listed => ?_
  obtain ⟨inside,rfl⟩ := List.getElem?_eq_some_iff.mp listed
  exact peek_store_inside fits inside

end Memory

namespace Machine
variable {machine : Machine} {program : List UInt8}

theorem load_fitting (machine : Machine) (fits : program.length ≤ longestProgram) :
    machine.load program = ⟨.ok (),{machine with
      memory := machine.memory.store programStart program
      registers := machine.registers.jump (UInt16.ofNat programStart)},
      [.programLoaded program.length]⟩ := by
  simp only [load,Memory.load,if_pos fits]

theorem load_overlong (machine : Machine) (long : longestProgram < program.length) :
    machine.load program =
      ⟨.error (.programTooLarge program.length longestProgram 0x200),machine,[]⟩ := by
  simp only [load,Memory.load,if_neg (Nat.not_le_of_lt long)]
  rfl

theorem load_ok_iff : (machine.load program).answer = .ok () ↔ program.length ≤ longestProgram := by
  constructor
  · intro accepted
    refine Nat.le_of_not_lt fun long => ?_
    rw [load_overlong machine long] at accepted
    cases accepted
  · intro fits
    rw [load_fitting machine fits]

/-- Each word of a program that fits can be fetched from its place. -/
theorem load_holds (machine : Machine) {words : List UInt16} (short : words.length ≤ 1791) :
    (machine.load (words.flatMap bigEndian)).machine.memory.Holds programStart words := by
  have fits : (words.flatMap bigEndian).length ≤ longestProgram := by
    rw [length_bigEndian]
    change _ ≤ 3583
    omega
  rw [load_fitting machine fits]
  exact Memory.holds_stored machine.memory programStart (by omega)

structure Programmed (before after : Machine) (program : List UInt8) : Prop where
  counter : after.registers.counter = 0x200
  inside : ∀ offset byte, program[offset]? = some byte → after.memory.peek (0x200 + offset) = byte
  outside : ∀ cell : Fin 4096, cell.val < 0x200 ∨ 0x200 + program.length ≤ cell.val →
    after.memory.peek cell = before.memory.peek cell
  others : ∀ part : Part, part ≠ .memory → part ≠ .counter → part.Same before after

theorem load_programmed (machine : Machine) (fits : program.length ≤ 3583) :
    machine.Programmed (machine.load program).machine program := by
  have short : program.length ≤ 4096 := by omega
  rw [load_fitting machine fits]
  refine ⟨rfl,fun offset byte listed => ?_,fun cell apart => ?_,fun part memory counter => ?_⟩
  · obtain ⟨inside,rfl⟩ := List.getElem?_eq_some_iff.mp listed
    exact Memory.peek_store_inside short inside
  · refine Memory.peek_store_outside short cell.isLt fun offset inside reached => ?_
    change cell.val = (512 + offset) % 4096 at reached
    omega
  · exact (Part.same_memory (machine.memory.store programStart program) memory).trans
      (Part.same_jump (UInt16.ofNat programStart) counter)

namespace Programmed
variable {after last reader : Machine} {next : List UInt8} (fits : program.length ≤ 3583)
  (programmed : machine.Programmed after program)
include fits programmed

/-- Behind the last byte of a program lies what has been there before. -/
theorem peek {offset : Nat} (near : offset ≤ program.length) :
    after.memory.peek (0x200 + offset) = program[offset]?.getD (machine.memory.peek (0x200 + offset)) := by
  cases listed : program[offset]? with
  | some byte => exact programmed.inside offset byte listed
  | none =>
    have beyond : program.length ≤ offset := List.getElem?_eq_none_iff.mp listed
    exact programmed.outside ⟨0x200 + offset,by omega⟩ (.inr (by dsimp only; omega))

/-- A word of a program is fetched from its place. If the program ends within it, the byte behind the
program makes up for the missing one. -/
theorem fetch {place : Nat} (inside : 2 * place < program.length) (memory : reader.memory = after.memory)
    (counter : reader.registers.counter.toNat = 0x200 + 2 * place) :
    ∃ word, reader.fetch.answer = .ok word ∧ word.toNat = 256 * program[2 * place].toNat +
      (program[2 * place + 1]?.getD (machine.memory.peek (0x200 + (2 * place + 1)))).toNat := by
  have found : reader.memory.readWord reader.registers.counter.toNat =
      .ok (after.memory.wordAt (0x200 + 2 * place)) := by
    rw [memory,counter]
    exact Memory.readWord_inside after.memory (by omega)
  refine ⟨_,congrArg Reply.answer (fetch_ok found),?_⟩
  have high := programmed.inside (2 * place) _ (List.getElem?_eq_getElem inside)
  have low : after.memory.peek (0x200 + (2 * place + 1)) = _ := programmed.peek fits (by omega)
  rw [Memory.toNat_wordAt,high,Nat.add_assoc,low]

/-- Another program covers the first one as far as it goes. -/
theorem reload (again : after.Programmed last next) {offset : Nat} {byte : UInt8}
    (listed : next[offset]?.or program[offset]? = some byte) :
    last.memory.peek (0x200 + offset) = byte := by
  cases covered : next[offset]? with
  | some other =>
    rw [covered] at listed
    cases listed
    exact again.inside offset byte covered
  | none =>
    rw [covered,Option.none_or] at listed
    obtain ⟨inside,_⟩ := List.getElem?_eq_some_iff.mp listed
    have beyond : next.length ≤ offset := List.getElem?_eq_none_iff.mp covered
    have kept := again.outside ⟨0x200 + offset,by omega⟩ (.inr (by dsimp only; omega))
    exact kept.trans (programmed.inside offset byte listed)

end Programmed

open Text in
theorem programTooLarge_message (length : Nat) : (Fault.programTooLarge length 3583 0x200).message =
    "program is too large (" ++ toString length ++
      " bytes), at most 3583 bytes fit after 0x0200" := by
  have most : toString 3583 = "3583" := by decide +kernel
  have place : upperHex 4 (0x200 : UInt16).toNat = "0200" := by decide +kernel
  have limits : " bytes), at most " ++ ("3583" ++ (" bytes fit after 0x" ++ "0200")) =
      " bytes), at most 3583 bytes fit after 0x0200" := by decide +kernel
  unfold Fault.message
  simp only [most,place,String.append_assoc]
  exact congrArg (fun rest => "program is too large (" ++ (toString length ++ rest)) limits

/-- A program is loaded if and only if it leaves a cell behind it. It is then found in memory byte for
byte and word for word, the rest of an earlier program behind it, and nothing else is changed, even
where a key is waited for. -/
theorem load_exact (machine : Machine) (program : List UInt8) :
    let loaded := (machine.load program).machine
    ((machine.load program).answer = .ok () ↔ program.length ≤ 3583) ∧
    (3583 < program.length →
      (machine.load program).answer = .error (.programTooLarge program.length 3583 0x200) ∧
      loaded = machine ∧
      (Fault.programTooLarge program.length 3583 0x200).message = "program is too large (" ++
        toString program.length ++ " bytes), at most 3583 bytes fit after 0x0200") ∧
    (program.length ≤ 3583 →
      machine.Programmed loaded program ∧
      (∀ (reader : Machine) (place : Nat) (inside : 2 * place < program.length),
        reader.memory = loaded.memory → reader.registers.counter.toNat = 0x200 + 2 * place →
        ∃ word, reader.fetch.answer = .ok word ∧ word.toNat = 256 * program[2 * place].toNat +
          (program[2 * place + 1]?.getD (machine.memory.peek (0x200 + (2 * place + 1)))).toNat) ∧
      ∀ next, next.length ≤ 3583 → ∀ offset byte, next[offset]?.or program[offset]? = some byte →
        (loaded.load next).machine.memory.peek (0x200 + offset) = byte) := by
  intro loaded
  refine ⟨load_ok_iff,fun long => ?_,fun fits => ?_⟩
  · have refused := load_overlong machine long
    exact ⟨congrArg Reply.answer refused,congrArg Reply.machine refused,programTooLarge_message _⟩
  · have programmed : machine.Programmed loaded program := load_programmed machine fits
    exact ⟨programmed,fun _ _ inside memory counter => programmed.fetch fits inside memory counter,
      fun _ short _ _ listed => programmed.reload fits (load_programmed loaded short) listed⟩

/-- A machine that waits for a key is given a shorter program than before. Its last byte and a byte of
the earlier one make up a word, and a still shorter program leaves its tail in place. -/
theorem load_exact_shorter :
    let first := ((fresh {} (Vector.replicate 8 0)).load [0x60,0x11,0x61,0x22,0x62]).machine
    let machine := (first.execute 0xF30A).machine
    let loaded := (machine.load [0xA2,0x2A,0x12]).machine
    let reader := loaded.withRegisters (·.jump 0x202)
    loaded.activity = .awaitingKey 3 ∧ reader.fetch.answer = .ok 0x1222 ∧
      (loaded.load [0x7B]).machine.memory.peek 0x201 = 0x2A ∧
      (machine.load (List.replicate 3584 0)).machine = machine := by
  intro first machine
  have waiting : machine.activity = .awaitingKey 3 := by decide +kernel
  have behind : machine.memory.peek 0x203 = 0x22 := by
    have kept : machine.memory = first.memory :=
      show Part.memory.Same _ _ from execute_same first (by unfold MayWrite; decide)
    rw [kept]
    exact (load_programmed _ (by decide)).inside 3 0x22 rfl
  clear_value machine
  intro loaded reader
  obtain ⟨_,_,accepted⟩ := load_exact machine [0xA2,0x2A,0x12]
  obtain ⟨programmed,fetched,covered⟩ := accepted (by decide)
  obtain ⟨_,refused,_⟩ := load_exact machine (List.replicate 3584 0)
  obtain ⟨_,unchanged,_⟩ := refused (by rw [List.length_replicate]; decide)
  have activity : loaded.activity = machine.activity :=
    programmed.others .activity (by simp) (by simp)
  have memory : reader.memory = loaded.memory :=
    show Part.memory.Same loaded reader from Part.same_jump 0x202 (by simp)
  obtain ⟨word,answer,value⟩ := fetched reader 1 (by decide) memory rfl
  have low : machine.memory.peek (0x200 + (2 * 1 + 1)) = 0x22 := behind
  rw [low] at value
  have exactly : word = 0x1222 := UInt16.toNat_inj.mp (value.trans (by decide))
  rw [exactly] at answer
  exact ⟨activity.trans waiting,answer,covered [0x7B] (by decide) 1 0x2A rfl,unchanged⟩

end Machine

end Chip8
