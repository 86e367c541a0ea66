import Chip8.Proofs.Machine.Faults
import Chip8.Proofs.Machine.Histories
import Chip8.Proofs.Machine.Parts

/-! Where the program counter can be while the machine fetches for itself. A
word is only read inside memory, so that the counter behind it and the return
addresses that calls make of it stay in memory, and a jump goes at most one
byte's worth beyond. -/
namespace Chip8

/-- A request of a host that leaves it to the machine to fetch and to execute. -/
def Request.StepDriven : Request → Prop
  | .fetch => False
  | .execute _ => False
  | _ => True

instance : (request : Request) → Decidable request.StepDriven
  | .fetch => .isFalse nofun
  | .execute _ => .isFalse nofun
  | .load _ | .step | .press _ | .release _ | .wait _ | .cancelWait | .tick | .reset _ =>
    .isTrue trivial

namespace Machine
variable {machine : Machine}

def FramesInside (machine : Machine) : Prop :=
  ∀ frame ∈ machine.stack.frames, 0x0002 ≤ frame.toNat ∧ frame.toNat ≤ 0x1000

structure AddressesInside (machine : Machine) : Prop where
  counter : machine.registers.counter.toNat ≤ 0x10FE
  frames : machine.FramesInside

theorem fresh_addressesInside (settings : Settings) (entropy : ChaCha.Key) :
    (fresh settings entropy).AddressesInside where
  counter := Nat.zero_le 0x10FE
  frames := nofun

theorem AddressesInside.of_same {after : Machine} (inside : machine.AddressesInside)
    (counter : Part.counter.Same machine after) (stack : Part.stack.Same machine after) :
    after.AddressesInside where
  counter := by
    rw [counter]
    exact inside.counter
  frames := by
    unfold FramesInside
    rw [stack]
    exact inside.frames

theorem skip_toNat {registers : Registers} (low : registers.counter.toNat ≤ 0x1100) :
    registers.skip.counter.toNat = registers.counter.toNat + 2 := by
  change (registers.counter + 2).toNat = _
  rw [UInt16.toNat_add]
  exact Nat.mod_eq_of_lt (by change _ + 2 < 65536; omega)

structure BehindWord (machine : Machine) : Prop where
  low : 0x0002 ≤ machine.registers.counter.toNat
  high : machine.registers.counter.toNat ≤ 0x1000
  frames : machine.FramesInside

theorem AddressesInside.behindWord {word : UInt16} (inside : machine.AddressesInside)
    (found : machine.memory.readWord machine.registers.counter.toNat = .ok word) :
    (machine.withRegisters .skip).BehindWord := by
  obtain ⟨readable,_⟩ := Memory.readWord_ok_iff.mp found
  have moved : (machine.withRegisters .skip).registers.counter.toNat =
      machine.registers.counter.toNat + 2 := skip_toNat (by omega)
  exact ⟨by omega,by omega,inside.frames⟩

theorem jumpOffset_toNat {base : UInt16} {offset : UInt8} (short : base.toNat < 0x1000) :
    (base + offset.toUInt16).toNat ≤ 0x10FE := by
  have below := offset.toNat_lt
  rw [UInt16.toNat_add,UInt8.toNat_toUInt16]
  omega

/-- Wherever an instruction takes the counter, it has read its address from its word, added a byte to
it at most, or found it on the stack. -/
theorem BehindWord.apply {word : UInt16} {after : Machine} (behind : machine.BehindWord)
    (applied : (Instruction.decode word).apply machine = .ok after) : after.AddressesInside := by
  obtain ⟨low,high,frames⟩ := behind
  have here : machine.AddressesInside := ⟨by omega,frames⟩
  have short := @Instruction.decode_address word
  cases decoded : Instruction.decode word with
  | returnFromCall =>
    rw [decoded] at applied
    obtain ⟨address,stack,popped,rfl⟩ := Instruction.apply_returnFromCall applied
    have all : ∀ frame ∈ stack.frames ++ [address], 0x0002 ≤ frame.toNat ∧ frame.toNat ≤ 0x1000 :=
      CallStack.frames_pop popped ▸ frames
    have back := (all address (by simp)).2
    exact ⟨by change address.toNat ≤ _; omega,fun frame live => all frame (by simp [live])⟩
  | call target =>
    rw [decoded] at applied short
    obtain ⟨stack,pushed,rfl⟩ := Instruction.apply_call applied
    have below := short rfl
    refine ⟨by change target.toNat ≤ _; omega,fun frame live => ?_⟩
    have live : frame ∈ machine.stack.frames ++ [machine.registers.counter] :=
      CallStack.frames_push pushed ▸ live
    rcases List.mem_append.mp live with live | called
    · exact frames frame live
    · rw [List.mem_singleton.mp called]
      exact ⟨low,high⟩
  | jump target =>
    rw [decoded] at applied short
    cases applied
    have below := short rfl
    exact ⟨by change target.toNat ≤ _; omega,frames⟩
  | jumpOffset base =>
    rw [decoded] at applied short
    cases applied
    exact ⟨jumpOffset_toNat (short rfl),frames⟩
  | skipIf condition =>
    rw [decoded] at applied
    cases applied
    split
    · have moved : (machine.withRegisters .skip).registers.counter.toNat =
          machine.registers.counter.toNat + 2 := skip_toNat (by omega)
      exact ⟨by omega,frames⟩
    · exact here
  | _ =>
    rw [decoded] at applied
    exact here.of_same (Instruction.apply_same applied (by simp [Instruction.Writes]))
      (Instruction.apply_same applied (by simp [Instruction.Writes]))

theorem AddressesInside.countInstruction (inside : machine.AddressesInside) :
    machine.countInstruction.machine.AddressesInside :=
  inside.of_same (Part.same_countInstruction machine (by decide))
    (Part.same_countInstruction machine (by decide))

theorem AddressesInside.step (inside : machine.AddressesInside) :
    machine.step.machine.AddressesInside := by
  cases machine.step_cases with
  | parked register waiting answer left =>
    rw [left]
    split
    · exact inside.countInstruction
    · exact inside
  | unreadable fault running missing answer left | refused word fault running found rejected answer left =>
    rw [left]
    exact inside
  | executed word after running found applied answer left =>
    rw [left]
    exact ((inside.behindWord found).apply applied).countInstruction

theorem AddressesInside.receive (inside : machine.AddressesInside) (key : Key) :
    (machine.receive key).AddressesInside := by
  cases activity : machine.activity with
  | running =>
    rw [receive_running activity]
    exact inside.of_same rfl rfl
  | awaitingKey register =>
    rw [receive_parked activity]
    exact inside.of_same rfl rfl

theorem AddressesInside.received {after : Machine} (inside : machine.AddressesInside)
    (received : after = machine ∨ ∃ key, after = machine.receive key) : after.AddressesInside := by
  rcases received with same | ⟨key,same⟩
  · rw [same]
    exact inside
  · rw [same]
    exact inside.receive key

theorem AddressesInside.serve {request : Request} (inside : machine.AddressesInside)
    (driven : request.StepDriven) : (machine.serve request).machine.AddressesInside := by
  cases request with
  | fetch => exact driven.elim
  | execute word => exact driven.elim
  | load program =>
    simp only [Machine.serve,Reply.map,load]
    split
    · exact ⟨(by decide : programStart ≤ 0x10FE),inside.frames⟩
    · exact inside
  | step => exact inside.step
  | press code => exact inside.received (press_received machine code)
  | release code =>
    simp only [Machine.serve,Reply.map,release]
    split <;> exact inside.of_same rfl rfl
  | wait codes => exact inside.received (waitForKey_received machine id codes)
  | cancelWait =>
    simp only [Machine.serve,Reply.map,cancelWait]
    split <;> exact inside.of_same rfl rfl
  | tick => exact inside.of_same rfl rfl
  | reset entropy => exact fresh_addressesInside machine.settings entropy

theorem AddressesInside.after {history : List Request} (inside : machine.AddressesInside)
    (driven : ∀ request ∈ history, request.StepDriven) : (machine.after history).AddressesInside :=
  after_invariant inside fun _ request member reached => reached.serve (driven request member)

theorem AddressesInside.step_fault {address : Nat} (inside : machine.AddressesInside)
    (failed : machine.step.answer = .error (.addressOutOfRange address)) :
    0x1000 ≤ address ∧ address ≤ 0x10FE := by
  obtain ⟨_,failing⟩ := step_error_iff.mp failed
  have bound := inside.counter
  cases failing with
  | outside far => omega

/-- A host that fetches and executes nothing on its own never sees the counter beyond the farthest
jump, nor a return address outside memory. Moving the counter on never takes it around, and a word
that cannot be read is missed right behind the memory. -/
theorem addresses_bounded (settings : Settings) (entropy : ChaCha.Key) (history : List Request)
    (driven : ∀ request ∈ history, request.StepDriven) :
    let machine := (fresh settings entropy).after history
    machine.registers.counter.toNat ≤ 0x10FE ∧
    (∀ frame ∈ machine.stack.frames, 0x0002 ≤ frame.toNat ∧ frame.toNat ≤ 0x1000) ∧
    machine.registers.skip.counter.toNat = machine.registers.counter.toNat + 2 ∧
    machine.registers.skip.skip.counter.toNat = machine.registers.counter.toNat + 4 ∧
    ∀ address, machine.step.answer = .error (.addressOutOfRange address) →
      0x1000 ≤ address ∧ address ≤ 0x10FE := by
  intro machine
  have inside : machine.AddressesInside := (fresh_addressesInside settings entropy).after driven
  have bound := inside.counter
  have fetched : machine.registers.skip.counter.toNat = machine.registers.counter.toNat + 2 :=
    skip_toNat (by omega)
  have skipped := @skip_toNat machine.registers.skip (by omega)
  exact ⟨bound,inside.frames,fetched,by omega,fun _ failed => inside.step_fault failed⟩

/-- The farthest jump there is. -/
theorem addresses_bounded_far :
    let history := [.load [0x60,0xFF,0xBF,0xFF],.step,.step]
    let machine := (fresh {} (Vector.replicate 8 0)).after history
    machine.registers.counter.toNat = 0x10FE ∧ machine.registers.skip.counter.toNat = 0x1100 := by
  intro history machine
  have counter : machine.registers.counter.toNat = 0x10FE := by decide +kernel
  obtain ⟨_,_,fetched,_⟩ := addresses_bounded {} (Vector.replicate 8 0) history (by decide)
  refine ⟨counter,fetched.trans ?_⟩
  rw [counter]

end Machine

end Chip8
