import Chip8.Proofs.Instruction.Words
import Chip8.Proofs.Machine.Requests
import Mathlib.Data.List.Induction
import Mathlib.Data.List.Infix

/-! Calls and returns over whole histories. Only an executed call or return
moves the stack, a call puts an address on top and a return takes one off, so
that the return which undoes a call finds the address that the call has left. -/
namespace Chip8

theorem CallStack.push_room {stack : CallStack} (room : stack.depth.val < 16) (address : UInt16) :
    ∃ pushed, stack.push address = .ok pushed :=
  ⟨_,dif_pos room⟩

namespace Instruction
variable {machine after : Machine} {instruction : Instruction}

theorem apply_stack (applied : instruction.apply machine = .ok after) :
    after.stack = machine.stack ∨
      (∃ target, instruction = .call target ∧
        machine.stack.push machine.registers.counter = .ok after.stack) ∨
      (instruction = .returnFromCall ∧
        machine.stack.pop = .ok (after.registers.counter,after.stack)) := by
  cases instruction with
  | returnFromCall =>
    obtain ⟨address,stack,popped,rfl⟩ := apply_returnFromCall applied
    exact .inr (.inr ⟨rfl,popped⟩)
  | call target =>
    obtain ⟨stack,pushed,rfl⟩ := apply_call applied
    exact .inr (.inl ⟨target,rfl,pushed⟩)
  | skipIf condition =>
    cases applied
    left
    split <;> rfl
  | loadRegisters last =>
    cases applied
    exact .inl (withRegisters_stack _)
  | _ =>
    cases applied
    exact .inl rfl

theorem apply_call_room (machine : Machine) (room : machine.stack.depth.val < 16) (target : UInt16) :
    ∃ stack, machine.stack.push machine.registers.counter = .ok stack ∧
      (Instruction.call target).apply machine =
        .ok {machine with stack,registers := machine.registers.jump target} := by
  obtain ⟨stack,pushed⟩ := CallStack.push_room room machine.registers.counter
  refine ⟨stack,pushed,?_⟩
  simp only [apply,pushed]
  rfl

end Instruction

namespace Machine
variable {machine : Machine} {request : Request} {history : List Request}

inductive StackCase (machine : Machine) (request : Request) : Prop where
  | kept (frames : (machine.serve request).machine.stack.frames = machine.stack.frames)
  | pushed (address : UInt16)
      (frames : (machine.serve request).machine.stack.frames = machine.stack.frames ++ [address])
  | popped (back : machine.Executes request 0x00EE)
      (frames : machine.stack.frames = (machine.serve request).machine.stack.frames ++
        [(machine.serve request).machine.registers.counter])

theorem stack_cases (machine : Machine) (lasting : ∀ entropy, request ≠ .reset entropy) :
    StackCase machine request := by
  cases machine.serve_cases request with
  | executed word after executes applied left =>
    rcases Instruction.apply_stack applied with same | ⟨target,decoded,pushed⟩ | ⟨decoded,popped⟩
    · refine .kept ?_
      rw [left,concluded_stack,same,behindWord_stack]
    · refine .pushed (machine.behindWord request).registers.counter ?_
      rw [left,concluded_stack,CallStack.frames_push pushed,behindWord_stack]
    · have back : word = 0x00EE := Instruction.decode_returnFromCall.mp decoded
      refine .popped (back ▸ executes) ?_
      have frames := CallStack.frames_pop popped
      rw [behindWord_stack] at frames
      rw [left,concluded_stack,concluded_counter]
      exact frames
  | parked asked register waiting left =>
    refine .kept ?_
    rw [left]
    split
    · rw [countInstruction_stack]
    · rfl
  | ticked asked =>
    subst asked
    exact .kept rfl
  | restarted entropy asked => exact absurd asked (lasting entropy)
  | aside idle kept => exact .kept (congrArg CallStack.frames kept.stack)

def StaysAbove (machine : Machine) (depth : Nat) (history : List Request) : Prop :=
  ∀ past, past <+: history → depth < (machine.after past).stack.depth.val

theorem StaysAbove.length {depth : Nat} (above : machine.StaysAbove depth history) :
    depth < (machine.after history).stack.frames.length := by
  rw [CallStack.length_frames]
  exact above history (List.prefix_refl _)

/-- As long as the stack stays above the frames that a call has found, those and the address behind
the call lie at its bottom. -/
theorem frames_after {outer : List UInt16} {behind : UInt16}
    (frames : machine.stack.frames = outer ++ [behind])
    (lasting : ∀ entropy, .reset entropy ∉ history)
    (above : machine.StaysAbove outer.length history) :
    outer ++ [behind] <+: (machine.after history).stack.frames := by
  induction history using List.reverseRecOn with
  | nil => exact ⟨[],by rw [List.append_nil]; exact frames.symm⟩
  | append_singleton past request ih =>
    have before := ih (fun entropy member => lasting entropy (by simp [member]))
      fun earlier initial => above earlier (initial.trans (List.prefix_append _ _))
    have deep := above.length
    rw [after_singleton] at deep ⊢
    have other (entropy : ChaCha.Key) : request ≠ .reset entropy := by
      rintro rfl
      exact lasting entropy (by simp)
    cases (machine.after past).stack_cases other with
    | kept frames => rwa [frames]
    | pushed address frames =>
      rw [frames]
      exact before.trans (List.prefix_append _ _)
    | popped back frames =>
      -- The address taken off lies above the bottom, because enough frames are left.
      rw [frames] at before
      refine List.prefix_of_prefix_length_le before (List.prefix_append _ _) ?_
      rw [List.length_append,List.length_singleton]
      exact deep

theorem frames_back {outer : List UInt16} {behind : UInt16}
    (bottom : outer ++ [behind] <+: machine.stack.frames)
    (lasting : ∀ entropy, request ≠ .reset entropy)
    (low : (machine.serve request).machine.stack.depth.val ≤ outer.length) :
    machine.Executes request 0x00EE ∧ (machine.serve request).machine.stack.frames = outer ∧
      (machine.serve request).machine.registers.counter = behind := by
  have deep := bottom.length_le
  rw [List.length_append,List.length_singleton] at deep
  rw [← CallStack.length_frames] at low
  cases machine.stack_cases lasting with
  | kept frames =>
    rw [frames] at low
    omega
  | pushed address frames =>
    rw [frames,List.length_append] at low
    omega
  | popped back frames =>
    have long : machine.stack.frames.length =
        (machine.serve request).machine.stack.frames.length + 1 := by
      rw [frames,List.length_append,List.length_singleton]
    have whole : outer ++ [behind] = machine.stack.frames := by
      refine bottom.eq_of_length ?_
      rw [List.length_append,List.length_singleton]
      omega
    obtain ⟨same,address⟩ := List.append_inj' (whole.trans frames) rfl
    exact ⟨back,same.symm,(List.cons.inj address).1.symm⟩

/-- A machine that has called `target` with the return addresses `outer` behind it, and how it comes
back to the address `behind` the call. -/
structure Called (machine : Machine) (target : UInt16) (outer : List UInt16) (behind : UInt16) :
    Prop where
  counter : machine.registers.counter = target
  frames : machine.stack.frames = outer ++ [behind]
  bottom : ∀ history, (∀ entropy, .reset entropy ∉ history) →
    machine.StaysAbove outer.length history →
      outer ++ [behind] <+: (machine.after history).stack.frames
  back : ∀ history request, (∀ entropy, .reset entropy ∉ history ++ [request]) →
    machine.StaysAbove outer.length history →
    (machine.after (history ++ [request])).stack.depth.val ≤ outer.length →
      (machine.after history).Executes request 0x00EE ∧
      (machine.after (history ++ [request])).stack.frames = outer ∧
      (machine.after (history ++ [request])).registers.counter = behind

theorem Called.of_frames {target behind : UInt16} {outer : List UInt16}
    (counter : machine.registers.counter = target)
    (frames : machine.stack.frames = outer ++ [behind]) : machine.Called target outer behind where
  counter := counter
  frames := frames
  bottom _ := frames_after frames
  back history request lasting above low := by
    have bottom := frames_after frames (fun entropy member => lasting entropy (by simp [member])) above
    rw [after_singleton] at low ⊢
    refine frames_back bottom ?_ low
    rintro entropy rfl
    exact lasting entropy (by simp)

/-- A call with room on the stack goes to its target, and the first request that takes the stack back
to where it was is a return that goes on behind the call, whatever has happened in between. -/
theorem call_brackets (machine : Machine) (running : machine.activity = .running)
    (room : machine.stack.frames.length < 16) (target : UInt16) (inside : target < 0x1000) :
    ((machine.execute (0x2000 + target)).answer = .ok .running ∧
      (machine.execute (0x2000 + target)).machine.Called target machine.stack.frames
        machine.registers.counter) ∧
    (machine.memory.readWord machine.registers.counter.toNat = .ok (0x2000 + target) →
      machine.step.answer = .ok .running ∧
      machine.step.machine.Called target machine.stack.frames (machine.registers.counter + 2)) := by
  have decoded : Instruction.decode (0x2000 + target) = .call target :=
    Instruction.decode_call.mpr ⟨inside,rfl⟩
  rw [CallStack.length_frames] at room
  constructor
  · obtain ⟨stack,pushed,applied⟩ := Instruction.apply_call_room machine room target
    rw [← decoded] at applied
    obtain ⟨answer,left⟩ := execute_ok machine running applied
    refine ⟨answer.trans (congrArg Except.ok (status_running running)),?_⟩
    rw [left]
    exact .of_frames rfl (CallStack.frames_push pushed)
  · intro found
    obtain ⟨stack,pushed,applied⟩ :=
      Instruction.apply_call_room (machine.withRegisters .skip) room target
    rw [← decoded] at applied
    obtain ⟨answer,left⟩ := step_executed running found applied
    refine ⟨answer.trans (congrArg Except.ok (status_running running)),?_⟩
    rw [left]
    refine .of_frames (concluded_counter _ .step) ?_
    exact (congrArg CallStack.frames (concluded_stack _ .step)).trans (CallStack.frames_push pushed)

/-- The routine that is called calls another one before it returns. -/
theorem call_brackets_nested :
    let machine := (Machine.fresh {} (Vector.replicate 8 0)).after
      [.load [0x22,0x04,0x12,0x02,0x22,0x08,0x00,0xEE,0x00,0xEE]]
    let returned := machine.step.machine.after ([.step,.step] ++ [.step])
    returned.stack.frames = machine.stack.frames ∧
      returned.registers.counter = machine.registers.counter + 2 := by
  intro machine returned
  obtain ⟨_,stepped⟩ := call_brackets machine (by decide +kernel) (by decide +kernel) 0x204 (by decide)
  obtain ⟨_,called⟩ := stepped (by decide +kernel)
  have above : machine.step.machine.StaysAbove machine.stack.frames.length [.step,.step] := by
    intro past initial
    rw [← List.mem_inits] at initial
    revert past
    decide +kernel
  obtain ⟨_,frames,counter⟩ := called.back [.step,.step] .step (by simp) above (by decide +kernel)
  exact ⟨frames,counter⟩

end Machine

end Chip8
