import Chip8.Proofs.Machine.Requests

/-! A refused request leaves the machine as it was, since all of its parts
refuse before they change anything. -/
namespace Chip8

namespace Machine
variable {machine : Machine}

theorem ofExcept_fault {α : Type} (answer : α → Answer) {result : Except Fault α} {fault : Fault}
    (plain : ∀ value, answer value ≠ .fault fault)
    (refused : Answer.ofExcept answer result = .fault fault) : result = .error fault := by
  cases result with
  | ok value => exact absurd refused (plain value)
  | error reason =>
    cases refused
    rfl

theorem load_fault {program : List UInt8} {fault : Fault}
    (refused : (machine.load program).answer = .error fault) : (machine.load program).machine = machine := by
  unfold load at refused ⊢
  cases result : machine.memory.load program with
  | ok memory =>
    rw [result] at refused
    cases refused
  | error reason => rfl

theorem fetch_fault {fault : Fault} (refused : machine.fetch.answer = .error fault) :
    machine.fetch.machine = machine := by
  cases found : machine.memory.readWord machine.registers.counter.toNat with
  | ok word =>
    rw [fetch_ok found] at refused
    cases refused
  | error reason => rw [fetch_error found]

theorem step_fault {fault : Fault} (refused : machine.step.answer = .error fault) :
    machine.step.machine = machine := by
  cases step_cases machine with
  | parked register waiting answer left =>
    rw [answer] at refused
    cases refused
  | unreadable reason running missing answer left => exact left
  | refused word reason running found rejected answer left => exact left
  | executed word after running found applied answer left =>
    rw [answer] at refused
    cases refused

theorem execute_fault {word : UInt16} {fault : Fault}
    (refused : (machine.execute word).answer = .error fault) : (machine.execute word).machine = machine := by
  cases execute_cases machine word with
  | parked register waiting answer left => exact left
  | refused reason running rejected answer left => exact left
  | executed after running applied answer left =>
    rw [answer] at refused
    cases refused

theorem press_fault {code : UInt8} {fault : Fault} (refused : (machine.press code).answer = .error fault) :
    (machine.press code).machine = machine := by
  cases named : Key.ofCode? code with
  | some key =>
    rw [(press_named machine named).1] at refused
    cases refused
  | none => rw [press_unnamed machine named]

theorem release_fault {code : UInt8} {fault : Fault}
    (refused : (machine.release code).answer = .error fault) : (machine.release code).machine = machine := by
  cases named : Key.ofCode? code with
  | some key =>
    rw [release_named machine named] at refused
    cases refused
  | none => rw [release_unnamed machine named]

theorem serve_fault {request : Request} {fault : Fault}
    (refused : (machine.serve request).answer = .fault fault) :
    (machine.serve request).machine = machine := by
  cases request with
  | load program => exact load_fault (ofExcept_fault (fun _ => .done) nofun refused)
  | fetch => exact fetch_fault (ofExcept_fault .word nofun refused)
  | step => exact step_fault (ofExcept_fault .status nofun refused)
  | execute word => exact execute_fault (ofExcept_fault .status nofun refused)
  | press code => exact press_fault (ofExcept_fault (fun _ => .done) nofun refused)
  | release code => exact release_fault (ofExcept_fault (fun _ => .done) nofun refused)
  | wait codes => cases refused
  | cancelWait => cases refused
  | tick => cases refused
  | reset entropy => cases refused

end Machine

end Chip8
