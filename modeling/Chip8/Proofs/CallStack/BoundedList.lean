import Chip8.Proofs.Device.Parts

/-! The call stack as a list of at most sixteen addresses. What is left in the slots
above the depth shows in no answer, and only equality, which compares all slots, can
tell a used stack from a new one. -/
namespace Chip8

inductive StackRequest where
  | push (address : UInt16)
  | pop
deriving DecidableEq

abbrev StackAnswer : Type := Except Fault (Option UInt16)

structure StackView where
  pointer : Nat
  frames : List UInt16
  isEmpty : Bool
deriving DecidableEq

def observations {σ : Type} (serve : σ → StackRequest → StackAnswer × σ) (view : σ → StackView)
    (state : σ) : List StackRequest → List (StackAnswer × StackView)
  | [] => []
  | request :: history =>
    let served := serve state request
    (served.1,view served.2) :: observations serve view served.2 history

namespace BoundedList

def serve (addresses : List UInt16) : StackRequest → StackAnswer × List UInt16
  | .push address =>
    if addresses.length < 16 then (.ok none,addresses ++ [address])
    else (.error (.stackOverflow 16),addresses)
  | .pop =>
    match addresses.getLast? with
    | some address => (.ok (some address),addresses.dropLast)
    | none => (.error .stackUnderflow,addresses)

def view (addresses : List UInt16) : StackView :=
  ⟨addresses.length,addresses,addresses.isEmpty⟩

def pushed? (slot : Fin 16) (addresses : List UInt16) : StackRequest → Option UInt16
  | .push address => if addresses.length = slot then some address else none
  | .pop => none

def lastPushed? (slot : Fin 16) (addresses : List UInt16) : List StackRequest → Option UInt16
  | [] => none
  | request :: history =>
    (lastPushed? slot (serve addresses request).2 history).or (pushed? slot addresses request)

end BoundedList

namespace CallStack

def serve (stack : CallStack) : StackRequest → StackAnswer × CallStack
  | .push address =>
    match stack.push address with
    | .ok pushed => (.ok none,pushed)
    | .error fault => (.error fault,stack)
  | .pop =>
    match stack.pop with
    | .ok (address,popped) => (.ok (some address),popped)
    | .error fault => (.error fault,stack)

def view (stack : CallStack) : StackView := ⟨stack.depth,stack.frames,stack.isEmpty⟩

def after (stack : CallStack) (history : List StackRequest) : CallStack :=
  history.foldl (fun stack request => (stack.serve request).2) stack

theorem view_frames (stack : CallStack) : stack.view = BoundedList.view stack.frames := by
  have bare : stack.isEmpty = stack.frames.isEmpty := by
    rw [isEmpty,← length_frames]
    cases stack.frames <;> rfl
  rw [view,BoundedList.view,length_frames,bare]

theorem serve_frames (stack : CallStack) (request : StackRequest) :
    BoundedList.serve stack.frames request =
      ((stack.serve request).1,(stack.serve request).2.frames) := by
  cases request with
  | push address =>
    cases pushed : stack.push address with
    | ok left =>
      have frames := frames_push pushed
      -- What took one more address had room, because no depth is beyond sixteen.
      have room : stack.frames.length < 16 := by
        have taller := congrArg List.length frames
        have bound := left.depth.isLt
        simp only [length_frames,List.length_append,List.length_singleton] at taller ⊢
        omega
      simp only [BoundedList.serve,if_pos room,serve,pushed,frames]
    | error fault =>
      obtain ⟨full,rfl⟩ := push_error_iff.mp pushed
      have none : ¬stack.frames.length < 16 := by
        rw [length_frames,full]
        decide
      simp only [BoundedList.serve,if_neg none,serve,pushed]
  | pop =>
    cases popped : stack.pop with
    | ok result =>
      have frames := frames_pop popped
      simp only [BoundedList.serve,frames,List.getLast?_concat,List.dropLast_concat,serve,popped]
    | error fault =>
      obtain ⟨bare,rfl⟩ := pop_error_iff.mp popped
      have frames : stack.frames = [] := by rw [← List.length_eq_zero_iff,length_frames,bare]
      simp only [BoundedList.serve,frames,List.getLast?_nil,serve,popped]

theorem observations_frames (stack : CallStack) (history : List StackRequest) :
    observations serve view stack history =
      observations BoundedList.serve BoundedList.view stack.frames history := by
  induction history generalizing stack with
  | nil => rfl
  | cons request history ih =>
    simp only [observations,serve_frames,ih,view_frames]

theorem slots_push {stack pushed : CallStack} {address : UInt16}
    (accepted : stack.push address = .ok pushed) (slot : Fin 16) :
    pushed.slots.get slot = if stack.depth.val = slot then address else stack.slots.get slot := by
  unfold push at accepted
  split at accepted
  · rename_i room
    cases accepted
    exact Vector.getElem_set room slot.isLt
  · cases accepted

theorem slots_pop {stack popped : CallStack} {address : UInt16}
    (accepted : stack.pop = .ok (address,popped)) : popped.slots = stack.slots := by
  unfold pop at accepted
  split at accepted
  · cases accepted
  · cases accepted
    rfl

theorem serve_slots (stack : CallStack) (request : StackRequest) (slot : Fin 16) :
    (stack.serve request).2.slots.get slot =
      (BoundedList.pushed? slot stack.frames request).getD (stack.slots.get slot) := by
  cases request with
  | push address =>
    simp only [BoundedList.pushed?,length_frames]
    cases pushed : stack.push address with
    | ok left =>
      have behind : (stack.serve (.push address)).2 = left := by simp only [serve,pushed]
      rw [behind,slots_push pushed]
      split <;> rfl
    | error fault =>
      have behind : (stack.serve (.push address)).2 = stack := by simp only [serve,pushed]
      -- There is no slot at the depth of a full stack.
      have full := (push_error_iff.mp pushed).1
      rw [behind,if_neg (by omega)]
      rfl
  | pop =>
    have behind : (stack.serve .pop).2.slots = stack.slots := by
      cases popped : stack.pop with
      | ok result =>
        simp only [serve,popped]
        exact slots_pop popped
      | error fault => simp only [serve,popped]
    simp only [behind,BoundedList.pushed?,Option.getD_none]

theorem after_slots (stack : CallStack) (history : List StackRequest) (slot : Fin 16) :
    (stack.after history).slots.get slot =
      (BoundedList.lastPushed? slot stack.frames history).getD (stack.slots.get slot) := by
  induction history generalizing stack with
  | nil => rfl
  | cons request history ih =>
    have later := ih (stack.serve request).2
    rw [BoundedList.lastPushed?,serve_frames,Option.getD_or,← serve_slots]
    exact later

theorem eq_empty_iff {stack : CallStack} :
    stack = .empty ↔ stack.depth.val = 0 ∧ ∀ slot : Fin 16, stack.slots.get slot = 0 := by
  constructor
  · rintro rfl
    exact ⟨rfl,by decide⟩
  · rintro ⟨bare,clear⟩
    obtain ⟨slots,depth⟩ := stack
    have same : slots = Vector.replicate 16 0 := by
      refine Vector.ext fun slot inside => ?_
      rw [Vector.getElem_replicate]
      exact clear ⟨slot,inside⟩
    have unused : depth = 0 := Fin.ext bare
    rw [same,unused]
    rfl

end CallStack

def Device.Stack.serve : StackRequest → Routine Device.Stack (Option UInt16)
  | .push address => do
    push address
    return none
  | .pop => do return some (← pop)

def Outcome.ofServed (served : StackAnswer × CallStack) : Outcome Device.Stack (Option UInt16) :=
  match served.1 with
  | .ok given => .done given served.2.onDevice
  | .error fault => .refused fault served.2.onDevice

theorem Device.Stack.serve_run (stack : CallStack) (request : StackRequest) :
    (serve request).run stack.onDevice = .ofServed (stack.serve request) := by
  cases request with
  | push address =>
    simp only [serve,Routine.run_bind,push_run,CallStack.serve]
    cases stack.push address <;> rfl
  | pop =>
    simp only [serve,Routine.run_bind,pop_run,CallStack.serve]
    cases stack.pop <;> rfl

namespace CallStack

/-- A stack answers as a list with room for sixteen addresses does, whatever it has been asked, and
so do any two stacks with the same frames from then on; the stack of a device, which is changed in
place, does the same. Equality tells more: a stack is a new one if it is empty and nothing but zero
was the last address put into any of its slots. -/
theorem stack_refines_list (history : List StackRequest) :
    let stack := CallStack.empty.after history
    observations serve view .empty history =
      observations BoundedList.serve BoundedList.view [] history ∧
    (∀ first second : CallStack, first.frames = second.frames → ∀ later,
      observations serve view first later = observations serve view second later) ∧
    (stack = .empty ↔ stack.depth.val = 0 ∧
      ∀ slot address, BoundedList.lastPushed? slot [] history = some address → address = 0) ∧
    (∀ request, (Device.Stack.serve request).run stack.onDevice = .ofServed (stack.serve request)) ∧
    Device.Stack.frames.run stack.onDevice = .done stack.frames stack.onDevice := by
  intro stack
  refine ⟨observations_frames .empty history,fun first second same later => ?_,?_,
    Device.Stack.serve_run stack,Device.Stack.frames_run stack⟩
  · rw [observations_frames,observations_frames,same]
  · have slots (slot : Fin 16) :
        stack.slots.get slot = (BoundedList.lastPushed? slot [] history).getD 0 := by
      have started : CallStack.empty.slots.get slot = 0 := Vector.getElem_replicate slot.isLt
      rw [← started]
      exact after_slots .empty history slot
    rw [eq_empty_iff]
    refine and_congr_right fun _ => forall_congr' fun slot => ?_
    rw [slots]
    cases BoundedList.lastPushed? slot [] history <;> simp

/-- An address that has been pushed and taken is still in its slot, where no request finds it. -/
theorem stack_refines_list_used :
    let used := CallStack.empty.after [.push 0x202,.pop]
    used ≠ .empty ∧ ∀ later, observations serve view used later = observations serve view .empty later := by
  intro used
  obtain ⟨_,alike,finer,_⟩ := stack_refines_list [.push 0x202,.pop]
  refine ⟨fun new => ?_,alike used .empty (by decide)⟩
  have zero : (0x202 : UInt16) = 0 := (finer.mp new).2 0 0x202 (by decide)
  exact absurd zero (by decide)

end CallStack

end Chip8
