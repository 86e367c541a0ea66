import Chip8.Fault

/-! The stack of return addresses: sixteen slots and the number of live ones.
Popping an address only lowers the depth, so a slot keeps its last address
until the next push there. `frames` shows the live slots alone. -/
namespace Chip8

/-- Equality compares all slots, those above the depth included. -/
structure CallStack where
  slots : Vector UInt16 16
  depth : Fin 17
deriving DecidableEq

namespace CallStack

def empty : CallStack := ⟨Vector.replicate 16 0,0⟩

def frames (stack : CallStack) : List UInt16 :=
  stack.slots.toList.take stack.depth

@[simp] theorem length_frames (stack : CallStack) : stack.frames.length = stack.depth := by
  have := stack.depth.isLt
  simp only [frames,List.length_take,Vector.length_toList]
  omega

def isEmpty (stack : CallStack) : Bool := stack.depth.val = 0

def push (stack : CallStack) (address : UInt16) : Except Fault CallStack :=
  if room : stack.depth.val < 16 then
    .ok ⟨stack.slots.set stack.depth.val address,⟨stack.depth.val + 1,by omega⟩⟩
  else
    .error (.stackOverflow stack.depth)

theorem frames_push {stack pushed : CallStack} {address : UInt16}
    (accepted : stack.push address = .ok pushed) : pushed.frames = stack.frames ++ [address] := by
  unfold push at accepted
  split at accepted
  · cases accepted
    rename_i room
    have inside : stack.depth.val < stack.slots.toList.length := by simp [room]
    simp only [frames,Vector.toList_set]
    rw [List.take_add_one]
    simp [List.take_set_of_le,room]
  · cases accepted

theorem push_error_iff {stack : CallStack} {address : UInt16} {fault : Fault} :
    stack.push address = .error fault ↔ stack.depth.val = 16 ∧ fault = .stackOverflow 16 := by
  have bound := stack.depth.isLt
  unfold push
  split
  · rename_i room
    have other : stack.depth.val ≠ 16 := by omega
    simp [other]
  · have full : stack.depth.val = 16 := by omega
    simp [full,eq_comm]

def pop (stack : CallStack) : Except Fault (UInt16 × CallStack) :=
  if bare : stack.depth.val = 0 then
    .error .stackUnderflow
  else
    .ok (stack.slots[stack.depth.val - 1],⟨stack.slots,⟨stack.depth.val - 1,by omega⟩⟩)

theorem frames_pop {stack popped : CallStack} {address : UInt16}
    (accepted : stack.pop = .ok (address,popped)) : stack.frames = popped.frames ++ [address] := by
  unfold pop at accepted
  split at accepted
  · cases accepted
  · cases accepted
    rename_i live
    obtain ⟨slots,⟨depth,bound⟩⟩ := stack
    obtain ⟨below,rfl⟩ : ∃ below, depth = below + 1 := ⟨depth - 1,by simp at live; omega⟩
    simp only [frames,Nat.add_sub_cancel]
    rw [List.take_add_one]
    have : below < 16 := by omega
    simp [this]

theorem pop_error_iff {stack : CallStack} {fault : Fault} :
    stack.pop = .error fault ↔ stack.depth.val = 0 ∧ fault = .stackUnderflow := by
  unfold pop
  split
  · rename_i bare
    simp [bare,eq_comm]
  · rename_i live
    simp [live]

end CallStack

end Chip8
