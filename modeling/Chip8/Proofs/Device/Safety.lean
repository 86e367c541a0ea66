import Chip8.Proofs.Device.Refinement

/-! No history crashes a device: its numbers stay within the bounds that every
sum and every index rely on. -/
namespace Chip8
open Routine

structure Device.Sound (device : Device) : Prop where
  pointer : device.stack.pointer.toNat ≤ 16
  register : ∀ register, device.activity = .awaitingKey register → register.toNat ≤ 15
  sinceTick : match device.settings.drive with
    | .host => device.sinceTick = 0
    | .everyInstructions period => device.sinceTick.toNat < max period.toNat 1

namespace Device

theorem onDevice_register {activity : Chip8.Activity} {register : UInt8}
    (waiting : activity.onDevice = .awaitingKey register) : register.toNat ≤ 15 := by
  cases activity with
  | running => cases waiting
  | awaitingKey place =>
    cases waiting
    have bound := place.isLt
    rw [number_toNat]
    omega

theorem onDevice_sound {machine : Machine} (counted : machine.Counted) : machine.onDevice.Sound := by
  refine ⟨?_,fun register waiting => onDevice_register waiting,?_⟩
  · have bound := machine.stack.depth.isLt
    change machine.stack.onDevice.pointer.toNat ≤ 16
    rw [Stack.pointer_onDevice]
    omega
  · unfold Machine.Counted at counted
    change match machine.settings.drive with
      | .host => UInt32.ofNat machine.sinceTick = 0
      | .everyInstructions period => (UInt32.ofNat machine.sinceTick).toNat < max period.toNat 1
    cases settled : machine.settings.drive with
    | host =>
      rw [settled] at counted
      have zero : machine.sinceTick = 0 := counted
      simp only [zero]
      rfl
    | everyInstructions period =>
      rw [settled] at counted
      have below : machine.sinceTick < max period.toNat 1 := counted
      have size := period.toNat_lt
      simp only [UInt32.toNat_ofNat']
      rw [Nat.mod_eq_of_lt (by omega)]
      exact below

theorem ofAnswer_ne_crashed {σ : Type} (state : σ) (answer : Answer) :
    Outcome.ofAnswer state answer ≠ .crashed := by
  cases answer <;> nofun

/-- Whatever a host asks of a new device, and whatever it asks next, no number leaves its word
and no index its array, so that the device is where the machine is. -/
theorem never_crashes (settings : Settings) (entropy : ChaCha.Key) (history : List Request)
    (fits : ∀ request ∈ history, request.Fits) :
    ∃ device, (fresh settings entropy).after history = some device ∧
      device = ((Machine.fresh settings entropy).after history).onDevice ∧
      device.settings = settings ∧ device.Sound ∧
      (∀ request : Request, request.Fits → (serve request).run device ≠ .crashed) ∧
      (∀ (ε : Type) (map : ε → Option UInt8) (events : List ε),
        (waitForKey map events).run device ≠ .crashed) ∧
      Stack.frames.run device.stack ≠ .crashed := by
  let machine := (Machine.fresh settings entropy).after history
  have counted : machine.Counted := (Machine.fresh_counted settings entropy).after history
  have reached := after_run (Machine.fresh settings entropy) (Machine.fresh_counted settings entropy)
    history fits
  rw [fresh_onDevice] at reached
  refine ⟨machine.onDevice,reached,rfl,?_⟩
  refine ⟨Machine.after_settings _ history,onDevice_sound counted,?_,?_,?_⟩
  · intro request fitting
    rw [serve_run machine counted request fitting]
    exact ofAnswer_ne_crashed _ _
  · intro ε map events
    rw [waitForKey_run machine map events]
    nofun
  · have framed := Stack.frames_run machine.stack
    change Stack.frames.run machine.stack.onDevice ≠ .crashed
    rw [framed]
    nofun

/-- The longest period, a program that waits for a key, and a key that is none. -/
theorem never_crashes_waiting :
    ∃ device, (fresh {drive := .everyInstructions 0xFFFFFFFF} (Vector.replicate 8 0)).after
      [.load [0xF0,0x0A],.step,.step,.press 0x10,.wait [none,some 0x7],.step] = some device ∧
      device.Sound := by
  obtain ⟨device,reached,_,_,sound,_⟩ := never_crashes {drive := .everyInstructions 0xFFFFFFFF}
    (Vector.replicate 8 0)
    [.load [0xF0,0x0A],.step,.step,.press 0x10,.wait [none,some 0x7],.step] (by decide)
  exact ⟨device,reached,sound⟩

end Device

end Chip8
