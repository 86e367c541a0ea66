import Chip8.CommandLine.Conversation
import Chip8.Machine.Request
import Chip8.Proofs.Machine.Keys

/-! What a typed line does to a machine. Only its first character with a key
counts: that key goes down and up again, and nothing else happens. -/
namespace Chip8

theorem Key.ofChar?_inside {typed : Char} {code : UInt8} (mapped : ofChar? typed = some code) :
    ∃ key, ofCode? code = some key := by
  obtain ⟨before,behind,split,_⟩ := List.lookup_eq_some_iff.mp mapped
  have listed : (typed.toLower,code) ∈ layout := by
    rw [split]
    simp
  have inside : ∀ entry ∈ layout, ∃ key, ofCode? entry.2 = some key := by decide
  exact inside _ listed

theorem Keypad.set_released (key : Key) : (released.set key true).set key false = released := by
  revert key
  decide

namespace CommandLine
variable {machine : Machine} {line : String}

def lineCode? (line : String) : Option UInt8 := line.toList.findSome? Key.ofChar?

theorem await_line (typed : List Char) :
    (Arrival.await Key.ofChar? typed).key = (typed.findSome? Key.ofChar?).bind Key.ofCode? := by
  induction typed with
  | nil => rfl
  | cons first rest ih =>
    simp only [Arrival.await,List.findSome?_cons]
    cases mapped : Key.ofChar? first with
    | none => exact ih
    | some code =>
      obtain ⟨key,named⟩ := Key.ofChar?_inside mapped
      simp [named]

def pressed? (machine : Machine) (line : String) : Option Key :=
  match machine.activity with
  | .running => none
  | .awaitingKey _ => (lineCode? line).bind Key.ofCode?

theorem waitForKey_unpressed (unpressed : pressed? machine line = none) :
    (machine.waitForKey Key.ofChar? line.toList).answer.1 = none ∧
      (machine.waitForKey Key.ofChar? line.toList).machine = machine := by
  cases activity : machine.activity with
  | running =>
    rw [Machine.waitForKey_running activity]
    exact ⟨rfl,rfl⟩
  | awaitingKey register =>
    simp only [pressed?,activity] at unpressed
    obtain ⟨answer,left⟩ := Machine.waitForKey_dry activity ((await_line line.toList).trans unpressed)
    exact ⟨congrArg Prod.fst answer,left⟩

theorem waitForKey_pressed {key : Key} (pressed : pressed? machine line = some key) :
    (machine.waitForKey Key.ofChar? line.toList).answer.1 = some key ∧
      (machine.waitForKey Key.ofChar? line.toList).machine = machine.receive key := by
  cases activity : machine.activity with
  | running =>
    simp only [pressed?,activity] at pressed
    cases pressed
  | awaitingKey register =>
    simp only [pressed?,activity] at pressed
    obtain ⟨answer,left⟩ := Machine.waitForKey_arrived activity ((await_line line.toList).trans pressed)
    exact ⟨congrArg Prod.fst answer,left⟩

theorem release_code (machine : Machine) (key : Key) :
    machine.release key.code = ⟨.ok (),{machine with keypad := machine.keypad.set key false},[]⟩ :=
  Machine.release_named machine (Key.ofCode?_code key)

def typing (machine : Machine) (line : String) : List Request :=
  let waited := machine.waitForKey Key.ofChar? line.toList
  .wait (line.toList.map Key.ofChar?) :: waited.answer.1.toList.map fun key => .release key.code

theorem after_unpressed (unpressed : pressed? machine line = none) :
    machine.after (typing machine line) = machine := by
  obtain ⟨answer,left⟩ := waitForKey_unpressed unpressed
  have waited := (machine.waitForKey_map Key.ofChar? line.toList).1
  rw [typing,answer]
  exact waited.trans left

theorem after_pressed {key : Key} (pressed : pressed? machine line = some key) :
    machine.after (typing machine line) =
      {machine.receive key with keypad := (machine.receive key).keypad.set key false} := by
  obtain ⟨answer,left⟩ := waitForKey_pressed pressed
  have waited := (machine.waitForKey_map Key.ofChar? line.toList).1
  rw [typing,answer]
  change ((machine.waitForKey id (line.toList.map Key.ofChar?)).machine.release key.code).machine = _
  rw [waited,left,release_code]

/-- A key that has arrived can always be let go again. -/
theorem typeLine_ok (machine : Machine) (line : String) :
    typeLine machine line = .ok (machine.after (typing machine line)) := by
  cases pressed : pressed? machine line with
  | none =>
    obtain ⟨answer,left⟩ := waitForKey_unpressed pressed
    simp only [typeLine,answer,left,after_unpressed pressed]
  | some key =>
    obtain ⟨answer,left⟩ := waitForKey_pressed pressed
    simp only [typeLine,answer,left,release_code,after_pressed pressed]
    rfl

/-- A line does to a machine what any other line with the same first key does. -/
theorem after_typing_congr {other : String} (same : lineCode? line = lineCode? other) :
    machine.after (typing machine line) = machine.after (typing machine other) := by
  have equal : pressed? machine line = pressed? machine other := by
    unfold pressed?
    rw [same]
  cases pressed : pressed? machine other with
  | none => rw [after_unpressed (equal.trans pressed),after_unpressed pressed]
  | some key => rw [after_pressed (equal.trans pressed),after_pressed pressed]

end CommandLine

end Chip8
