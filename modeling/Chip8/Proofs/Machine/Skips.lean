import Chip8.Proofs.Machine.Histories
import Chip8.Proofs.Machine.Parts

/-! Skips. Each of them has an opposite one, and a machine does one of the two. Those that
ask for a key are told what was done to it last. -/
namespace Chip8

namespace Condition

def opposite : Condition → Condition
  | .equals x byte => .differs x byte
  | .differs x byte => .equals x byte
  | .same x y => .different x y
  | .different x y => .same x y
  | .keyDown x => .keyUp x
  | .keyUp x => .keyDown x

theorem holds_opposite (condition : Condition) (registers : Registers) (keypad : Keypad) :
    condition.opposite.holds registers keypad = !condition.holds registers keypad := by
  cases condition <;> simp [holds,opposite]

end Condition

inductive Touch where
  | press
  | release
  | wait
deriving DecidableEq

def Touch.down : Touch → Bool
  | .press | .wait => true
  | .release => false

theorem Keypad.isDown_outside (pad : Keypad) {code : UInt8} (outside : 15 < code.toNat) :
    pad.isDown code = false := by
  simp only [isDown,Key.ofCode?_eq_none.mpr outside]

namespace Machine
variable {machine : Machine} {request : Request}

/-- A running machine executes the word by passing over the next instruction, and in no other way. -/
def Skips (machine : Machine) (word : UInt16) : Prop :=
  (machine.execute word).answer = .ok .running ∧
    (machine.execute word).machine =
      machine.withRegisters (·.jump (machine.registers.counter + 2))

def Stays (machine : Machine) (word : UInt16) : Prop :=
  (machine.execute word).answer = .ok .running ∧ (machine.execute word).machine = machine

theorem Skips.not_stays {word : UInt16} (skips : machine.Skips word) : ¬machine.Stays word := by
  intro stays
  have same : machine.registers.counter + 2 = machine.registers.counter :=
    congrArg (·.registers.counter) (skips.2.symm.trans stays.2)
  have size := machine.registers.counter.toNat_lt
  rw [← UInt16.toNat_inj,UInt16.toNat_add] at same
  change (machine.registers.counter.toNat + 2) % 65536 = _ at same
  omega

section Running
variable (running : machine.activity = .running) (condition : Condition)
include running

theorem skips_of_holds (holds : condition.holds machine.registers machine.keypad = true) :
    machine.Skips (Instruction.skipIf condition).word :=
  execute_runs running (Instruction.decode_skipIf condition)
    (congrArg Except.ok (if_pos holds)) running

theorem stays_of_not (fails : ¬condition.holds machine.registers machine.keypad = true) :
    machine.Stays (Instruction.skipIf condition).word :=
  execute_runs running (Instruction.decode_skipIf condition)
    (congrArg Except.ok (if_neg fails)) running

theorem skips_iff : machine.Skips (Instruction.skipIf condition).word ↔
    condition.holds machine.registers machine.keypad = true := by
  refine ⟨fun skips => ?_,skips_of_holds running condition⟩
  by_contra fails
  exact skips.not_stays (stays_of_not running condition fails)

end Running

structure Complementary (machine : Machine) (first second : UInt16) : Prop where
  one : machine.Skips first ↔ ¬machine.Skips second
  first : ¬machine.Skips first → machine.Stays first
  second : ¬machine.Skips second → machine.Stays second

theorem complementary (running : machine.activity = .running) (condition : Condition) :
    machine.Complementary (Instruction.skipIf condition).word
      (Instruction.skipIf condition.opposite).word where
  one := by
    rw [skips_iff running,skips_iff running,Condition.holds_opposite]
    simp
  first still := stays_of_not running _ fun holds => still (skips_of_holds running _ holds)
  second still := stays_of_not running _ fun holds => still (skips_of_holds running _ holds)

def touch? (machine : Machine) (code : UInt8) : Request → Option Touch
  | .press other => if other = code then some .press else none
  | .release other => if other = code then some .release else none
  | .wait codes =>
    if (machine.waitForKey id codes).answer.1.map Key.code = some code then some .wait else none
  | _ => none

def noteTouch (code : UInt8) (machine : Machine) (request : Request) (latest : Option Touch) :
    Option Touch :=
  match request with
  | .reset _ => none
  | request => (machine.touch? code request).or latest

/-- The last touch of a key along a history, since the last reset in it. -/
def latestTouch? (machine : Machine) (code : UInt8) (history : List Request) : Option Touch :=
  machine.account (noteTouch code) none history

theorem isDown_key (pad : Keypad) (key other : Key) (down : Bool) :
    (pad.set other down).isDown key.code = if other.code = key.code then down else pad.isDown key.code := by
  rw [Keypad.isDown_set]
  exact if_congr Key.ofCode?_eq_some rfl rfl

theorem press_isDown (machine : Machine) (key : Key) (code : UInt8) :
    (machine.press code).machine.keypad.isDown key.code =
      if code = key.code then true else machine.keypad.isDown key.code := by
  cases named : Key.ofCode? code with
  | none =>
    have apart : code ≠ key.code := by
      rintro rfl
      cases (Key.ofCode?_code key).symm.trans named
    rw [press_unnamed machine named,if_neg apart]
  | some other =>
    rw [(press_named machine named).2,receive_keypad,isDown_key,Key.ofCode?_eq_some.mp named]

theorem release_isDown (machine : Machine) (key : Key) (code : UInt8) :
    (machine.release code).machine.keypad.isDown key.code =
      if code = key.code then false else machine.keypad.isDown key.code := by
  cases named : Key.ofCode? code with
  | none =>
    have apart : code ≠ key.code := by
      rintro rfl
      cases (Key.ofCode?_code key).symm.trans named
    rw [release_unnamed machine named,if_neg apart]
  | some other =>
    rw [release_named machine named]
    exact (isDown_key machine.keypad key other false).trans
      (by rw [Key.ofCode?_eq_some.mp named])

theorem wait_isDown (machine : Machine) (key : Key) (codes : List (Option UInt8)) :
    (machine.waitForKey id codes).machine.keypad.isDown key.code =
      if (machine.waitForKey id codes).answer.1.map Key.code = some key.code then true
      else machine.keypad.isDown key.code := by
  cases activity : machine.activity with
  | running => simp [waitForKey_running activity]
  | awaitingKey register =>
    obtain ⟨answer,left⟩ := waitForKey_parked activity id codes
    rw [answer,left]
    cases (Arrival.await id codes).key with
    | none => simp
    | some other => simp [receive_keypad,isDown_key]

/-- What a request does to a key is seen by the keypad, and nothing else is. -/
theorem serve_isDown (machine : Machine) (key : Key) (lasting : ∀ entropy, request ≠ .reset entropy) :
    (machine.serve request).machine.keypad.isDown key.code =
      ((machine.touch? key.code request).map Touch.down).getD (machine.keypad.isDown key.code) := by
  cases request with
  | press code =>
    refine (press_isDown machine key code).trans ?_
    simp only [touch?]
    split <;> rfl
  | release code =>
    refine (release_isDown machine key code).trans ?_
    simp only [touch?]
    split <;> rfl
  | wait codes =>
    refine (wait_isDown machine key codes).trans ?_
    simp only [touch?]
    split <;> rfl
  | step => exact congrArg (Keypad.isDown · key.code) machine.step_keypad
  | execute word =>
    have same : Part.keypad.Same machine (machine.execute word).machine := execute_same machine id
    exact congrArg (Keypad.isDown · key.code) same
  | load program =>
    simp only [serve,Reply.map,load]
    split <;> rfl
  | fetch =>
    simp only [serve,Reply.map,fetch]
    split <;> rfl
  | cancelWait =>
    simp only [serve,Reply.map,cancelWait]
    split <;> rfl
  | tick => rfl
  | reset entropy => exact absurd rfl (lasting entropy)

theorem noteTouch_lasting (lasting : ∀ entropy, request ≠ .reset entropy) (code : UInt8)
    (latest : Option Touch) :
    noteTouch code machine request latest = (machine.touch? code request).or latest := by
  cases request with
  | reset entropy => exact absurd rfl (lasting entropy)
  | _ => rfl

def Shows (key : Key) (machine : Machine) (latest : Option Touch) : Prop :=
  machine.keypad.isDown key.code = latest.any Touch.down

theorem fresh_shows (settings : Settings) (entropy : ChaCha.Key) (key : Key) :
    Shows key (fresh settings entropy) none :=
  Keypad.isDown_released key.code

theorem Shows.serve {key : Key} {latest : Option Touch} (shows : Shows key machine latest)
    (request : Request) :
    Shows key (machine.serve request).machine (noteTouch key.code machine request latest) := by
  by_cases restarts : ∃ entropy, request = .reset entropy
  · obtain ⟨entropy,rfl⟩ := restarts
    exact fresh_shows machine.settings entropy key
  · have lasting (entropy : ChaCha.Key) : request ≠ .reset entropy :=
      fun same => restarts ⟨entropy,same⟩
    unfold Shows at shows ⊢
    rw [serve_isDown machine key lasting,noteTouch_lasting lasting,shows]
    cases machine.touch? key.code request <;> rfl

theorem isDown_after (settings : Settings) (entropy : ChaCha.Key) (history : List Request) (key : Key) :
    ((fresh settings entropy).after history).keypad.isDown key.code =
      ((fresh settings entropy).latestTouch? key.code history).any Touch.down :=
  account_invariant history (fresh_shows settings entropy key) fun _ request _ shows =>
    shows.serve request

theorem any_down {latest : Option Touch} :
    latest.any Touch.down = true ↔ latest = some .press ∨ latest = some .wait := by
  cases latest with
  | none => simp
  | some touch => cases touch <;> simp [Touch.down]

/-- A code is down if it names a key and the last that was done to the key has left it down. -/
theorem isDown_iff (settings : Settings) (entropy : ChaCha.Key) (history : List Request) (code : UInt8) :
    let latest := (fresh settings entropy).latestTouch? code history
    ((fresh settings entropy).after history).keypad.isDown code = true ↔
      code.toNat ≤ 15 ∧ (latest = some .press ∨ latest = some .wait) := by
  intro latest
  rcases Nat.lt_or_ge 15 code.toNat with outside | inside
  · have apart : ¬code.toNat ≤ 15 := Nat.not_le.mpr outside
    simp [Keypad.isDown_outside _ outside,apart]
  · have key : Key.code ⟨code.toNat,Nat.lt_succ_of_le inside⟩ = code := UInt8.ofNat_toNat
    have shown := isDown_after settings entropy history ⟨code.toNat,Nat.lt_succ_of_le inside⟩
    rw [key] at shown
    rw [shown,any_down]
    exact ⟨fun touched => ⟨inside,touched⟩,And.right⟩

def oppositeWords (x y : Register) (byte : UInt8) : List (UInt16 × UInt16) :=
  [(UInt16.ofNat (0x3000 + 256 * x + byte.toNat),UInt16.ofNat (0x4000 + 256 * x + byte.toNat)),
    (UInt16.ofNat (0x5000 + 256 * x + 16 * y),UInt16.ofNat (0x9000 + 256 * x + 16 * y)),
    (UInt16.ofNat (0xE09E + 256 * x),UInt16.ofNat (0xE0A1 + 256 * x))]

/-- Of two opposite words a running machine skips at one, and does nothing at the other one. It skips at
a key that is down, which is a key of the pad that was last pressed or waited for, and not let go since,
so that it always skips at the opposite word where the register names no key. -/
theorem skips_complementary (settings : Settings) (entropy : ChaCha.Key) (history : List Request)
    (running : ((fresh settings entropy).after history).activity = .running)
    (x y : Register) (byte : UInt8) :
    let machine := (fresh settings entropy).after history
    let value := machine.registers.get x
    let latest := (fresh settings entropy).latestTouch? value history
    (∀ words ∈ oppositeWords x y byte, machine.Complementary words.1 words.2) ∧
    (machine.Skips (UInt16.ofNat (0x3000 + 256 * x + byte.toNat)) ↔ value = byte) ∧
    (machine.Skips (UInt16.ofNat (0x5000 + 256 * x + 16 * y)) ↔ value = machine.registers.get y) ∧
    (machine.Skips (UInt16.ofNat (0xE09E + 256 * x)) ↔
      value.toNat ≤ 15 ∧ (latest = some .press ∨ latest = some .wait)) ∧
    (15 < value.toNat → machine.Skips (UInt16.ofNat (0xE0A1 + 256 * x))) := by
  intro machine value latest
  have equal := skips_iff running (.equals x byte)
  have same := skips_iff running (.same x y)
  have down := skips_iff running (.keyDown x)
  have up := skips_iff running (.keyUp x)
  refine ⟨?_,equal.trans decide_eq_true_iff,same.trans decide_eq_true_iff,
    down.trans (isDown_iff settings entropy history value),fun outside => up.mpr ?_⟩
  · simp only [oppositeWords,List.forall_mem_cons]
    exact ⟨complementary running (.equals x byte),complementary running (.same x y),
      complementary running (.keyDown x),nofun⟩
  · change (!machine.keypad.isDown value) = true
    rw [machine.keypad.isDown_outside outside]
    rfl

/-- The key is let go, and then a wait finds it behind an event outside the pad. -/
theorem skips_complementary_waited :
    let history : List Request := [.execute 0x6005,.press 5,.release 5,.execute 0xF10A,
      .wait [none,some 0x40,some 5]]
    let machine := (fresh {} (Vector.replicate 8 0)).after history
    machine.Skips 0xE09E ∧ machine.Stays 0xE0A1 := by
  intro history
  obtain ⟨pairs,_,_,down,_⟩ := skips_complementary {} (Vector.replicate 8 0) history
    (by decide +kernel) 0 0 0
  have skips := down.mpr (by decide +kernel)
  have pair := pairs (0xE09E,0xE0A1) (by decide)
  exact ⟨skips,pair.second fun other => pair.one.mp skips other⟩

end Machine

end Chip8
