import Chip8.Proofs.Machine.Independence
import Chip8.Proofs.Machine.Loading

/-! Programs without branches. Loaded and stepped through, such a program does
what its words do when they are executed one after the other, and leaves the
program counter behind its last word. -/
namespace Chip8

namespace Machine
variable {machine : Machine} {word : UInt16} {words : List UInt16}

/-- A word that neither branches nor writes memory nor asks for a key. -/
structure Straight (word : UInt16) : Prop where
  counter : ¬MayWrite word .counter
  memory : ¬MayWrite word .memory
  activity : ¬MayWrite word .activity

theorem Straight.unmoved (straight : Straight word) : ¬(Instruction.decode word).Writes .counter :=
  fun writes => straight.counter (mayWrite_of_writes rfl writes)

/-- Only instructions that branch can fail. -/
theorem Straight.accepted (straight : Straight word) (machine : Machine) :
    ∃ after, (Instruction.decode word).apply machine = .ok after := by
  cases result : (Instruction.decode word).apply machine with
  | ok after => exact ⟨after,rfl⟩
  | error fault =>
    have unmoved := straight.unmoved
    rcases Instruction.apply_error_iff.mp result with ⟨decoded,_⟩ | ⟨⟨target,decoded⟩,_⟩
    · rw [decoded] at unmoved
      exact absurd (.inr rfl) unmoved
    · rw [decoded] at unmoved
      exact absurd (.inr rfl) unmoved

theorem Straight.runs (straight : Straight word) (running : machine.activity = .running) :
    (machine.execute word).machine.activity = .running := by
  have same : (machine.execute word).machine.activity = machine.activity :=
    show Part.activity.Same machine _ from machine.execute_same straight.activity
  exact same.trans running

/-- A cycle does what the word before it does, wherever the program counter is, and moves the counter. -/
theorem Straight.step (straight : Straight word) (running : machine.activity = .running)
    (hosted : machine.settings.drive = .host) {address : Nat} (inside : address + 2 ≤ 4096)
    (held : machine.memory.wordAt address = word) :
    let placed := machine.withRegisters (·.jump (UInt16.ofNat address))
    placed.step.answer = .ok .running ∧ placed.step.machine =
      (machine.execute word).machine.withRegisters (·.jump (UInt16.ofNat (address + 2))) := by
  intro placed
  have counter : placed.registers.counter.toNat = address := by
    change (UInt16.ofNat address).toNat = address
    rw [UInt16.toNat_ofNat']
    omega
  have found : placed.memory.readWord placed.registers.counter.toNat = .ok word := by
    rw [counter]
    exact Memory.readWord_ok_iff.mpr ⟨by omega,held⟩
  have placedRuns : placed.activity = .running := running
  have next : placed.withRegisters .skip = machine.withRegisters (·.jump (UInt16.ofNat (address + 2))) := by
    simp only [placed,withRegisters,Registers.skip,Registers.jump,UInt16.ofNat_add]
    rfl
  obtain ⟨after,applied⟩ := straight.accepted machine
  have moved : (Instruction.decode word).apply (placed.withRegisters .skip) =
      .ok (after.withRegisters (·.jump (UInt16.ofNat (address + 2)))) := by
    rw [next]
    exact (Instruction.ignores_jump straight.unmoved _ machine).trans (congrArg (Except.map _) applied)
  obtain ⟨answer,left⟩ := step_executed placedRuns found moved
  have executed := (execute_ok machine running applied).2
  have runs := straight.runs running
  rw [executed] at runs ⊢
  refine ⟨answer.trans (congrArg Except.ok (status_running runs)),left.trans (countInstruction_host ?_)⟩
  exact (congrArg Settings.drive (Instruction.apply_frame applied).settings).trans hosted

/-- From where its words lie, stepping through a program without branches is to execute its words. -/
theorem steps_straight {address : Nat} (running : machine.activity = .running)
    (hosted : machine.settings.drive = .host) (straight : ∀ word ∈ words, Straight word)
    (fits : address + 2 * words.length ≤ 4096) (holds : machine.memory.Holds address words) :
    let placed := machine.withRegisters (·.jump (UInt16.ofNat address))
    let steps := List.replicate words.length Request.step
    (placed.replies steps).map (·.answer) = List.replicate words.length (.status .running) ∧
      placed.after steps = (machine.after (words.map .execute)).withRegisters
        (·.jump (UInt16.ofNat (address + 2 * words.length))) := by
  induction words generalizing machine address with
  | nil => exact ⟨rfl,rfl⟩
  | cons word words ih =>
    rw [List.length_cons] at fits
    obtain ⟨plain,others⟩ := List.forall_mem_cons.mp straight
    obtain ⟨held,behind⟩ := holds
    obtain ⟨answer,left⟩ := plain.step running hosted (by omega) held
    have settings : (machine.execute word).machine.settings = machine.settings :=
      (serve_counting machine (.execute word)).settings
    have memory : (machine.execute word).machine.memory = machine.memory :=
      show Part.memory.Same machine _ from machine.execute_same plain.memory
    obtain ⟨answers,last⟩ :=
      ih (plain.runs running) (settings ▸ hosted) others (by omega) (memory ▸ behind)
    have sum : address + 2 + 2 * words.length = address + 2 * (words.length + 1) := by omega
    rw [sum,← left] at last
    rw [← left] at answers
    have first := congrArg (Answer.ofExcept .status) answer
    exact ⟨congrArg₂ List.cons first answers,last⟩

theorem Straight.of_formless (formless : ¬OfForms ["00EE","1nnn","2nnn","Bnnn","3xkk","4xkk",
    "5xy0","9xy0","Ex9E","ExA1","Fx0A","Fx33","Fx55"] word) : Straight word where
  counter branches := formless (branches.mono (by simp))
  memory stores := formless (stores.mono (by simp))
  activity parks := formless (parks.mono (by simp))

/-- A program without branches does what its words do. It can be loaded if its words leave the last
cell free, all of its cycles are carried out, and it leaves what its words leave one after the other,
but for the program counter, which lies behind the last one. -/
theorem straight_lines_run (machine : Machine) (running : machine.activity = .running)
    (hosted : machine.settings.drive = .host) (words : List UInt16) (short : words.length ≤ 1791)
    (formless : ∀ word ∈ words, ¬OfForms ["00EE","1nnn","2nnn","Bnnn","3xkk","4xkk","5xy0",
      "9xy0","Ex9E","ExA1","Fx0A","Fx33","Fx55"] word) :
    let loaded := machine.load (words.flatMap bigEndian)
    let steps := List.replicate words.length Request.step
    loaded.answer = .ok () ∧
      (loaded.machine.replies steps).map (·.answer) = List.replicate words.length (.status .running) ∧
      loaded.machine.after steps = (loaded.machine.after (words.map .execute)).withRegisters
        (·.jump (UInt16.ofNat (0x200 + 2 * words.length))) := by
  intro loaded steps
  have fits : (words.flatMap bigEndian).length ≤ longestProgram := by
    rw [length_bigEndian]
    change _ ≤ 3583
    omega
  have left := load_fitting machine fits
  have holds := load_holds machine short
  have straight : ∀ word ∈ words, Straight word := fun word listed => .of_formless (formless word listed)
  have runs : loaded.machine.activity = .running := by
    rw [show loaded = _ from left]
    exact running
  have drive : loaded.machine.settings.drive = .host := by
    rw [show loaded = _ from left]
    exact hosted
  have placed : loaded.machine.withRegisters (·.jump (UInt16.ofNat programStart)) = loaded.machine := by
    rw [show loaded = _ from left]
    rfl
  have run := steps_straight runs drive straight (by change 0x200 + _ ≤ _; omega) holds
  rw [placed] at run
  exact ⟨congrArg Reply.answer left,run⟩

/-- A program that loads its own first bytes into registers and draws what lies behind them. -/
theorem straight_lines_run_own_bytes :
    let words := [0xA200,0xF265,0xF11E,0xD125]
    let loaded := ((fresh {} (Vector.replicate 8 0)).load (words.flatMap bigEndian)).machine
    let stepped := loaded.after (.replicate 4 .step)
    stepped = (loaded.after (words.map .execute)).withRegisters (·.jump 0x208) ∧
      stepped.registers.get 0 = 0xA2 ∧ stepped.screen.lit (.around 0x00 0xF2) = true := by
  intro words loaded stepped
  obtain ⟨_,_,same⟩ := straight_lines_run (fresh {} (Vector.replicate 8 0)) rfl rfl words (by decide) (by
    rw [List.forall_mem_cons,List.forall_mem_cons,List.forall_mem_cons,List.forall_mem_singleton]
    decide)
  have seen : (stepped.registers.get 0,stepped.screen.lit (.around 0x00 0xF2)) = (0xA2,true) := by
    decide +kernel
  exact ⟨same,Prod.mk.inj seen⟩

end Machine

end Chip8
