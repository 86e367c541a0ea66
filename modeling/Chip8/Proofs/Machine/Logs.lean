import Chip8.Proofs.Machine.Retiming
import Chip8.Proofs.Machine.Timing

/-! What the cycles of a machine tell. A cycle names the word that it fetches and where
it stood, then what is odd about the word, and last that the sound timer has run out.
The names alone are the history of the run. -/
namespace Chip8

def remarksOn (word : UInt16) : List LogEntry :=
  if OfForm "Fx0A" word then [.waitStarted (operand word)]
  else if OfForms forms word then []
  else [.unknownWord word]

theorem level_remarksOn {word : UInt16} {entry : LogEntry} (told : entry ∈ remarksOn word) :
    entry.level = .debug := by
  unfold remarksOn at told
  split at told
  · cases List.mem_singleton.mp told
    rfl
  · split at told
    · cases told
    · cases List.mem_singleton.mp told
      rfl

namespace Instruction
variable {instruction : Instruction}

theorem form?_eq_awaitKey (waits : instruction.form? = some "Fx0A") : ∃ x, instruction = .awaitKey x := by
  cases instruction with
  | awaitKey x => exact ⟨x,rfl⟩
  | skipIf condition => cases condition <;> simp [form?,Condition.form] at waits
  | calculate calculation x y => cases calculation <;> simp [form?,Calculation.form] at waits
  | _ => simp [form?] at waits

theorem remarks_eq_nil (unparked : ∀ x, instruction ≠ .awaitKey x)
    (known : ∀ word, instruction ≠ .unknown word) : instruction.remarks = [] := by
  cases instruction with
  | awaitKey x => exact absurd rfl (unparked x)
  | unknown word => exact absurd rfl (known word)
  | _ => rfl

theorem remarks_decode (word : UInt16) : (decode word).remarks = remarksOn word := by
  have parks : OfForm "Fx0A" word ↔ (decode word).form? = some "Fx0A" := ofForm_iff (by decide)
  by_cases waits : OfForm "Fx0A" word
  · obtain ⟨x,decoded⟩ := form?_eq_awaitKey (parks.mp waits)
    have named : x = operand word := decode_register (by rw [decoded]; rfl)
    rw [remarksOn,if_pos waits,decoded,named]
    rfl
  · rw [remarksOn,if_neg waits]
    by_cases formed : OfForms forms word
    · rw [if_pos formed]
      refine remarks_eq_nil (fun x decoded => ?_) fun other decoded => ?_
      · exact waits (parks.mpr (congrArg form? decoded))
      · exact unknown_formless (congrArg form? decoded) formed
    · rw [if_neg formed,decode_unknown_iff.mpr formed]
      rfl

/-- The counter is all that a cycle has changed before an instruction loads a timer. -/
theorem loaded_behindWord (machine : Machine) (request : Request) (instruction : Instruction) :
    instruction.loaded (machine.behindWord request).registers
        (machine.behindWord request).registers.timers =
      instruction.loaded machine.registers machine.registers.timers := by
  cases request with
  | step => cases instruction <;> rfl
  | _ => rfl

end Instruction

namespace Machine
variable {machine : Machine} {request : Request}

/-- The timers as the instruction of a request leaves them, before they tick. -/
def loaded (machine : Machine) (request : Request) : Timers :=
  match machine.executed? request with
  | some word => (Instruction.decode word).loaded machine.registers machine.registers.timers
  | none => machine.registers.timers

theorem loaded_executed {word : UInt16} (executes : machine.Executes request word) :
    machine.loaded request =
      (Instruction.decode word).loaded machine.registers machine.registers.timers := by
  simp only [loaded,executed?_eq_some.mpr executes]

theorem loaded_idle (idle : machine.Idle request) :
    machine.loaded request = machine.registers.timers := by
  cases executed : machine.executed? request with
  | none => simp only [loaded,executed]
  | some word => exact absurd (executed?_eq_some.mp executed) (idle word)

theorem Loads.eq_loaded {timers : Timers} (loads : machine.Loads request timers) :
    timers = machine.loaded request := by
  cases loads with
  | delay x executes =>
    rw [loaded_executed executes,Instruction.decode_setDelay.mpr rfl]
    rfl
  | sound x executes =>
    rw [loaded_executed executes,Instruction.decode_setSound.mpr rfl]
    rfl
  | none undelayed unsounded =>
    by_cases idle : machine.Idle request
    · exact (loaded_idle idle).symm
    · obtain ⟨word,executes⟩ := not_forall_not.mp idle
      rw [loaded_executed executes]
      cases decoded : Instruction.decode word with
      | setDelay x => exact absurd (Instruction.decode_setDelay.mp decoded ▸ executes) (undelayed x)
      | setSound x => exact absurd (Instruction.decode_setSound.mp decoded ▸ executes) (unsounded x)
      | _ => rfl

/-- The next word of a machine and where it stands, if the machine runs and can fetch it. -/
def fetched? (machine : Machine) : Option (UInt16 × UInt16) :=
  match machine.activity, machine.fetch.answer with
  | .running, .ok word => some (machine.registers.counter,word)
  | _, _ => none

theorem fetched?_running {word : UInt16} (running : machine.activity = .running)
    (found : machine.memory.readWord machine.registers.counter.toNat = .ok word) :
    machine.fetched? = some (machine.registers.counter,word) := by
  simp only [fetched?,running,fetch_ok found]

theorem fetched?_parked {register : Register} (waiting : machine.activity = .awaitingKey register) :
    machine.fetched? = none := by
  simp only [fetched?,waiting]

theorem fetched?_unreadable {fault : Fault}
    (missing : machine.memory.readWord machine.registers.counter.toNat = .error fault) :
    machine.fetched? = none := by
  simp only [fetched?,fetch_error missing]
  cases machine.activity <;> rfl

theorem fetched?_eq_some {address word : UInt16} :
    machine.fetched? = some (address,word) ↔
      machine.activity = .running ∧ machine.registers.counter.toNat ≤ 0xFFE ∧
        address = machine.registers.counter ∧
        word = machine.memory.wordAt machine.registers.counter.toNat := by
  cases activity : machine.activity with
  | awaitingKey register => simp [fetched?_parked activity]
  | running =>
    cases found : machine.memory.readWord machine.registers.counter.toNat with
    | error fault =>
      obtain ⟨far,_⟩ := Memory.readWord_error_iff.mp found
      have outside : ¬machine.registers.counter.toNat ≤ 0xFFE := by omega
      simp [fetched?_unreadable found,outside]
    | ok other =>
      obtain ⟨near,read⟩ := Memory.readWord_ok_iff.mp found
      have inside : machine.registers.counter.toNat ≤ 0xFFE := by omega
      simp [fetched?_running activity found,inside,read,eq_comm]

def announced (machine : Machine) : List LogEntry :=
  match machine.fetched? with
  | some (address,word) => .executing address word :: remarksOn word
  | none => []

def ticks (machine : Machine) (request : Request) : Bool :=
  machine.completes request || request = .tick

/-- The tick of a request takes the sound timer from one to zero. -/
def Expires (machine : Machine) (request : Request) : Prop :=
  machine.ticks request ∧ (machine.loaded request).sound = 1

instance (machine : Machine) (request : Request) : Decidable (machine.Expires request) :=
  inferInstanceAs (Decidable (_ ∧ _))

theorem serve_timers (machine : Machine) (lasting : ∀ entropy, request ≠ .reset entropy) :
    (machine.serve request).machine.registers.timers =
      if machine.ticks request then (machine.loaded request).tick.1 else machine.loaded request := by
  obtain ⟨timers,loads,left⟩ := (serve_clocked machine lasting).timers
  have same : machine.ticks request ↔ machine.completes request ∨ request = .tick := by simp [ticks]
  rw [left,loads.eq_loaded]
  exact if_congr same.symm rfl rfl

theorem expires_runsOut (lasting : ∀ entropy, request ≠ .reset entropy) :
    machine.Expires request ↔ machine.ticks request ∧ (machine.loaded request).sound = 1 ∧
      (machine.serve request).machine.registers.timers.sound = 0 := by
  constructor
  · rintro ⟨ticks,last⟩
    rw [serve_timers machine lasting,if_pos ticks]
    refine ⟨ticks,last,?_⟩
    change countDown (machine.loaded request).sound = 0
    rw [last]
    rfl
  · rintro ⟨ticks,last,_⟩
    exact ⟨ticks,last⟩

def told (machine : Machine) : List LogEntry :=
  machine.announced ++ if machine.Expires .step then [.soundExpired] else []

theorem execute_log (running : machine.activity = .running) (word : UInt16) :
    (machine.execute word).log =
      .executing (machine.registers.counter - 2) word :: remarksOn word := by
  rw [← Instruction.remarks_decode]
  simp only [execute,running]
  split <;> rfl

theorem countInstruction_log (machine : Machine) :
    machine.countInstruction.log =
      if (machine.settings.drive.advance machine.sinceTick).2 ∧ machine.registers.timers.sound = 1
      then [.soundExpired] else [] := by
  simp only [countInstruction]
  cases (machine.settings.drive.advance machine.sinceTick).2 with
  | false => rfl
  | true => simp [tick,Registers.tick,Timers.tick]

/-- A counted step expires as the count of the machine that its instruction leaves tells it. -/
theorem countInstruction_expires {worked : Machine} (counted : machine.counts .step = true)
    (settings : worked.settings = machine.settings) (sinceTick : worked.sinceTick = machine.sinceTick)
    (timers : worked.registers.timers = machine.loaded .step) :
    worked.countInstruction.log = if machine.Expires .step then [.soundExpired] else [] := by
  have same : machine.ticks .step = (machine.settings.drive.advance machine.sinceTick).2 := by
    simp [ticks,completes,counted]
  rw [countInstruction_log,settings,sinceTick,timers,← same]
  exact if_congr .rfl rfl rfl

theorem not_expires (uncounted : machine.counts .step = false) : ¬machine.Expires .step := by
  simp [Expires,ticks,completes,uncounted]

theorem told_parked {register : Register} (waiting : machine.activity = .awaitingKey register) :
    machine.step.log = machine.told := by
  have counted : machine.counts .step = machine.settings.ticksWhileWaiting := by
    rw [counts_ok (step_parked waiting).1,waiting]
    rfl
  have unloaded := loaded_idle (.of_parked waiting .step)
  have silent : machine.announced = [] := by simp only [announced,fetched?_parked waiting]
  rw [told,silent,List.nil_append]
  cases policy : machine.settings.ticksWhileWaiting with
  | true =>
    rw [← countInstruction_expires (counted.trans policy) rfl rfl unloaded.symm]
    simp only [step,waiting,policy,if_true]
  | false =>
    rw [if_neg (not_expires (counted.trans policy))]
    simp [step,waiting,policy]

theorem told_unreadable {fault : Fault} (running : machine.activity = .running)
    (missing : machine.memory.readWord machine.registers.counter.toNat = .error fault) :
    machine.step.log = machine.told := by
  have silent : machine.announced = [] := by simp only [announced,fetched?_unreadable missing]
  have uncounted := counts_error (step_unreadable running missing).1
  rw [told,silent,if_neg (not_expires uncounted)]
  simp only [step,running,fetch_error missing,List.append_nil]

section Word
variable {word : UInt16} (running : machine.activity = .running)
  (found : machine.memory.readWord machine.registers.counter.toNat = .ok word)
include running found

/-- The address is told behind the fetch, which has moved the counter by then. -/
theorem announced_found :
    ((machine.withRegisters .skip).execute word).log = machine.announced := by
  have runs : (machine.withRegisters .skip).activity = .running := running
  have before : (machine.withRegisters .skip).registers.counter - 2 = machine.registers.counter :=
    UInt16.add_sub_cancel _ _
  rw [execute_log runs,before,announced,fetched?_running running found]

theorem told_executed {after : Machine}
    (applied : (Instruction.decode word).apply (machine.withRegisters .skip) = .ok after) :
    machine.step.log = machine.told := by
  have answer := (step_executed running found applied).1
  have executes : machine.Executes .step word :=
    ⟨running,.inr ⟨rfl,found⟩,_,congrArg (Answer.ofExcept .status) answer⟩
  have timers : after.registers.timers = machine.loaded .step :=
    (Instruction.apply_loaded applied).trans
      ((Instruction.loaded_behindWord machine .step _).trans (loaded_executed executes).symm)
  have frame := Instruction.apply_frame applied
  obtain ⟨done,left⟩ := execute_ok (machine.withRegisters .skip) running applied
  rw [told,← announced_found running found,
    ← countInstruction_expires executes.counts frame.settings frame.sinceTick timers]
  simp only [step,running,fetch_ok found,done,left]

theorem told_refused {fault : Fault}
    (rejected : (Instruction.decode word).apply (machine.withRegisters .skip) = .error fault) :
    machine.step.log = machine.told := by
  have uncounted := counts_error (step_refused running found rejected).1
  obtain ⟨failed,_⟩ := execute_error (machine.withRegisters .skip) running rejected
  rw [told,← announced_found running found,if_neg (not_expires uncounted)]
  simp only [step,running,fetch_ok found,failed,List.append_nil]

end Word

theorem step_log (machine : Machine) : machine.step.log = machine.told := by
  cases machine.step_cases with
  | parked register waiting answer left => exact told_parked waiting
  | unreadable fault running missing answer left => exact told_unreadable running missing
  | refused word fault running found rejected answer left => exact told_refused running found rejected
  | executed word after running found applied answer left => exact told_executed running found applied

/-- Of all that a cycle tells, the name of the word is the only trace. -/
theorem told_traces (machine : Machine) :
    machine.told.filter (·.level = .trace) =
      (machine.fetched?.map fun fetched => .executing fetched.1 fetched.2).toList := by
  have remarks (word : UInt16) : (remarksOn word).filter (·.level = .trace) = [] := by
    refine List.filter_eq_nil_iff.mpr fun entry member => ?_
    simp [level_remarksOn member]
  have expired : [LogEntry.soundExpired].filter (·.level = .trace) = [] := rfl
  have named (address word : UInt16) : (LogEntry.executing address word).level = .trace := rfl
  rw [told,announced,List.filter_append,apply_ite (List.filter _),expired]
  cases machine.fetched? with
  | none => simp
  | some fetched => simp [remarks,named]

theorem traces_flatten (machines : List Machine) :
    (machines.map told).flatten.filter (·.level = .trace) =
      (machines.filterMap fetched?).map fun fetched => .executing fetched.1 fetched.2 := by
  induction machines with
  | nil => rfl
  | cons machine machines ih =>
    rw [List.map_cons,List.flatten_cons,List.filter_append,told_traces,ih,List.filterMap_cons]
    cases machine.fetched? <;> rfl

def stages (machine : Machine) (count : Nat) : List Machine :=
  (List.range count).map fun past => machine.after (List.replicate past .step)

theorem stages_succ (machine : Machine) (count : Nat) :
    machine.stages (count + 1) = machine :: machine.step.machine.stages count := by
  simp only [stages,List.range_succ_eq_map,List.map_cons,List.map_map]
  rfl

theorem replies_steps (machine : Machine) (count : Nat) :
    machine.replies (List.replicate count .step) = (machine.stages count).map (·.serve .step) := by
  induction count generalizing machine with
  | zero => rfl
  | succ count ih =>
    rw [stages_succ,List.map_cons,← ih]
    rfl

/-- The traces of a run are the words that it has fetched, each with the address where it stood, and
nothing else. Behind its trace a cycle tells at most one thing about the word, and then that its tick
has taken the sound timer from one to zero. -/
theorem steps_told (machine : Machine) (count : Nat) :
    let logs := (machine.replies (List.replicate count .step)).map (·.log)
    let stages := machine.stages count
    logs.flatten.filter (·.level = .trace) =
        (stages.filterMap fetched?).map (fun fetched => .executing fetched.1 fetched.2) ∧
      logs = stages.map told ∧
      ∀ stage ∈ stages,
        (∀ address word, stage.fetched? = some (address,word) ↔
          stage.activity = .running ∧ stage.registers.counter.toNat ≤ 0xFFE ∧
            address = stage.registers.counter ∧
            word = stage.memory.wordAt stage.registers.counter.toNat) ∧
        stage.step.machine.registers.timers =
          (if stage.ticks .step then (stage.loaded .step).tick.1 else stage.loaded .step) ∧
        (stage.Expires .step ↔ stage.ticks .step ∧ (stage.loaded .step).sound = 1 ∧
          stage.step.machine.registers.timers.sound = 0) ∧
        ∀ register, stage.activity = .awaitingKey register →
          stage.step.log = if stage.Expires .step then [.soundExpired] else [] := by
  intro logs stages
  have recorded : logs = stages.map told := by
    change (machine.replies _).map _ = _
    rw [replies_steps,List.map_map]
    exact List.map_congr_left fun stage _ => step_log stage
  have lasting (entropy : ChaCha.Key) : Request.step ≠ .reset entropy := nofun
  refine ⟨?_,recorded,fun stage _ => ⟨fun _ _ => fetched?_eq_some,serve_timers stage lasting,
    expires_runsOut lasting,fun register waiting => ?_⟩⟩
  · rw [recorded]
    exact traces_flatten stages
  · rw [step_log,told,announced,fetched?_parked waiting,List.nil_append]

-- The second cycle sets the sound timer, and the tick of the same cycle ends the sound again.
example :
    let machine := (fresh {drive := .everyInstructions 1} (Vector.replicate 8 0)).after
      [.load [0x60,0x01,0xF0,0x18,0xF1,0x0A]]
    (machine.replies (List.replicate 4 .step)).map (·.log) =
      [[.executing 0x200 0x6001],[.executing 0x202 0xF018,.soundExpired],
        [.executing 0x204 0xF10A,.waitStarted 1],[]] := by
  decide +kernel

end Machine

end Chip8
