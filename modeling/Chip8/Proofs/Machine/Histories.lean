import Chip8.Proofs.Instruction.Forms
import Chip8.Proofs.Machine.Requests

/-! The words that histories execute. Which word a request executes can be
computed, and so can whether a history executes a word of some form. -/
namespace Chip8.Machine
variable {machine : Machine} {request : Request}

def executed? (machine : Machine) (request : Request) : Option UInt16 :=
  if machine.activity = .running then
    match request with
    | .execute word => if (machine.execute word).answer.isOk then some word else none
    | .step => if machine.step.answer.isOk
        then (machine.memory.readWord machine.registers.counter.toNat).toOption else none
    | _ => none
  else none

theorem isOk_iff_status {result : Except Fault Status} :
    result.isOk = true ↔ ∃ status, Answer.ofExcept .status result = .status status := by
  cases result with
  | ok status => exact ⟨fun _ => ⟨status,rfl⟩,fun _ => rfl⟩
  | error fault => exact ⟨nofun,nofun⟩

theorem executed?_eq_some {word : UInt16} :
    machine.executed? request = some word ↔ machine.Executes request word := by
  constructor
  · intro executed
    unfold executed? at executed
    split at executed
    case isFalse => cases executed
    case isTrue running =>
      cases request with
      | execute other =>
        dsimp only at executed
        split at executed
        case isFalse => cases executed
        case isTrue accepted =>
          cases executed
          exact ⟨running,.inl rfl,isOk_iff_status.mp accepted⟩
      | step =>
        dsimp only at executed
        split at executed
        case isFalse => cases executed
        case isTrue accepted =>
          cases found : machine.memory.readWord machine.registers.counter.toNat with
          | error fault =>
            rw [found] at executed
            cases executed
          | ok other =>
            rw [found] at executed
            cases executed
            exact ⟨running,.inr ⟨rfl,found⟩,isOk_iff_status.mp accepted⟩
      | _ => cases executed
  · rintro ⟨running,taken,accepted⟩
    unfold executed?
    rw [if_pos running]
    rcases taken with rfl | ⟨rfl,found⟩
    · exact if_pos (isOk_iff_status.mpr accepted)
    · dsimp only
      rw [found]
      exact if_pos (isOk_iff_status.mpr accepted)

def Avoids (form : String) (machine : Machine) : List Request → Prop
  | [] => True
  | request :: history => (∀ word, machine.Executes request word → ¬OfForm form word) ∧
    (machine.serve request).machine.Avoids form history

theorem Avoids.of_append {form : String} {past rest : List Request}
    (avoids : machine.Avoids form (past ++ rest)) : machine.Avoids form past := by
  induction past generalizing machine with
  | nil => trivial
  | cons request past ih => exact ⟨avoids.1,ih avoids.2⟩

theorem Avoids.behind {form : String} {past rest : List Request}
    (avoids : machine.Avoids form (past ++ rest)) : (machine.after past).Avoids form rest := by
  induction past generalizing machine with
  | nil => exact avoids
  | cons request past ih => exact ih avoids.2

-- The instance is named, since all words together are finite, too, and would be tried one by one.
instance (form : String) (machine : Machine) (request : Request) :
    Decidable (∀ word, machine.Executes request word → ¬OfForm form word) :=
  have : Decidable (∀ word ∈ machine.executed? request, ¬OfForm form word) :=
    Option.decidableForallMem _
  decidable_of_iff _ (forall_congr' fun _ => imp_congr_left executed?_eq_some)

instance Avoids.decidable (form : String) (machine : Machine) :
    (history : List Request) → Decidable (machine.Avoids form history)
  | [] => .isTrue trivial
  | request :: history =>
    have := Avoids.decidable form (machine.serve request).machine history
    inferInstanceAs (Decidable (_ ∧ _))

/-- Every request of a history finds its machine so that `holds` is true of the two. -/
def Throughout (holds : Machine → Request → Prop) (machine : Machine) : List Request → Prop
  | [] => True
  | request :: history => holds machine request ∧ (machine.serve request).machine.Throughout holds history

instance Throughout.decidable {holds : Machine → Request → Prop}
    [∀ machine request, Decidable (holds machine request)] (machine : Machine) :
    (history : List Request) → Decidable (machine.Throughout holds history)
  | [] => .isTrue trivial
  | request :: history =>
    have : Decidable ((machine.serve request).machine.Throughout holds history) :=
      Throughout.decidable (machine.serve request).machine history
    inferInstanceAs (Decidable (_ ∧ _))

theorem Throughout.append {holds : Machine → Request → Prop} {past rest : List Request}
    (former : machine.Throughout holds past) (latter : (machine.after past).Throughout holds rest) :
    machine.Throughout holds (past ++ rest) := by
  induction past generalizing machine with
  | nil => exact latter
  | cons request past ih => exact ⟨former.1,ih former.2 latter⟩

def account {σ : Type} (note : Machine → Request → σ → σ) (machine : Machine) (start : σ) :
    List Request → σ
  | [] => start
  | request :: history =>
    (machine.serve request).machine.account note (note machine request start) history

theorem account_invariant {σ : Type} {note : Machine → Request → σ → σ} {holds : Machine → σ → Prop}
    {start : σ} (history : List Request) (first : holds machine start)
    (kept : ∀ machine request noted, holds machine noted →
      holds (machine.serve request).machine (note machine request noted)) :
    holds (machine.after history) (machine.account note start history) := by
  induction history generalizing machine start with
  | nil => exact first
  | cons request history ih => exact ih (kept machine request start first)

theorem after_invariant {holds : Machine → Prop} {history : List Request} (first : holds machine)
    (kept : ∀ machine, ∀ request ∈ history, holds machine → holds (machine.serve request).machine) :
    holds (machine.after history) := by
  induction history generalizing machine with
  | nil => exact first
  | cons request history ih =>
    refine ih (kept machine request List.mem_cons_self first) fun machine other member => ?_
    exact kept machine other (List.mem_cons_of_mem request member)

end Chip8.Machine
