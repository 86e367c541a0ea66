import Chip8.Proofs.Device.Refinement
import Chip8.Proofs.Machine.Refusal

/-! A refused request changes nothing. A machine refuses before it changes,
and a device undoes what it has done by then. -/
namespace Chip8
open Routine

namespace Device

theorem ofAnswer_eq_refused {σ : Type} {state left : σ} {answer : Answer} {fault : Fault}
    (refused : Outcome.ofAnswer state answer = .refused fault left) : answer = .fault fault ∧ left = state := by
  cases answer with
  | fault reason =>
    cases refused
    exact ⟨rfl,rfl⟩
  | _ => cases refused

/-- Wherever a history has brought a device and the machine, a fault leaves both as they were. -/
theorem refused_unchanged (settings : Settings) (entropy : ChaCha.Key) (history : List Request)
    (request : Request) {device left : Device} {fault : Fault}
    (reached : (fresh settings entropy).after history = some device)
    (refused : (serve request).run device = .refused fault left) :
    left = device ∧
      let machine := (Machine.fresh settings entropy).after history
      (machine.serve request).answer = .fault fault ∧ (machine.serve request).machine = machine := by
  let machine := (Machine.fresh settings entropy).after history
  have counted : machine.Counted := (Machine.fresh_counted settings entropy).after history
  have same : device = machine.onDevice := after_eq _ (Machine.fresh_counted settings entropy) history reached
  rw [same] at refused ⊢
  rcases serve_run_or_crashed machine counted request with served | crashed
  · rw [served] at refused
    obtain ⟨answered,stays⟩ := ofAnswer_eq_refused refused
    have unchanged := Machine.serve_fault answered
    rw [unchanged] at stays
    exact ⟨stays,answered,unchanged⟩
  · rw [crashed] at refused
    cases refused

/-- The cycle has read a word and moved the counter when the stack turns out to be empty. -/
theorem refused_return : ∃ device,
    (fresh {} (Vector.replicate 8 0)).after [.load [0x00,0xEE]] = some device ∧
      (serve .step).run device = .refused .stackUnderflow device := by
  let machine := (Machine.fresh {} (Vector.replicate 8 0)).after [.load [0x00,0xEE]]
  have counted : machine.Counted := (Machine.fresh_counted {} (Vector.replicate 8 0)).after _
  have reached := after_run (Machine.fresh {} (Vector.replicate 8 0)) (Machine.fresh_counted _ _)
    [.load [0x00,0xEE]] (by decide)
  have answered : (machine.serve .step).answer = .fault .stackUnderflow := by decide +kernel
  have refused := serve_run machine counted .step trivial
  rw [answered] at refused
  obtain ⟨unchanged,_⟩ := refused_unchanged {} (Vector.replicate 8 0) [.load [0x00,0xEE]] .step reached refused
  exact ⟨machine.onDevice,reached,refused.trans (congrArg _ unchanged)⟩

end Device

end Chip8
