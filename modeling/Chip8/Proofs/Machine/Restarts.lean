import Chip8.Proofs.Machine.Requests

/-! A machine behind a reset. Its settings are those that it was built with, and
if they name a seed nothing tells it from a new machine, whatever it has been
asked before and whatever it is asked later. -/
namespace Chip8

def Request.bare : Request → Request
  | .reset _ => .reset (Vector.replicate 8 0)
  | request => request

namespace Machine
variable {machine : Machine} {seed : UInt64}

theorem fresh_seeded {settings : Settings} (seeded : settings.seed = some seed)
    (first second : ChaCha.Key) : fresh settings first = fresh settings second := by
  simp only [fresh,seeded]

theorem serve_bare (seeded : machine.settings.seed = some seed) (request : Request) :
    machine.serve request.bare = machine.serve request := by
  cases request with
  | reset entropy =>
    exact congrArg (fun machine => Reply.mk Answer.done machine []) (fresh_seeded seeded _ entropy)
  | _ => rfl

theorem replies_bare (seeded : machine.settings.seed = some seed) (history : List Request) :
    machine.replies (history.map Request.bare) = machine.replies history := by
  induction history generalizing machine with
  | nil => rfl
  | cons request history ih =>
    have same := serve_bare seeded request
    have settings := (serve_counting machine request).settings
    have later := ih (settings ▸ seeded)
    simp only [List.map_cons,replies,same,later]

theorem after_bare (seeded : machine.settings.seed = some seed) (history : List Request) :
    machine.after (history.map Request.bare) = machine.after history := by
  induction history generalizing machine with
  | nil => rfl
  | cons request history ih =>
    have same := congrArg Reply.machine (serve_bare seeded request)
    have settings := (serve_counting machine request).settings
    change ((machine.serve request.bare).machine).after (history.map Request.bare) = _
    rw [same]
    exact ih (settings ▸ seeded)

/-- The entropy of resets is no part of what a machine with a seed replies. -/
theorem replies_of_bare (seeded : machine.settings.seed = some seed) {history other : List Request}
    (alike : history.map Request.bare = other.map Request.bare) :
    machine.replies history = machine.replies other := by
  rw [← replies_bare seeded history,← replies_bare seeded other,alike]

theorem after_reset (machine : Machine) (history : List Request) (entropy : ChaCha.Key) :
    machine.after (history ++ [.reset entropy]) = fresh machine.settings entropy := by
  rw [after_singleton,← after_settings machine history]
  rfl

/-- Nothing survives a reset of a machine with a seed. Whatever has been asked of it before, it is in
all of its parts a machine newly built with the same settings, which no request has changed, and it
replies to all later requests as that one does, machine by machine. -/
theorem reset_erases (settings : Settings) (seeded : settings.seed = some seed)
    (first second third : ChaCha.Key) (past future again : List Request)
    (alike : future.map Request.bare = again.map Request.bare) :
    let restarted := (fresh settings first).after (past ++ [.reset second])
    (∀ done, done <+: past → ((fresh settings first).after done).settings = settings) ∧
      restarted = fresh settings third ∧
      restarted.replies future = (fresh settings third).replies again := by
  intro restarted
  have new : restarted = fresh settings third :=
    (after_reset _ past second).trans (fresh_seeded seeded second third)
  refine ⟨fun done _ => after_settings _ done,new,?_⟩
  rw [new]
  exact replies_of_bare seeded alike

/-- A machine that is reset while it waits for a key, with a key held down, a byte written and a random
byte drawn. -/
theorem reset_erases_waiting :
    let settings : Settings := {drive := .everyInstructions 3,seed := some 7}
    let past : List Request := [.load [0xC0,0xFF,0xF0,0x55,0xF1,0x0A],.press 5,.step,.step,.step]
    let future : List Request := [.load [0xC0,0xFF],.step,.reset (Vector.replicate 8 1),.execute 0xC0FF]
    let new := fresh settings (Vector.replicate 8 2)
    let restarted := (fresh settings (Vector.replicate 8 0)).after (past ++ [.reset (Vector.replicate 8 3)])
    (fresh settings (Vector.replicate 8 0)).after past ≠ new ∧
      restarted = new ∧ restarted.replies future = new.replies future := by
  intro settings past future new restarted
  obtain ⟨_,same,replies⟩ := reset_erases settings rfl (Vector.replicate 8 0) (Vector.replicate 8 3)
    (Vector.replicate 8 2) past future future rfl
  exact ⟨by decide +kernel,same,replies⟩

end Machine

end Chip8
