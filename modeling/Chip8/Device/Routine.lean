import Chip8.Fault
import Mathlib.Algebra.Group.Nat.Defs

/-! Routines that work on a state in place. Numbers have a fixed width and
arrays a fixed length, and what does not fit is a crash, so that a routine
says by its outcome whether all of its sums and indices were sound. -/
namespace Chip8

/-- How a routine ends. A refusal keeps what the routine has done to the state until then, and a
crash keeps nothing. -/
inductive Outcome (σ α : Type) where
  | done (value : α) (state : σ)
  | refused (fault : Fault) (state : σ)
  | crashed
deriving DecidableEq

def Outcome.bind {σ α β : Type} : Outcome σ α → (α → σ → Outcome σ β) → Outcome σ β
  | .done value state, next => next value state
  | .refused fault state, _ => .refused fault state
  | .crashed, _ => .crashed

@[ext] structure Routine (σ α : Type) where
  run : σ → Outcome σ α

namespace Routine
variable {σ τ α β : Type}

instance : Monad (Routine σ) where
  pure value := ⟨fun state => .done value state⟩
  bind first next := ⟨fun state => (first.run state).bind fun value => (next value).run⟩

theorem run_bind (first : Routine σ α) (next : α → Routine σ β) (state : σ) :
    (first >>= next).run state = (first.run state).bind fun value => (next value).run := rfl

instance : LawfulMonad (Routine σ) := LawfulMonad.mk' (Routine σ)
  (fun routine => by
    ext state : 2
    change (routine.run state).bind .done = routine.run state
    cases routine.run state <;> rfl)
  (fun _ _ => rfl)
  (fun first next last => by
    ext state : 2
    simp only [run_bind]
    cases first.run state <;> rfl)

def look (view : σ → α) : Routine σ α := ⟨fun state => .done (view state) state⟩

def alter (change : σ → σ) : Routine σ Unit := ⟨fun state => .done () (change state)⟩

def refuse (fault : Fault) : Routine σ α := ⟨fun state => .refused fault state⟩

def demand (value : Option α) : Routine σ α := ⟨fun state =>
  match value with
  | some value => .done value state
  | none => .crashed⟩

def sum (bits a b : Nat) : Routine σ Nat :=
  demand (if a + b < 2 ^ bits then some (a + b) else none)

def product (bits a b : Nat) : Routine σ Nat :=
  demand (if a * b < 2 ^ bits then some (a * b) else none)

def difference (a b : Nat) : Routine σ Nat :=
  demand (if b ≤ a then some (a - b) else none)

def cell {n : Nat} (array : Vector α n) (index : Nat) : Routine σ α := demand array[index]?

def overwrite {n : Nat} (array : Vector α n) (index : Nat) (value : α) : Routine σ (Vector α n) :=
  demand (if inside : index < n then some (array.set index value) else none)

def upTo {n : Nat} (array : Vector α n) (finish : Nat) : Routine σ (List α) :=
  demand (if finish ≤ n then some (array.toList.take finish) else none)

def on (view : σ → τ) (put : σ → τ → σ) (routine : Routine τ α) : Routine σ α := ⟨fun state =>
  match routine.run (view state) with
  | .done value part => .done value (put state part)
  | .refused fault part => .refused fault (put state part)
  | .crashed => .crashed⟩

def mending (routine : Routine σ α) (mend : σ → σ) : Routine σ α := ⟨fun state =>
  match routine.run state with
  | .refused fault left => .refused fault (mend left)
  | outcome => outcome⟩

@[simp] theorem run_pure (value : α) (state : σ) :
    (pure value : Routine σ α).run state = .done value state := rfl

@[simp] theorem run_look (view : σ → α) (state : σ) :
    (look view).run state = .done (view state) state := rfl

@[simp] theorem run_alter (change : σ → σ) (state : σ) :
    (alter change).run state = .done () (change state) := rfl

@[simp] theorem run_refuse (fault : Fault) (state : σ) :
    (refuse fault : Routine σ α).run state = .refused fault state := rfl

@[simp] theorem run_demand (value : α) (state : σ) :
    (demand (some value)).run state = .done value state := rfl

@[simp] theorem run_ite (condition : Prop) [Decidable condition] (first second : Routine σ α)
    (state : σ) :
    (if condition then first else second).run state =
      if condition then first.run state else second.run state := by
  split <;> rfl

@[simp] theorem bind_look (view : σ → α) (next : α → Routine σ β) (state : σ) :
    (look view >>= next).run state = (next (view state)).run state := rfl

@[simp] theorem bind_alter (change : σ → σ) (next : Unit → Routine σ β) (state : σ) :
    (alter change >>= next).run state = (next ()).run (change state) := rfl

@[simp] theorem bind_demand (value : α) (next : α → Routine σ β) (state : σ) :
    (demand (some value) >>= next).run state = (next value).run state := rfl

section Bind
variable {first : Routine σ α} {next : α → Routine σ β} {state left : σ}

theorem bind_done {value : α} (done : first.run state = .done value left) :
    (first >>= next).run state = (next value).run left := by
  rw [run_bind,done]
  rfl

theorem bind_refused {fault : Fault} (refused : first.run state = .refused fault left) :
    (first >>= next).run state = .refused fault left := by
  rw [run_bind,refused]
  rfl

theorem bind_crashed (crashed : first.run state = .crashed) :
    (first >>= next).run state = .crashed := by
  rw [run_bind,crashed]
  rfl

end Bind

section On
variable {view : σ → τ} {put : σ → τ → σ} {routine : Routine τ α} {state : σ} {part : τ}

theorem on_done {value : α} (done : routine.run (view state) = .done value part) :
    (on view put routine).run state = .done value (put state part) := by
  simp only [on,done]

theorem on_refused {fault : Fault} (refused : routine.run (view state) = .refused fault part) :
    (on view put routine).run state = .refused fault (put state part) := by
  simp only [on,refused]

theorem on_crashed (crashed : routine.run (view state) = .crashed) :
    (on view put routine).run state = .crashed := by
  simp only [on,crashed]

end On

theorem mending_done {routine : Routine σ α} {mend : σ → σ} {value : α} {state left : σ}
    (done : routine.run state = .done value left) :
    (routine.mending mend).run state = .done value left := by
  simp only [mending,done]

theorem mending_refused {routine : Routine σ α} {mend : σ → σ} {fault : Fault} {state left : σ}
    (refused : routine.run state = .refused fault left) :
    (routine.mending mend).run state = .refused fault (mend left) := by
  simp only [mending,refused]

theorem mapM_run {routine : β → Routine σ α} {value : β → α} {state : σ} (places : List β)
    (each : ∀ place ∈ places, (routine place).run state = .done (value place) state) :
    (places.mapM routine).run state = .done (places.map value) state := by
  induction places with
  | nil => rfl
  | cons place places ih =>
    have first := each place (by simp)
    have others := ih fun other member => each other (by simp [member])
    rw [List.mapM_cons,bind_done first,bind_done others]
    rfl

/-- A loop over the first numbers goes through the states that its turns lead through. -/
theorem forM_range_run {routine : Nat → Routine σ Unit} {reached : Nat → σ} (count : Nat)
    (each : ∀ place < count, (routine place).run (reached place) = .done () (reached (place + 1))) :
    ((List.range count).forM routine).run (reached 0) = .done () (reached count) := by
  induction count with
  | zero => rfl
  | succ count ih =>
    have before := ih fun place below => each place (by omega)
    rw [List.range_succ]
    change (forM (List.range count ++ [count]) routine).run (reached 0) = _
    rw [List.forM_append]
    refine (bind_done before).trans ?_
    exact bind_done (each count (by omega))

theorem sum_fits {bits a b : Nat} (fits : a + b < 2 ^ bits) :
    (sum bits a b : Routine σ Nat) = demand (some (a + b)) := by
  rw [sum,if_pos fits]

theorem product_fits {bits a b : Nat} (fits : a * b < 2 ^ bits) :
    (product bits a b : Routine σ Nat) = demand (some (a * b)) := by
  rw [product,if_pos fits]

theorem difference_fits {a b : Nat} (fits : b ≤ a) :
    (difference a b : Routine σ Nat) = demand (some (a - b)) := by
  rw [difference,if_pos fits]

theorem cell_inside {n index : Nat} (array : Vector α n) (inside : index < n) :
    (cell array index : Routine σ α) = demand (some array[index]) := by
  rw [cell,Vector.getElem?_eq_getElem inside]

theorem overwrite_inside {n index : Nat} (array : Vector α n) (value : α) (inside : index < n) :
    (overwrite array index value : Routine σ (Vector α n)) =
      demand (some (array.set index value)) := by
  rw [overwrite,dif_pos inside]

theorem upTo_inside {n finish : Nat} (array : Vector α n) (inside : finish ≤ n) :
    (upTo array finish : Routine σ (List α)) = demand (some (array.toList.take finish)) := by
  rw [upTo,if_pos inside]

end Routine

end Chip8
