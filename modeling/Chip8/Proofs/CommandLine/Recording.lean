import Chip8.CommandLine.Program

/-! A terminal that keeps a record of what is done on it. The record has one
order for reading and writing together, and keeping it does not change what a
program does. -/
namespace Chip8.CommandLine

inductive Interaction where
  | openFile (path : String)
  | readLine
  | print (line : String)
  | complain (line : String)
deriving DecidableEq

section

variable {m : Type → Type} [Monad m] {α : Type}

def noting (interaction : Interaction) (action : m α) : StateT (List Interaction) m α := fun past => do
  let value ← action
  return (value,past ++ [interaction])

def Terminal.recorded (terminal : Terminal m) : Terminal (StateT (List Interaction) m) where
  readFile path := noting (.openFile path) (terminal.readFile path)
  readLine := noting .readLine terminal.readLine
  print line := noting (.print line) (terminal.print line)
  complain line := noting (.complain line) (terminal.complain line)

/-- Whatever was recorded before, an action does the same as another one that keeps no record. -/
def Erases (noted : StateT (List Interaction) m α) (plain : m α) : Prop :=
  ∀ past, Prod.fst <$> noted.run past = plain

end

section

variable {m : Type → Type} [Monad m] [LawfulMonad m] {α β : Type} (terminal : Terminal m)

theorem erases_pure (value : α) : Erases (m := m) (pure value) (pure value) := fun past => by
  rw [StateT.run_pure,map_pure]

theorem erases_noting (interaction : Interaction) (action : m α) :
    Erases (noting interaction action) action := fun past => by
  simp only [noting,StateT.run,map_bind,map_pure,bind_pure]

theorem Erases.bind {noted : StateT (List Interaction) m α} {plain : m α}
    {notedNext : α → StateT (List Interaction) m β} {plainNext : α → m β} (first : Erases noted plain)
    (next : ∀ value, Erases (notedNext value) (plainNext value)) :
    Erases (noted >>= notedNext) (plain >>= plainNext) := fun past => by
  rw [← first past,StateT.run_bind,map_bind,bind_map_left]
  exact congrArg _ (funext fun reached => next reached.1 reached.2)

theorem erases_converse (cycles : Nat) (machine : Machine) :
    Erases (converse terminal.recorded cycles machine) (converse terminal cycles machine) := by
  induction cycles generalizing machine with
  | zero => exact erases_pure _
  | succ cycles ih =>
    simp only [converse]
    cases machine.step.answer with
    | error fault => exact erases_pure _
    | ok status =>
      cases status with
      | running => exact ih machine.step.machine
      | awaitingKey =>
        refine (erases_noting _ _).bind fun _ => (erases_noting _ _).bind fun read => ?_
        rcases read with _ | line | _
        · exact erases_pure _
        · dsimp only
          cases typeLine machine.step.machine line with
          | error fault => exact erases_pure _
          | ok machine => exact ih machine
        · exact erases_pure _

theorem erases_prints (lines : List String) :
    Erases (lines.forM terminal.recorded.print) (lines.forM terminal.print) := by
  induction lines with
  | nil => exact erases_pure ()
  | cons line lines ih => exact (erases_noting _ _).bind fun _ => ih

theorem erases_fail (diagnostic : String) :
    Erases (fail terminal.recorded diagnostic) (fail terminal diagnostic) :=
  (erases_noting _ _).bind fun _ => erases_pure 1

theorem erases_conclude (machine : Machine) (ending : Ending) :
    Erases (conclude terminal.recorded machine ending) (conclude terminal machine ending) := by
  cases ending with
  | undecodableLine | keyRefused fault => exact erases_fail terminal _
  | fault fault =>
    exact (erases_noting _ _).bind fun _ => (erases_prints terminal _).bind fun _ => erases_fail terminal _
  | cyclesUsed | inputEnded => exact (erases_prints terminal _).bind fun _ => erases_pure 0

theorem erases_play (entropy : ChaCha.Key) (program : List UInt8) (cycles : Nat) :
    Erases (play terminal.recorded entropy program cycles) (play terminal entropy program cycles) := by
  unfold play
  dsimp only
  cases ((Machine.fresh settings entropy).load program).answer with
  | error fault => exact erases_fail terminal _
  | ok => exact (erases_converse terminal cycles _).bind fun talked => erases_conclude terminal _ _

/-- The program does on a terminal with a record what it does on one without. -/
theorem erases_run (entropy : ChaCha.Key) (arguments : List String) :
    Erases (run terminal.recorded entropy arguments) (run terminal entropy arguments) := by
  unfold run
  cases readArguments arguments with
  | none => exact (erases_noting _ _).bind fun _ => erases_pure 0
  | some asked =>
    obtain ⟨path,error | cycles⟩ := asked
    · exact erases_fail terminal _
    · refine (erases_noting _ _).bind fun read => ?_
      cases read with
      | error error => exact erases_fail terminal _
      | ok program => exact erases_play terminal entropy program cycles

end

namespace Interaction

def printed? : Interaction → Option String
  | .print line => some line
  | _ => none

def complained? : Interaction → Option String
  | .complain line => some line
  | _ => none

end Interaction

namespace Transcript

/-- A transcript behind a record, but for what the opening of a file has taken of the input. -/
def after (transcript : Transcript) (record : List Interaction) : Transcript where
  input := transcript.input.drop (record.count .readLine)
  printed := transcript.printed ++ record.filterMap Interaction.printed?
  complaints := transcript.complaints ++ record.filterMap Interaction.complained?

@[simp] theorem after_nil (transcript : Transcript) : transcript.after [] = transcript := by
  simp [after]

theorem after_append (transcript : Transcript) (first second : List Interaction) :
    transcript.after (first ++ second) = (transcript.after first).after second := by
  simp [after,List.filterMap_append]

theorem recorded_readFile {files : String → Except FileError FileContent} (path : String)
    (past : List Interaction) (transcript : Transcript) :
    (((terminal files).recorded.readFile path).run past).run transcript =
      let read := ((terminal files).readFile path).run transcript
      pure ((read.1,past ++ [.openFile path]),read.2) := rfl

end Transcript

section
variable {files : String → Except FileError FileContent} {transcript : Transcript} {α β : Type}

/-- Whatever was recorded before, an action gives a value and adds a record, and the transcript is
left as the record says. -/
def Records (action : StateT (List Interaction) (StateM Transcript) α) (transcript : Transcript)
    (value : α) (record : List Interaction) : Prop :=
  ∀ past, (action.run past).run transcript = ((value,past ++ record),transcript.after record)

theorem records_pure (transcript : Transcript) (value : α) : Records (pure value) transcript value [] := by
  intro past
  rw [List.append_nil,Transcript.after_nil]
  rfl

theorem Records.bind {first : StateT (List Interaction) (StateM Transcript) α}
    {next : α → StateT (List Interaction) (StateM Transcript) β} {value : α} {reached : β}
    {before behind : List Interaction} (begins : Records first transcript value before)
    (goes : Records (next value) (transcript.after before) reached behind) :
    Records (first >>= next) transcript reached (before ++ behind) := by
  intro past
  rw [StateT.run_bind,StateT.run_bind,begins past,← List.append_assoc,Transcript.after_append]
  exact goes (past ++ before)

theorem records_print (line : String) (transcript : Transcript) :
    Records ((Transcript.terminal files).recorded.print line) transcript () [.print line] := by
  intro past
  change _ = (_,Transcript.mk transcript.input _ (transcript.complaints ++ []))
  rw [List.append_nil]
  rfl

theorem records_complain (line : String) (transcript : Transcript) :
    Records ((Transcript.terminal files).recorded.complain line) transcript () [.complain line] := by
  intro past
  change _ = (_,Transcript.mk transcript.input (transcript.printed ++ []) _)
  rw [List.append_nil]
  rfl

theorem records_readLine (transcript : Transcript) :
    Records (Transcript.terminal files).recorded.readLine transcript
      (transcript.input.head?.map .ofBytes) [.readLine] := by
  intro past
  change _ = (_,Transcript.mk (transcript.input.drop 1) (transcript.printed ++ [])
    (transcript.complaints ++ []))
  rw [List.append_nil,List.append_nil,List.drop_one]
  rfl

theorem records_prints (lines : List String) (transcript : Transcript) :
    Records (lines.forM (Transcript.terminal files).recorded.print) transcript ()
      (lines.map .print) := by
  induction lines generalizing transcript with
  | nil => exact records_pure transcript ()
  | cons line lines ih => exact (records_print line transcript).bind (ih _)

end

end Chip8.CommandLine
