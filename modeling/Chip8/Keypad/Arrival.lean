import Chip8.LogEntry

/-! Waiting on a source of key events. Events are taken in order until one of
them names a key of the pad, and what comes after it stays in the source. -/
namespace Chip8

structure Arrival (ε : Type) where
  key : Option Key
  remaining : List ε
  log : List LogEntry

def Arrival.await {ε : Type} (map : ε → Option UInt8) : List ε → Arrival ε
  | [] => ⟨none,[],[]⟩
  | event :: events =>
    match map event with
    | none => let later := await map events
              {later with log := .eventUnmapped :: later.log}
    | some code =>
      match Key.ofCode? code with
      | some key => ⟨some key,events,[]⟩
      | none => let later := await map events
                {later with log := .eventOutsidePad code :: later.log}

def Keypad.await {ε : Type} (pad : Keypad) (map : ε → Option UInt8) (events : List ε) :
    Arrival ε × Keypad :=
  let arrival := Arrival.await map events
  (arrival,arrival.key.elim pad (pad.set · true))

end Chip8
