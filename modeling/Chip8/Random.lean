/-! The source of random bytes: a ChaCha key and a position in its stream of
words. The ChaCha function has twenty rounds here, and a key of eight words and
a block counter determine sixteen words. A seed of sixty-four bits is stretched
to a key by a linear congruential generator whose state passes through a
rotation that the state itself chooses. -/
namespace Chip8

namespace ChaCha

abbrev Key := Vector UInt32 8

abbrev State := Vector UInt32 16

def rotateLeft (word amount : UInt32) : UInt32 := word <<< amount ||| word >>> (32 - amount)

def mix (target source mixed : Fin 16) (amount : UInt32) (state : State) : State :=
  let sum := state[target] + state[source]
  let state := state.set target sum
  state.set mixed (rotateLeft (state[mixed] ^^^ sum) amount)

def quarterRound (a b c d : Fin 16) (state : State) : State :=
  mix c d b 7 (mix a b d 8 (mix c d b 12 (mix a b d 16 state)))

def doubleRound (state : State) : State :=
  let columns := quarterRound 3 7 11 15 (quarterRound 2 6 10 14
    (quarterRound 1 5 9 13 (quarterRound 0 4 8 12 state)))
  quarterRound 3 4 9 14 (quarterRound 2 7 8 13 (quarterRound 1 6 11 12
    (quarterRound 0 5 10 15 columns)))

def initialState (key : Key) (counter : UInt64) : State :=
  #v[0x61707865,0x3320646E,0x79622D32,0x6B206574,
    key[0],key[1],key[2],key[3],key[4],key[5],key[6],key[7],
    counter.toUInt32,(counter >>> 32).toUInt32,0,0]

def block (key : Key) (counter : UInt64) : State :=
  let start := initialState key counter
  Vector.zipWith (· + ·) start (Nat.repeat doubleRound 10 start)

def word (key : Key) (position : Nat) : UInt32 :=
  (block key (UInt64.ofNat (position / 16)))[position % 16]

end ChaCha

def advanceSeed (state : UInt64) : UInt64 :=
  state * 6364136223846793005 + 11634580027462260723

def seedWord (state : UInt64) : UInt32 :=
  let folded := ((state >>> 18 ^^^ state) >>> 27).toUInt32
  let amount := (state >>> 59).toUInt32
  folded >>> amount ||| folded <<< (32 - amount)

structure RandomSource where
  key : ChaCha.Key
  position : Nat
deriving DecidableEq

namespace RandomSource

def ofKey (key : ChaCha.Key) : RandomSource := ⟨key,0⟩

def ofSeed (seed : UInt64) : RandomSource :=
  ofKey (Vector.ofFn fun place : Fin 8 => seedWord (Nat.repeat advanceSeed (place + 1) seed))

def next (source : RandomSource) : UInt8 × RandomSource :=
  ((ChaCha.word source.key source.position).toUInt8,{source with position := source.position + 1})

end RandomSource

end Chip8
