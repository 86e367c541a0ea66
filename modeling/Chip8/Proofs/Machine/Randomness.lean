import Chip8.Proofs.Machine.Histories
import Chip8.Proofs.Machine.Parts

/-! The random bytes of a seed, and who takes them. Every random instruction
that is executed takes the next byte, and nothing else moves the source. -/
namespace Chip8

/-- The bytes that a seed gives, one after the other: the low byte of each word of its key. -/
def RandomSource.stream (seed : UInt64) (place : Nat) : UInt8 :=
  UInt8.ofNat ((ChaCha.word (ofSeed seed).key place).toNat % 256)

theorem RandomSource.next_stream (seed : UInt64) (place : Nat) :
    (⟨(ofSeed seed).key,place⟩ : RandomSource).next =
      (stream seed place,⟨(ofSeed seed).key,place + 1⟩) := by
  refine Prod.ext (UInt8.toNat_inj.mp ?_) rfl
  rw [stream,UInt8.toNat_ofNat',Nat.mod_mod]
  exact UInt32.toNat_toUInt8 _

theorem Instruction.decode_random {word : UInt16} (drawing : OfForm "Cxkk" word) :
    decode word = .random (operand word) word.toUInt8 := by
  have family : word.toNat / 4096 = 0xC := by simpa [OfForm,digits,fixedDigit?] using drawing
  simp only [decode,family]
  rw [operand_eq]

namespace Machine
variable {machine : Machine} {request : Request}

def draws (machine : Machine) (request : Request) : Bool :=
  (machine.executed? request).any fun word => OfForm "Cxkk" word

def countDraw (machine : Machine) (request : Request) (count : Nat) : Nat :=
  match request with
  | .reset _ => 0
  | request => count + (machine.draws request).toNat

def drawn (machine : Machine) (history : List Request) : Nat :=
  machine.account countDraw 0 history

theorem draws_of_executes {word : UInt16} (executes : machine.Executes request word) :
    machine.draws request = decide (OfForm "Cxkk" word) := by
  rw [draws,executed?_eq_some.mpr executes]
  rfl

theorem draws_eq_false (undrawn : ∀ word, machine.Executes request word → ¬OfForm "Cxkk" word) :
    machine.draws request = false := by
  cases executed : machine.executed? request with
  | none =>
    rw [draws,executed]
    rfl
  | some word =>
    have executes := executed?_eq_some.mp executed
    rw [draws_of_executes executes]
    exact decide_eq_false (undrawn word executes)

/-- A random instruction takes the next byte and leaves it in its register under its mask. -/
theorem serve_random {word : UInt16} (executes : machine.Executes request word)
    (drawing : OfForm "Cxkk" word) :
    (machine.serve request).machine.random = machine.random.next.2 ∧
      (machine.serve request).machine.registers.get (operand word) =
        machine.random.next.1 &&& word.toUInt8 := by
  obtain ⟨after,applied,left⟩ := executes.applied
  rw [Instruction.decode_random drawing] at applied
  have source : Part.random.Same machine (machine.behindWord request) :=
    Part.same_behindWord machine request (by decide)
  have moved : Part.random.Same after (after.concluded request) :=
    Part.same_concluded after request (by decide)
  have kept : (Part.general (operand word)).Same after (after.concluded request) :=
    Part.same_concluded after request (by simp [Part.timing])
  cases applied
  simp only [Part.Same] at source moved kept
  rw [left,moved,kept,source]
  simp [RandomSource.next]

theorem serve_undrawn (lasting : ∀ entropy, request ≠ .reset entropy)
    (undrawn : ∀ word, machine.Executes request word → ¬OfForm "Cxkk" word) :
    (machine.serve request).machine.random = machine.random := by
  cases machine.serve_cases request with
  | executed word after executes applied left =>
    have spared : ¬MayWrite word .random := by
      simpa [MayWrite,OfForms] using undrawn word executes
    exact executes.same spared (by decide) (by decide)
  | parked asked register waiting left =>
    rw [left]
    split
    · rw [countInstruction_machine]
    · rfl
  | ticked asked =>
    subst asked
    rfl
  | restarted entropy asked => exact absurd asked (lasting entropy)
  | aside idle kept => exact kept.random

theorem countDraw_lasting (lasting : ∀ entropy, request ≠ .reset entropy) (count : Nat) :
    machine.countDraw request count = count + (machine.draws request).toNat := by
  cases request with
  | reset entropy => exact absurd rfl (lasting entropy)
  | _ => rfl

theorem fresh_random {settings : Settings} {seed : UInt64} (seeded : settings.seed = some seed)
    (entropy : ChaCha.Key) : (fresh settings entropy).random = .ofSeed seed := by
  simp only [fresh,seeded]

structure Drawn (seed : UInt64) (machine : Machine) (count : Nat) : Prop where
  seeded : machine.settings.seed = some seed
  random : machine.random = ⟨(RandomSource.ofSeed seed).key,count⟩

theorem fresh_drawn {settings : Settings} {seed : UInt64} (seeded : settings.seed = some seed)
    (entropy : ChaCha.Key) : Drawn seed (fresh settings entropy) 0 :=
  ⟨seeded,fresh_random seeded entropy⟩

theorem Drawn.serve {seed : UInt64} {count : Nat} (drawn : Drawn seed machine count)
    (request : Request) :
    Drawn seed (machine.serve request).machine (machine.countDraw request count) := by
  have seeded : (machine.serve request).machine.settings.seed = some seed := by
    rw [(serve_counting machine request).settings]
    exact drawn.seeded
  by_cases restarts : ∃ entropy, request = .reset entropy
  · obtain ⟨entropy,rfl⟩ := restarts
    exact ⟨seeded,fresh_random drawn.seeded entropy⟩
  · have lasting (entropy : ChaCha.Key) : request ≠ .reset entropy := fun same => restarts ⟨entropy,same⟩
    refine ⟨seeded,?_⟩
    rw [countDraw_lasting lasting]
    by_cases draws : ∃ word, machine.Executes request word ∧ OfForm "Cxkk" word
    · obtain ⟨word,executes,drawing⟩ := draws
      rw [draws_of_executes executes,(serve_random executes drawing).1,drawn.random]
      simp [drawing,RandomSource.next]
    · have undrawn (word : UInt16) (executes : machine.Executes request word) : ¬OfForm "Cxkk" word :=
        fun drawing => draws ⟨word,executes,drawing⟩
      rw [serve_undrawn lasting undrawn,drawn.random,draws_eq_false undrawn]
      rfl

/-- The random instruction that is executed behind `count` others since the last reset sets its
register to byte `count` of the seed, under its mask. Nothing but such an instruction and a reset
moves the source. -/
theorem random_stream (settings : Settings) (seed : UInt64) (seeded : settings.seed = some seed)
    (entropy : ChaCha.Key) (history : List Request) :
    let machine := (fresh settings entropy).after history
    let count := (fresh settings entropy).drawn history
    machine.random = ⟨(RandomSource.ofSeed seed).key,count⟩ ∧
    (∀ request word, machine.Executes request word → OfForm "Cxkk" word →
      (machine.serve request).machine.registers.get (operand word) =
        RandomSource.stream seed count &&& word.toUInt8 ∧
      (machine.serve request).machine.random = ⟨(RandomSource.ofSeed seed).key,count + 1⟩) ∧
    (∀ request, (∀ entropy, request ≠ .reset entropy) →
      (∀ word, machine.Executes request word → ¬OfForm "Cxkk" word) →
        (machine.serve request).machine.random = machine.random) ∧
    ∀ entropy, (machine.serve (.reset entropy)).machine.random = RandomSource.ofSeed seed := by
  intro machine count
  have drawn : Drawn seed machine count :=
    account_invariant history (fresh_drawn seeded entropy) fun _ request _ drawn => drawn.serve request
  refine ⟨drawn.random,?_,fun request => serve_undrawn,fresh_random drawn.seeded⟩
  intro request word executes drawing
  obtain ⟨source,value⟩ := serve_random executes drawing
  rw [value,source,drawn.random,RandomSource.next_stream]
  exact ⟨rfl,rfl⟩

/-- The first byte is masked away, and a random instruction offered during a wait for a key is refused,
so that the second byte is still there behind them. -/
theorem random_stream_second :
    let history : List Request := [.execute 0xC100,.execute 0xF00A,.execute 0xC3FF,.press 0x5]
    let machine := (fresh {seed := some 7} (Vector.replicate 8 0)).after history
    (machine.serve (.execute 0xC20F)).machine.registers.get 2 = RandomSource.stream 7 1 &&& 0x0F := by
  intro history machine
  have stream := random_stream {seed := some 7} 7 rfl (Vector.replicate 8 0) history
  dsimp only at stream
  obtain ⟨_,drawn,_⟩ := stream
  have executes : machine.Executes (.execute 0xC20F) 0xC20F := executed?_eq_some.mp (by decide +kernel)
  obtain ⟨value,_⟩ := drawn (.execute 0xC20F) 0xC20F executes (by decide)
  have once : (fresh {seed := some 7} (Vector.replicate 8 0)).drawn history = 1 := by decide +kernel
  have target : operand 0xC20F = 2 := by decide
  have mask : (0xC20F : UInt16).toUInt8 = 0x0F := by decide
  rw [once,target,mask] at value
  exact value

end Machine

end Chip8
