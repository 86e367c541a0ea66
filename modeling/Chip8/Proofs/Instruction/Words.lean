import Chip8.Instruction

/-! The words of instructions, read back from the decoder: every word is that
of the instruction it stands for, so that a fact about one kind of instruction
is a fact about the words of one form. -/
namespace Chip8

def Calculation.digit : Calculation → Nat
  | .copy => 0x0
  | .or => 0x1
  | .and => 0x2
  | .xor => 0x3
  | .add => 0x4
  | .subtract => 0x5
  | .shiftRight => 0x6
  | .subtractFrom => 0x7
  | .shiftLeft => 0xE

theorem Calculation.digit_eq {place : Nat} {calculation : Calculation}
    (found : ofDigit? place = some calculation) : calculation.digit = place := by
  unfold ofDigit? at found
  split at found
  case h_10 => cases found
  all_goals
    cases found
    rfl

namespace Instruction

def word : Instruction → UInt16
  | .clearScreen => 0x00E0
  | .returnFromCall => 0x00EE
  | .jump target => 0x1000 + target
  | .call target => 0x2000 + target
  | .skipIf (.equals x byte) => UInt16.ofNat (0x3000 + 256 * x + byte.toNat)
  | .skipIf (.differs x byte) => UInt16.ofNat (0x4000 + 256 * x + byte.toNat)
  | .skipIf (.same x y) => UInt16.ofNat (0x5000 + 256 * x + 16 * y)
  | .setByte x byte => UInt16.ofNat (0x6000 + 256 * x + byte.toNat)
  | .addByte x byte => UInt16.ofNat (0x7000 + 256 * x + byte.toNat)
  | .calculate calculation x y => UInt16.ofNat (0x8000 + 256 * x + 16 * y + calculation.digit)
  | .skipIf (.different x y) => UInt16.ofNat (0x9000 + 256 * x + 16 * y)
  | .setIndex address => 0xA000 + address
  | .jumpOffset base => 0xB000 + base
  | .random x mask => UInt16.ofNat (0xC000 + 256 * x + mask.toNat)
  | .draw x y rows => UInt16.ofNat (0xD000 + 256 * x + 16 * y + rows)
  | .skipIf (.keyDown x) => UInt16.ofNat (0xE09E + 256 * x)
  | .skipIf (.keyUp x) => UInt16.ofNat (0xE0A1 + 256 * x)
  | .readDelay x => UInt16.ofNat (0xF007 + 256 * x)
  | .awaitKey x => UInt16.ofNat (0xF00A + 256 * x)
  | .setDelay x => UInt16.ofNat (0xF015 + 256 * x)
  | .setSound x => UInt16.ofNat (0xF018 + 256 * x)
  | .addIndex x => UInt16.ofNat (0xF01E + 256 * x)
  | .pointAtGlyph x => UInt16.ofNat (0xF029 + 256 * x)
  | .storeDigits x => UInt16.ofNat (0xF033 + 256 * x)
  | .storeRegisters last => UInt16.ofNat (0xF055 + 256 * last)
  | .loadRegisters last => UInt16.ofNat (0xF065 + 256 * last)
  | .unknown word => word

theorem ofNat_eq {code : UInt16} {number : Nat} (same : number = code.toNat) :
    UInt16.ofNat number = code := by
  rw [same,UInt16.ofNat_toNat]

/-- A word of a family whose other three digits are an address. -/
theorem add_address {code family : UInt16} (bare : family.toNat % 0x1000 = 0)
    (member : code.toNat / 0x1000 = family.toNat / 0x1000) : family + code % 0x1000 = code := by
  have size := code.toNat_lt
  have address : (code % 0x1000).toNat = code.toNat % 0x1000 := UInt16.toNat_mod _ _
  apply UInt16.toNat_inj.mp
  rw [UInt16.toNat_add,address]
  omega

/-- No word is lost by decoding. -/
theorem word_decode (code : UInt16) : (decode code).word = code := by
  have size := code.toNat_lt
  have low : code.toUInt8.toNat = code.toNat % 256 := UInt16.toNat_toUInt8 code
  unfold decode
  dsimp only
  split
  case h_1 family =>
    split
    · rename_i clear
      exact clear.symm
    · split
      · rename_i back
        exact back.symm
      · rfl
  case h_2 family | h_3 family | h_11 family | h_12 family => exact add_address rfl family
  case h_6 family | h_10 family =>
    split
    · rename_i last
      exact ofNat_eq (by dsimp only; omega)
    · rfl
  case h_9 family =>
    split
    · rename_i calculation found
      have last := Calculation.digit_eq found
      exact ofNat_eq (by dsimp only; omega)
    · rfl
  case h_15 family =>
    split
    · rename_i down
      rw [down] at low
      exact ofNat_eq (by simp at low ⊢; omega)
    · split
      · rename_i up
        rw [up] at low
        exact ofNat_eq (by simp at low ⊢; omega)
      · rfl
  case h_16 =>
    have family : code.toNat / 4096 = 15 := by grind
    split
    case h_10 => rfl
    all_goals exact ofNat_eq (by dsimp only; omega)
  all_goals exact ofNat_eq (by dsimp only; omega)

theorem decode_returnFromCall {code : UInt16} : decode code = .returnFromCall ↔ code = 0x00EE := by
  constructor
  · intro decoded
    exact (word_decode code).symm.trans (congrArg word decoded)
  · rintro rfl
    rfl

theorem decode_call {code target : UInt16} :
    decode code = .call target ↔ target < 0x1000 ∧ code = 0x2000 + target := by
  constructor
  · intro decoded
    refine ⟨?_,(word_decode code).symm.trans (congrArg word decoded)⟩
    have address : target = code % 0x1000 := by
      unfold decode at decoded
      grind
    rw [address,UInt16.lt_iff_toNat_lt,UInt16.toNat_mod]
    exact Nat.mod_lt _ (by decide)
  · rintro ⟨inside,rfl⟩
    have short : target.toNat < 0x1000 := UInt16.lt_iff_toNat_lt.mp inside
    have whole : (0x2000 + target).toNat = 0x2000 + target.toNat := by
      rw [UInt16.toNat_add]
      change (0x2000 + target.toNat) % 2 ^ 16 = _
      omega
    have family : (0x2000 + target).toNat / 4096 = 2 := by omega
    have address : (0x2000 + target) % 0x1000 = target := by
      apply UInt16.toNat_inj.mp
      rw [UInt16.toNat_mod,whole]
      change (0x2000 + target.toNat) % 0x1000 = _
      omega
    simp only [decode,family,address]

theorem decode_setDelay {code : UInt16} {x : Register} :
    decode code = .setDelay x ↔ code = UInt16.ofNat (0xF015 + 256 * x) := by
  constructor
  · intro decoded
    exact (word_decode code).symm.trans (congrArg word decoded)
  · rintro rfl
    revert x
    decide

theorem decode_setSound {code : UInt16} {x : Register} :
    decode code = .setSound x ↔ code = UInt16.ofNat (0xF018 + 256 * x) := by
  constructor
  · intro decoded
    exact (word_decode code).symm.trans (congrArg word decoded)
  · rintro rfl
    revert x
    decide

/-- The first digit, the register and the low byte of a word that is put together from them. -/
theorem word_places (code : UInt16) (family low : Nat) (x : Register)
    (whole : code = UInt16.ofNat (4096 * family + 256 * x + low)) (short : family < 16)
    (below : low < 256) :
    code.toNat / 4096 = family ∧ code.toNat / 256 % 16 = x ∧ code.toNat % 256 = low := by
  rw [whole,UInt16.toNat_ofNat']
  omega

theorem toUInt8_of_mod {code : UInt16} {byte : UInt8} (low : code.toNat % 256 = byte.toNat) :
    code.toUInt8 = byte :=
  UInt8.toNat_inj.mp ((UInt16.toNat_toUInt8 code).trans low)

theorem decode_skipIf (condition : Condition) : decode (skipIf condition).word = .skipIf condition := by
  generalize made : (skipIf condition).word = code
  cases condition with
  | equals x byte =>
    obtain ⟨family,first,low⟩ := word_places code 3 byte.toNat x made.symm (by decide) byte.toNat_lt
    simp only [decode,family,first,toUInt8_of_mod low]
  | differs x byte =>
    obtain ⟨family,first,low⟩ := word_places code 4 byte.toNat x made.symm (by decide) byte.toNat_lt
    simp only [decode,family,first,toUInt8_of_mod low]
  | same x y =>
    obtain ⟨family,first,low⟩ := word_places code 5 (16 * y) x made.symm (by decide) (by omega)
    have last : code.toNat % 16 = 0 := by omega
    have second : code.toNat / 16 % 16 = y := by omega
    simp only [decode,family,first,second,last,if_true]
  | different x y =>
    obtain ⟨family,first,low⟩ := word_places code 9 (16 * y) x made.symm (by decide) (by omega)
    have last : code.toNat % 16 = 0 := by omega
    have second : code.toNat / 16 % 16 = y := by omega
    simp only [decode,family,first,second,last,if_true]
  | keyDown x | keyUp x =>
    subst made
    revert x
    decide

end Instruction

end Chip8
