import Chip8.Device.Execution

/-! A device that takes words apart digit by digit carries out the instruction
that the decoder finds: each row of its table is one instruction, and the words
outside the table are those without a meaning. -/
namespace Chip8.Device

def number (register : Register) : UInt8 := UInt8.ofNat register

def conditionOf : Condition → Routine Device Bool
  | .equals x byte => equalsByte (number x) byte
  | .differs x byte => opposite (equalsByte (number x) byte)
  | .same x y => equalsRegister (number x) (number y)
  | .different x y => opposite (equalsRegister (number x) (number y))
  | .keyDown x => keyDown (number x)
  | .keyUp x => opposite (keyDown (number x))

def routineOf : Instruction → Routine Device Unit
  | .clearScreen => clearScreen
  | .returnFromCall => returnFromCall
  | .jump target => jump target
  | .jumpOffset base => jumpOffset base
  | .call target => call target
  | .skipIf condition => skipIf (conditionOf condition)
  | .setByte x byte => assign (number x) byte
  | .addByte x byte => addByte (number x) byte
  | .calculate calculation x y => calculate calculation (number x) (number y)
  | .setIndex address => point address
  | .addIndex x => addIndex (number x)
  | .random x mask => randomByte (number x) mask
  | .draw x y rows => draw (number x) (number y) (number rows)
  | .readDelay x => readDelay (number x)
  | .setDelay x => setTimers (number x) ({· with delay := ·})
  | .setSound x => setTimers (number x) ({· with sound := ·})
  | .awaitKey x => awaitKey (number x)
  | .pointAtGlyph x => pointAtGlyph (number x)
  | .storeDigits x => storeDigits (number x)
  | .storeRegisters last => storeRegisters (number last)
  | .loadRegisters last => loadRegisters (number last)
  | .unknown _ => pure ()

theorem digit_toNat (word place : UInt16) (inside : place.toNat < 4) :
    (digit word place).toNat = word.toNat / 16 ^ place.toNat % 16 := by
  have amount : (4 * place).toNat % 16 = 4 * place.toNat := by
    rw [UInt16.toNat_mul]
    change 4 * place.toNat % 2 ^ 16 % 16 = 4 * place.toNat
    omega
  have low : word.toNat >>> (4 * place.toNat) &&& 0xF = word.toNat / 16 ^ place.toNat % 16 := by
    rw [Nat.shiftRight_eq_div_pow,Nat.pow_mul]
    exact Nat.and_two_pow_sub_one_eq_mod _ 4
  rw [digit,UInt16.toNat_toUInt8,UInt16.toNat_and,UInt16.toNat_shiftRight,amount]
  refine (congrArg (· % 2 ^ 8) low).trans (Nat.mod_eq_of_lt ?_)
  omega

theorem number_mk {digit : UInt8} (inside : digit.toNat < 16) : number ⟨digit.toNat,inside⟩ = digit :=
  UInt8.ofNat_toNat

theorem digits_toNat (word : UInt16) :
    word.toNat = 4096 * (digit word 3).toNat + 256 * (digit word 2).toNat +
      16 * (digit word 1).toNat + (digit word 0).toNat := by
  have size := word.toNat_lt
  rw [digit_toNat word 3 (by decide),digit_toNat word 2 (by decide),digit_toNat word 1 (by decide),
    digit_toNat word 0 (by decide)]
  change word.toNat = 4096 * (word.toNat / 4096 % 16) + 256 * (word.toNat / 256 % 16) +
    16 * (word.toNat / 16 % 16) + word.toNat / 1 % 16
  omega

theorem digit_lt (word place : UInt16) (inside : place.toNat < 4) : (digit word place).toNat < 16 := by
  rw [digit_toNat word place inside]
  exact Nat.mod_lt _ (by decide)

theorem toUInt8_eq_iff (word : UInt16) (byte : UInt8) :
    word.toUInt8 = byte ↔ 16 * (digit word 1).toNat + (digit word 0).toNat = byte.toNat := by
  have whole := digits_toNat word
  have third := digit_lt word 1 (by decide)
  have last := digit_lt word 0 (by decide)
  rw [← UInt8.toNat_inj,UInt16.toNat_toUInt8]
  omega

theorem mask_low (word : UInt16) : (word &&& 0x00FF).toUInt8 = word.toUInt8 := by
  apply UInt8.toNat_inj.mp
  rw [UInt16.toNat_toUInt8,UInt16.toNat_toUInt8,UInt16.toNat_and]
  exact (congrArg (· % 2 ^ 8) (Nat.and_two_pow_sub_one_eq_mod word.toNat 8)).trans (Nat.mod_mod _ _)

theorem mask_address (word : UInt16) : word &&& 0x0FFF = word % 0x1000 :=
  UInt16.toNat_inj.mp (Nat.and_two_pow_sub_one_eq_mod word.toNat 12)

/-- The table and the decoder agree on every word. -/
theorem perform_eq (word : UInt16) : perform word = routineOf (Instruction.decode word) := by
  have family : word.toNat / 4096 = (digit word 3).toNat := by
    have size := word.toNat_lt
    rw [digit_toNat word 3 (by decide)]
    change _ = word.toNat / 4096 % 16
    omega
  have second : word.toNat / 256 % 16 = (digit word 2).toNat :=
    (digit_toNat word 2 (by decide)).symm
  have third : word.toNat / 16 % 16 = (digit word 1).toNat :=
    (digit_toNat word 1 (by decide)).symm
  have last : word.toNat % 16 = (digit word 0).toNat := by
    rw [digit_toNat word 0 (by decide)]
    exact congrArg (· % 16) (Nat.div_one _).symm
  have low : word.toUInt8.toNat = 16 * (digit word 1).toNat + (digit word 0).toNat :=
    ((toUInt8_eq_iff word word.toUInt8).mp rfl).symm
  unfold perform
  dsimp only
  rw [mask_address,mask_low]
  split
  case h_1 zero none high lowest =>
    have clear : word = 0x00E0 :=
      UInt16.toNat_inj.mp (by rw [digits_toNat word,zero,none,high,lowest]; rfl)
    rw [clear]
    rfl
  case h_2 zero none high lowest =>
    have back : word = 0x00EE :=
      UInt16.toNat_inj.mp (by rw [digits_toNat word,zero,none,high,lowest]; rfl)
    rw [back]
    rfl
  case h_24 keys high lowest =>
    have down : word.toUInt8 = 0x9E := (toUInt8_eq_iff word 0x9E).mpr (by rw [high,lowest]; rfl)
    simp only [Instruction.decode,family,second,keys,down,if_true,routineOf,conditionOf,number_mk]
  case h_25 keys high lowest =>
    have up : word.toUInt8 = 0xA1 := (toUInt8_eq_iff word 0xA1).mpr (by rw [high,lowest]; rfl)
    have other : (0xA1 : UInt8) ≠ 0x9E := by decide
    simp only [Instruction.decode,family,second,keys,up,if_neg other,if_true,routineOf,conditionOf,
      number_mk]
  case h_35 =>
    -- No row fits, so that no family of the decoder finds an instruction either.
    have firstDigit := digit_lt word 3 (by decide)
    have lastDigit := digit_lt word 0 (by decide)
    have down := toUInt8_eq_iff word 0x9E
    have up := toUInt8_eq_iff word 0xA1
    simp only [Instruction.decode,family,second,third,last,low]
    split
    case h_1 =>
      have clear : word ≠ 0x00E0 := by rintro rfl; contradiction
      have back : word ≠ 0x00EE := by rintro rfl; contradiction
      rw [if_neg clear,if_neg back]
      rfl
    all_goals
      grind [routineOf,Calculation.ofDigit?]
  all_goals
    simp only [Instruction.decode, *,routineOf,number_mk,conditionOf,
      Calculation.ofDigit?,if_true,UInt8.ofNat_toNat]

end Chip8.Device
