import Chip8.Proofs.Instruction.Words
import Mathlib.Data.List.Forall2

/-! The forms of words, written as their four digits. Large letters and numerals
stand for themselves and small letters for any digit, so that `8xy4` is the form
of all additions. A word has the form of its instruction, and no other word has
a form than those that stand for one. -/
namespace Chip8

/-- The digit that a letter of a form fixes. Small letters fix none. -/
def fixedDigit? (letter : Char) : Option Nat :=
  if letter.isDigit then some (letter.toNat - '0'.toNat)
  else if letter.isUpper then some (letter.toNat - 'A'.toNat + 10)
  else none

def digits (word : UInt16) : List Nat :=
  [word.toNat / 4096,word.toNat / 256 % 16,word.toNat / 16 % 16,word.toNat % 16]

/-- A word is of a form if it agrees with it in every digit that the form fixes. -/
def OfForm (form : String) (word : UInt16) : Prop :=
  List.Forall₂ (fun letter digit => ∀ fixed ∈ fixedDigit? letter, digit = fixed)
    form.toList (digits word)

def OfForms (listed : List String) (word : UInt16) : Prop := ∃ form ∈ listed, OfForm form word

theorem OfForms.mono {few listed : List String} {word : UInt16} (fits : OfForms few word)
    (among : few ⊆ listed) : OfForms listed word := by
  obtain ⟨form,member,fits⟩ := fits
  exact ⟨form,among member,fits⟩

def forms : List String :=
  ["00E0","00EE","1nnn","2nnn","3xkk","4xkk","5xy0","6xkk","7xkk",
   "8xy0","8xy1","8xy2","8xy3","8xy4","8xy5","8xy6","8xy7","8xyE",
   "9xy0","Annn","Bnnn","Cxkk","Dxyn","Ex9E","ExA1",
   "Fx07","Fx0A","Fx15","Fx18","Fx1E","Fx29","Fx33","Fx55","Fx65"]

def operand (word : UInt16) : Register := .ofByte (word >>> 8).toUInt8

theorem operand_eq (word : UInt16) (inside : word.toNat / 256 % 16 < 16) :
    operand word = ⟨word.toNat / 256 % 16,inside⟩ := by
  have size := word.toNat_lt
  refine Fin.ext ?_
  change (word >>> 8).toUInt8.toNat % 16 = word.toNat / 256 % 16
  rw [UInt16.toNat_toUInt8,UInt16.toNat_shiftRight]
  change word.toNat >>> 8 % 256 % 16 = _
  rw [Nat.shiftRight_eq_div_pow]
  omega

def secondOperand (word : UInt16) : Register := .ofByte (word >>> 4).toUInt8

theorem secondOperand_eq (word : UInt16) (inside : word.toNat / 16 % 16 < 16) :
    secondOperand word = ⟨word.toNat / 16 % 16,inside⟩ := by
  refine Fin.ext ?_
  change (word >>> 4).toUInt8.toNat % 16 = word.toNat / 16 % 16
  rw [UInt16.toNat_toUInt8,UInt16.toNat_shiftRight]
  change word.toNat >>> 4 % 256 % 16 = _
  rw [Nat.shiftRight_eq_div_pow]
  omega

def Calculation.form : Calculation → String
  | .copy => "8xy0"
  | .or => "8xy1"
  | .and => "8xy2"
  | .xor => "8xy3"
  | .add => "8xy4"
  | .subtract => "8xy5"
  | .shiftRight => "8xy6"
  | .subtractFrom => "8xy7"
  | .shiftLeft => "8xyE"

def Condition.form : Condition → String
  | .equals _ _ => "3xkk"
  | .differs _ _ => "4xkk"
  | .same _ _ => "5xy0"
  | .different _ _ => "9xy0"
  | .keyDown _ => "Ex9E"
  | .keyUp _ => "ExA1"

def Instruction.form? : Instruction → Option String
  | .clearScreen => some "00E0"
  | .returnFromCall => some "00EE"
  | .jump _ => some "1nnn"
  | .call _ => some "2nnn"
  | .jumpOffset _ => some "Bnnn"
  | .skipIf condition => some condition.form
  | .setByte _ _ => some "6xkk"
  | .addByte _ _ => some "7xkk"
  | .calculate calculation _ _ => some calculation.form
  | .setIndex _ => some "Annn"
  | .random _ _ => some "Cxkk"
  | .draw _ _ _ => some "Dxyn"
  | .readDelay _ => some "Fx07"
  | .awaitKey _ => some "Fx0A"
  | .setDelay _ => some "Fx15"
  | .setSound _ => some "Fx18"
  | .addIndex _ => some "Fx1E"
  | .pointAtGlyph _ => some "Fx29"
  | .storeDigits _ => some "Fx33"
  | .storeRegisters _ => some "Fx55"
  | .loadRegisters _ => some "Fx65"
  | .unknown _ => none

instance (form : String) (word : UInt16) : Decidable (OfForm form word) :=
  inferInstanceAs (Decidable (List.Forall₂ ..))

instance (listed : List String) (word : UInt16) : Decidable (OfForms listed word) :=
  inferInstanceAs (Decidable (∃ form ∈ listed, OfForm form word))

def Compatible (first second : String) : Prop :=
  List.Forall₂ (fun letter other =>
    ∀ fixed ∈ fixedDigit? letter, ∀ same ∈ fixedDigit? other, fixed = same)
    first.toList second.toList

instance (first second : String) : Decidable (Compatible first second) :=
  inferInstanceAs (Decidable (List.Forall₂ ..))

theorem OfForm.compatible {first second : String} {word : UInt16} (fits : OfForm first word)
    (other : OfForm second word) : Compatible first second := by
  unfold OfForm at fits other
  unfold Compatible
  generalize first.toList = letters at fits ⊢
  generalize second.toList = others at other ⊢
  generalize digits word = places at fits other
  induction fits generalizing others with
  | nil =>
    cases other
    exact .nil
  | cons agrees rest ih =>
    cases other with
    | cons again more =>
      exact .cons (fun fixed named same also => (agrees fixed named).symm.trans (again same also))
        (ih _ more)

theorem forms_apart : ∀ first ∈ forms, ∀ second ∈ forms, Compatible first second → first = second := by
  decide +kernel

namespace Condition

theorem ofForm {word : UInt16} {condition : Condition}
    (same : (Instruction.skipIf condition).word = word) : OfForm condition.form word := by
  rw [← same]
  cases condition with
  | equals x byte | differs x byte =>
    have below := byte.toNat_lt
    simp [OfForm,digits,fixedDigit?,Instruction.word,form]
    omega
  | _ =>
    simp [OfForm,digits,fixedDigit?,Instruction.word,form]
    omega

end Condition

theorem Calculation.ofForm {word : UInt16} {calculation : Calculation} {x y : Register}
    (same : (Instruction.calculate calculation x y).word = word) : OfForm calculation.form word := by
  rw [← same]
  cases calculation <;>
    simp [OfForm,digits,fixedDigit?,Instruction.word,form,digit] <;> omega

namespace Instruction

def address? : Instruction → Option UInt16
  | .jump target => some target
  | .call target => some target
  | .setIndex address => some address
  | .jumpOffset base => some base
  | _ => none

theorem decode_address {word address : UInt16} (named : (decode word).address? = some address) :
    address.toNat < 0x1000 := by
  have masked : address = word % 0x1000 := by
    unfold decode at named
    grind [address?]
  rw [masked,UInt16.toNat_mod]
  exact Nat.mod_lt _ (by decide)

theorem decode_ofForm {word : UInt16} {form : String} (known : (decode word).form? = some form) :
    OfForm form word := by
  have same := word_decode word
  have short := @decode_address word
  cases decoded : decode word with
  | clearScreen | returnFromCall =>
    rw [decoded] at same known
    cases known
    rw [← same]
    decide
  | jump address | call address | jumpOffset address | setIndex address =>
    rw [decoded] at same known short
    cases known
    have inside := short rfl
    rw [← same]
    simp [OfForm,digits,fixedDigit?,Instruction.word]
    omega
  | skipIf condition =>
    rw [decoded] at same known
    cases known
    exact Condition.ofForm same
  | calculate calculation x y =>
    rw [decoded] at same known
    cases known
    exact Calculation.ofForm same
  | unknown =>
    rw [decoded] at known
    cases known
  | setByte x byte | addByte x byte | random x byte =>
    rw [decoded] at same known
    cases known
    have below := byte.toNat_lt
    rw [← same]
    simp [OfForm,digits,fixedDigit?,Instruction.word]
    omega
  | _ =>
    rw [decoded] at same known
    cases known
    rw [← same]
    simp [OfForm,digits,fixedDigit?,Instruction.word]
    omega

theorem form_mem {instruction : Instruction} {form : String}
    (known : instruction.form? = some form) : form ∈ forms := by
  cases instruction with
  | skipIf condition =>
    cases known
    cases condition <;> simp [Condition.form,forms]
  | calculate calculation x y =>
    cases known
    cases calculation <;> simp [Calculation.form,forms]
  | unknown word => cases known
  | _ =>
    cases known
    simp [forms]

theorem unknown_formless {word : UInt16} (unknown : (decode word).form? = none) :
    ¬OfForms forms word := by
  have low : word.toUInt8.toNat = word.toNat % 256 := UInt16.toNat_toUInt8 word
  have size := word.toNat_lt
  simp [OfForms,forms,OfForm,digits,fixedDigit?]
  revert unknown
  unfold decode
  dsimp only
  split
  -- The families 0, 5, 8, 9, E and F have words without a meaning. All words of the others have one.
  case h_1 family =>
    split
    · nofun
    · split
      · nofun
      · rename_i clear back
        rw [← UInt16.toNat_inj] at clear back
        simp at clear back
        omega
  case h_6 family | h_10 family =>
    split
    · nofun
    · omega
  case h_9 family =>
    split
    · nofun
    · rename_i last
      unfold Calculation.ofDigit? at last
      split at last
      case h_10 =>
        simp only [family] at *
        simp_all
      all_goals cases last
  case h_15 family =>
    split
    · nofun
    · split
      · nofun
      · rename_i down up
        rw [← UInt8.toNat_inj] at down up
        simp at down up
        omega
  case h_16 =>
    have family : word.toNat / 4096 = 15 := by grind
    split
    case h_10 =>
      simp_all
      omega
    all_goals nofun
  all_goals nofun

/-- A word has the form of its instruction and no other one. -/
theorem ofForm_iff {word : UInt16} {form : String} (listed : form ∈ forms) :
    OfForm form word ↔ (decode word).form? = some form := by
  refine ⟨fun fits => ?_,decode_ofForm⟩
  cases known : (decode word).form? with
  | none => exact absurd ⟨form,listed,fits⟩ (unknown_formless known)
  | some other =>
    have same := forms_apart other (form_mem known) form listed ((decode_ofForm known).compatible fits)
    rw [same]

theorem decode_unknown_iff {word : UInt16} : decode word = .unknown word ↔ ¬OfForms forms word := by
  constructor
  · intro unknown
    exact unknown_formless (congrArg form? unknown)
  · intro formless
    have same := word_decode word
    cases decoded : decode word with
    | unknown other =>
      rw [decoded] at same
      exact congrArg unknown same
    | _ =>
      have known := congrArg form? decoded
      exact absurd ⟨_,form_mem known,decode_ofForm known⟩ formless

def register? : Instruction → Option Register
  | .setByte x _ | .addByte x _ | .calculate _ x _ | .random x _ | .draw x _ _ | .readDelay x
  | .setDelay x | .setSound x | .awaitKey x | .addIndex x | .pointAtGlyph x | .storeDigits x
  | .storeRegisters x | .loadRegisters x => some x
  | _ => none

theorem decode_register {word : UInt16} {x : Register} (named : (decode word).register? = some x) :
    x = operand word := by
  unfold decode at named
  grind [register?,operand_eq]

variable {word : UInt16}

/-- The first digit and the last byte of a word, if its form fixes them. -/
theorem family_low {form : String} (family low : Nat) (fits : OfForm form word)
    (named : form.toList.map fixedDigit? = [some family,none,some (low / 16),some (low % 16)]) :
    word.toNat / 4096 = family ∧ word.toUInt8.toNat = low := by
  unfold OfForm at fits
  generalize form.toList = letters at fits named
  match letters with
  | [first,second,third,fourth] =>
    simp only [List.map_cons,List.map_nil,List.cons.injEq,and_true] at named
    obtain ⟨one,_,three,four⟩ := named
    simp [digits,one,three,four] at fits
    rw [UInt16.toNat_toUInt8]
    omega

theorem decode_keyDown (fits : OfForm "Ex9E" word) : decode word = .skipIf (.keyDown (operand word)) := by
  obtain ⟨family,low⟩ := family_low 0xE 0x9E fits (by decide)
  have down : word.toUInt8 = 0x9E := UInt8.toNat_inj.mp low
  simp only [decode,family,down]
  rw [operand_eq]
  rfl

theorem decode_keyUp (fits : OfForm "ExA1" word) : decode word = .skipIf (.keyUp (operand word)) := by
  obtain ⟨family,low⟩ := family_low 0xE 0xA1 fits (by decide)
  have up : word.toUInt8 = 0xA1 := UInt8.toNat_inj.mp low
  simp only [decode,family,up]
  rw [operand_eq]
  rfl

theorem decode_pointAtGlyph (fits : OfForm "Fx29" word) : decode word = .pointAtGlyph (operand word) := by
  obtain ⟨family,low⟩ := family_low 0xF 0x29 fits (by decide)
  simp only [decode,family,low]
  rw [operand_eq]

theorem decode_addIndex (fits : OfForm "Fx1E" word) : decode word = .addIndex (operand word) := by
  obtain ⟨family,low⟩ := family_low 0xF 0x1E fits (by decide)
  simp only [decode,family,low]
  rw [operand_eq]

theorem decode_storeDigits (fits : OfForm "Fx33" word) : decode word = .storeDigits (operand word) := by
  obtain ⟨family,low⟩ := family_low 0xF 0x33 fits (by decide)
  simp only [decode,family,low]
  rw [operand_eq]

theorem decode_storeRegisters (fits : OfForm "Fx55" word) :
    decode word = .storeRegisters (operand word) := by
  obtain ⟨family,low⟩ := family_low 0xF 0x55 fits (by decide)
  simp only [decode,family,low]
  rw [operand_eq]

theorem decode_loadRegisters (fits : OfForm "Fx65" word) :
    decode word = .loadRegisters (operand word) := by
  obtain ⟨family,low⟩ := family_low 0xF 0x65 fits (by decide)
  simp only [decode,family,low]
  rw [operand_eq]

theorem decode_addByte (fits : OfForm "7xkk" word) :
    decode word = .addByte (operand word) word.toUInt8 := by
  have family : word.toNat / 4096 = 7 := by simpa [OfForm,digits,fixedDigit?] using fits
  simp only [decode,family]
  rw [operand_eq]

theorem decode_calculate {calculation : Calculation} (fits : OfForm calculation.form word) :
    decode word = .calculate calculation (operand word) (secondOperand word) := by
  have places : word.toNat / 4096 = 8 ∧ word.toNat % 16 = calculation.digit := by
    cases calculation <;>
      simpa [OfForm,digits,fixedDigit?,Calculation.form,Calculation.digit] using fits
  obtain ⟨family,last⟩ := places
  have selected : Calculation.ofDigit? calculation.digit = some calculation := by
    cases calculation <;> rfl
  simp only [decode,family,last,selected]
  rw [operand_eq,secondOperand_eq]

theorem decode_draw (fits : OfForm "Dxyn" word) (inside : word.toNat % 16 < 16) :
    decode word = .draw (operand word) (secondOperand word) ⟨word.toNat % 16,inside⟩ := by
  have family : word.toNat / 4096 = 13 := by simpa [OfForm,digits,fixedDigit?] using fits
  simp only [decode,family]
  rw [operand_eq,secondOperand_eq]

end Instruction

end Chip8
