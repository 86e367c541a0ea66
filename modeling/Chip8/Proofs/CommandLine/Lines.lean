import Mathlib.Data.List.Basic
import Chip8.CommandLine.InputLine

/-! Lines of an input. What a line feed ends is a line whatever comes behind it,
and an input that is text has no line that is not. -/
namespace Chip8.CommandLine

def Textual (bytes : List UInt8) : Prop := (ByteArray.mk bytes.toArray).IsValidUTF8

instance Textual.decidable (bytes : List UInt8) : Decidable (Textual bytes) :=
  inferInstanceAs (Decidable (ByteArray.IsValidUTF8 _))

theorem textual_iff {bytes : List UInt8} :
    Textual bytes ↔ ∃ letters : List Char, bytes = letters.flatMap String.utf8EncodeChar := by
  have made : ByteArray.mk bytes.toArray = bytes.toByteArray := ByteArray.ext List.data_toByteArray.symm
  unfold Textual
  rw [made]
  constructor
  · rintro ⟨letters,encoded⟩
    exact ⟨letters,List.toByteArray_inj.mp encoded⟩
  · rintro ⟨letters,rfl⟩
    exact ⟨letters,rfl⟩

theorem Textual.append {front rest : List UInt8} (before : Textual front) (behind : Textual rest) :
    Textual (front ++ rest) := by
  rw [textual_iff] at before behind ⊢
  obtain ⟨letters,rfl⟩ := before
  obtain ⟨others,rfl⟩ := behind
  exact ⟨letters ++ others,List.flatMap_append.symm⟩

theorem textual_encode (letter : Char) : Textual (String.utf8EncodeChar letter) :=
  textual_iff.mpr ⟨[letter],(List.flatMap_singleton _ _).symm⟩

/-- A byte of the lower half is a letter of its own. -/
theorem encode_below {letter : Char} {byte : UInt8} (listed : byte ∈ String.utf8EncodeChar letter)
    (below : byte < 128) : String.utf8EncodeChar letter = [byte] := by
  revert listed
  fun_cases String.utf8EncodeChar letter
  · intro listed
    rw [List.mem_singleton.mp listed]
  -- All bytes of a longer encoding lie in the upper half.
  all_goals
    intro listed
    simp only [List.mem_cons,List.not_mem_nil,or_false] at listed
    rw [UInt8.lt_iff_toNat_lt] at below
    rcases listed with rfl | rfl | rfl | rfl <;>
      simp only [UInt8.toNat_ofNat',UInt8.reduceToNat] at below <;> omega

theorem Textual.front {front : List UInt8} {byte : UInt8} (text : Textual (front ++ [byte]))
    (below : byte < 128) : Textual front := by
  rw [textual_iff] at text ⊢
  obtain ⟨letters,encoded⟩ := text
  rcases List.eq_nil_or_concat' letters with rfl | ⟨before,last,rfl⟩
  · simp at encoded
  · rw [List.flatMap_append,List.flatMap_singleton] at encoded
    have ends : byte ∈ String.utf8EncodeChar last := by
      have final := congrArg List.getLast? encoded
      rw [List.getLast?_concat,List.getLast?_append_of_ne_nil _ String.utf8EncodeChar_ne_nil] at final
      exact List.mem_of_getLast? final.symm
    rw [encode_below ends below] at encoded
    exact ⟨before,List.append_cancel_right encoded⟩

namespace InputLine

theorem cons_feed (lines : List (List UInt8)) : cons 10 lines = [10] :: lines := by
  cases lines with
  | nil => rfl
  | cons line lines => rfl

theorem cons_clear {byte : UInt8} (clear : byte ≠ 10) (lines : List (List UInt8)) :
    cons byte lines = (byte :: lines.head?.getD []) :: lines.tail := by
  cases lines with
  | nil => rfl
  | cons line lines => simp [cons,clear]

/-- Bytes without a line feed all go to the line behind them. -/
theorem cut_clear {front : List UInt8} (clear : 10 ∉ front) (filled : front ≠ []) (rest : List UInt8) :
    cut (front ++ rest) = (front ++ (cut rest).head?.getD []) :: (cut rest).tail := by
  induction front with
  | nil => exact absurd rfl filled
  | cons byte front ih =>
    rw [List.mem_cons,not_or] at clear
    change cons byte (cut (front ++ rest)) = _
    rw [cons_clear (Ne.symm clear.1)]
    cases front with
    | nil => rfl
    | cons next front =>
      rw [ih clear.2 (by simp)]
      rfl

theorem cut_feed (rest : List UInt8) : cut (10 :: rest) = [10] :: cut rest := cons_feed (cut rest)

/-- What ends in a line feed is cut on its own. -/
theorem cut_ended {front : List UInt8} (clear : 10 ∉ front) (rest : List UInt8) :
    cut (front ++ 10 :: rest) = (front ++ [10]) :: cut rest := by
  cases front with
  | nil => exact cut_feed rest
  | cons byte front =>
    rw [cut_clear clear (by simp),cut_feed]
    rfl

/-- A line has no line feed but at its end. -/
theorem cut_line {bytes line : List UInt8} (listed : line ∈ cut bytes) (feed : 10 ∈ line) :
    ∃ front, 10 ∉ front ∧ line = front ++ [10] := by
  induction bytes generalizing line with
  | nil => cases listed
  | cons byte bytes ih =>
    change line ∈ cons byte (cut bytes) at listed
    by_cases clear : byte = 10
    · rw [clear,cons_feed] at listed
      rcases List.mem_cons.mp listed with rfl | behind
      · exact ⟨[],by simp,rfl⟩
      · exact ih behind feed
    · rw [cons_clear clear] at listed
      rcases List.mem_cons.mp listed with rfl | behind
      · have later := (List.mem_cons.mp feed).resolve_left (Ne.symm clear)
        cases lines : cut bytes with
        | nil =>
          rw [lines] at later
          cases later
        | cons next others =>
          rw [lines] at later ih
          obtain ⟨front,plain,same⟩ := ih List.mem_cons_self later
          refine ⟨byte :: front,?_,congrArg (List.cons byte) same⟩
          rw [List.mem_cons,not_or]
          exact ⟨Ne.symm clear,plain⟩
      · exact ih (List.mem_of_mem_tail behind) feed

/-- Lines that have ended stay what they are, whatever comes behind them. -/
theorem cut_lines {lines : List (List UInt8)}
    (ended : ∀ line ∈ lines, ∃ front, 10 ∉ front ∧ line = front ++ [10]) (rest : List UInt8) :
    cut (lines.flatten ++ rest) = lines ++ cut rest := by
  induction lines with
  | nil => rfl
  | cons line lines ih =>
    rw [List.forall_mem_cons] at ended
    obtain ⟨⟨front,clear,rfl⟩,others⟩ := ended
    have split : ((front ++ [10]) :: lines).flatten ++ rest = front ++ 10 :: (lines.flatten ++ rest) := by
      simp
    rw [split,cut_ended clear,ih others]
    rfl

theorem cut_textual {bytes : List UInt8} (text : Textual bytes) : ∀ line ∈ cut bytes, Textual line := by
  obtain ⟨letters,rfl⟩ := textual_iff.mp text
  clear text
  induction letters with
  | nil => nofun
  | cons letter letters ih =>
    rw [List.flatMap_cons]
    -- A line feed is a letter alone. All bytes of another letter go to the line behind it.
    by_cases feed : 10 ∈ String.utf8EncodeChar letter
    · have alone := textual_encode letter
      rw [encode_below feed (by decide)] at alone ⊢
      rw [List.singleton_append,cut_feed]
      exact List.forall_mem_cons.mpr ⟨alone,ih⟩
    · rw [cut_clear feed String.utf8EncodeChar_ne_nil]
      refine List.forall_mem_cons.mpr ⟨(textual_encode letter).append ?_,
        fun line listed => ih line (List.mem_of_mem_tail listed)⟩
      cases lines : cut (letters.flatMap String.utf8EncodeChar) with
      | nil => exact textual_iff.mpr ⟨[],rfl⟩
      | cons line others =>
        rw [lines] at ih
        exact ih line List.mem_cons_self

theorem withoutEnd_textual {bytes : List UInt8} (text : Textual bytes) : Textual (withoutEnd bytes) := by
  unfold withoutEnd
  split
  next rest ends =>
    rw [List.reverse_eq_iff,List.reverse_cons,List.reverse_cons] at ends
    rw [ends] at text
    exact (text.front (by decide)).front (by decide)
  next rest _ ends =>
    rw [List.reverse_eq_iff,List.reverse_cons] at ends
    rw [ends] at text
    exact text.front (by decide)
  next => exact text

theorem ofBytes_textual {bytes : List UInt8} (text : Textual bytes) :
    ∃ line, ofBytes bytes = .text line := by
  have valid := withoutEnd_textual text
  unfold Textual at valid
  rw [ofBytes,String.fromUTF8?,dif_pos valid]
  exact ⟨_,rfl⟩

end InputLine

end Chip8.CommandLine
