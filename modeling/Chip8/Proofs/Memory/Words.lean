import Chip8.Memory

/-! Which words can be read from memory: the two bytes of a word have to lie
inside, and the high byte comes first. -/
namespace Chip8.Memory
variable {memory : Memory} {address : Nat}

def wordAt (memory : Memory) (address : Nat) : UInt16 :=
  UInt16.ofNat (256 * (memory.peek address).toNat + (memory.peek (address + 1)).toNat)

theorem toNat_wordAt (memory : Memory) (address : Nat) :
    (memory.wordAt address).toNat =
      256 * (memory.peek address).toNat + (memory.peek (address + 1)).toNat := by
  have high := (memory.peek address).toNat_lt
  have low := (memory.peek (address + 1)).toNat_lt
  rw [wordAt,UInt16.toNat_ofNat']
  omega

theorem join_bytes (high low : UInt8) :
    high.toUInt16 <<< 8 ||| low.toUInt16 = UInt16.ofNat (256 * high.toNat + low.toNat) := by
  have upper := high.toNat_lt
  have lower := low.toNat_lt
  have shifted : (high.toUInt16 <<< 8).toNat = high.toNat <<< 8 := by
    rw [UInt16.toNat_shiftLeft,UInt8.toNat_toUInt16]
    change high.toNat <<< 8 % 2 ^ 16 = _
    rw [Nat.shiftLeft_eq]
    omega
  apply UInt16.toNat_inj.mp
  rw [UInt16.toNat_or,shifted,UInt8.toNat_toUInt16,← Nat.shiftLeft_add_eq_or_of_lt lower,
    Nat.shiftLeft_eq,UInt16.toNat_ofNat']
  omega

theorem readWord_inside (memory : Memory) (inside : address + 1 < 4096) :
    memory.readWord address = .ok (memory.wordAt address) := by
  have high : memory.read address = .ok (memory.peek address) := if_pos (by omega)
  have low : memory.read (address + 1) = .ok (memory.peek (address + 1)) := if_pos inside
  rw [wordAt,← join_bytes,readWord,high,low]
  rfl

/-- The first missing cell is the one behind the end of memory or, further on, the first of the two. -/
theorem readWord_outside (memory : Memory) (outside : ¬address + 1 < 4096) :
    memory.readWord address = .error (.addressOutOfRange (max address 4096)) := by
  have low : memory.read (address + 1) = .error (.addressOutOfRange (address + 1)) :=
    if_neg outside
  by_cases last : address < 4096
  · have high : memory.read address = .ok (memory.peek address) := if_pos last
    have first : max address 4096 = address + 1 := by omega
    rw [readWord,high,low,first]
    rfl
  · have high : memory.read address = .error (.addressOutOfRange address) := if_neg last
    have first : max address 4096 = address := by omega
    rw [readWord,high,first]
    rfl

theorem readWord_ok_iff {word : UInt16} :
    memory.readWord address = .ok word ↔ address + 1 < 4096 ∧ memory.wordAt address = word := by
  by_cases inside : address + 1 < 4096
  · simp [readWord_inside memory inside,inside]
  · simp [readWord_outside memory inside,inside]

theorem readWord_error_iff {fault : Fault} :
    memory.readWord address = .error fault ↔
      4096 ≤ address + 1 ∧ fault = .addressOutOfRange (max address 4096) := by
  by_cases inside : address + 1 < 4096
  · have short : ¬4096 ≤ address + 1 := by omega
    simp [readWord_inside memory inside,short]
  · have long : 4096 ≤ address + 1 := by omega
    simp [readWord_outside memory inside,long,eq_comm]

end Chip8.Memory
