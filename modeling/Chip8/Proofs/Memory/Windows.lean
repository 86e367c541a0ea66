import Chip8.Memory

/-! Runs of bytes in memory, cell by cell: what a run leaves in the cells that it
covers, around the end of memory, and what it leaves alone. -/
namespace Chip8.Memory
variable {memory : Memory} {address : Nat} {bytes : List UInt8}

@[simp] theorem peek_mod (memory : Memory) (address : Nat) :
    memory.peek (address % 4096) = memory.peek address := by
  simp [peek]

theorem ext_peek {other : Memory} (same : ∀ cell : Fin 4096, memory.peek cell = other.peek cell) :
    memory = other := by
  obtain ⟨cells⟩ := memory
  obtain ⟨others⟩ := other
  congr 1
  refine Vector.ext fun place inside => ?_
  have found := same ⟨place,inside⟩
  simpa only [peek,Nat.mod_eq_of_lt inside] using found

theorem peek_store_inside (fits : bytes.length ≤ 4096) {offset : Nat} (inside : offset < bytes.length) :
    (memory.store address bytes).peek (address + offset) = bytes[offset] := by
  have place : (address + offset + (4096 - address % 4096)) % 4096 = offset := by omega
  rw [peek_store _ _ _ _ fits,place]
  simp [inside]

theorem peek_store_outside (fits : bytes.length ≤ 4096) {cell : Nat} (below : cell < 4096)
    (outside : ∀ offset < bytes.length, cell ≠ (address + offset) % 4096) :
    (memory.store address bytes).peek cell = memory.peek cell := by
  rw [peek_store _ _ _ _ fits,List.getD_eq_getElem?_getD,List.getElem?_eq_none]
  · rfl
  · refine Nat.le_of_not_lt fun inside => ?_
    exact outside _ inside (by omega)

def initialByte (cell : Fin 4096) : UInt8 := if cell.val < 0x50 then glyphs.getD cell 0 else 0

theorem peek_initial (cell : Fin 4096) : initial.peek cell = initialByte cell := by
  have blank : zero.peek cell = 0 := by simp [zero,peek]
  have place : (cell.val + (4096 - 0 % 4096)) % 4096 = cell.val := by omega
  rw [initial,peek_store _ _ _ _ (by decide),place,blank,initialByte]
  split
  · rfl
  · rename_i behind
    rw [List.getD_eq_getElem?_getD,List.getElem?_eq_none (Nat.le_of_not_lt behind)]
    rfl

def glyph (digit : Fin 16) : List UInt8 := (glyphs.drop (5 * digit)).take 5

theorem toNat_glyphAddress {value : UInt8} {digit : Fin 16} (same : value.toNat = digit) :
    (glyphAddress value).toNat = 5 * digit := by
  rw [glyphAddress,UInt16.toNat_mul,UInt8.toNat_toUInt16,same]
  change digit.val * 5 % 65536 = _
  omega

/-- A digit is drawn from where its glyph lies, if the glyphs are as in a new memory. -/
theorem slice_glyph (intact : ∀ cell : Fin 4096, cell.val < 0x50 → memory.peek cell = initialByte cell)
    (digit : Fin 16) : memory.slice (5 * digit) 5 = glyph digit := by
  have rows (row : Nat) (inside : row < 5) :
      memory.peek (5 * digit + row) = glyphs.getD (5 * digit + row) 0 := by
    have low : 5 * digit.val + row < 0x50 := by omega
    have same := intact ⟨5 * digit + row,by omega⟩ low
    rwa [initialByte,if_pos low] at same
  apply List.ext_getElem?
  intro row
  by_cases inside : row < 5
  · have low : 5 * digit.val + row < glyphs.length := by
      change _ < 80
      omega
    simp [slice,glyph,inside,rows row inside,low]
  · simp only [slice,glyph,List.getElem?_map,List.getElem?_take,inside,if_false]
    rw [List.getElem?_eq_none (by simpa using inside)]
    rfl

end Chip8.Memory
