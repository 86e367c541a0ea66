import Chip8.Proofs.Screen.Drawing
import Mathlib.Data.List.Nodup

/-! Sprites that are no taller than the screen. Their bits fall on points of their
own, around the edges too, so that a drawing inverts each point that it touches and
collides where such a point is lit. -/
namespace Chip8
variable {sprite : List UInt8} {point : Point}

theorem mem_rowColumns {bits : UInt8} {column : Nat} :
    column ∈ rowColumns bits ↔ column < 8 ∧ bits.toNat.testBit (7 - column) = true := by
  simp [rowColumns]

theorem mem_spritePoints {x y : Nat} :
    point ∈ spritePoints x y sprite ↔ ∃ row < sprite.length, ∃ column < 8,
      (sprite.getD row 0).toNat.testBit (7 - column) = true ∧
        Point.around (x + column) (y + row) = point := by
  rw [spritePoints,zipIdx_eq_map]
  simp only [List.mem_flatMap,List.mem_map,List.mem_range,mem_rowColumns]
  constructor
  · rintro ⟨_,⟨row,inside,rfl⟩,column,⟨narrow,bit⟩,same⟩
    exact ⟨row,inside,column,narrow,bit,same⟩
  · rintro ⟨row,inside,column,narrow,bit,same⟩
    exact ⟨_,⟨row,inside,rfl⟩,column,⟨narrow,bit⟩,same⟩

/-- Neither the eight columns of a sprite nor its rows come around to where they have been. -/
theorem around_inj {x y column row other below : Nat} (narrow : column < 8) (narrow' : other < 8)
    (short : row < 32) (short' : below < 32)
    (same : Point.around (x + column) (y + row) = Point.around (x + other) (y + below)) :
    column = other ∧ row = below := by
  simp only [Point.around,Point.mk.injEq,Fin.mk.injEq] at same
  omega

theorem nodup_spritePoints (x y : Nat) (short : sprite.length ≤ 32) :
    (spritePoints x y sprite).Nodup := by
  rw [spritePoints,zipIdx_eq_map,List.nodup_flatMap]
  -- Within a row the columns tell the points apart, and between two rows the rows do.
  constructor
  · intro entry listed
    obtain ⟨row,inside,rfl⟩ := List.mem_map.mp listed
    have low := List.mem_range.mp inside
    refine List.Nodup.map_on ?_ (List.nodup_range.filter _)
    intro column member other member' same
    have narrow := (mem_rowColumns.mp member).1
    have narrow' := (mem_rowColumns.mp member').1
    exact (around_inj narrow narrow' (by omega) (by omega) same).1
  · refine List.pairwise_map.mpr (List.nodup_range.imp_of_mem ?_)
    intro row below inside inside' apart
    refine List.disjoint_left.mpr fun point upper lower => apart ?_
    obtain ⟨column,member,rfl⟩ := List.mem_map.mp upper
    obtain ⟨other,member',same⟩ := List.mem_map.mp lower
    have narrow := (mem_rowColumns.mp member).1
    have narrow' := (mem_rowColumns.mp member').1
    have low := List.mem_range.mp inside
    have low' := List.mem_range.mp inside'
    exact (around_inj narrow' narrow (by omega) (by omega) same).2.symm

namespace Screen
variable {points : List Point}

theorem flips_toggleAll (screen : Screen) (once : points.Nodup) :
    (screen.toggleAll points).1.lit point ≠ screen.lit point ↔ point ∈ points := by
  rw [lit_toggleAll,once.count]
  by_cases member : point ∈ points
  · simp [member]
  · simp [member]

theorem meets_toggleAll (screen : Screen) (once : points.Nodup) :
    (screen.toggleAll points).2 = true ↔ ∃ point ∈ points, screen.lit point = true := by
  rw [collides_toggleAll]
  refine exists_congr fun point => ?_
  rw [once.count]
  by_cases member : point ∈ points
  · simp [member]
  · simp [member]

end Screen

end Chip8
