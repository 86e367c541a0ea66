import Chip8.Proofs.Screen.Drawing

/-! How many pixels are lit. Each set bit of a sprite lights one more or turns one off,
and so the count tells how often a lit pixel has been met, however often the rows of a
tall sprite come around to the same place. -/
namespace Chip8

def Drawing.setBits (drawing : Drawing) : Nat :=
  ((List.range (min drawing.height drawing.sprite.length)).map fun row =>
    (List.range 8).countP (drawing.sprite.getD row 0).toNat.testBit).sum

theorem length_rowColumns (bits : UInt8) :
    (rowColumns bits).length = (List.range 8).countP bits.toNat.testBit := by
  -- Columns are counted from the left and bits from the right.
  have flipped : ((List.range 8).map (7 - ·)).Perm (List.range 8) := by decide
  rw [rowColumns,← List.countP_eq_length_filter,← flipped.countP_eq,List.countP_map]
  rfl

theorem Drawing.length_points (drawing : Drawing) : drawing.points.length = drawing.setBits := by
  rw [points_eq,List.length_flatMap,setBits]
  refine congrArg List.sum (List.map_congr_left fun row _ => ?_)
  rw [List.length_map,length_rowColumns]

namespace Screen

def metLit (screen : Screen) : List Point → Nat
  | [] => 0
  | point :: points => (screen.lit point).toNat + (screen.toggle point).metLit points

theorem toNat_lit_le (screen : Screen) (point : Point) :
    (screen.lit point).toNat ≤ screen.litCount := by
  cases lit : screen.lit point with
  | false => exact Nat.zero_le _
  | true =>
    have member : true ∈ screen.pixels.toList := lit ▸ Vector.mem_toList_iff.mpr (Vector.getElem_mem _)
    exact List.count_pos_iff.mpr member

/-- A toggle takes a pixel away where it meets a lit one and adds one elsewhere. -/
theorem litCount_toggle (screen : Screen) (point : Point) :
    (screen.toggle point).litCount + 2 * (screen.lit point).toNat = screen.litCount + 1 := by
  -- The count behind the toggle is a difference, which is exact since the pixel has been counted.
  have present := screen.toNat_lit_le point
  have inside : point.number.val < screen.pixels.toList.length := by simp
  have found : screen.pixels.toList[point.number.val] = screen.lit point := rfl
  have counted : (screen.toggle point).litCount =
      screen.litCount - (screen.lit point).toNat + (!screen.lit point).toNat := by
    rw [litCount,toggle,Vector.toList_set,List.count_set inside,found]
    cases screen.lit point <;> rfl
  have opposite : (!screen.lit point).toNat + (screen.lit point).toNat = 1 := by
    cases screen.lit point <;> rfl
  omega

theorem litCount_toggleAll (screen : Screen) (points : List Point) :
    (screen.toggleAll points).1.litCount + 2 * screen.metLit points =
      screen.litCount + points.length := by
  induction points generalizing screen with
  | nil => rfl
  | cons point points ih =>
    have here := screen.litCount_toggle point
    have later := ih (screen.toggle point)
    simp only [toggleAll_cons,metLit,List.length_cons]
    omega

theorem collides_metLit (screen : Screen) (points : List Point) :
    (screen.toggleAll points).2 = true ↔ 0 < screen.metLit points := by
  induction points generalizing screen with
  | nil => simp [toggleAll,metLit]
  | cons point points ih =>
    simp only [toggleAll_cons,metLit,Bool.or_eq_true,ih]
    cases screen.lit point with
    | false => simp
    | true => simp [Nat.add_comm 1]

/-- The number of lit pixels behind a drawing is that before it with one more for each set bit, less
two for each bit that meets a lit pixel. The answer tells whether there is such a bit, and so it
denies a collision exactly when all bits have lit a pixel more. -/
theorem lit_accounted (screen : Screen) (drawing : Drawing) :
    let drawn := screen.draw drawing.x drawing.y drawing.sprite drawing.height
    let met := screen.metLit drawing.points
    (drawn.2 = false ↔ drawn.1.litCount = screen.litCount + drawing.setBits) ∧
    drawn.1.litCount + 2 * met = screen.litCount + drawing.setBits ∧
    (drawn.2 = true ↔ 0 < met) := by
  intro drawn met
  have collides : drawn.2 = true ↔ 0 < met := screen.collides_metLit drawing.points
  have balance : drawn.1.litCount + 2 * met = screen.litCount + drawing.setBits := by
    rw [← drawing.length_points]
    exact screen.litCount_toggleAll drawing.points
  refine ⟨?_,balance,collides⟩
  rw [← Bool.not_eq_true,collides]
  omega

end Screen

end Chip8
