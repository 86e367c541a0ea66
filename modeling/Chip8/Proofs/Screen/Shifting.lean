import Chip8.Proofs.Screen.Drawing
import Mathlib.Algebra.Group.Fin.Basic

/-! The screen as a torus. Points are added around both edges, and the screen is
shifted by shifting all of its pixels. What is drawn on the shifted screen is the
shifted drawing, so that no column and no row is a special one. -/
namespace Chip8

namespace Point
variable {point offset other : Point}

instance : Add Point := ⟨fun point offset => ⟨point.column + offset.column,point.row + offset.row⟩⟩

instance : Sub Point := ⟨fun point offset => ⟨point.column - offset.column,point.row - offset.row⟩⟩

theorem add_eq_iff : point + offset = other ↔ point = other - offset := by
  obtain ⟨column,row⟩ := point
  obtain ⟨right,down⟩ := offset
  obtain ⟨column',row'⟩ := other
  change Point.mk (column + right) (row + down) = _ ↔ _ = Point.mk (column' - right) (row' - down)
  rw [mk.injEq,mk.injEq,eq_sub_iff_add_eq,eq_sub_iff_add_eq]

/-- Numbers are added before they go around the edges. -/
theorem around_add (x y dx dy : Nat) : around (x + dx) (y + dy) = around x y + around dx dy :=
  congrArg₂ mk (Fin.ext (Nat.add_mod x dx 64)) (Fin.ext (Nat.add_mod y dy 32))

theorem around_whole (x y a b : Nat) : around (x + 64 * a) (y + 32 * b) = around x y :=
  congrArg₂ mk (Fin.ext (Nat.add_mul_mod_self_left x 64 a)) (Fin.ext (Nat.add_mul_mod_self_left y 32 b))

theorem around_number (point : Point) : around point.number (point.number / 64) = point := by
  obtain ⟨column,row⟩ := point
  simp only [around_eq,number]
  omega

end Point

theorem spritePoints_add (x y dx dy : Nat) (sprite : List UInt8) :
    spritePoints (x + dx) (y + dy) sprite = (spritePoints x y sprite).map (· + .around dx dy) := by
  simp only [spritePoints,List.map_flatMap,List.map_map,Function.comp_def,← Point.around_add,
    Nat.add_right_comm]

theorem spritePoints_whole (x y a b : Nat) (sprite : List UInt8) :
    spritePoints (x + 64 * a) (y + 32 * b) sprite = spritePoints x y sprite := by
  simp only [spritePoints,Nat.add_right_comm _ (_ * _),Point.around_whole]

namespace Screen

def ofLit (lit : Point → Bool) : Screen :=
  ⟨Vector.ofFn fun place => lit (.around place (place / 64))⟩

@[simp] theorem lit_ofLit (lit : Point → Bool) (point : Point) : (ofLit lit).lit point = lit point := by
  change (Vector.ofFn _)[point.number.val] = _
  rw [Vector.getElem_ofFn]
  exact congrArg lit point.around_number

def shift (screen : Screen) (offset : Point) : Screen :=
  ofLit fun point => screen.lit (point - offset)

theorem lit_shift (screen : Screen) (point offset : Point) :
    (screen.shift offset).lit (point + offset) = screen.lit point := by
  rw [shift,lit_ofLit,← Point.add_eq_iff.mp rfl]

theorem toggle_shift (screen : Screen) (point offset : Point) :
    (screen.shift offset).toggle (point + offset) = (screen.toggle point).shift offset := by
  refine ext_lit fun other => ?_
  simp only [lit_toggle,shift,lit_ofLit,Point.add_eq_iff]

theorem toggleAll_shift (screen : Screen) (points : List Point) (offset : Point) :
    (screen.shift offset).toggleAll (points.map (· + offset)) =
      ((screen.toggleAll points).1.shift offset,(screen.toggleAll points).2) := by
  induction points generalizing screen with
  | nil => rfl
  | cons point points ih => rw [List.map_cons,toggleAll_cons,toggleAll_cons,toggle_shift,lit_shift,ih]

theorem draw_offset (screen : Screen) (x y dx dy : Nat) (sprite : List UInt8) (height : Nat) :
    (screen.shift (.around dx dy)).draw (x + dx) (y + dy) sprite height =
      ((screen.draw x y sprite height).1.shift (.around dx dy),(screen.draw x y sprite height).2) := by
  rw [draw,spritePoints_add,toggleAll_shift]
  rfl

theorem draw_whole (screen : Screen) (x y a b : Nat) (sprite : List UInt8) (height : Nat) :
    screen.draw (x + 64 * a) (y + 32 * b) sprite height = screen.draw x y sprite height := by
  rw [draw,spritePoints_whole]
  rfl

/-- A drawing knows no place. On a shifted screen it is the shifted drawing, with the same answer, and
whole turns around the screen make no difference to it. So whatever it does at one place it does at
any other one, on the screen shifted from the one to the other. -/
theorem drawing_shifts (screen : Screen) (x y : Nat) (sprite : List UInt8) (height : Nat) :
    let drawn := screen.draw x y sprite height
    (∀ dx dy,
      let shifted := screen.shift (.around dx dy)
      (∀ column row, shifted.pixel (column + dx) (row + dy) = screen.pixel column row) ∧
      shifted.draw (x + dx) (y + dy) sprite height = (drawn.1.shift (.around dx dy),drawn.2)) ∧
    (∀ a b, screen.draw (x + 64 * a) (y + 32 * b) sprite height = drawn) ∧
    (∀ x' y', ∃ offset, .around x y + offset = Point.around x' y' ∧
      (screen.shift offset).draw x' y' sprite height = (drawn.1.shift offset,drawn.2)) := by
  intro drawn
  refine ⟨fun dx dy => ⟨fun column row => ?_,screen.draw_offset x y dx dy sprite height⟩,
    fun a b => screen.draw_whole x y a b sprite height,fun x' y' => ?_⟩
  · rw [pixel,Point.around_add,lit_shift,pixel]
  · -- The way from one place to the other goes on around both edges.
    let dx := x' + 63 * x
    let dy := y' + 31 * y
    have column : x + dx = x' + 64 * x := by omega
    have row : y + dy = y' + 32 * y := by omega
    have shifted := screen.draw_offset x y dx dy sprite height
    refine ⟨.around dx dy,?_,?_⟩
    · rw [← Point.around_add,column,row,Point.around_whole]
    · rwa [column,row,draw_whole] at shifted

-- Two rows that go on around the right and the lower edge, over a lit pixel behind both.
example :
    let screen := (blank.draw 0 0 [0x80] 1).1
    let drawn := screen.draw 63 31 [0xC0,0xC0] 2
    drawn.2 = true ∧ drawn.1.litCount = 3 ∧ drawn.1.pixel 63 31 = true ∧ drawn.1.pixel 0 31 = true ∧
      drawn.1.pixel 63 0 = true ∧ drawn.1.pixel 0 0 = false := by
  decide +kernel

end Screen

end Chip8
