/-! The screen of sixty-four by thirty-two pixels. A drawing is the list of the
points it touches, each point as often as a bit of the sprite falls on it, and
touching a point inverts its pixel. Both directions go around the edges. -/
namespace Chip8

structure Point where
  column : Fin 64
  row : Fin 32
deriving DecidableEq

namespace Point

def around (x y : Nat) : Point :=
  ⟨⟨x % 64,Nat.mod_lt _ (by decide)⟩,⟨y % 32,Nat.mod_lt _ (by decide)⟩⟩

def number (point : Point) : Fin 2048 := ⟨64 * point.row.val + point.column.val,by omega⟩

theorem number_inj {first second : Point} : first.number = second.number ↔ first = second := by
  constructor
  · intro same
    obtain ⟨⟨a,ha⟩,⟨b,hb⟩⟩ := first
    obtain ⟨⟨c,hc⟩,⟨d,hd⟩⟩ := second
    simp only [number,Fin.mk.injEq] at same
    simp only [Point.mk.injEq,Fin.mk.injEq]
    omega
  · rintro rfl
    rfl

end Point

def rowColumns (bits : UInt8) : List Nat :=
  (List.range 8).filter fun column => bits.toNat.testBit (7 - column)

def spritePoints (x y : Nat) (sprite : List UInt8) : List Point :=
  sprite.zipIdx.flatMap fun (bits,row) =>
    (rowColumns bits).map fun column => .around (x + column) (y + row)

structure Screen where
  pixels : Vector Bool 2048
deriving DecidableEq

namespace Screen

def blank : Screen := ⟨Vector.replicate 2048 false⟩

def lit (screen : Screen) (point : Point) : Bool :=
  screen.pixels[point.number]

def pixel (screen : Screen) (x y : Nat) : Bool := screen.lit (.around x y)

def toggle (screen : Screen) (point : Point) : Screen :=
  ⟨screen.pixels.set point.number (!screen.lit point)⟩

/-- A toggle changes the pixel at its point and no other one. -/
@[simp] theorem lit_toggle (screen : Screen) (point other : Point) :
    (screen.toggle point).lit other = (screen.lit other ^^ decide (point = other)) := by
  by_cases same : point = other
  · subst same
    simp [lit,toggle]
  · have apart : point.number.val ≠ other.number.val := by
      rw [Fin.val_ne_iff,Ne,Point.number_inj]
      exact same
    simp [lit,toggle,Vector.getElem_set_ne _ _ apart,same]

def toggleAll (screen : Screen) (points : List Point) : Screen × Bool :=
  points.foldl
    (fun (screen,collision) point =>
      let found := screen.lit point
      (screen.toggle point,collision || found))
    (screen,false)

def draw (screen : Screen) (x y : Nat) (sprite : List UInt8) (height : Nat) : Screen × Bool :=
  screen.toggleAll (spritePoints x y (sprite.take height))

def litCount (screen : Screen) : Nat := screen.pixels.toList.count true

end Screen

end Chip8
