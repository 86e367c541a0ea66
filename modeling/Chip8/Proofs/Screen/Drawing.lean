import Chip8.Screen
import Mathlib.Algebra.BigOperators.Group.List.Basic
import Mathlib.Algebra.Ring.Nat

/-! What drawing makes of the screen. All that counts of a list of drawings is
how many set bits fall on each point: an odd number inverts the pixel, and a
collision is seen somewhere exactly when two bits meet or one meets a lit pixel. -/
namespace Chip8

structure Drawing where
  x : Nat
  y : Nat
  sprite : List UInt8
  height : Nat
deriving DecidableEq

namespace Drawing

def points (drawing : Drawing) : List Point :=
  spritePoints drawing.x drawing.y (drawing.sprite.take drawing.height)

def hits (drawing : Drawing) (point : Point) : Nat :=
  ((List.range (min drawing.height drawing.sprite.length)).map fun row =>
    (List.range 8).countP fun column =>
      (drawing.sprite.getD row 0).toNat.testBit (7 - column) &&
        decide ((drawing.x + column) % 64 = point.column.val ∧
          (drawing.y + row) % 32 = point.row.val)).sum

def totalHits (drawings : List Drawing) (point : Point) : Nat :=
  (drawings.map (·.hits point)).sum

end Drawing

theorem Point.around_eq {x y : Nat} {point : Point} :
    Point.around x y = point ↔ x % 64 = point.column.val ∧ y % 32 = point.row.val := by
  obtain ⟨column,row⟩ := point
  simp only [Point.around,Point.mk.injEq,Fin.ext_iff]

theorem zipIdx_eq_map (sprite : List UInt8) :
    sprite.zipIdx = (List.range sprite.length).map fun row => (sprite.getD row 0,row) := by
  apply List.ext_getElem
  · simp
  · intro row left right
    have inside : row < sprite.length := by simpa using left
    simp [inside]

/-- The points of a drawing row by row, told by the sprite as it is given. -/
theorem Drawing.points_eq (drawing : Drawing) :
    drawing.points = (List.range (min drawing.height drawing.sprite.length)).flatMap fun row =>
      (rowColumns (drawing.sprite.getD row 0)).map fun column =>
        .around (drawing.x + column) (drawing.y + row) := by
  have length : (drawing.sprite.take drawing.height).length =
      min drawing.height drawing.sprite.length := List.length_take
  rw [points,spritePoints,zipIdx_eq_map,length,List.flatMap_map]
  refine List.flatMap_congr fun row member => ?_
  have drawn : row < drawing.height := by
    have below := List.mem_range.mp member
    omega
  simp [List.getD_eq_getElem?_getD,List.getElem?_take_of_lt drawn]

theorem Drawing.count_points (drawing : Drawing) (point : Point) :
    drawing.points.count point = drawing.hits point := by
  rw [points_eq,List.count_flatMap,hits]
  refine congrArg List.sum (List.map_congr_left fun row _ => ?_)
  simp only [Function.comp_apply,List.count,List.countP_map,rowColumns,List.countP_filter]
  refine List.countP_congr fun column _ => ?_
  simp [Point.around_eq,and_comm]

theorem Drawing.count_allPoints (drawings : List Drawing) (point : Point) :
    (drawings.flatMap Drawing.points).count point = totalHits drawings point := by
  rw [List.count_flatMap,totalHits]
  exact congrArg List.sum (List.map_congr_left fun drawing _ => drawing.count_points point)

theorem Drawing.totalHits_perm {drawings others : List Drawing} (same : drawings.Perm others)
    (point : Point) : totalHits drawings point = totalHits others point :=
  (same.map _).sum_eq

namespace Screen
variable {screen other : Screen}

/-- A screen is given by what is lit. -/
theorem ext_lit (same : ∀ point, screen.lit point = other.lit point) : screen = other := by
  obtain ⟨pixels⟩ := screen
  obtain ⟨others⟩ := other
  congr 1
  refine Vector.ext fun place inside => ?_
  let point : Point := ⟨⟨place % 64,by omega⟩,⟨place / 64,by omega⟩⟩
  have number : point.number.val = place := by
    simp only [point,Point.number]
    omega
  have found := same point
  simpa only [lit,Fin.getElem_fin,number] using found

theorem toggleAll_from (screen : Screen) (points : List Point) (collision : Bool) :
    points.foldl (fun (state : Screen × Bool) point =>
        (state.1.toggle point,state.2 || state.1.lit point)) (screen,collision) =
      ((screen.toggleAll points).1,collision || (screen.toggleAll points).2) := by
  induction points generalizing screen collision with
  | nil => simp [toggleAll]
  | cons point points ih =>
    have first := ih (screen.toggle point) (false || screen.lit point)
    have whole : screen.toggleAll (point :: points) = _ := first
    rw [List.foldl_cons,ih,whole,Bool.false_or,Bool.or_assoc]

theorem toggleAll_cons (screen : Screen) (point : Point) (points : List Point) :
    screen.toggleAll (point :: points) =
      (((screen.toggle point).toggleAll points).1,
        screen.lit point || ((screen.toggle point).toggleAll points).2) := by
  have rest := toggleAll_from (screen.toggle point) points (screen.lit point)
  simpa only [toggleAll,List.foldl_cons,Bool.false_or] using rest

theorem toggleAll_append (screen : Screen) (first second : List Point) :
    screen.toggleAll (first ++ second) =
      (((screen.toggleAll first).1.toggleAll second).1,
        (screen.toggleAll first).2 || ((screen.toggleAll first).1.toggleAll second).2) := by
  rw [← toggleAll_from]
  exact List.foldl_append

/-- A pixel ends up inverted if it has been touched an odd number of times. -/
theorem lit_toggleAll (screen : Screen) (points : List Point) (point : Point) :
    (screen.toggleAll points).1.lit point =
      (screen.lit point ^^ decide (points.count point % 2 = 1)) := by
  induction points generalizing screen with
  | nil => simp [toggleAll]
  | cons touched points ih =>
    rw [toggleAll_cons]
    dsimp only
    rw [ih,lit_toggle,List.count_cons]
    by_cases here : touched = point
    · subst here
      rcases Nat.mod_two_eq_zero_or_one (points.count touched) with even | odd
      · simp [even,Nat.add_mod]
      · simp [odd,Nat.add_mod]
    · simp [here]

/-- Among the pixels that are touched, one is lit when its turn comes if it is lit already or if it
is touched twice. -/
theorem collides_toggleAll (screen : Screen) (points : List Point) :
    (screen.toggleAll points).2 = true ↔
      ∃ point, 2 ≤ points.count point ∨ 1 ≤ points.count point ∧ screen.lit point = true := by
  induction points generalizing screen with
  | nil => simp [toggleAll]
  | cons touched points ih =>
    rw [toggleAll_cons]
    dsimp only
    rw [Bool.or_eq_true,ih]
    constructor
    · rintro (lit | ⟨point,twice | ⟨once,lit⟩⟩)
      · exact ⟨touched,.inr ⟨by simp,lit⟩⟩
      · exact ⟨point,.inl (Nat.le_trans twice List.count_le_count_cons)⟩
      · by_cases here : touched = point
        · subst here
          exact ⟨touched,.inl (by simpa using once)⟩
        · refine ⟨point,.inr ⟨Nat.le_trans once List.count_le_count_cons,?_⟩⟩
          simpa [here] using lit
    · rintro ⟨point,collides⟩
      by_cases here : touched = point
      · subst here
        rw [List.count_cons_self] at collides
        cases lit : screen.lit touched with
        | true => exact .inl rfl
        | false =>
          refine .inr ⟨touched,.inr ⟨?_,by simp [lit]⟩⟩
          rcases collides with twice | ⟨once,wrong⟩
          · omega
          · rw [lit] at wrong
            cases wrong
      · rw [List.count_cons_of_ne here] at collides
        refine .inr ⟨point,collides.imp_right fun once => ⟨once.1,?_⟩⟩
        simpa [here] using once.2

def drawAll (screen : Screen) : List Drawing → Screen × List Bool
  | [] => (screen,[])
  | drawing :: drawings =>
    let (drawn,collision) := screen.draw drawing.x drawing.y drawing.sprite drawing.height
    let (last,collisions) := drawn.drawAll drawings
    (last,collision :: collisions)

theorem drawAll_eq (screen : Screen) (drawings : List Drawing) :
    (screen.drawAll drawings).1 = (screen.toggleAll (drawings.flatMap Drawing.points)).1 ∧
      (true ∈ (screen.drawAll drawings).2 ↔
        (screen.toggleAll (drawings.flatMap Drawing.points)).2 = true) := by
  induction drawings generalizing screen with
  | nil => simp [drawAll,toggleAll]
  | cons drawing drawings ih =>
    obtain ⟨last,collided⟩ := ih (screen.toggleAll drawing.points).1
    have drawn : screen.draw drawing.x drawing.y drawing.sprite drawing.height =
        screen.toggleAll drawing.points := rfl
    simp only [drawAll,drawn,List.flatMap_cons,toggleAll_append,List.mem_cons,collided,last,
      Bool.or_eq_true,@eq_comm _ true,true_and]

theorem lit_drawAll (screen : Screen) (drawings : List Drawing) (point : Point) :
    (screen.drawAll drawings).1.lit point =
      (screen.lit point ^^ decide (Drawing.totalHits drawings point % 2 = 1)) := by
  rw [(screen.drawAll_eq drawings).1,lit_toggleAll,Drawing.count_allPoints]

theorem collides_drawAll (screen : Screen) (drawings : List Drawing) :
    true ∈ (screen.drawAll drawings).2 ↔
      ∃ point, 2 ≤ Drawing.totalHits drawings point ∨
        1 ≤ Drawing.totalHits drawings point ∧ screen.lit point = true := by
  rw [(screen.drawAll_eq drawings).2,collides_toggleAll]
  simp only [Drawing.count_allPoints]

/-- Drawings superpose: the screen and whether there was a collision at all follow from the number
of hits at each point, in whatever order they are made, and made again they undo themselves. -/
theorem drawings_superpose (screen : Screen) (drawings : List Drawing) :
    (∀ point, (screen.drawAll drawings).1.lit point =
      (screen.lit point ^^ decide (Drawing.totalHits drawings point % 2 = 1))) ∧
    (true ∈ (screen.drawAll drawings).2 ↔
      ∃ point, 2 ≤ Drawing.totalHits drawings point ∨
        1 ≤ Drawing.totalHits drawings point ∧ screen.lit point = true) ∧
    (∀ others, drawings.Perm others →
      (screen.drawAll others).1 = (screen.drawAll drawings).1 ∧
      (true ∈ (screen.drawAll others).2 ↔ true ∈ (screen.drawAll drawings).2)) ∧
    ((screen.drawAll drawings).1.drawAll drawings).1 = screen := by
  refine ⟨screen.lit_drawAll drawings,screen.collides_drawAll drawings,?_,?_⟩
  · intro others same
    have hits := Drawing.totalHits_perm same
    constructor
    · apply ext_lit
      intro point
      rw [lit_drawAll,lit_drawAll,hits]
    · simp only [collides_drawAll,hits]
  · apply ext_lit
    intro point
    rw [lit_drawAll,lit_drawAll,Bool.xor_assoc,Bool.xor_self,Bool.xor_false]

/-- The same two drawings the other way round, where it is the other one that collides. -/
theorem drawings_superpose_swap :
    let first : Drawing := ⟨62,31,[0xF0,0x0F,0xFF],7⟩
    let second : Drawing := ⟨0,31,[0xC0],1⟩
    (Screen.blank.drawAll [second,first]).1 = (Screen.blank.drawAll [first,second]).1 ∧
      (true ∈ (Screen.blank.drawAll [second,first]).2 ↔
        true ∈ (Screen.blank.drawAll [first,second]).2) := by
  intro first second
  obtain ⟨_,_,ordered,_⟩ := drawings_superpose .blank [first,second]
  exact ordered [second,first] (List.Perm.swap second first [])

end Screen

end Chip8
