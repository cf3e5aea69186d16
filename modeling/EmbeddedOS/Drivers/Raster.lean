import EmbeddedOS.Base.Loop
import EmbeddedOS.Drivers.TraceConsole

/-!
# Lines and rectangles

`draw_line` and `draw_rect` of `framebuffer.c`. A line goes through the columns from the left and
leaves out the last one; the variable `p` decides whether it goes on in the next row. Where it
neither falls nor gains more than a row a column, each pixel is in the row nearest to the line.
-/

namespace EmbeddedOS
namespace Drivers

open Base

/-! ## The code -/

/-- The result of an operation on `int`s; overflow has none. -/
def checked (v : Int) : Option Int :=
  if -2147483648 ≤ v ∧ v ≤ 2147483647 then some v else none

/-- One pass of `while (x<x2)`: `x`, `y`, `p`, and the pixels so far, the last one first. -/
def drawLinePass (dx dy x2 : Int) (color : Nat) :
    Int × Int × Int × List Pixel → Option (Pass (Int × Int × Int × List Pixel) (List Pixel))
  | (x, y, p, drawn) =>
      if x < x2 then do
        let rise ← checked (2 * dy)
        let q ← checked (p + rise)
        let next ← checked (x + 1)
        if p ≥ 0 then
          let above ← checked (y + 1)
          let run ← checked (2 * dx)
          let q ← checked (q - run)
          some (.again (next, above, q, { x, y, color } :: drawn))
        else some (.again (next, y, q, { x, y, color } :: drawn))
      else some (.done drawn.reverse)

def draw_line (fuel : Nat) (x1 y1 x2 y2 : Int) (color : Nat) : Option (List Pixel) := do
  let dx ← checked (x2 - x1)
  let dy ← checked (y2 - y1)
  let rise ← checked (2 * dy)
  let p ← checked (rise - dx)
  loop (drawLinePass dx dy x2 color) fuel (x1, y1, p, [])

/-- One pass of `while (x <= x2)` in row `y`: `x`, and the pixels so far. -/
def drawColumnPass (x1 y1 x2 y2 : Int) (color : Nat) (fill y : Int) :
    Int × List Pixel → Option (Pass (Int × List Pixel) (List Pixel))
  | (x, drawn) =>
      if x ≤ x2 then do
        let next ← checked (x + 1)
        if (x = x1 ∨ x = x2) ∨ y = y1 ∨ y = y2 then some (.again (next, { x, y, color } :: drawn))
        else if fill ≠ 0 then some (.again (next, { x, y, color } :: drawn))
        else some (.again (next, drawn))
      else some (.done drawn)

/-- One pass of `while (y <= y2)`. -/
def drawRowPass (fuel : Nat) (x1 y1 x2 y2 : Int) (color : Nat) (fill : Int) :
    Int × List Pixel → Option (Pass (Int × List Pixel) (List Pixel))
  | (y, drawn) =>
      if y ≤ y2 then do
        let drawn ← loop (drawColumnPass x1 y1 x2 y2 color fill y) fuel (x1, drawn)
        let next ← checked (y + 1)
        some (.again (next, drawn))
      else some (.done drawn.reverse)

def draw_rect (fuel : Nat) (x1 y1 x2 y2 : Int) (color : Nat) (fill : Int) : Option (List Pixel) :=
  loop (drawRowPass fuel x1 y1 x2 y2 color fill) fuel (y1, [])

/-! ## The nearest row -/

/-- How far the point is from the line through the origin with slope `dy / dx`, times `dx`. -/
def offLine (dx dy k j : Int) : Int := dy * k - dx * j

/-- No other row of its column is closer to the line that begins at `(x1, y1)`. -/
def Nearest (x1 y1 x2 y2 : Int) (p : Pixel) : Prop :=
  ∀ y : Int, (offLine (x2 - x1) (y2 - y1) (p.x - x1) (p.y - y1)).natAbs ≤
    (offLine (x2 - x1) (y2 - y1) (p.x - x1) (y - y1)).natAbs

section Error

variable {dx dy k j : Int}

/-- A point that is off by half a row at most is in the nearest row. -/
theorem offLine_least (hdx : 0 < dx) (hlow : -dx ≤ 2 * offLine dx dy k j)
    (hhigh : 2 * offLine dx dy k j ≤ dx) (i : Int) :
    (offLine dx dy k j).natAbs ≤ (offLine dx dy k i).natAbs := by
  have hshift : offLine dx dy k i = offLine dx dy k j + dx * (j - i) := by
    rw [offLine, offLine, Int.mul_sub]
    omega
  rw [hshift]
  rcases Int.lt_trichotomy j i with hlt | rfl | hgt
  · have : dx * 1 ≤ dx * (i - j) := Int.mul_le_mul_of_nonneg_left (by omega) (Int.le_of_lt hdx)
    rw [Int.mul_sub] at this ⊢
    omega
  · rw [Int.sub_self, Int.mul_zero, Int.add_zero]
  · have : dx * 1 ≤ dx * (j - i) := Int.mul_le_mul_of_nonneg_left (by omega) (Int.le_of_lt hdx)
    omega

/-- Up to the last column the line does not leave its rows. -/
theorem offLine_row (hdx : 0 < dx) (hdy : 0 ≤ dy) (hk : k ≤ dx)
    (hlow : -dx ≤ 2 * offLine dx dy k j) : j ≤ dy := by
  by_contra hj
  have hcolumn : dy * k ≤ dy * dx := Int.mul_le_mul_of_nonneg_left hk hdy
  have hrow : dx * (dy + 1) ≤ dx * j := Int.mul_le_mul_of_nonneg_left (by omega) (Int.le_of_lt hdx)
  rw [Int.mul_add, Int.mul_comm dx dy] at hrow
  rw [offLine] at hlow
  omega

end Error

/-! ## A line -/

theorem checked_eq {v : Int} (hlow : -2147483648 ≤ v) (hhigh : v ≤ 2147483647) :
    checked v = some v := if_pos ⟨hlow, hhigh⟩

/-- The first `n` columns from `x1` on. -/
def columns (x1 : Int) (n : Nat) : List Int := (List.range n).map fun k : Nat => x1 + k

theorem columns_succ (x1 : Int) (n : Nat) : columns x1 (n + 1) = columns x1 n ++ [x1 + n] := by
  rw [columns, columns, List.range_succ, List.map_append]
  rfl

section Line

variable {x1 y1 x2 y2 : Int} {color fuel : Nat}

/-- The pixel belongs to a line between the two points. -/
structure OnLine (x1 y1 x2 y2 : Int) (color : Nat) (p : Pixel) : Prop where
  colored : p.color = color
  within : (x1 ≤ p.x ∧ p.x < x2) ∧ y1 ≤ p.y ∧ p.y ≤ y2
  nearest : Nearest x1 y1 x2 y2 p

/-- The two ends can be drawn between: the line rises by at most a row a column, and no `int` of the
loop overflows. -/
structure Gentle (x1 y1 x2 y2 : Int) : Prop where
  ends : -2147483648 ≤ x1 ∧ x2 ≤ 2147483647 ∧ -2147483648 ≤ y1 ∧ y2 ≤ 2147483647
  right : x1 ≤ x2
  rises : y1 ≤ y2
  slope : y2 - y1 ≤ x2 - x1
  short : 4 * (x2 - x1) ≤ 2147483647

/-- What holds at the head of the loop. -/
structure Drawing (x1 y1 x2 y2 : Int) (color : Nat) (s : Int × Int × Int × List Pixel) : Prop where
  column : x1 ≤ s.1 ∧ s.1 ≤ x2
  row : y1 ≤ s.2.1
  -- The decision variable is twice the distance from the line, half a column on.
  error : s.2.2.1 =
    2 * offLine (x2 - x1) (y2 - y1) (s.1 - x1) (s.2.1 - y1) + 2 * (y2 - y1) - (x2 - x1)
  near : -(x2 - x1) ≤ 2 * offLine (x2 - x1) (y2 - y1) (s.1 - x1) (s.2.1 - y1) ∧
    2 * offLine (x2 - x1) (y2 - y1) (s.1 - x1) (s.2.1 - y1) ≤ x2 - x1
  columns : s.2.2.2.reverse.map Pixel.x = columns x1 (s.1 - x1).toNat
  drawn : ∀ p ∈ s.2.2.2, OnLine x1 y1 x2 y2 color p

theorem Drawing.init (h : Gentle x1 y1 x2 y2) :
    Drawing x1 y1 x2 y2 color (x1, y1, 2 * (y2 - y1) - (x2 - x1), []) := by
  have hzero : offLine (x2 - x1) (y2 - y1) (x1 - x1) (y1 - y1) = 0 := by
    rw [offLine, Int.sub_self, Int.sub_self, Int.mul_zero, Int.mul_zero, Int.sub_zero]
  have := h.right
  refine ⟨⟨Int.le_refl x1, h.right⟩, Int.le_refl y1, ?_, ?_, ?_, ?_⟩
  · simp only [hzero]
    omega
  · simp only [hzero]
    omega
  · simp [Drivers.columns]
  · rintro p ⟨⟩

/-- The pixel that a pass draws is in the nearest row. -/
theorem Drawing.pixel {x y p : Int} {drawn : List Pixel} (hline : Gentle x1 y1 x2 y2)
    (h : Drawing x1 y1 x2 y2 color (x, y, p, drawn)) (hmore : x < x2) :
    (∀ q ∈ { x, y, color } :: drawn, OnLine x1 y1 x2 y2 color q) ∧
      (({ x, y, color } :: drawn : List Pixel).reverse.map Pixel.x) =
        Drivers.columns x1 (x + 1 - x1).toNat := by
  obtain ⟨⟨hleft, hright⟩, hrow, -, ⟨hlow, hhigh⟩, hcolumns, hdrawn⟩ := h
  simp only at hleft hright hrow hlow hhigh hcolumns hdrawn
  have hrises := hline.rises
  have hrow' := offLine_row (show 0 < x2 - x1 by omega) (by omega) (show x - x1 ≤ x2 - x1 by omega)
    hlow
  constructor
  · intro q hq
    rcases List.mem_cons.mp hq with rfl | hq
    · refine ⟨rfl, ⟨⟨hleft, hmore⟩, hrow, by simp only; omega⟩, fun i => ?_⟩
      exact offLine_least (by omega) hlow hhigh (i - y1)
    · exact hdrawn q hq
  · have hnext : (x + 1 - x1).toNat = (x - x1).toNat + 1 := by omega
    rw [hnext, columns_succ, ← hcolumns, List.reverse_cons, List.map_append]
    simp only [List.map_cons, List.map_nil, List.append_cancel_left_eq, List.cons.injEq, and_true]
    omega

/-- **One pass.** Whichever way `p` decides, the line stays within half a row. -/
theorem drawLinePass_run {x y p : Int} {drawn : List Pixel} (hline : Gentle x1 y1 x2 y2)
    (h : Drawing x1 y1 x2 y2 color (x, y, p, drawn)) (hmore : x < x2) :
    ∃ y' p', drawLinePass (x2 - x1) (y2 - y1) x2 color (x, y, p, drawn) =
        some (.again (x + 1, y', p', { x, y, color } :: drawn)) ∧
      Drawing x1 y1 x2 y2 color (x + 1, y', p', { x, y, color } :: drawn) := by
  obtain ⟨hdrawn, hcolumns⟩ := h.pixel hline hmore
  obtain ⟨⟨hleft, -⟩, hrow, herror, ⟨hlow, hhigh⟩, -, -⟩ := h
  simp only at hleft hrow herror hlow hhigh
  obtain ⟨⟨hx1, hx2, hy1, hy2⟩, -, hrises, hslope, hshort⟩ := hline
  have hcolumn : ∀ j, offLine (x2 - x1) (y2 - y1) (x + 1 - x1) j =
      offLine (x2 - x1) (y2 - y1) (x - x1) j + (y2 - y1) := by
    intro j
    rw [offLine, offLine, show x + 1 - x1 = (x - x1) + 1 by omega, Int.mul_add]
    omega
  have hup : offLine (x2 - x1) (y2 - y1) (x + 1 - x1) (y + 1 - y1) =
      offLine (x2 - x1) (y2 - y1) (x + 1 - x1) (y - y1) - (x2 - x1) := by
    rw [offLine, offLine, show y + 1 - y1 = (y - y1) + 1 by omega, Int.mul_add (x2 - x1)]
    omega
  rw [hcolumn (y - y1)] at hup
  have hrise := checked_eq (v := 2 * (y2 - y1)) (by omega) (by omega)
  have hq := checked_eq (v := p + 2 * (y2 - y1)) (by omega) (by omega)
  have hnext := checked_eq (v := x + 1) (by omega) (by omega)
  by_cases hp : p ≥ 0
  · -- The row above is one of the line, so that `y++` stays below that of the end.
    have habove := offLine_row (show 0 < x2 - x1 by omega) (show 0 ≤ y2 - y1 by omega)
      (show x + 1 - x1 ≤ x2 - x1 by omega)
      (show -(x2 - x1) ≤ 2 * offLine (x2 - x1) (y2 - y1) (x + 1 - x1) (y + 1 - y1) by omega)
    have hstep := checked_eq (v := y + 1) (by omega) (by omega)
    have hrun := checked_eq (v := 2 * (x2 - x1)) (by omega) (by omega)
    have hlast := checked_eq (v := p + 2 * (y2 - y1) - 2 * (x2 - x1)) (by omega) (by omega)
    refine ⟨y + 1, p + 2 * (y2 - y1) - 2 * (x2 - x1), ?_,
      ⟨by simp only; omega, by simp only; omega, ?_, ?_, hcolumns, hdrawn⟩⟩
    · rw [drawLinePass, if_pos hmore]
      simp only [Option.bind_eq_bind, hrise, hq, hnext, Option.bind_some, if_pos hp, hstep, hrun,
        hlast]
    · simp only [hup]
      omega
    · simp only [hup]
      omega
  · refine ⟨y, p + 2 * (y2 - y1), ?_, ⟨by simp only; omega, hrow, ?_, ?_, hcolumns, hdrawn⟩⟩
    · rw [drawLinePass, if_pos hmore]
      simp only [Option.bind_eq_bind, hrise, hq, hnext, Option.bind_some, if_neg hp]
    · simp only [hcolumn]
      omega
    · simp only [hcolumn]
      omega

/-- The whole loop. -/
theorem draw_line_run (h : Gentle x1 y1 x2 y2) (hfuel : (x2 - x1).toNat < fuel) :
    ∃ pixels, draw_line fuel x1 y1 x2 y2 color = some pixels ∧
      pixels.map Pixel.x = columns x1 (x2 - x1).toNat ∧
      ∀ p ∈ pixels, OnLine x1 y1 x2 y2 color p := by
  have hloop : ∃ pixels, loop (drawLinePass (x2 - x1) (y2 - y1) x2 color) fuel
      (x1, y1, 2 * (y2 - y1) - (x2 - x1), []) = some pixels ∧
      pixels.map Pixel.x = columns x1 (x2 - x1).toNat ∧
      ∀ p ∈ pixels, OnLine x1 y1 x2 y2 color p := by
    refine loop_variant (I := Drawing x1 y1 x2 y2 color) (fun s => (x2 - s.1).toNat) ?_
      (Drawing.init h) hfuel
    rintro ⟨x, y, p, drawn⟩ hs
    by_cases hmore : x < x2
    · obtain ⟨y', p', hpass, hnext⟩ := drawLinePass_run h hs hmore
      exact .inl ⟨_, hpass, hnext, by simp only; omega⟩
    · obtain rfl : x = x2 := Int.le_antisymm hs.column.2 (Int.not_lt.mp hmore)
      refine .inr ⟨drawn.reverse, ?_, hs.columns, fun q hq => hs.drawn q (List.mem_reverse.mp hq)⟩
      rw [drawLinePass, if_neg hmore]
  obtain ⟨⟨hx1, hx2, hy1, hy2⟩, hright, hrises, hslope, hshort⟩ := h
  rw [draw_line, checked_eq (v := x2 - x1) (by omega) (by omega),
    checked_eq (v := y2 - y1) (by omega) (by omega)]
  simp only [Option.bind_eq_bind, Option.bind_some]
  rw [checked_eq (v := 2 * (y2 - y1)) (by omega) (by omega), Option.bind_some,
    checked_eq (v := 2 * (y2 - y1) - (x2 - x1)) (by omega) (by omega), Option.bind_some]
  exact hloop

/-- **`draw_line`** draws one pixel in each column but the last, in the row nearest to the line. On
a screen that has both ends it writes nowhere else. -/
theorem draw_line_nearest (h : Gentle x1 y1 x2 y2) (hfuel : (x2 - x1).toNat < fuel) :
    ∃ pixels, draw_line fuel x1 y1 x2 y2 color = some pixels ∧
      pixels.map Pixel.x = columns x1 (x2 - x1).toNat ∧
      (∀ p ∈ pixels, OnLine x1 y1 x2 y2 color p) ∧
      ∀ fb, OnScreen fb { x := x1, y := y1, color } → OnScreen fb { x := x2, y := y2, color } →
        Drawn fb pixels := by
  obtain ⟨pixels, hrun, hcolumns, hline⟩ := draw_line_run h hfuel
  refine ⟨pixels, hrun, hcolumns, hline, ?_⟩
  rintro fb ⟨⟨hleft, -⟩, hbottom, -⟩ ⟨⟨-, hright⟩, -, htop⟩
  rw [drawn_iff]
  intro p hp
  obtain ⟨hx, hy⟩ := (hline p hp).within
  simp only at hleft hbottom hright htop
  exact ⟨⟨by omega, by omega⟩, by omega, by omega⟩

/-- From the corner five columns to the right and two rows down. -/
theorem draw_line_nearest_five :
    ∃ pixels, draw_line 6 0 0 5 2 7 = some pixels ∧ pixels.map Pixel.x = columns 0 5 ∧
      (∀ p ∈ pixels, OnLine 0 0 5 2 7 p) ∧
      ∀ fb, OnScreen fb ⟨0, 0, 7⟩ → OnScreen fb ⟨5, 2, 7⟩ → Drawn fb pixels :=
  draw_line_nearest ⟨by decide, by decide, by decide, by decide, by decide⟩ (by decide)

example : (draw_line 6 0 0 5 2 7).map (List.map fun p => (p.x, p.y)) =
    some [(0, 0), (1, 0), (2, 1), (3, 1), (4, 2)] := by decide

end Line

/-! ## A rectangle -/

section Rectangle

variable {x1 y1 x2 y2 fill y : Int} {color fuel : Nat} {p : Pixel}

/-- The pixel is one of the rectangle: of its border, or of all of it. -/
structure InRect (x1 y1 x2 y2 : Int) (color : Nat) (fill : Int) (p : Pixel) : Prop where
  colored : p.color = color
  within : (x1 ≤ p.x ∧ p.x ≤ x2) ∧ y1 ≤ p.y ∧ p.y ≤ y2
  shown : ((p.x = x1 ∨ p.x = x2) ∨ p.y = y1 ∨ p.y = y2) ∨ fill ≠ 0

/-- One pass draws its pixel if the rectangle has it. -/
theorem drawColumnPass_run {x : Int} {drawn : List Pixel} (hmore : x ≤ x2)
    (hnext : checked (x + 1) = some (x + 1)) :
    drawColumnPass x1 y1 x2 y2 color fill y (x, drawn) = some (.again (x + 1,
      if ((x = x1 ∨ x = x2) ∨ y = y1 ∨ y = y2) ∨ fill ≠ 0 then { x, y, color } :: drawn
      else drawn)) := by
  rw [drawColumnPass, if_pos hmore]
  simp only [Option.bind_eq_bind, hnext, Option.bind_some]
  by_cases hborder : (x = x1 ∨ x = x2) ∨ y = y1 ∨ y = y2
  · rw [if_pos hborder, if_pos (.inl hborder)]
  · rw [if_neg hborder]
    by_cases hfill : fill ≠ 0
    · rw [if_pos hfill, if_pos (.inr hfill)]
    · rw [if_neg hfill, if_neg (not_or.mpr ⟨hborder, hfill⟩)]

/-- Of the pixels of a row, the next column adds one at most. -/
theorem inRect_column {x : Int} (hcolumn : x1 ≤ x ∧ x ≤ x2) (hy : y1 ≤ y ∧ y ≤ y2) :
    (InRect x1 y1 x2 y2 color fill p ∧ p.y = y ∧ p.x < x + 1) ↔
      (InRect x1 y1 x2 y2 color fill p ∧ p.y = y ∧ p.x < x) ∨
        ((((x = x1 ∨ x = x2) ∨ y = y1 ∨ y = y2) ∨ fill ≠ 0) ∧ p = { x, y, color }) := by
  obtain ⟨px, py, pc⟩ := p
  constructor
  · rintro ⟨h, rfl, hlt⟩
    rcases Int.lt_or_eq_of_le (Int.le_of_lt_add_one hlt) with hlt | rfl
    · exact .inl ⟨h, rfl, hlt⟩
    · obtain rfl : pc = color := h.colored
      exact .inr ⟨h.shown, rfl⟩
  · rintro (⟨h, hrow, hlt⟩ | ⟨hshown, heq⟩)
    · exact ⟨h, hrow, Int.lt_add_one_of_le (Int.le_of_lt hlt)⟩
    · cases heq
      exact ⟨⟨rfl, ⟨hcolumn, hy⟩, hshown⟩, rfl, Int.lt_succ _⟩

/-- A row adds its pixels. The counter goes one beyond the last column. -/
theorem drawColumn_loop (color : Nat) (fill : Int) (hlow : -2147483648 ≤ x1)
    (hhigh : x2 < 2147483647) (hy : y1 ≤ y ∧ y ≤ y2) (hfuel : (x2 + 1 - x1).toNat < fuel)
    (before : List Pixel) :
    ∃ drawn, loop (drawColumnPass x1 y1 x2 y2 color fill y) fuel (x1, before) = some drawn ∧
      ∀ p, p ∈ drawn ↔ p ∈ before ∨ (InRect x1 y1 x2 y2 color fill p ∧ p.y = y) := by
  refine loop_variant (I := fun s => x1 ≤ s.1 ∧
    ∀ p, p ∈ s.2 ↔ p ∈ before ∨ (InRect x1 y1 x2 y2 color fill p ∧ p.y = y ∧ p.x < s.1))
    (fun s => (x2 + 1 - s.1).toNat) ?_ ⟨Int.le_refl x1, fun p => ?_⟩ hfuel
  · rintro ⟨x, drawn⟩ ⟨hx, hdrawn⟩
    simp only at hx hdrawn
    by_cases hmore : x ≤ x2
    · have hnext := checked_eq (v := x + 1) (by omega) (by omega)
      refine .inl ⟨_, drawColumnPass_run hmore hnext, ⟨by simp only; omega, fun p => ?_⟩, ?_⟩
      swap
      · simp only
        omega
      simp only
      rw [inRect_column ⟨hx, hmore⟩ hy]
      by_cases hshown : ((x = x1 ∨ x = x2) ∨ y = y1 ∨ y = y2) ∨ fill ≠ 0
      · rw [if_pos hshown, List.mem_cons, and_iff_right hshown, hdrawn]
        tauto
      · rw [if_neg hshown, hdrawn]
        exact or_congr_right (or_iff_left fun h => hshown h.1).symm
    · refine .inr ⟨drawn, by rw [drawColumnPass, if_neg hmore], fun p => (hdrawn p).trans ?_⟩
      -- No pixel of the rectangle is in a column behind the last one.
      refine or_congr_right (and_congr_right fun h => and_iff_left ?_)
      have := h.within.1.2
      omega
  · exact (or_iff_left fun h => by have := h.1.within.1.1; omega).symm

/-- **`draw_rect`** draws the border, or the whole rectangle, and nothing else; on a screen that has
both corners it writes nowhere else. -/
theorem draw_rect_exact (hx : -2147483648 ≤ x1 ∧ x2 < 2147483647)
    (hy : -2147483648 ≤ y1 ∧ y2 < 2147483647) (hwide : (x2 + 1 - x1).toNat < fuel)
    (hhigh : (y2 + 1 - y1).toNat < fuel) :
    ∃ pixels, draw_rect fuel x1 y1 x2 y2 color fill = some pixels ∧
      (∀ p, p ∈ pixels ↔ InRect x1 y1 x2 y2 color fill p) ∧
      ∀ fb, OnScreen fb { x := x1, y := y1, color } → OnScreen fb { x := x2, y := y2, color } →
        Drawn fb pixels := by
  have hloop : ∃ pixels, draw_rect fuel x1 y1 x2 y2 color fill = some pixels ∧
      ∀ p, p ∈ pixels ↔ InRect x1 y1 x2 y2 color fill p := by
    refine loop_variant (I := fun s => y1 ≤ s.1 ∧
      ∀ p, p ∈ s.2 ↔ InRect x1 y1 x2 y2 color fill p ∧ p.y < s.1)
      (fun s => (y2 + 1 - s.1).toNat) ?_ ⟨Int.le_refl y1, fun p => ?_⟩ hhigh
    · rintro ⟨y, before⟩ ⟨hrow, hbefore⟩
      simp only at hrow hbefore
      by_cases hmore : y ≤ y2
      · obtain ⟨drawn, hrun, hdrawn⟩ :=
          drawColumn_loop color fill hx.1 hx.2 ⟨hrow, hmore⟩ hwide before
        have hnext := checked_eq (v := y + 1) (by omega) (by omega)
        refine .inl ⟨(y + 1, drawn), ?_, ⟨by simp only; omega, fun p => ?_⟩, by simp only; omega⟩
        · rw [drawRowPass, if_pos hmore]
          simp only [Option.bind_eq_bind, hrun, hnext, Option.bind_some]
        · rw [hdrawn, hbefore, ← and_or_left]
          exact and_congr_right fun _ => by simp only; omega
      · refine .inr ⟨before.reverse, by rw [drawRowPass, if_neg hmore], fun p => ?_⟩
        rw [List.mem_reverse, hbefore]
        refine and_iff_left_of_imp fun h => ?_
        have := h.within.2.2
        omega
    · refine iff_of_false List.not_mem_nil fun h => ?_
      have := h.1.within.2.1
      omega
  obtain ⟨pixels, hrun, hpixels⟩ := hloop
  refine ⟨pixels, hrun, hpixels, ?_⟩
  rintro fb ⟨⟨hleft, -⟩, hbottom, -⟩ ⟨⟨-, hright⟩, -, htop⟩
  rw [drawn_iff]
  intro p hp
  obtain ⟨hcolumns, hrows⟩ := ((hpixels p).mp hp).within
  simp only at hleft hbottom hright htop
  exact ⟨⟨by omega, by omega⟩, by omega, by omega⟩

/-- The border of three columns and three rows. -/
theorem draw_rect_exact_border :
    ∃ pixels, draw_rect 4 1 1 3 3 7 0 = some pixels ∧
      (∀ p, p ∈ pixels ↔ InRect 1 1 3 3 7 0 p) ∧
      ∀ fb, OnScreen fb ⟨1, 1, 7⟩ → OnScreen fb ⟨3, 3, 7⟩ → Drawn fb pixels :=
  draw_rect_exact (by decide) (by decide) (by decide) (by decide)

end Rectangle

end Drivers
end EmbeddedOS
