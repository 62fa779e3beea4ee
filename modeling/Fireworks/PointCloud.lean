import Fireworks.Text.Blank
import Fireworks.Vector

/-! # Text as points of space

A text becomes particles by way of a cloud of points. How letters are drawn is up to a
rasterizer; the grid given here draws each character that shows as a solid cell.
-/
namespace Fireworks

structure PointCloud (ν : Type) where
  points : List (Vec3 ν)
  centroid : Vec3 ν
  deriving Repr

abbrev Rasterizer (ν : Type) := String → PointCloud ν

variable {ν : Type} [Arithmetic ν]

namespace PointCloud

/-- A cloud around the mean of its points; an empty one lies around the origin. -/
def ofPoints (points : List (Vec3 ν)) : PointCloud ν where
  points
  centroid :=
    if points.isEmpty then .zero
    else (points.foldl (· + ·) Vec3.zero).div (Arithmetic.ofNat points.length)

omit [Arithmetic ν] in
def size (cloud : PointCloud ν) : Nat := cloud.points.length

omit [Arithmetic ν] in
def isEmpty (cloud : PointCloud ν) : Bool := cloud.points.isEmpty

end PointCloud

namespace Grid

/-- Columns of a cell. One more column stays empty between two cells. -/
def columns : Nat := 3

def rows : Nat := 5

def pointsPerGlyph : Nat := columns * rows

/-- The point in one column and row of a cell: y points up, and the text runs along -z. -/
def point (spacing : ν) (cell column row : Nat) : Vec3 ν where
  x := 0
  y := Arithmetic.ofNat (rows - 1 - row) * spacing
  z := -Arithmetic.ofNat (cell * (columns + 1) + column) * spacing

def cellPoints (spacing : ν) (cell : Nat) : List (Vec3 ν) :=
  (List.range columns).flatMap fun column => (List.range rows).map (point spacing cell column)

/-- The points of a text whose first character stands in the given cell. Blank characters take a
cell and leave it empty. -/
def pointsFrom (spacing : ν) : Nat → List Char → List (Vec3 ν)
  | _, [] => []
  | cell, c :: rest =>
    (if Text.isBlank c then [] else cellPoints spacing cell) ++ pointsFrom spacing (cell + 1) rest

def rasterize (spacing : ν) : Rasterizer ν := fun text =>
  .ofPoints (pointsFrom spacing 0 text.toList)

def defaultSpacing : ν := 2

end Grid

end Fireworks
