import Erd.Diagram.Basic
import Erd.Text.Width

/-!
# Sizes of boxes

A box is as wide as its longest line in a fixed-width font and as high as its header and its columns.
-/

namespace Erd

structure Metrics (α : Type) where
  headerHeight : α
  columnHeight : α
  charWidth : α
  padding : α
  minWidth : α
  groupPadding : α
  groupHeaderHeight : α
deriving DecidableEq, Repr

namespace Metrics

variable {α : Type} [Scalar α]

def standard : Metrics α where
  headerHeight := Scalar.ofNat 40
  columnHeight := Scalar.ofNat 28
  charWidth := Scalar.ofNat 8
  padding := Scalar.ofNat 16
  minWidth := Scalar.ofNat 200
  groupPadding := Scalar.ofNat 20
  groupHeaderHeight := Scalar.ofNat 32

/-- The upper edge of the row of a column within its box. -/
def columnOffset (m : Metrics α) (index : Nat) : α :=
  m.headerHeight + Scalar.ofNat index * m.columnHeight

/-- The columns of the line for a table column: name, type and a gap of three. -/
def lineLength (c : Column) : Nat := displayWidth c.name + displayWidth c.displayType + 3

def longestLine (t : Table) : Nat := (t.columns.map lineLength).foldl max (displayWidth t.name)

def boxSize (m : Metrics α) (t : Table) : Size α :=
  { width :=
      Scalar.larger (Scalar.ofNat (longestLine t) * m.charWidth + m.padding * Scalar.two) m.minWidth
    height := m.columnOffset t.columns.length + m.padding }

end Metrics

end Erd
