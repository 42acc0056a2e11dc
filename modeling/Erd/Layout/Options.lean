import Erd.Geometry.Scalar
import Erd.Text.Ascii

/-!
# Layout options

A layout has a direction, in which relations point, and three distances.
-/

namespace Erd

/-- The way from a rank to the next one. -/
inductive Direction where
  | topToBottom
  | bottomToTop
  | leftToRight
  | rightToLeft
deriving DecidableEq, Repr, Inhabited

namespace Direction

def all : List Direction := [topToBottom, bottomToTop, leftToRight, rightToLeft]

/-- Ranks follow each other along the horizontal axis. -/
def isHorizontal : Direction → Bool
  | leftToRight | rightToLeft => true
  | _ => false

/-- Ranks follow each other toward smaller coordinates. -/
def isReversed : Direction → Bool
  | bottomToTop | rightToLeft => true
  | _ => false

def name : Direction → String
  | topToBottom => "TB"
  | bottomToTop => "BT"
  | leftToRight => "LR"
  | rightToLeft => "RL"

/-- The direction of a name in exact spelling. -/
def ofName? (s : String) : Option Direction := all.find? (·.name == s)

/-- The direction of a name in any letter case. -/
def parse? (s : String) : Option Direction := ofName? (asciiUpper s)

/-- What is said of a text that names no direction. -/
def unknownMessage (s : String) : String :=
  "unknown direction '" ++ s ++ "', expected TB, BT, LR or RL"

end Direction

structure LayoutOptions (α : Type) where
  direction : Direction
  /-- The gap between neighbours within a rank. -/
  nodeSpacing : α
  /-- The gap between ranks. -/
  rankSpacing : α
  /-- The distance from the origin to the drawing. -/
  padding : α
deriving DecidableEq, Repr

namespace LayoutOptions

variable {α : Type} [Scalar α]

def standard : LayoutOptions α where
  direction := .topToBottom
  nodeSpacing := Scalar.ofNat 80
  rankSpacing := Scalar.ofNat 100
  padding := Scalar.ofNat 50

/-- The options with every distance finite and not negative. -/
def sanitized (o : LayoutOptions α) : LayoutOptions α :=
  { o with
    nodeSpacing := Scalar.clamp o.nodeSpacing
    rankSpacing := Scalar.clamp o.rankSpacing
    padding := Scalar.clamp o.padding }

end LayoutOptions

end Erd
