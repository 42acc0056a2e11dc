import Erd.Decimal.Binary64

/-!
# JSON values

Objects keep the order of their members.  A number is an integer if it is written without fraction
and exponent and fits 64 bits, and a binary number otherwise.  A text can also write a number beyond the
range of 64 bits, which becomes an infinity.
-/

namespace Erd

inductive Json where
  | null
  | bool (b : Bool)
  | int (n : Int)
  | float (x : Binary64)
  | str (s : String)
  | arr (items : List Json)
  | obj (members : List (String × Json))
deriving Inhabited

end Erd
