/-!
# Evaluation of results

An arithmetic result is an integer at first. It is kept modulo 256, and the flags tell how the
integer itself lies: a result of 256 sets carry and leaves zero clear although the byte kept is 0.
-/
namespace Octet

structure Evaluation where
  value : UInt8
  zero : Bool
  carry : Bool
  deriving DecidableEq, Repr

def Evaluation.ofInt (raw : Int) : Evaluation where
  value := UInt8.ofInt raw
  zero := raw == 0
  carry := raw < 0 || 255 < raw

end Octet
