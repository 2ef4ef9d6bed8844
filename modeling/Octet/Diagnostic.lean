/-!
# Diagnostics

What a report tells about an error besides where it is.
-/
namespace Octet

structure Diagnostic where
  message : String
  /-- A stable name of the kind of error. -/
  code : Option String
  /-- Advice on what to do about it. -/
  help : Option String
  deriving DecidableEq, Repr

end Octet
