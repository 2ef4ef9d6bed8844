/-!
# Spans

A stretch of source text, counted in bytes of its UTF-8 form from the start of the whole source.
-/
namespace Octet

structure Span where
  offset : Nat
  length : Nat
  deriving DecidableEq, Repr

/-- The offset just behind the stretch. -/
def Span.stop (span : Span) : Nat := span.offset + span.length

end Octet
