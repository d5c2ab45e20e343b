import TokenCensus.Token.Kind

/-!
# Tokens

A token is a piece of source text of one kind, with its place in the source.
-/

namespace TokenCensus

/-- The part of a source from the byte `start` up to the byte `stop`, which is no longer in it. -/
structure Span where
  start : Nat
  stop : Nat
deriving DecidableEq, Repr

namespace Span

/-- The number of bytes in the span. -/
def length (span : Span) : Nat := span.stop - span.start

/-- Whether the span holds no byte. -/
def isEmpty (span : Span) : Bool := span.start == span.stop

/-- The span as reports write it. -/
def display (span : Span) : String :=
  span.start.repr ++ ".." ++ span.stop.repr

end Span

/-- A piece of source text with its kind and its place. -/
structure Token where
  kind : Kind
  value : String
  span : Span
deriving DecidableEq, Repr

/-- The token as reports write it. -/
def Token.display (token : Token) : String :=
  token.kind.label ++ " " ++ token.value ++ " @ " ++ token.span.display

end TokenCensus
