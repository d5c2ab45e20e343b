import TokenCensus.Text.Utf8

/-!
# Sinks

A sink takes bytes until it is full.  It keeps what it has taken, also when it fails.

## Key results

- `write_fst`: a write succeeds exactly if there is room for all of it
- `accepted_write`: what a sink has taken after a write, whether that succeeded or not
-/

namespace TokenCensus

/-- Something to write to: the number of bytes that there is still room for, if that is limited,
whether flushing fails, and the bytes taken so far. -/
structure Sink where
  room : Option Nat
  flushFails : Bool
  accepted : List UInt8
deriving DecidableEq, Repr

namespace Sink

/-- A sink with nothing in it yet. -/
def new (room : Option Nat) (flushFails : Bool) : Sink := ⟨room, flushFails, []⟩

/-- A sink that takes everything. -/
def unlimited : Sink := new none false

/-- Whether there is room for `n` bytes. -/
def hasRoom (sink : Sink) (n : Nat) : Bool :=
  match sink.room with
  | none => true
  | some room => n ≤ room

/-- The part of `bytes` that there is room for. -/
def fitting (sink : Sink) (bytes : List UInt8) : List UInt8 :=
  match sink.room with
  | none => bytes
  | some room => bytes.take room

/-- Writes a text as far as there is room for it, and tells whether that was all of it. -/
def write (sink : Sink) (text : String) : Bool × Sink :=
  let bytes := Text.Utf8.encode text
  (sink.hasRoom bytes.length,
    { sink with
      room := sink.room.map (· - bytes.length)
      accepted := sink.accepted ++ sink.fitting bytes })

/-- Writes a text and, if there was room for it, flushes. -/
def writeAndFlush (sink : Sink) (text : String) : Bool × Sink :=
  let (written, after) := sink.write text
  (written && !sink.flushFails, after)

/-- The bytes taken so far, as text. -/
def text (sink : Sink) : String := Text.Utf8.decode sink.accepted

theorem write_fst (sink : Sink) (text : String) :
    (sink.write text).1 = sink.hasRoom (Text.Utf8.encode text).length := rfl

theorem accepted_write (sink : Sink) (text : String) :
    (sink.write text).2.accepted = sink.accepted ++ sink.fitting (Text.Utf8.encode text) := rfl

end Sink

end TokenCensus
