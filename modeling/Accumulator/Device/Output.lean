/-! # Output devices

Whatever a program prints goes to an output device, which may refuse a text or fail to pass on
what it holds. A sink keeps the bytes written to it, up to its capacity if it has one.
-/

namespace Accumulator

set_option autoImplicit false

/-- A taker of text. A failure has a text of its own. -/
class OutputDevice (ω : Type) where
  write : String → EStateM String ω Unit
  flush : EStateM String ω Unit

/-- The bytes written so far, and what the sink cannot do. -/
structure Sink where
  written : ByteArray := ByteArray.empty
  /-- The number of bytes that find room in all. -/
  capacity : Option Nat := none
  flushFails : Bool := false

namespace Sink

/-- Keeps the bytes of the text. Where room ends the part that fits is kept, and the write
fails. -/
def write (text : String) : EStateM String Sink Unit := fun ⟨written, capacity, flushFails⟩ =>
  let bytes := text.toByteArray
  match capacity with
  | none => .ok () ⟨written ++ bytes, none, flushFails⟩
  | some limit =>
    if written.size + bytes.size ≤ limit then
      .ok () ⟨written ++ bytes, some limit, flushFails⟩
    else
      let fitting := bytes.extract 0 (limit - written.size)
      .error "sink full" ⟨written ++ fitting, some limit, flushFails⟩

def flush : EStateM String Sink Unit := fun sink =>
  if sink.flushFails then .error "flush failed" sink else .ok () sink

end Sink

instance : OutputDevice Sink := ⟨Sink.write, Sink.flush⟩

end Accumulator
