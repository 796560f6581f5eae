import Mathlib.Data.Rat.Floor

/-!
# Reading a stream up to a limit

`readWebStreamLimited` takes the chunks of a response's body one after the other and stops at the
first that exceeds `maxBytes`, of which it keeps as much as still fits.

A limit is a rational number, whole or not, or `none` where it is infinite or `NaN`.  Sums of
lengths are exact, as the lengths of buffers stay far below `2^53`; a stream too long for the
machine's memory is left out.
-/

namespace OpenUnion

/-- How a stream goes on behind its chunks: it is closed, or its reads reject. -/
inductive StreamEnd
  | closed
  | errored (message : String)

/-- What a stream delivers.  A chunk without a value is `none`. -/
structure WebStream where
  chunks : List (Option (List UInt8))
  ending : StreamEnd

/-- The calls of a reader: how many of `read()`, and whether of `cancel()`. -/
structure ReaderCalls where
  reads : ℕ := 0
  cancelled : Bool := false

/-- The variables of the loop, and the calls it has made. -/
structure Collected where
  chunks : List (List UInt8) := []
  total : ℚ := 0
  truncated : Bool := false
  calls : ReaderCalls := {}

/-- A call of `reader.read()`. -/
def Collected.read (c : Collected) : Collected :=
  { c with calls := { c.calls with reads := c.calls.reads + 1 } }

/-- A chunk within the limit is kept. -/
def Collected.keepChunk (c : Collected) (buf : List UInt8) : Collected :=
  { c with chunks := c.chunks ++ [buf], total := c.total + buf.length }

/-- Of a chunk beyond the limit is kept what still fits, by `subarray`, which cuts off fractions,
and the reader is cancelled. -/
def Collected.keepPart (c : Collected) (maxBytes : ℚ) (buf : List UInt8) : Collected :=
  let keep := max 0 (maxBytes - c.total)
  let kept :=
    if 0 < keep then
      { c with chunks := c.chunks ++ [buf.take ⌊keep⌋.toNat], total := c.total + keep }
    else c
  { kept with truncated := true, calls := { kept.calls with cancelled := true } }

/-- The loop, from the chunks on that are still to come. -/
def readChunks (maxBytes : ℚ) (ending : StreamEnd) :
    List (Option (List UInt8)) → Collected → Except String Collected
  | [], c =>
      match ending with
      | .closed => .ok c.read
      | .errored message => .error message
  | value :: rest, c =>
      match value with
      | none => readChunks maxBytes ending rest c.read
      | some buf =>
          if maxBytes < c.total + buf.length then .ok (c.read.keepPart maxBytes buf)
          else readChunks maxBytes ending rest (c.read.keepChunk buf)

/-- `Buffer.concat(list, length)`: cut off at the length or filled up with zeros; it throws unless
the length is whole. -/
def bufferConcat (list : List (List UInt8)) (length : ℚ) : Except String (List UInt8) :=
  if length.den = 1 then
    let n := length.num.toNat
    .ok ((list.flatten ++ List.replicate n 0).take n)
  else .error "ERR_OUT_OF_RANGE"

/-- What `readWebStreamLimited` returns. -/
structure LimitedBytes where
  bytes : List UInt8
  truncated : Bool

/-- `readWebStreamLimited`, with the calls of the reader.  A body that is no stream is empty; a
limit that is not given is zero. -/
def readWebStreamLimited (maxBytes : Option ℚ) (stream : Option WebStream) :
    Except String (LimitedBytes × ReaderCalls) :=
  match maxBytes with
  | none => .error "invalid_max_bytes"
  | some maxBytes =>
      if maxBytes ≤ 0 then .error "invalid_max_bytes"
      else
        match stream with
        | none => .ok ({ bytes := [], truncated := false }, {})
        | some stream => do
            let c ← readChunks maxBytes stream.ending stream.chunks {}
            let bytes ← bufferConcat c.chunks c.total
            return ({ bytes, truncated := c.truncated }, c.calls)

end OpenUnion
