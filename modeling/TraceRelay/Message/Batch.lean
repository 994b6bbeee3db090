import TraceRelay.Message.Encode

/-!
# Frames that grow

Records of one ordering id, and freed tokens, are collected in a frame that is open until it is
sent. The number of items and the length of the body are filled in at the end.

## Main definitions

* `OpenFrame` : a frame without its length and its number of items.
* `AnalyzeBatch`, `FreeBatch` : an open frame of records, and one of tokens.
* `AnalyzeBatch.push`, `AnalyzeBatch.pushWith`, `FreeBatch.push` : one more item.
* `AnalyzeBatch.finish`, `FreeBatch.finish` : the finished frame.
-/

namespace TraceRelay

/-- A frame whose length and number of items are not written yet. -/
structure OpenFrame where
  /-- What was written so far, the head included. -/
  buffer : Buffer
  /-- Where the length of the body belongs. -/
  length : Slot
  /-- Where the number of items belongs. -/
  count : Slot
  /-- The number of items so far. -/
  items : UInt32
deriving Inhabited

namespace OpenFrame

/-- An open frame without items. Its body starts with the given bytes and the number of items. -/
def start (kind : MessageKind) (lead : Bytes) : OpenFrame :=
  let (length, buffer) := reserve (({} : Buffer).append [kind.byteOf])
  let (count, buffer) := reserve (buffer.append lead)
  { buffer, length, count, items := 0 }
where
  /-- Reserves four bytes at the end. -/
  reserve (b : Buffer) : Slot × Buffer := (⟨b.size⟩, b.append [0, 0, 0, 0])

/-- Adds the item that a writer writes. The number of items stays as it is if the writer fails. -/
def add (w : Write WireError Unit) : EStateM WireError OpenFrame Unit :=
  fun ⟨buffer, length, count, items⟩ =>
    if items.toNat = maxUInt32 then .error .batchTooLarge ⟨buffer, length, count, items⟩
    else
      match w buffer with
      | .ok _ buffer => .ok () ⟨buffer, length, count, items + 1⟩
      | .error e buffer => .error e ⟨buffer, length, count, items⟩

/-- Fills in the number of items and the length of the body. -/
def finish (f : OpenFrame) : Except WireError Bytes :=
  let fill : Write WireError Unit := do
    let bodySize ← Write.count (f.buffer.size - Message.headSize)
    Write.ofValues (Write.patch f.count f.items)
    Write.ofValues (Write.patch f.length bodySize)
  match fill f.buffer with
  | .ok _ b => .ok b.toList
  | .error e _ => .error e

end OpenFrame

/-- Records of one ordering id that will leave in one frame. -/
structure AnalyzeBatch where
  /-- The ordering id that the records share. -/
  ordering : UInt64
  /-- The frame that they are written to. -/
  frame : OpenFrame
deriving Inhabited

namespace AnalyzeBatch

/-- A batch without records. -/
def start (ordering : UInt64) : AnalyzeBatch :=
  ⟨ordering, OpenFrame.start .analyze (Bytes.ofUInt64 ordering)⟩

/-- Adds the record that a writer writes. The writer has to write exactly one record, or fail and
write nothing. -/
def pushWith (w : Write WireError Unit) : EStateM WireError AnalyzeBatch Unit :=
  fun ⟨ordering, frame⟩ =>
    match OpenFrame.add w frame with
    | .ok _ frame => .ok () ⟨ordering, frame⟩
    | .error e frame => .error e ⟨ordering, frame⟩

/-- Adds a record. One that is refused leaves no trace. -/
def push (r : Record) : EStateM WireError AnalyzeBatch Unit := pushWith r.write

/-- The number of records. -/
def count (b : AnalyzeBatch) : UInt32 := b.frame.items

/-- Whether there are no records. -/
def isEmpty (b : AnalyzeBatch) : Bool := b.frame.items == 0

/-- The size of the frame so far. -/
def size (b : AnalyzeBatch) : Nat := b.frame.buffer.size

/-- The finished frame. -/
def finish (b : AnalyzeBatch) : Except WireError Bytes := b.frame.finish

end AnalyzeBatch

/-- Freed tokens that will leave in one frame. -/
structure FreeBatch where
  /-- The frame that they are written to. -/
  frame : OpenFrame
deriving Inhabited

namespace FreeBatch

/-- A batch without tokens. -/
def empty : FreeBatch := ⟨OpenFrame.start .objectFree []⟩

/-- Adds a token. -/
def push (t : Token) : EStateM WireError FreeBatch Unit := fun ⟨frame⟩ =>
  match OpenFrame.add (Write.token t) frame with
  | .ok _ frame => .ok () ⟨frame⟩
  | .error e frame => .error e ⟨frame⟩

/-- The number of tokens. -/
def count (b : FreeBatch) : UInt32 := b.frame.items

/-- Whether there are no tokens. -/
def isEmpty (b : FreeBatch) : Bool := b.frame.items == 0

/-- The finished frame. -/
def finish (b : FreeBatch) : Except WireError Bytes := b.frame.finish

end FreeBatch

end TraceRelay
