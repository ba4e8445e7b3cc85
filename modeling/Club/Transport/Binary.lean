import Club.Transport.Message

/-!
The byte codec, `binary::encoder` and `binary::decoder`, and the interface of
`AckSet`; neither is among the sources. The encoder writes big-endian integers
into a buffer of fixed capacity and sets its error flag on a write past the end;
the decoder reads them back and fails when the bytes run out. A message part
is laid out as in §6.
-/

namespace Club.Transport

/-- Modelled from the spec: the `width` low bytes of `n`, most significant
first. -/
def beBytes : Nat → Nat → List UInt8
  | 0, _ => []
  | w + 1, n => beBytes w (n / 256) ++ [(n % 256).toUInt8]

def beValue (bytes : List UInt8) : Nat := bytes.foldl (fun v b => v * 256 + b.toNat) 0

@[simp] theorem length_beBytes (w n : Nat) : (beBytes w n).length = w := by
  induction w generalizing n <;> simp [beBytes, *]

/-- Modelled from the spec: `binary::encoder` over a buffer of `capacity`
bytes. Once the error flag is set nothing more is written. -/
structure Encoder where
  capacity : Nat
  written : List UInt8
  error : Bool
  deriving DecidableEq, Repr

namespace Encoder

def ofCapacity (capacity : Nat) : Encoder := ⟨capacity, [], false⟩

def remainingSize (e : Encoder) : Nat := e.capacity - e.written.length

def putBytes (bytes : List UInt8) (e : Encoder) : Encoder :=
  if e.error then e
  else if bytes.length ≤ e.remainingSize then { e with written := e.written ++ bytes }
  else { e with error := true }

def putU8 (n : Nat) : Encoder → Encoder := putBytes (beBytes 1 n)
def putU16 (n : Nat) : Encoder → Encoder := putBytes (beBytes 2 n)
def putU32 (n : Nat) : Encoder → Encoder := putBytes (beBytes 4 n)

@[simp] theorem putBytes_capacity (bytes : List UInt8) (e : Encoder) :
    (e.putBytes bytes).capacity = e.capacity := by
  unfold putBytes; split_ifs <;> rfl

end Encoder

/-- Modelled from the spec: `binary::decoder`. A read returns the value and the
bytes after it, or `none` when too few bytes are left (the error flag). -/
def getBytes (n : Nat) (bytes : List UInt8) : Option (List UInt8 × List UInt8) :=
  if n ≤ bytes.length then some (bytes.take n, bytes.drop n) else none

def getNat (width : Nat) (bytes : List UInt8) : Option (Nat × List UInt8) :=
  (getBytes width bytes).map fun r => (beValue r.1, r.2)

/-- Reading a part of a packet, in the layout of §6. The reliable flag is read
and not kept: nothing in the socket looks at it. -/
def InMessagePart.decode (bytes : List UInt8) : Option (InMessagePart × List UInt8) := do
  let (type, bytes) ← getNat 1 bytes
  let (_, bytes) ← getNat 1 bytes
  let (sn, bytes) ← getNat 4 bytes
  let (size, bytes) ← getNat 2 bytes
  let (start, bytes) ← getNat 2 bytes
  let (len, bytes) ← getNat 2 bytes
  let (payload, bytes) ← getBytes len bytes
  pure (⟨MessageType.ofTag type.toUInt8, sn.toUInt32, size, start, payload⟩, bytes)

/-- Writing a part in the layout `InMessagePart.decode` reads. The reliable
flag, which the reader skips, is written as 0. -/
def InMessagePart.encode (p : InMessagePart) : List UInt8 :=
  beBytes 1 p.type.tag.toNat ++ beBytes 1 0 ++ beBytes 4 p.sequenceNumber.toNat ++
    beBytes 2 p.originalSize ++ beBytes 2 p.chunkStart ++ beBytes 2 p.payload.length ++ p.payload

/-- The operations of `AckSet` the socket uses. Its header is not among the
sources, so the socket is modelled over every implementation of them; the laws
a result needs are stated where it needs them. -/
class AckSet (α : Type) where
  empty : α
  tryAdd : α → SequenceNumber → α
  canAdd : α → SequenceNumber → Bool
  isIn : α → SequenceNumber → Bool
  encode : α → List UInt8
  decode : List UInt8 → Option (α × List UInt8)

/-- A datagram in the layout `on_receive` reads: an ack set, the number of
parts, the parts. -/
def encodePacket {α : Type} [AckSet α] (acks : α) (parts : List InMessagePart) : List UInt8 :=
  AckSet.encode acks ++ beBytes 2 parts.length ++ (parts.map InMessagePart.encode).flatten

/-- A reference `AckSet`, to run the model on: the numbers added so far, sent
as a 16-bit count followed by the numbers. It has no window, so `canAdd` fails
exactly on the numbers already added. -/
structure ListAckSet where
  sns : List SequenceNumber
  deriving DecidableEq, Repr

namespace ListAckSet

def decodeSns : Nat → List UInt8 → Option (List SequenceNumber × List UInt8)
  | 0, bytes => some ([], bytes)
  | n + 1, bytes => do
    let (sn, bytes) ← getNat 4 bytes
    let (sns, bytes) ← decodeSns n bytes
    pure (sn.toUInt32 :: sns, bytes)

instance : AckSet ListAckSet where
  empty := ⟨[]⟩
  tryAdd a sn := if sn ∈ a.sns then a else ⟨sn :: a.sns⟩
  canAdd a sn := sn ∉ a.sns
  isIn a sn := sn ∈ a.sns
  encode a := beBytes 2 a.sns.length ++ (a.sns.map fun sn => beBytes 4 sn.toNat).flatten
  decode bytes := do
    let (n, bytes) ← getNat 2 bytes
    let (sns, bytes) ← decodeSns n bytes
    pure (⟨sns⟩, bytes)

end ListAckSet

end Club.Transport
