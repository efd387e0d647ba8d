import DocQuery.Number.Basic
import DocQuery.Text.Hex

/-!
# Numbers in ten bytes

The wire form of a number is its extended form: the double's pattern in eight bytes and the extra
bits in two, both with the lowest byte first.

* `Number.write` writes it to the front of a buffer, and `Number.encode` is the buffer after that.
* `Number.decode` reads it back, as an integer if there are extra bits and as a double otherwise.
-/

namespace DocQuery

namespace Wire

/-- Bytes of a wire form. -/
def size : Nat := 10

/-- `count` bytes of a number, the lowest first. -/
def littleEndian : Nat → Nat → List UInt8
  | 0, _ => []
  | count + 1, n => UInt8.ofNat n :: littleEndian count (n / 256)

/-- The number that bytes spell, the lowest first. -/
def ofLittleEndian : List UInt8 → Nat
  | [] => 0
  | b :: bytes => b.toNat + 256 * ofLittleEndian bytes

end Wire

/-- A buffer is too short for a wire form. -/
structure ShortBuffer where
  actual : Nat
deriving DecidableEq, Repr

/-- Why bytes are no number. -/
inductive WireError where
  /-- There are fewer than ten bytes. -/
  | short (buffer : ShortBuffer)
  /-- There are extra bits on a double that no integer shares them with. -/
  | extraBits (form : Extended)
deriving DecidableEq, Repr

/-- A step that writes to a buffer. There is a buffer afterwards even if the step fails. -/
abbrev Writing (α : Type) : Type := ExceptT ShortBuffer (StateM (List UInt8)) α

/-- Puts bytes over those of the buffer from a place on. -/
def Wire.put (place : Nat) (bytes : List UInt8) : Writing Unit :=
  modify fun buffer => buffer.take place ++ bytes ++ buffer.drop (place + bytes.length)

namespace ShortBuffer

def message (b : ShortBuffer) : String :=
  s!"Buffer too small: encoding a number needs {Wire.size} bytes, got {b.actual}"

end ShortBuffer

namespace WireError

def message : WireError → String
  | .short b => b.message
  | .extraBits form =>
    s!"Invalid extended number: extra bits 0x{Text.paddedHex 4 form.extra} on double " ++
      s!"0x{Text.paddedHex 16 form.double.word}"

end WireError

namespace Extended

/-- The ten bytes of an extended form. -/
def bytes (a : Extended) : List UInt8 :=
  Wire.littleEndian 8 a.double.word ++ Wire.littleEndian 2 a.extra

/-- The extended form in the first ten of some bytes. -/
def ofBytes (bytes : List UInt8) : Extended :=
  ⟨⟨UInt64.ofNat (Wire.ofLittleEndian (bytes.take 8))⟩,
    Wire.ofLittleEndian ((bytes.drop 8).take 2)⟩

end Extended

namespace Number

/-- Writes the number's wire form over the first ten bytes of the buffer. -/
def write (a : Number) : Writing Unit := do
  let buffer ← get
  if buffer.length < Wire.size then throw ⟨buffer.length⟩
  else
    Wire.put 0 (Wire.littleEndian 8 a.extended.double.word)
    Wire.put 8 (Wire.littleEndian 2 a.extended.extra)

/-- The buffer with the number's wire form in it. -/
def encode (a : Number) (buffer : List UInt8) : Except ShortBuffer (List UInt8) :=
  match a.write.run buffer with
  | (.ok (), written) => .ok written
  | (.error e, _) => .error e

/-- The number whose wire form the first ten bytes hold. -/
def decode (buffer : List UInt8) : Except WireError Number :=
  if buffer.length < Wire.size then .error (.short ⟨buffer.length⟩)
  else
    let form := Extended.ofBytes buffer
    if form.extra = 0 then .ok (.double form.double)
    else
      match form.toInt? with
      | some n => .ok (.integer (Int64.ofInt n))
      | none => .error (.extraBits form)

end Number

end DocQuery
