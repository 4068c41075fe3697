/-
  PuppetMaster.Portable.Codec — `PortableSizer`, `PortableWriter` and `PortableReader`.

  A field type is a scalar, a `std::string`, a `std::vector`, a `std::array` or a type that
  lists its own fields through `PortableFields`; `Value` is what a field of that type holds.
  The three visitors walk one value in wire order: the sizer counts, the writer puts bytes
  into a buffer it does not own, the reader overwrites the value it is given. Writer and
  reader carry a status, and do nothing more once it is not Ok.

  An integer is its mathematical value with its range; a float or double is its bits; an
  enum is the value of its underlying type.
-/

import Mathlib.Algebra.Group.Int.Defs
import Mathlib.Algebra.Group.Nat.Defs
import PuppetMaster.Core.Status
import PuppetMaster.Lib.LittleEndian

namespace PuppetMaster.Portable

open PuppetMaster.Core PuppetMaster.Lib

/-! ## Types and values -/

/-- `sizeof` of a standard integer type. -/
inductive Width where
  | one
  | two
  | four
  | eight
  deriving DecidableEq, Repr

def Width.bytes : Width → Nat
  | .one => 1
  | .two => 2
  | .four => 4
  | .eight => 8

inductive Integral where
  | bool
  | unsigned (width : Width)
  | signed (width : Width)
  deriving DecidableEq, Repr

/-- The types of `kPortableScalar`. -/
inductive Scalar where
  | integral (type : Integral)
  | float
  | double
  | enum (underlying : Integral)
  deriving DecidableEq, Repr

inductive FieldType where
  | scalar (type : Scalar)
  | string
  | vector (element : FieldType)
  | array (element : FieldType) (size : Nat)
  | nested (fields : List FieldType)

/-- An unsigned integer of `w` bytes. -/
def Unsigned (w : Nat) : Type := { n : Nat // n < 256 ^ w }

/-- A signed integer of `w` bytes. -/
def Signed (w : Nat) : Type := { n : Int // -(256 ^ w) ≤ 2 * n ∧ 2 * n < 256 ^ w }

@[reducible] def Integral.Value : Integral → Type
  | .bool => Bool
  | .unsigned w => Unsigned w.bytes
  | .signed w => Signed w.bytes

@[reducible] def Scalar.Value : Scalar → Type
  | .integral t => t.Value
  | .float => Unsigned 4
  | .double => Unsigned 8
  | .enum t => t.Value

mutual

@[reducible] def Value : FieldType → Type
  | .scalar s => s.Value
  | .string => Bytes
  | .vector e => List (Value e)
  | .array e n => { vs : List (Value e) // vs.length = n }
  | .nested fs => Values fs

/-- The fields of a nested type, in wire order. -/
@[reducible] def Values : List FieldType → Type
  | [] => Unit
  | f :: fs => Value f × Values fs

end

mutual

/-- `PortableSupported` of a type and of every field it visits. -/
def portableSupported : FieldType → Bool
  | .scalar _ => true
  | .string => true
  | .vector (.scalar (.integral .bool)) => false
  | .vector e => portableSupported e
  | .array e _ => portableSupported e
  | .nested fs => portableSupportedFields fs

def portableSupportedFields : List FieldType → Bool
  | [] => true
  | f :: fs => portableSupported f && portableSupportedFields fs

end

/-- The types a visitor compiles for. -/
def PortableType : Type := { t : FieldType // portableSupported t = true }

def Integral.scalarSize : Integral → Nat
  | .bool => 1
  | .unsigned w => w.bytes
  | .signed w => w.bytes

def Scalar.scalarSize : Scalar → Nat
  | .integral t => t.scalarSize
  | .float => 4
  | .double => 8
  | .enum t => t.scalarSize

theorem Width.bytes_pos (w : Width) : 0 < w.bytes := by cases w <;> decide

theorem Integral.scalarSize_pos (t : Integral) : 0 < t.scalarSize := by
  cases t with
  | bool => decide
  | unsigned w => exact w.bytes_pos
  | signed w => exact w.bytes_pos

theorem Scalar.scalarSize_pos (t : Scalar) : 0 < t.scalarSize := by
  cases t with
  | integral t => exact t.scalarSize_pos
  | float => decide
  | double => decide
  | enum t => exact t.scalarSize_pos

/-- `static_cast<std::make_unsigned_t<T>>(value)`. -/
def Signed.toUnsigned {w : Nat} (value : Signed w) : Nat := (value.val % 256 ^ w).toNat

def Integral.scalarBits : (t : Integral) → t.Value → Nat
  | .bool, value => Bool.toNat value
  | .unsigned _, value => value.val
  | .signed _, value => value.toUnsigned

def Scalar.scalarBits : (t : Scalar) → t.Value → Nat
  | .integral t, value => t.scalarBits value
  | .float, value => value.val
  | .double, value => value.val
  | .enum t, value => t.scalarBits value

/-! ## PortableSizer -/

/-- `PortableSizer::Elements`: scalars are counted all at once. -/
def sizerElements (e : FieldType) (visit : Value e → Nat → Nat) (values : List (Value e)) (size : Nat) : Nat :=
  match e with
  | .scalar s => size + values.length * s.scalarSize
  | _ => values.foldl (fun size v => visit v size) size

mutual

/-- `PortableSizer::operator()`, on a sizer that has counted `size` bytes. -/
def sizerVisit : (t : FieldType) → Value t → (size : Nat) → Nat
  | .scalar s, _, size => size + s.scalarSize
  | .string, (value : Bytes), size => size + (4 + value.length)
  | .vector e, value, size => sizerElements e (sizerVisit e) value (size + 4)
  | .array e _, value, size => sizerElements e (sizerVisit e) value.val size
  | .nested fs, value, size => sizerFields fs value size

def sizerFields : (fs : List FieldType) → Values fs → (size : Nat) → Nat
  | [], _, size => size
  | f :: fs, (v, vs), size => sizerFields fs vs (sizerVisit f v size)

end

/-- `PortableCodec::MaxSize`. -/
def maxSize (t : FieldType) (value : Value t) : Nat := sizerVisit t value 0

/-! ## PortableWriter -/

structure PortableWriter where
  buffer : Bytes
  offset : Nat := 0
  status : Status := .ok

namespace PortableWriter

/-- `Reserve`, then the bytes at the offset are overwritten. -/
def store (w : PortableWriter) (bytes : Bytes) : PortableWriter :=
  if w.buffer.length - w.offset < bytes.length then
    { w with status := .error .outOfRange (text "portable encoding does not fit the buffer") }
  else
    { w with buffer := w.buffer.take w.offset ++ bytes ++ w.buffer.drop (w.offset + bytes.length)
             offset := w.offset + bytes.length }

def put (w : PortableWriter) (bits size : Nat) : PortableWriter := w.store (putLe size bits)

def count (w : PortableWriter) (count : Nat) : PortableWriter :=
  if 2 ^ 32 - 1 < count then
    { w with status := .error .outOfRange (text "portable encoding: more than 2^32-1 elements") }
  else w.put count 4

def bytes (w : PortableWriter) (data : Bytes) : PortableWriter :=
  if w.status.isOk then w.store data else w

end PortableWriter

mutual

/-- `PortableWriter::operator()`. -/
def writerVisit (t : FieldType) (value : Value t) (w : PortableWriter) : PortableWriter :=
  if !w.status.isOk then w
  else
    match t, value with
    | .scalar s, value => w.put (s.scalarBits value) s.scalarSize
    | .string, (value : Bytes) => (w.count value.length).bytes value
    | .vector e, (values : List (Value e)) => values.foldl (fun w v => writerVisit e v w) (w.count values.length)
    | .array e _, values => values.val.foldl (fun w v => writerVisit e v w) w
    | .nested fs, values => writerFields fs values w

def writerFields : (fs : List FieldType) → Values fs → PortableWriter → PortableWriter
  | [], _, w => w
  | f :: fs, (v, vs), w => writerFields fs vs (writerVisit f v w)

end

/-- `PortableCodec::Encode`: the bytes used, and the buffer it leaves. -/
def encode (t : FieldType) (value : Value t) (buffer : Bytes) : Result Nat × Bytes :=
  let w := writerVisit t value { buffer }
  (if w.status.isOk then .ok w.offset else .fromStatus w.status, w.buffer)

/-! ## PortableReader -/

structure PortableReader where
  bytes : Bytes
  offset : Nat := 0
  status : Status := .ok

namespace PortableReader

/-- What `bytes_.size() - offset_` counts. -/
def left (r : PortableReader) : Nat := r.bytes.length - r.offset

def take (r : PortableReader) (size : Nat) : Nat × PortableReader :=
  if r.left < size then
    (0, { r with status := .error .dataLoss (text "portable decoding: message ends inside a field") })
  else (getLe ((r.bytes.drop r.offset).take size), { r with offset := r.offset + size })

def count (r : PortableReader) (elementSize : Nat) : Nat × PortableReader :=
  let (count, r) := r.take 4
  if r.status.isOk && r.left / elementSize < count then
    let message := s!"portable decoding: element count {count} exceeds the message"
    (count, { r with status := .error .dataLoss (text message) })
  else (count, r)

def finish (r : PortableReader) : Status :=
  if !r.status.isOk then r.status
  else if r.offset ≠ r.bytes.length then
    .error .dataLoss (text s!"portable decoding: {r.left} bytes left over; the writer's field list differs")
  else .ok

end PortableReader

def Unsigned.ofBits (w bits : Nat) : Unsigned w := ⟨bits % 256 ^ w, Nat.mod_lt _ (Nat.pow_pos (by decide))⟩

/-- `static_cast<T>` of the unsigned integer of the same width. -/
def Signed.ofUnsigned {w : Nat} (n : Unsigned w) : Signed w :=
  ⟨if 2 * n.val < 256 ^ w then n.val else (n.val : Int) - 256 ^ w, by
    have hlt := n.property
    have hpow : ((256 ^ w : Nat) : Int) = 256 ^ w := Int.natCast_pow 256 w
    split <;> constructor <;> omega⟩

def Integral.default : (t : Integral) → t.Value
  | .bool => false
  | .unsigned w => .ofBits w.bytes 0
  | .signed w => .ofUnsigned (.ofBits w.bytes 0)

/-- `T {}`. -/
def Scalar.default : (t : Scalar) → t.Value
  | .integral t => t.default
  | .float => .ofBits 4 0
  | .double => .ofBits 8 0
  | .enum t => t.default

mutual

def default : (t : FieldType) → Value t
  | .scalar s => s.default
  | .string => ([] : Bytes)
  | .vector e => ([] : List (Value e))
  | .array e n => ⟨List.replicate n (default e), List.length_replicate⟩
  | .nested fs => defaults fs

def defaults : (fs : List FieldType) → Values fs
  | [] => ()
  | f :: fs => (default f, defaults fs)

end

/-- `PortableReader::operator()` on a bool or an integer. -/
def readIntegral : (t : Integral) → t.Value → PortableReader → t.Value × PortableReader
  | .bool, value, r =>
    let (bits, r) := r.take 1
    if r.status.isOk && 1 < bits then
      (value, { r with status := .error .dataLoss (text s!"portable decoding: bool byte is {bits}") })
    else (bits == 1, r)
  | .unsigned w, _, r =>
    let (bits, r) := r.take w.bytes
    (.ofBits w.bytes bits, r)
  | .signed w, _, r =>
    let (bits, r) := r.take w.bytes
    (.ofUnsigned (.ofBits w.bytes bits), r)

def readScalar : (t : Scalar) → t.Value → PortableReader → t.Value × PortableReader
  | .integral t, value, r => readIntegral t value r
  | .float, _, r =>
    let (bits, r) := r.take 4
    (.ofBits 4 bits, r)
  | .double, _, r =>
    let (bits, r) := r.take 8
    (.ofBits 8 bits, r)
  | .enum t, _, r => readIntegral t t.default r

/-- `for (auto& element : value) (*this)(element)`. -/
def visitAll {α : Type} (visit : α → PortableReader → α × PortableReader) :
    List α → PortableReader → List α × PortableReader
  | [], r => ([], r)
  | v :: vs, r =>
    let (v, r) := visit v r
    let (vs, r) := visitAll visit vs r
    (v :: vs, r)

theorem length_visitAll {α : Type} (visit : α → PortableReader → α × PortableReader) (vs : List α)
    (r : PortableReader) : (visitAll visit vs r).1.length = vs.length := by
  induction vs generalizing r with
  | nil => rfl
  | cons v vs ih => exact congrArg (· + 1) (ih _)

/-- The least a vector's element is taken to need. -/
def elementSize : FieldType → Nat
  | .scalar s => s.scalarSize
  | _ => 1

mutual

/-- `PortableReader::operator()`. -/
def readerVisit (t : FieldType) (value : Value t) (r : PortableReader) : Value t × PortableReader :=
  if !r.status.isOk then (value, r)
  else
    match t, value with
    | .scalar s, value => readScalar s value r
    | .string, (value : Bytes) =>
      let (count, r) := r.count 1
      if !r.status.isOk then (value, r)
      else ((r.bytes.drop r.offset).take count, { r with offset := r.offset + count })
    | .vector e, (values : List (Value e)) =>
      let (count, r) := r.count (elementSize e)
      if !r.status.isOk then (values, r)
      else visitAll (readerVisit e) (List.replicate count (default e)) r
    | .array e _, ⟨values, h⟩ =>
      let all := visitAll (readerVisit e) values r
      (⟨all.1, (length_visitAll _ _ _).trans h⟩, all.2)
    | .nested fs, values => readerFields fs values r

def readerFields : (fs : List FieldType) → Values fs → PortableReader → Values fs × PortableReader
  | [], values, r => (values, r)
  | f :: fs, (v, vs), r =>
    let (v, r) := readerVisit f v r
    let (vs, r) := readerFields fs vs r
    ((v, vs), r)

end

/-- `PortableCodec::Decode`, of a type called `typeName`. -/
def decode (typeName : Bytes) (t : FieldType) (bytes : Bytes) : Result (Value t) :=
  let (value, r) := readerVisit t (default t) { bytes }
  let status := r.finish
  if status.isOk then .ok value else .fromStatus (.error status.code (typeName ++ text ": " ++ status.message))

end PuppetMaster.Portable
