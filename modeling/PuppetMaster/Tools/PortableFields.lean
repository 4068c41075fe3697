/-
  PuppetMaster.Tools.PortableFields — portable_fields.cpp: messages of `PortableCodec` field
  by field, from text (`EncodeField`) and to text (`DecodeFields`).

  A field is a scalar or a string, a vector of them or an array of them. Encoding appends to
  a buffer, and leaves what it has put there when it fails; decoding goes through a message
  once. What an integer's text is worth is computed in 64 bits, so it can be refused.
-/

import PuppetMaster.Core.Check
import PuppetMaster.Core.Decimal
import PuppetMaster.Lib.Hex
import PuppetMaster.Tools.Floats

namespace PuppetMaster.Tools

open PuppetMaster.Core PuppetMaster.Lib

/-! ## Types -/

inductive Scalar where
  | bool
  | i8
  | i16
  | i32
  | i64
  | u8
  | u16
  | u32
  | u64
  | f32
  | f64
  | string
  deriving DecidableEq, Repr

inductive Shape where
  | one
  | vector
  | array
  deriving DecidableEq, Repr

/-- An array has `length` elements. -/
structure FieldType where
  scalar : Scalar := .u8
  shape : Shape := .one
  length : Nat := 0
  deriving DecidableEq, Repr

def kScalars : List (String × Scalar) :=
  [("bool", .bool), ("i8", .i8), ("i16", .i16), ("i32", .i32), ("i64", .i64), ("u8", .u8), ("u16", .u16), ("u32", .u32),
    ("u64", .u64), ("f32", .f32), ("f64", .f64), ("string", .string)]

def nameOf (scalar : Scalar) : Bytes :=
  match kScalars.find? fun entry => entry.2 = scalar with
  | some entry => text entry.1
  | none => text "?"

/-- Bytes on the wire; a string's is its count, before the bytes. -/
def widthOf : Scalar → Nat
  | .bool | .i8 | .u8 => 1
  | .i16 | .u16 => 2
  | .i32 | .u32 | .f32 | .string => 4
  | .i64 | .u64 | .f64 => 8

def isSigned (scalar : Scalar) : Bool := scalar = .i8 ∨ scalar = .i16 ∨ scalar = .i32 ∨ scalar = .i64

/-- `ToString`. -/
def FieldType.toText (type : FieldType) : Bytes :=
  nameOf type.scalar ++
    match type.shape with
    | .one => []
    | .vector => text "[]"
    | .array => text "[" ++ Core.toText type.length ++ text "]"

/-! ## Numbers -/

/-- Without spaces and tabs around it. -/
def trim (text : Bytes) : Bytes := ((text.dropWhile isBlank).reverse.dropWhile isBlank).reverse

/-- Whether there is a minus sign, and what stands behind the sign. -/
def splitSign : Bytes → Bool × Bytes
  | 0x2d :: rest => (true, rest)
  | 0x2b :: rest => (false, rest)
  | rest => (false, rest)

/-- The base, and what stands behind its mark. -/
def splitBase (text : Bytes) : Nat × Bytes :=
  if 2 < text.length ∧ text[0]? = some 0x30 ∧ (text[1]? = some 0x78 ∨ text[1]? = some 0x58) then (16, text.drop 2)
  else (10, text)

def digit (base : Nat) (byte : UInt8) : Option Nat :=
  if 0x30 ≤ byte ∧ byte ≤ 0x39 then some (byte.toNat - 0x30)
  else if base = 16 ∧ 0x61 ≤ byte ∧ byte ≤ 0x66 then some (byte.toNat - 0x61 + 10)
  else if base = 16 ∧ 0x41 ≤ byte ∧ byte ≤ 0x46 then some (byte.toNat - 0x41 + 10)
  else none

/-- One more digit, which must leave the number within 64 bits. -/
def addDigit (base magnitude : Nat) (byte : UInt8) : Option Nat := do
  let digit ← digit base byte
  if (2 ^ 64 - 1 - digit) / base < magnitude then none else some (magnitude * base + digit)

/-- The bits of a decimal or hexadecimal number, a negative one's in two's complement. -/
def parseInteger (text : Bytes) (signed : Bool) (width : Nat) : Option Nat :=
  let (negative, unsigned) := splitSign text
  let (base, digits) := splitBase unsigned
  if negative ∧ ¬ signed ∨ digits = [] then none
  else do
    let magnitude ← digits.foldlM (addDigit base) 0
    let bitWidth := 8 * width
    if signed then
      let limit := 2 ^ (bitWidth - 1)
      if if negative then limit < magnitude else limit ≤ magnitude then none
      else some (if negative then (2 ^ 64 - magnitude) % 2 ^ 64 else magnitude)
    else if bitWidth < 64 ∧ magnitude / 2 ^ bitWidth ≠ 0 then none
    else some magnitude

/-! ## Encoding -/

/-- What is appended, or why `text` is not a `scalar`. -/
def CLibrary.encodeScalar (lib : CLibrary) (scalar : Scalar) (text' : Bytes) : Except Bytes Bytes :=
  match scalar with
  | .bool =>
    if text' = text "true" ∨ text' = text "1" then .ok [1]
    else if text' = text "false" ∨ text' = text "0" then .ok [0]
    else .error (text "not true, false, 1, or 0")
  | .string =>
    if 2 ^ 32 - 1 < text'.length then .error (text "longer than 2^32-1 bytes") else .ok (putLe 4 text'.length ++ text')
  | .f64 =>
    match lib.parseFloat text' with
    | none => .error (text "not a number")
    | some value => .ok (putLe 8 value.val)
  | .f32 =>
    match lib.parseFloat text' with
    | none => .error (text "not a number")
    | some value =>
      if isFinite value ∧ kMaxFloat < magnitude value then .error (text "out of range for f32")
      else .ok (putLe 4 (toFloat value).val)
  | scalar =>
    match parseInteger text' (isSigned scalar) (widthOf scalar) with
    | none => .error (text "not a " ++ nameOf scalar ++ text " (decimal or 0x hex, in range)")
    | some bits => .ok (putLe (widthOf scalar) bits)

/-- The texts between commas; an empty text has none. -/
def splitCommas (text : Bytes) : List Bytes := if text = [] then [] else text.splitOn 0x2c

def failed (type : FieldType) (element why : Bytes) : Status :=
  .error .invalidArgument (type.toText ++ text " value \"" ++ element ++ text "\": " ++ why)

/-- Strings are taken as they are; numbers may have spaces around them. -/
def taken (scalar : Scalar) (text : Bytes) : Bytes := if scalar = .string then text else trim text

def CLibrary.encodeElements (lib : CLibrary) (type : FieldType) : List Bytes → Bytes → Status × Bytes
  | [], out => (.ok, out)
  | element :: elements, out =>
    match lib.encodeScalar type.scalar (taken type.scalar element) with
    | .error why => (failed type element why, out)
    | .ok bytes => lib.encodeElements type elements (out ++ bytes)

def CLibrary.encodeField (lib : CLibrary) (type : FieldType) (value out : Bytes) : Status × Bytes :=
  match type.shape with
  | .one => lib.encodeElements type [value] out
  | .vector =>
    let elements := splitCommas value
    if 2 ^ 32 - 1 < elements.length then (failed type value (text "more than 2^32-1 elements"), out)
    else lib.encodeElements type elements (out ++ putLe 4 elements.length)
  | .array =>
    let elements := splitCommas value
    if elements.length ≠ type.length then
      (failed type value (text "has " ++ toText elements.length ++ text " elements, not " ++ toText type.length), out)
    else lib.encodeElements type elements out

/-- The `--field` options of one call, up to the first that fails. -/
def CLibrary.encodeFields (lib : CLibrary) : List (FieldType × Bytes) → Bytes → Status × Bytes
  | [], out => (.ok, out)
  | (type, value) :: fields, out =>
    let (status, out) := lib.encodeField type value out
    if status.isOk then lib.encodeFields fields out else (status, out)

/-! ## Decoding -/

def quoteByte (byte : UInt8) : Bytes :=
  if byte = 0x22 ∨ byte = 0x5c then [0x5c, byte]
  else if 0x20 ≤ byte ∧ byte < 0x7f then [byte]
  else text "\\x" ++ hexDigits 2 byte.toNat

def quote (data : Bytes) : Bytes := text "\"" ++ data.flatMap quoteByte ++ text "\""

structure Decoder where
  bytes : Bytes
  offset : Nat := 0

namespace Decoder

def left (decoder : Decoder) : Nat := decoder.bytes.length - decoder.offset

def advance (decoder : Decoder) (size : Nat) : Decoder := { decoder with offset := decoder.offset + size }

def take (decoder : Decoder) (width : Nat) : Result (Nat × Decoder) :=
  if decoder.left < width then .error (.error .dataLoss (text "message ends inside a field"))
  else .ok (getLe ((decoder.bytes.drop decoder.offset).take width), decoder.advance width)

/-- `static_cast<std::int64_t>(bits << shift) >> shift`. -/
def signExtended (bits shift : Nat) : Int :=
  let shifted : Nat := bits * 2 ^ shift % 2 ^ 64
  (if shifted < 2 ^ 63 then (shifted : Int) else shifted - 2 ^ 64) / 2 ^ shift

def one (lib : CLibrary) (scalar : Scalar) (decoder : Decoder) : Result (Bytes × Decoder) := do
  let (bits, decoder) ← decoder.take (widthOf scalar)
  match scalar with
  | .bool =>
    if 1 < bits then .error (.error .dataLoss (text "bool byte is " ++ toText bits))
    else return (text (if bits = 1 then "true" else "false"), decoder)
  | .string =>
    if decoder.left < bits then
      .error (.error .dataLoss (text "element count " ++ toText bits ++ text " exceeds the message"))
    else return (quote ((decoder.bytes.drop decoder.offset).take bits), decoder.advance bits)
  | .f32 => return (lib.formatFloat (toDouble (.ofBits 4 bits)) true, decoder)
  | .f64 => return (lib.formatFloat (.ofBits 8 bits) false, decoder)
  | scalar =>
    if isSigned scalar then return (signedText (signExtended bits (64 - 8 * widthOf scalar)), decoder)
    else return (toText bits, decoder)

/-- The loop over `remaining` elements behind the first `index`. -/
def elements (lib : CLibrary) (scalar : Scalar) : (remaining index : Nat) → Bytes → Decoder → Result (Bytes × Decoder)
  | 0, _, text', decoder => .ok (text' ++ text "]", decoder)
  | remaining + 1, index, text', decoder => do
    let (element, decoder) ← decoder.one lib scalar
    elements lib scalar remaining (index + 1) (text' ++ (if index = 0 then [] else text ", ") ++ element) decoder

def field (lib : CLibrary) (type : FieldType) (decoder : Decoder) : Result (Bytes × Decoder) :=
  match type.shape with
  | .one => decoder.one lib type.scalar
  | .vector => do
    let (count, decoder) ← decoder.take 4
    -- each element takes at least one byte (a string, its count)
    if decoder.left / widthOf type.scalar < count then
      .error (.error .dataLoss (text "element count " ++ toText count ++ text " exceeds the message"))
    else decoder.elements lib type.scalar count 0 (text "[")
  | .array => decoder.elements lib type.scalar type.length 0 (text "[")

/-- The loop over the types, behind the first `index`. -/
def fields (lib : CLibrary) : List FieldType → (index : Nat) → Decoder → Result (List Bytes × Decoder)
  | [], _, decoder => .ok ([], decoder)
  | type :: types, index, decoder =>
    match decoder.field lib type with
    | .error status =>
      .error (.error .dataLoss (text "field " ++ toText (index + 1) ++ text " (" ++ type.toText ++ text "): " ++ status.message))
    | .ok (first, decoder) => do
      let (rest, decoder) ← fields lib types (index + 1) decoder
      return (first :: rest, decoder)

end Decoder

def CLibrary.decodeFields (lib : CLibrary) (types : List FieldType) (bytes : Bytes) : Result (List Bytes) := do
  let (fields, decoder) ← Decoder.fields lib types 0 { bytes }
  if decoder.left ≠ 0 then
    .error (.error .dataLoss (toText decoder.left ++ text " bytes left over after " ++ toText types.length
      ++ text " fields; the reply has other fields"))
  else return fields

/-! ## Types from text -/

def invalidFieldType (text' : Bytes) : Result FieldType :=
  invalidArgument (text "field type " ++ text' ++
    text " is not bool, i8-i64, u8-u64, f32, f64, or string, optionally with [] or [N]")

/-- The type with the scalar of that name. -/
def named (text' name : Bytes) (type : FieldType) : Result FieldType :=
  match kScalars.find? fun entry => name = text entry.1 with
  | some entry => .ok { type with scalar := entry.2 }
  | none => invalidFieldType text'

def parseFieldType (text' : Bytes) : Result FieldType :=
  let name := trim text'
  if name = [] then invalidArgument (text "empty field type")
  else
    let before := name.takeWhile (· != 0x5b)
    if before.length = name.length then named text' name {}
    else if name.getLast? ≠ some 0x5d then invalidFieldType text'
    else
      let inside := (name.drop (before.length + 1)).dropLast
      if inside = [] then named text' before { shape := .vector }
      else if inside.head? = some 0x2b then invalidFieldType text'
      else
        match parseInteger inside false 4 with
        | none | some 0 => invalidFieldType text'
        | some length => named text' before { shape := .array, length }

example : (["u8[0x10]", " f64[] ", "bool[", "u8[0]"].map fun s => (parseFieldType (text s)).toOption) =
    [some { scalar := .u8, shape := .array, length := 16 }, some { scalar := .f64, shape := .vector }, none, none] := by
  decide +kernel

end PuppetMaster.Tools
