/-
  PuppetMaster.Tools.FieldValues — `DecodeFields` against `PortableReader`.

  A list of field types is the type of a struct with these fields (`structOf`). What the tool
  takes off the front of a message is the encoding of a value of the field's type, and its
  text shows that value (`field_decodes`); the reader takes the same bytes for the same value
  (`reads_iff`). The guards on an element count differ, a string taking at least four bytes or
  one, but no count that either refuses has its elements behind it.
-/

import PuppetMaster.Portable.Canonical
import PuppetMaster.Tools.PortableFields

namespace PuppetMaster.Tools

open PuppetMaster.Core
open PuppetMaster.Portable hiding Scalar FieldType elementSize
open PuppetMaster.Lib (putLe getLe length_putLe getLe_putLe_of_lt putLe_getLe getLe_lt)

/-! ## The library's types -/

def Scalar.portable : Scalar → Portable.FieldType
  | .bool => .scalar (.integral .bool)
  | .i8 => .scalar (.integral (.signed .one))
  | .i16 => .scalar (.integral (.signed .two))
  | .i32 => .scalar (.integral (.signed .four))
  | .i64 => .scalar (.integral (.signed .eight))
  | .u8 => .scalar (.integral (.unsigned .one))
  | .u16 => .scalar (.integral (.unsigned .two))
  | .u32 => .scalar (.integral (.unsigned .four))
  | .u64 => .scalar (.integral (.unsigned .eight))
  | .f32 => .scalar .float
  | .f64 => .scalar .double
  | .string => .string

def FieldType.portable : FieldType → Portable.FieldType
  | ⟨scalar, .one, _⟩ => scalar.portable
  | ⟨scalar, .vector, _⟩ => .vector scalar.portable
  | ⟨scalar, .array, length⟩ => .array scalar.portable length

/-- A field that the library supports: not a vector of bools. -/
def SupportedField : Type := { type : FieldType // portableSupported type.portable = true }

theorem supported_iff (type : FieldType) :
    portableSupported type.portable = true ↔ ¬ (type.shape = .vector ∧ type.scalar = .bool) := by
  obtain ⟨scalar, shape, length⟩ := type
  cases shape <;> cases scalar <;> simp [FieldType.portable, Scalar.portable, portableSupported]

def portableFields (types : List FieldType) : List Portable.FieldType := types.map FieldType.portable

/-- The type that lists these fields through `PortableFields`. -/
def structOf (types : List FieldType) : Portable.FieldType := .nested (portableFields types)

/-! ## The text of a value -/

def CLibrary.shownScalar (lib : CLibrary) : (scalar : Scalar) → Value scalar.portable → Bytes
  | .bool, (value : Bool) => text (if value then "true" else "false")
  | .i8, (value : Signed 1) => signedText value.val
  | .i16, (value : Signed 2) => signedText value.val
  | .i32, (value : Signed 4) => signedText value.val
  | .i64, (value : Signed 8) => signedText value.val
  | .u8, (value : Unsigned 1) => toText value.val
  | .u16, (value : Unsigned 2) => toText value.val
  | .u32, (value : Unsigned 4) => toText value.val
  | .u64, (value : Unsigned 8) => toText value.val
  | .f32, (value : FloatBits) => lib.formatFloat (toDouble value) true
  | .f64, (value : DoubleBits) => lib.formatFloat value false
  | .string, (value : Bytes) => quote value

def CLibrary.shownElements (lib : CLibrary) (scalar : Scalar) (values : List (Value scalar.portable)) : Bytes :=
  text "[" ++ (text ", ").intercalate (values.map (lib.shownScalar scalar)) ++ text "]"

def CLibrary.shownField (lib : CLibrary) : (type : FieldType) → Value type.portable → Bytes
  | ⟨scalar, .one, _⟩, value => lib.shownScalar scalar value
  | ⟨scalar, .vector, _⟩, (values : List (Value scalar.portable)) => lib.shownElements scalar values
  | ⟨scalar, .array, _⟩, (values : Subtype _) => lib.shownElements scalar values.val

def CLibrary.shownFields (lib : CLibrary) : (types : List FieldType) → Values (portableFields types) → List Bytes
  | [], _ => []
  | type :: types, (value, values) => lib.shownField type value :: lib.shownFields types values

/-! ## What the decoder takes -/

/-- `d'` is `d` past the bytes `front`, which it had before it. -/
def Decoder.Past (d d' : Decoder) (front : Bytes) : Prop :=
  (∃ rest, Lib.Ahead d.bytes d.offset front rest) ∧ d' = d.advance front.length

/-- `read` takes the bytes of a value and gives the text of it. -/
def Decodes {α : Type} (read : Decoder → Result (Bytes × Decoder)) (good : α → Prop) (bytes shown : α → Bytes) : Prop :=
  ∀ d : Decoder, d.offset ≤ d.bytes.length → ∀ text d',
    read d = .ok (text, d') ↔ ∃ value, good value ∧ d.Past d' (bytes value) ∧ text = shown value

namespace Decoder

variable {d d' d'' : Decoder} {front back : Bytes}

theorem Past.within (h : d.Past d' front) : d'.offset ≤ d'.bytes.length := by
  obtain ⟨⟨rest, hahead⟩, rfl⟩ := h
  rw [← List.append_nil front] at hahead
  exact hahead.next.within

theorem Past.nil (h : d.offset ≤ d.bytes.length) : d.Past d [] := ⟨⟨d.bytes.drop d.offset, h, rfl⟩, rfl⟩

theorem past_append : d.Past d'' (front ++ back) ↔ d.Past (d.advance front.length) front ∧
    (d.advance front.length).Past d'' back := by
  constructor
  · intro h
    obtain ⟨⟨rest, hahead⟩, rfl⟩ := h
    refine ⟨⟨⟨_, hahead.first⟩, rfl⟩, ⟨_, hahead.next⟩, ?_⟩
    simp only [advance, List.length_append, Nat.add_assoc]
  · intro h
    obtain ⟨⟨⟨rest, hfront⟩, -⟩, ⟨rest', hback⟩, rfl⟩ := h
    refine ⟨⟨rest', hfront.append hback⟩, ?_⟩
    simp only [advance, List.length_append, Nat.add_assoc]

theorem take_eq_ok {w n : Nat} (h : d.offset ≤ d.bytes.length) :
    d.take w = .ok (n, d') ↔ n < 256 ^ w ∧ d.Past d' (putLe w n) := by
  unfold take left
  constructor
  · intro htake
    split at htake
    · cases htake
    · next hroom =>
      cases htake
      have hlen : ((d.bytes.drop d.offset).take w).length = w := Lib.length_taken (Nat.not_lt.mp hroom)
      have hbytes := putLe_getLe ((d.bytes.drop d.offset).take w)
      have hlt := getLe_lt ((d.bytes.drop d.offset).take w)
      rw [hlen] at hbytes hlt
      refine ⟨hlt, ⟨(d.bytes.drop d.offset).drop w, h, ?_⟩, ?_⟩
      · rw [hbytes, List.take_append_drop]
      · rw [length_putLe]
  · intro ⟨hlt, ⟨rest, hahead⟩, hpast⟩
    have hleft := hahead.left_eq
    rw [length_putLe] at hleft hpast
    rw [if_neg (by omega), hahead.ahead, Lib.take_put, getLe_putLe_of_lt hlt, hpast]

/-- Some bytes are taken, and what comes behind goes on from there. -/
theorem take_then_eq_ok {α : Type} {w : Nat} {body : Nat × Decoder → Result α} {result : α} (h : d.offset ≤ d.bytes.length) :
    d.take w >>= body = .ok result ↔
      ∃ n, n < 256 ^ w ∧ d.Past (d.advance w) (putLe w n) ∧ body (n, d.advance w) = .ok result := by
  rw [bind_eq_ok]
  constructor
  · intro ⟨⟨n, next⟩, htake, hnext⟩
    obtain ⟨hlt, hpast⟩ := (take_eq_ok h).mp htake
    obtain rfl : next = d.advance w := by rw [hpast.2, length_putLe]
    exact ⟨n, hlt, hpast, hnext⟩
  · intro ⟨n, hlt, hpast, hnext⟩
    exact ⟨(n, d.advance w), (take_eq_ok h).mpr ⟨hlt, hpast⟩, hnext⟩

end Decoder

/-! ## Scalars -/

variable {lib : CLibrary}

/-- Bits of one width are taken, and then give the text of the scalar that has these bits. -/
theorem scalar_decodes {s : Portable.Scalar} {shown : s.Value → Bytes} {body : Nat × Decoder → Result (Bytes × Decoder)}
    (hbody : ∀ bits < 256 ^ s.scalarSize, ∀ d text d',
      body (bits, d) = .ok (text, d') ↔ ∃ value, s.scalarBits value = bits ∧ text = shown value ∧ d' = d) :
    Decodes (fun d => d.take s.scalarSize >>= body) (CountsBelow (.scalar s)) (wire (.scalar s)) shown := by
  intro d hwithin text d'
  rw [Decoder.take_then_eq_ok hwithin]
  constructor
  · intro ⟨bits, hlt, hpast, hnext⟩
    obtain ⟨value, rfl, htext, rfl⟩ := (hbody bits hlt _ text d').mp hnext
    exact ⟨value, trivial, hpast, htext⟩
  · intro ⟨value, _, hpast, htext⟩
    have hlt := s.scalarBits_lt value
    have hd' : d' = d.advance s.scalarSize := by rw [hpast.2, wire, length_putLe]
    subst hd'
    exact ⟨s.scalarBits value, hlt, hpast, (hbody _ hlt _ text _).mpr ⟨value, rfl, htext, rfl⟩⟩

/-- Any bits will do, and the text is one of them. -/
theorem bits_decode {s : Portable.Scalar} {shown : s.Value → Bytes} (ofBits : Nat → s.Value) (textOf : Nat → Bytes)
    (hbits : ∀ bits < 256 ^ s.scalarSize, s.scalarBits (ofBits bits) = bits)
    (htext : ∀ value, textOf (s.scalarBits value) = shown value) :
    Decodes (fun d => d.take s.scalarSize >>= fun taken => .ok (textOf taken.1, taken.2)) (CountsBelow (.scalar s))
      (wire (.scalar s)) shown := by
  apply scalar_decodes
  intro bits hlt d text d'
  constructor
  · intro h
    cases h
    refine ⟨ofBits bits, hbits bits hlt, ?_, rfl⟩
    rw [← htext, hbits bits hlt]
  · intro ⟨value, hvalue, htextv, hd⟩
    rw [htextv, hd, ← htext, hvalue]

theorem signExtended_eq (w : Width) {n : Int} (hlow : -(256 ^ w.bytes) ≤ 2 * n) (hhigh : 2 * n < 256 ^ w.bytes) :
    Decoder.signExtended (n % 256 ^ w.bytes).toNat (64 - 8 * w.bytes) = n := by
  unfold Decoder.signExtended
  dsimp only
  split
  · next hlt =>
    cases w <;> simp only [Width.bytes, Nat.reducePow, Int.reducePow, Nat.reduceMul, Nat.reduceSub] at hlow hhigh hlt ⊢ <;> omega
  · next hge =>
    cases w <;> simp only [Width.bytes, Nat.reducePow, Int.reducePow, Nat.reduceMul, Nat.reduceSub] at hlow hhigh hge ⊢ <;> omega

theorem signed_decodes (w : Width) :
    Decodes (fun d => d.take w.bytes >>= fun taken => .ok (signedText (Decoder.signExtended taken.1 (64 - 8 * w.bytes)), taken.2))
      (CountsBelow (.scalar (.integral (.signed w)))) (wire (.scalar (.integral (.signed w))))
      fun value : Signed w.bytes => signedText value.val := by
  refine bits_decode (s := .integral (.signed w)) (fun bits => .ofUnsigned (.ofBits w.bytes bits))
    (fun bits => signedText (Decoder.signExtended bits (64 - 8 * w.bytes))) ?_ ?_
  · intro bits hlt
    exact (Signed.toUnsigned_ofUnsigned (.ofBits w.bytes bits)).trans (Unsigned.val_ofBits hlt)
  · intro value
    show signedText (Decoder.signExtended value.toUnsigned _) = _
    exact congrArg signedText (signExtended_eq w value.property.1 value.property.2)

theorem unsigned_decodes (w : Width) :
    Decodes (fun d => d.take w.bytes >>= fun taken => .ok (toText taken.1, taken.2))
      (CountsBelow (.scalar (.integral (.unsigned w)))) (wire (.scalar (.integral (.unsigned w))))
      fun value : Unsigned w.bytes => toText value.val :=
  bits_decode (s := .integral (.unsigned w)) (.ofBits w.bytes) toText (fun _ hlt => Unsigned.val_ofBits hlt) fun _ => rfl

theorem bool_decodes :
    Decodes (Decoder.one lib .bool) (CountsBelow Scalar.bool.portable) (wire Scalar.bool.portable) (lib.shownScalar .bool) := by
  refine scalar_decodes (s := .integral .bool) ?_
  intro bits hlt d text d'
  show (if 1 < bits then _ else _) = _ ↔ _
  constructor
  · intro h
    split at h
    · cases h
    · next hle =>
      cases h
      rcases Nat.le_one_iff_eq_zero_or_eq_one.mp (Nat.not_lt.mp hle) with rfl | rfl
      · exact ⟨false, rfl, rfl, rfl⟩
      · exact ⟨true, rfl, rfl, rfl⟩
  · intro ⟨(value : Bool), hvalue, htext, hd⟩
    subst hvalue htext hd
    cases value <;> rfl

theorem string_decodes :
    Decodes (Decoder.one lib .string) (CountsBelow Scalar.string.portable) (wire Scalar.string.portable)
      (lib.shownScalar .string) := by
  intro d hwithin text d'
  show (d.take 4 >>= _) = _ ↔
    ∃ value : Bytes, CountsBelow .string value ∧ d.Past d' (putLe 4 value.length ++ value) ∧ text = quote value
  rw [Decoder.take_then_eq_ok hwithin]
  simp only [CountsBelow, Decoder.past_append, length_putLe]
  constructor
  · intro ⟨count, hlt, hpast, hnext⟩
    split at hnext
    · cases hnext
    · next hroom =>
      cases hnext
      have hlen : (((d.advance 4).bytes.drop (d.advance 4).offset).take count).length = count :=
        Lib.length_taken (Nat.not_lt.mp hroom)
      refine ⟨_, by rwa [hlen], ⟨by rwa [hlen], ⟨_, hpast.within, (List.take_append_drop count _).symm⟩, ?_⟩, rfl⟩
      rw [hlen]
  · intro ⟨value, hlt, ⟨hcount, ⟨rest, hahead⟩, hpast⟩, htext⟩
    refine ⟨value.length, hlt, hcount, ?_⟩
    have hleft := hahead.left_eq
    show (if (d.advance 4).left < value.length then _ else _) = _
    rw [if_neg (by unfold Decoder.left; omega), hahead.ahead, List.take_left, htext, hpast]
    rfl

theorem one_decodes (scalar : Scalar) :
    Decodes (Decoder.one lib scalar) (CountsBelow scalar.portable) (wire scalar.portable) (lib.shownScalar scalar) := by
  cases scalar with
  | i8 => exact signed_decodes .one
  | i16 => exact signed_decodes .two
  | i32 => exact signed_decodes .four
  | i64 => exact signed_decodes .eight
  | u8 => exact unsigned_decodes .one
  | u16 => exact unsigned_decodes .two
  | u32 => exact unsigned_decodes .four
  | u64 => exact unsigned_decodes .eight
  | bool => exact bool_decodes
  | string => exact string_decodes
  | f32 =>
    exact bits_decode (s := .float) (.ofBits 4) (fun bits => lib.formatFloat (toDouble (.ofBits 4 bits)) true)
      (fun _ hlt => Unsigned.val_ofBits hlt) fun value => by rw [Scalar.scalarBits, Unsigned.ofBits_val]; rfl
  | f64 =>
    exact bits_decode (s := .double) (.ofBits 8) (fun bits => lib.formatFloat (.ofBits 8 bits) false)
      (fun _ hlt => Unsigned.val_ofBits hlt) fun value => by rw [Scalar.scalarBits, Unsigned.ofBits_val]; rfl

/-! ## Fields -/

/-- The elements behind the first `index`, each behind a comma but the first of all. -/
def CLibrary.shownBehind (lib : CLibrary) (scalar : Scalar) : (index : Nat) → List (Value scalar.portable) → Bytes
  | _, [] => []
  | index, value :: values =>
    (if index = 0 then [] else text ", ") ++ lib.shownScalar scalar value ++ lib.shownBehind scalar (index + 1) values

theorem shownBehind_zero (scalar : Scalar) (values : List (Value scalar.portable)) :
    lib.shownBehind scalar 0 values = (text ", ").intercalate (values.map (lib.shownScalar scalar)) := by
  have hbehind : ∀ (index : Nat) (value : Value scalar.portable) (values : List (Value scalar.portable)),
      lib.shownScalar scalar value ++ lib.shownBehind scalar (index + 1) values
        = (text ", ").intercalate ((value :: values).map (lib.shownScalar scalar)) := by
    intro index value values
    induction values generalizing index value with
    | nil => simp [CLibrary.shownBehind]
    | cons next values ih =>
      rw [CLibrary.shownBehind, if_neg (Nat.succ_ne_zero index), List.map_cons, List.map_cons, List.intercalate_cons_cons,
        List.append_assoc, ih, List.append_assoc]
      rfl
  cases values with
  | nil => rfl
  | cons value values =>
    rw [← hbehind 0, CLibrary.shownBehind, List.append_assoc]
    rfl

theorem elements_eq_ok (scalar : Scalar) (remaining : Nat) : ∀ {index : Nat} {before text' : Bytes} {d d' : Decoder},
    d.offset ≤ d.bytes.length →
      (d.elements lib scalar remaining index before = .ok (text', d') ↔
        ∃ values : List (Value scalar.portable), values.length = remaining ∧ (∀ value ∈ values, CountsBelow scalar.portable value)
          ∧ d.Past d' (values.flatMap (wire scalar.portable))
          ∧ text' = before ++ lib.shownBehind scalar index values ++ text "]") := by
  induction remaining with
  | zero =>
    intro index before text' d d' hwithin
    constructor
    · intro h
      cases h
      exact ⟨[], rfl, fun _ hmem => absurd hmem List.not_mem_nil, .nil hwithin, by rw [CLibrary.shownBehind, List.append_nil]⟩
    · intro ⟨values, hlength, _, hpast, htext⟩
      rw [List.length_eq_zero_iff.mp hlength] at hpast htext
      rw [CLibrary.shownBehind, List.append_nil] at htext
      rw [Decoder.elements, htext, hpast.2]
      rfl
  | succ remaining ih =>
    intro index before text' d d' hwithin
    rw [Decoder.elements, bind_eq_ok]
    constructor
    · intro ⟨⟨element, next⟩, hone, hrest⟩
      obtain ⟨value, hgood, hpast, helement⟩ := (one_decodes scalar d hwithin element next).mp hone
      obtain ⟨values, hlength, hgoods, hpasts, htext⟩ := (ih hpast.within).mp hrest
      obtain rfl := hpast.2
      refine ⟨value :: values, congrArg (· + 1) hlength, List.forall_mem_cons.mpr ⟨hgood, hgoods⟩, ?_, ?_⟩
      · rw [List.flatMap_cons]
        exact Decoder.past_append.mpr ⟨hpast, hpasts⟩
      · rw [htext, helement, CLibrary.shownBehind]
        simp only [List.append_assoc]
    · intro ⟨values, hlength, hgoods, hpast, htext⟩
      obtain ⟨value, values, rfl⟩ := List.exists_cons_of_length_eq_add_one hlength
      rw [List.flatMap_cons] at hpast
      obtain ⟨hfirst, hpasts⟩ := Decoder.past_append.mp hpast
      obtain ⟨hgood, hgoods⟩ := List.forall_mem_cons.mp hgoods
      refine ⟨(lib.shownScalar scalar value, _), (one_decodes scalar d hwithin _ _).mpr ⟨value, hgood, hfirst, rfl⟩, ?_⟩
      refine (ih hfirst.within).mpr ⟨values, Nat.succ.inj hlength, hgoods, hpasts, ?_⟩
      rw [htext, CLibrary.shownBehind]
      simp only [List.append_assoc]

/-- An element has as many bytes as the tool's guard takes it to need. -/
theorem widthOf_le (scalar : Scalar) (value : Value scalar.portable) :
    0 < widthOf scalar ∧ widthOf scalar ≤ (wire scalar.portable value).length := by
  cases scalar with
  | string =>
    have hcount : ∀ value : Bytes, 4 ≤ (putLe 4 value.length ++ value).length := by
      intro value
      rw [List.length_append, length_putLe]
      exact Nat.le_add_right 4 _
    exact ⟨by decide, hcount value⟩
  | _ => exact ⟨by decide, Nat.le_of_eq (length_putLe _ _).symm⟩

theorem count_within (scalar : Scalar) {d d' : Decoder} {values : List (Value scalar.portable)}
    (h : d.Past d' (values.flatMap (wire scalar.portable))) : ¬ d.left / widthOf scalar < values.length := by
  have hlength : ∀ values : List (Value scalar.portable),
      values.length * widthOf scalar ≤ (values.flatMap (wire scalar.portable)).length := by
    intro values
    induction values with
    | nil => simp
    | cons value values ih =>
      have hvalue := (widthOf_le scalar value).2
      rw [List.flatMap_cons, List.length_append, List.length_cons, Nat.add_mul]
      omega
  obtain ⟨⟨rest, hahead⟩, -⟩ := h
  have hleft := hahead.left_eq
  have hall := hlength values
  rw [Nat.not_lt]
  cases values with
  | nil => exact Nat.zero_le _
  | cons value values =>
    rw [Nat.le_div_iff_mul_le (widthOf_le scalar value).1]
    unfold Decoder.left
    omega

theorem field_decodes (type : FieldType) :
    Decodes (Decoder.field lib type) (CountsBelow type.portable) (wire type.portable) (lib.shownField type) := by
  obtain ⟨scalar, shape, length⟩ := type
  cases shape with
  | one => exact one_decodes scalar
  | vector =>
    intro d hwithin text' d'
    show (d.take 4 >>= _) = _ ↔ ∃ values : List (Value scalar.portable),
      (values.length < 2 ^ 32 ∧ ∀ value ∈ values, CountsBelow scalar.portable value)
        ∧ d.Past d' (putLe 4 values.length ++ values.flatMap (wire scalar.portable))
        ∧ text' = lib.shownElements scalar values
    rw [Decoder.take_then_eq_ok hwithin]
    simp only [Decoder.past_append, length_putLe]
    constructor
    · intro ⟨count, hlt, hpast, hnext⟩
      split at hnext
      · cases hnext
      · obtain ⟨values, rfl, hgoods, hpasts, htext⟩ := (elements_eq_ok scalar count hpast.within).mp hnext
        exact ⟨values, ⟨hlt, hgoods⟩, ⟨hpast, hpasts⟩, by rw [htext, shownBehind_zero]; rfl⟩
    · intro ⟨values, ⟨hlt, hgoods⟩, ⟨hcount, hpasts⟩, htext⟩
      refine ⟨values.length, hlt, hcount, ?_⟩
      show (if (d.advance 4).left / widthOf scalar < values.length then _ else _) = _
      rw [if_neg (count_within scalar hpasts)]
      refine (elements_eq_ok scalar values.length hcount.within).mpr ⟨values, rfl, hgoods, hpasts, ?_⟩
      rw [htext, shownBehind_zero]
      rfl
  | array =>
    intro d hwithin text' d'
    show d.elements lib scalar length 0 (text "[") = _ ↔
      ∃ values : { values : List (Value scalar.portable) // values.length = length },
        (∀ value ∈ values.val, CountsBelow scalar.portable value)
          ∧ d.Past d' (values.val.flatMap (wire scalar.portable)) ∧ text' = lib.shownElements scalar values.val
    rw [elements_eq_ok scalar length hwithin]
    constructor
    · intro ⟨values, hlength, hgoods, hpasts, htext⟩
      exact ⟨⟨values, hlength⟩, hgoods, hpasts, by rw [htext, shownBehind_zero]; rfl⟩
    · intro ⟨⟨values, hlength⟩, hgoods, hpasts, htext⟩
      exact ⟨values, hlength, hgoods, hpasts, by rw [htext, shownBehind_zero]; rfl⟩

theorem fields_eq_ok (types : List FieldType) : ∀ {index : Nat} {texts : List Bytes} {d d' : Decoder},
    d.offset ≤ d.bytes.length →
      (Decoder.fields lib types index d = .ok (texts, d') ↔
        ∃ values : Values (portableFields types), FieldCountsBelow (portableFields types) values
          ∧ d.Past d' (wireFields (portableFields types) values) ∧ texts = lib.shownFields types values) := by
  induction types with
  | nil =>
    intro index texts d d' hwithin
    constructor
    · intro h
      cases h
      exact ⟨(), trivial, .nil hwithin, rfl⟩
    · intro ⟨_, _, hpast, htexts⟩
      rw [htexts, hpast.2]
      rfl
  | cons type types ih =>
    intro index texts d d' hwithin
    constructor
    · intro h
      rw [Decoder.fields] at h
      split at h
      · cases h
      · next first next hfirst =>
        obtain ⟨value, hgood, hpast, rfl⟩ := (field_decodes type d hwithin first next).mp hfirst
        obtain ⟨⟨rest, last⟩, hrest, h⟩ := bind_eq_ok.mp h
        cases h
        obtain ⟨values, hgoods, hpasts, rfl⟩ := (ih hpast.within).mp hrest
        obtain rfl := hpast.2
        exact ⟨(value, values), ⟨hgood, hgoods⟩, Decoder.past_append.mpr ⟨hpast, hpasts⟩, rfl⟩
    · intro ⟨(value, values), ⟨hgood, hgoods⟩, hpast, htexts⟩
      obtain ⟨hfirst, hpasts⟩ := Decoder.past_append.mp hpast
      have hfield : d.field lib type = .ok (lib.shownField type value, d.advance (wire type.portable value).length) :=
        (field_decodes type d hwithin _ _).mpr ⟨value, hgood, hfirst, rfl⟩
      have hrest : Decoder.fields lib types (index + 1) (d.advance (wire type.portable value).length)
          = .ok (lib.shownFields types values, d') := (ih hfirst.within).mpr ⟨values, hgoods, hpasts, rfl⟩
      rw [Decoder.fields, hfield]
      dsimp only
      rw [hrest, htexts]
      rfl

theorem decodeFields_eq_ok (types : List FieldType) (bytes : Bytes) (texts : List Bytes) :
    lib.decodeFields types bytes = .ok texts ↔
      ∃ values : Values (portableFields types), FieldCountsBelow (portableFields types) values
        ∧ wireFields (portableFields types) values = bytes ∧ texts = lib.shownFields types values := by
  have hstart : ({ bytes } : Decoder).offset ≤ bytes.length := Nat.zero_le _
  unfold CLibrary.decodeFields
  rw [bind_eq_ok]
  constructor
  · intro ⟨⟨fields, decoder⟩, hfields, hleft⟩
    obtain ⟨values, hgoods, ⟨⟨rest, hahead⟩, hdecoder⟩, htexts⟩ := (fields_eq_ok types hstart).mp hfields
    dsimp only at hleft
    split at hleft
    · cases hleft
    · next hnone =>
      cases hleft
      have hleft : bytes.length - 0 = (wireFields (portableFields types) values).length + rest.length := hahead.left_eq
      rw [hdecoder] at hnone
      simp only [Decoder.left, Decoder.advance, Nat.zero_add, ne_eq, not_not] at hnone
      have hwhole : bytes.length = (wireFields (portableFields types) values).length := by omega
      exact ⟨values, hgoods, hahead.whole hwhole, htexts⟩
  · intro ⟨values, hgoods, hbytes, htexts⟩
    have hpast : ({ bytes } : Decoder).Past { bytes, offset := bytes.length } (wireFields (portableFields types) values) := by
      rw [hbytes]
      exact ⟨⟨[], .start bytes⟩, by rw [Decoder.advance, Nat.zero_add]⟩
    refine ⟨(texts, { bytes, offset := bytes.length }), (fields_eq_ok types hstart).mpr ⟨values, hgoods, hpast, htexts⟩, ?_⟩
    show (if bytes.length - bytes.length ≠ 0 then _ else _) = _
    rw [if_neg (by omega)]
    rfl

/-! ## The library's reader -/

/-- The reader gets `value` from these bytes, over whatever it is given, and consumes them all. -/
def ReadsAll (t : Portable.FieldType) (into : Value t) (bytes : Bytes) (value : Value t) : Prop :=
  readerVisit t into { bytes } = (value, { bytes, offset := bytes.length })

theorem reads_iff {t : Portable.FieldType} (hfit : ∀ value, CountsFit t value 0) {into value : Value t} {bytes : Bytes} :
    ReadsAll t into bytes value ↔ CountsBelow t value ∧ wire t value = bytes := by
  unfold ReadsAll
  constructor
  · intro hread
    have htakes := readerVisit_takes t into { bytes } ⟨rfl, Nat.zero_le _⟩ (by rw [hread]; rfl)
    rw [hread] at htakes
    obtain ⟨hcounts, ⟨rest, hahead⟩, hpast⟩ := htakes
    have hoffset : bytes.length = 0 + (wire t value).length := congrArg PortableReader.offset hpast
    exact ⟨hcounts, hahead.at_offset.whole (hoffset.trans (Nat.zero_add _))⟩
  · intro ⟨hcounts, hwire⟩
    subst hwire
    have hahead : PortableReader.Ahead { bytes := wire t value } (wire t value) [] := ⟨rfl, .start _⟩
    have hread := (readerVisit_readsBack t value hcounts).back into hahead (hfit value)
    rw [hread, PortableReader.advance, Nat.zero_add]

theorem scalar_countsFit (scalar : Scalar) (value : Value scalar.portable) (after : Nat) :
    CountsFit scalar.portable value after := by
  cases scalar <;> exact trivial

theorem elements_countFit (scalar : Scalar) (values : List (Value scalar.portable)) (after : Nat) :
    elementsFit (CountsFit scalar.portable) (maxSize scalar.portable) values after := by
  induction values with
  | nil => exact trivial
  | cons value values ih => exact ⟨scalar_countsFit scalar value _, ih⟩

/-- None of the tool's types has a vector whose elements have no bytes. -/
theorem field_countsFit (type : FieldType) (value : Value type.portable) (after : Nat) : CountsFit type.portable value after := by
  obtain ⟨scalar, shape, length⟩ := type
  cases shape with
  | one => exact scalar_countsFit scalar value after
  | vector =>
    have hsized : sizeless scalar.portable = false := by cases scalar <;> rfl
    refine ⟨fun hsizeless => ?_, elements_countFit scalar _ after⟩
    rw [hsized] at hsizeless
    cases hsizeless
  | array => exact elements_countFit scalar _ after

theorem fields_countFit (types : List FieldType) (values : Values (portableFields types)) (after : Nat) :
    FieldCountsFit (portableFields types) values after := by
  induction types with
  | nil => exact trivial
  | cons type types ih => exact ⟨field_countsFit type values.1 _, ih values.2⟩

theorem tool_and_library_decode_alike (lib : CLibrary) (fields : List SupportedField) (bytes : Bytes)
    (into : Value (structOf (fields.map Subtype.val))) (texts : List Bytes) :
    lib.decodeFields (fields.map Subtype.val) bytes = .ok texts ↔
      ∃ values, ReadsAll (structOf (fields.map Subtype.val)) into bytes values
        ∧ texts = lib.shownFields (fields.map Subtype.val) values := by
  have hreads : ∀ values : Values (portableFields (fields.map Subtype.val)),
      ReadsAll (structOf (fields.map Subtype.val)) into bytes values ↔
        FieldCountsBelow (portableFields (fields.map Subtype.val)) values
          ∧ wireFields (portableFields (fields.map Subtype.val)) values = bytes :=
    fun values => reads_iff (t := structOf (fields.map Subtype.val)) fun values => fields_countFit _ values 0
  rw [decodeFields_eq_ok]
  constructor
  · intro ⟨values, hgoods, hbytes, htexts⟩
    exact ⟨values, (hreads values).mpr ⟨hgoods, hbytes⟩, htexts⟩
  · intro ⟨values, hvalues, htexts⟩
    obtain ⟨hgoods, hbytes⟩ := (hreads values).mp hvalues
    exact ⟨values, hgoods, hbytes, htexts⟩

end PuppetMaster.Tools
