/-
  PuppetMaster.Tools.FieldTexts — `EncodeField` against `PortableWriter`.

  `parsedScalar` is the value that a text stands for: an integer's is the number it denotes,
  if the type holds it, a float's what `strtod` gives. What the tool appends is the encoding
  of the parsed value (`encodeField_sound`). The text of a bool or an integer stands for the
  value it shows, so encoding it again gives the same bytes (`encodeField_shown`).
-/

import PuppetMaster.Lib.Table
import PuppetMaster.Tools.FieldValues
import PuppetMaster.Tools.Numerals

namespace PuppetMaster.Tools

open PuppetMaster.Core
open PuppetMaster.Portable hiding Scalar FieldType elementSize
open PuppetMaster.Lib (putLe length_putLe)

/-! ## Parsed values -/

def signedOf (w : Nat) (n : Int) : Option (Signed w) :=
  if h : -(256 ^ w) ≤ 2 * n ∧ 2 * n < 256 ^ w then some ⟨n, h⟩ else none

def unsignedOf (w : Nat) (n : Int) : Option (Unsigned w) :=
  if h : 0 ≤ n ∧ n.toNat < 256 ^ w then some ⟨n.toNat, h.2⟩ else none

def CLibrary.parsedScalar (lib : CLibrary) : (scalar : Scalar) → Bytes → Option (Value scalar.portable)
  | .bool, text' =>
    if text' = text "true" ∨ text' = text "1" then some true
    else if text' = text "false" ∨ text' = text "0" then some false
    else none
  | .i8, text' => numeral text' >>= signedOf 1
  | .i16, text' => numeral text' >>= signedOf 2
  | .i32, text' => numeral text' >>= signedOf 4
  | .i64, text' => numeral text' >>= signedOf 8
  | .u8, text' => numeral text' >>= unsignedOf 1
  | .u16, text' => numeral text' >>= unsignedOf 2
  | .u32, text' => numeral text' >>= unsignedOf 4
  | .u64, text' => numeral text' >>= unsignedOf 8
  | .f32, text' => (lib.parseFloat text').map toFloat
  | .f64, text' => lib.parseFloat text'
  | .string, text' => some text'

/-- The elements between commas, numbers without the spaces around them. -/
def CLibrary.parsedElements (lib : CLibrary) (scalar : Scalar) (elements : List Bytes) : Option (List (Value scalar.portable)) :=
  elements.mapM fun element => lib.parsedScalar scalar (taken scalar element)

def CLibrary.parsedField (lib : CLibrary) : (type : FieldType) → Bytes → Option (Value type.portable)
  | ⟨scalar, .one, _⟩, value => lib.parsedScalar scalar (taken scalar value)
  | ⟨scalar, .vector, _⟩, value => lib.parsedElements scalar (splitCommas value)
  | ⟨scalar, .array, length⟩, value => do
    let values ← lib.parsedElements scalar (splitCommas value)
    if h : values.length = length then some ⟨values, h⟩ else none

def typesOf (fields : List (FieldType × Bytes)) : List FieldType := fields.map Prod.fst

def CLibrary.parsedFields (lib : CLibrary) :
    (fields : List (FieldType × Bytes)) → Option (Values (portableFields (typesOf fields)))
  | [] => some ()
  | (type, value) :: fields => do
    let first ← lib.parsedField type value
    let rest ← lib.parsedFields fields
    return (first, rest)

/-! ## Scalars -/

variable {lib : CLibrary}

/-- What is appended for a text is the encoding of its value. -/
def Encodes (lib : CLibrary) (scalar : Scalar) (text' bytes : Bytes) : Prop :=
  ∃ value, lib.parsedScalar scalar text' = some value ∧ CountsBelow scalar.portable value ∧ wire scalar.portable value = bytes

theorem signed_encodes {w : Width} {text' : Bytes} {bits : Nat} (h : parseInteger text' true w.bytes = some bits) :
    ∃ value : Signed w.bytes, (numeral text' >>= signedOf w.bytes) = some value
      ∧ putLe w.bytes value.toUnsigned = putLe w.bytes bits := by
  obtain ⟨n, hnumeral, hrange, hbits⟩ := parseInteger_signed h
  refine ⟨⟨n, hrange⟩, ?_, hbits.symm⟩
  rw [hnumeral]
  exact dif_pos hrange

theorem unsigned_encodes {w : Width} {text' : Bytes} {bits : Nat} (h : parseInteger text' false w.bytes = some bits) :
    ∃ value : Unsigned w.bytes, (numeral text' >>= unsignedOf w.bytes) = some value ∧ value.val = bits := by
  obtain ⟨hnumeral, hlt⟩ := parseInteger_unsigned h
  refine ⟨⟨bits, hlt⟩, ?_, rfl⟩
  rw [hnumeral]
  exact dif_pos ⟨Int.natCast_nonneg bits, hlt⟩

def Scalar.isInteger (scalar : Scalar) : Bool := scalar ≠ .bool ∧ scalar ≠ .f32 ∧ scalar ≠ .f64 ∧ scalar ≠ .string

theorem encodeScalar_integer {scalar : Scalar} (hinteger : scalar.isInteger = true) {text' bytes : Bytes} :
    lib.encodeScalar scalar text' = .ok bytes ↔
      ∃ bits, parseInteger text' (isSigned scalar) (widthOf scalar) = some bits ∧ putLe (widthOf scalar) bits = bytes := by
  cases scalar with
  | bool | f32 | f64 | string => cases hinteger
  | _ =>
    unfold CLibrary.encodeScalar
    dsimp only
    constructor
    · intro h
      split at h
      · cases h
      · next bits hbits =>
        cases h
        exact ⟨bits, hbits, rfl⟩
    · intro ⟨bits, hbits, hbytes⟩
      rw [← hbytes, hbits]

theorem encodeScalar_sound {scalar : Scalar} {text' bytes : Bytes} (h : lib.encodeScalar scalar text' = .ok bytes) :
    Encodes lib scalar text' bytes := by
  have hsigned : ∀ w : Width, (∃ bits, parseInteger text' true w.bytes = some bits ∧ putLe w.bytes bits = bytes) →
      ∃ value : Signed w.bytes, (numeral text' >>= signedOf w.bytes) = some value ∧ True
      ∧ putLe w.bytes value.toUnsigned = bytes := by
    intro w ⟨bits, hbits, hbytes⟩
    obtain ⟨value, hvalue, hsame⟩ := signed_encodes hbits
    exact ⟨value, hvalue, trivial, hsame.trans hbytes⟩
  have hunsigned : ∀ w : Width, (∃ bits, parseInteger text' false w.bytes = some bits ∧ putLe w.bytes bits = bytes) →
      ∃ value : Unsigned w.bytes, (numeral text' >>= unsignedOf w.bytes) = some value ∧ True
      ∧ putLe w.bytes value.val = bytes := by
    intro w ⟨bits, hbits, hbytes⟩
    obtain ⟨value, hvalue, hsame⟩ := unsigned_encodes hbits
    exact ⟨value, hvalue, trivial, (congrArg (putLe w.bytes) hsame).trans hbytes⟩
  cases scalar with
  | bool =>
    unfold CLibrary.encodeScalar at h
    dsimp only at h
    split at h
    · next htrue =>
      cases h
      exact ⟨true, if_pos htrue, trivial, rfl⟩
    split at h
    · next hnot hfalse =>
      cases h
      exact ⟨false, (if_neg hnot).trans (if_pos hfalse), trivial, rfl⟩
    · cases h
  | string =>
    unfold CLibrary.encodeScalar at h
    dsimp only at h
    split at h
    · cases h
    · next hlength =>
      cases h
      have hlt : text'.length < 2 ^ 32 := by omega
      exact ⟨text', rfl, hlt, rfl⟩
  | f64 =>
    unfold CLibrary.encodeScalar at h
    dsimp only at h
    split at h
    · cases h
    · next value hvalue =>
      cases h
      exact ⟨value, hvalue, trivial, rfl⟩
  | f32 =>
    unfold CLibrary.encodeScalar at h
    dsimp only at h
    split at h
    · cases h
    split at h
    · cases h
    · next value hvalue _ =>
      cases h
      exact ⟨toFloat value, congrArg (Option.map toFloat) hvalue, trivial, rfl⟩
  | i8 => exact hsigned .one ((encodeScalar_integer rfl).mp h)
  | i16 => exact hsigned .two ((encodeScalar_integer rfl).mp h)
  | i32 => exact hsigned .four ((encodeScalar_integer rfl).mp h)
  | i64 => exact hsigned .eight ((encodeScalar_integer rfl).mp h)
  | u8 => exact hunsigned .one ((encodeScalar_integer rfl).mp h)
  | u16 => exact hunsigned .two ((encodeScalar_integer rfl).mp h)
  | u32 => exact hunsigned .four ((encodeScalar_integer rfl).mp h)
  | u64 => exact hunsigned .eight ((encodeScalar_integer rfl).mp h)

/-! ## Fields -/

theorem failed_ne_ok (type : FieldType) (element why : Bytes) :
    failed type element why ≠ .ok := fun h => nomatch congrArg Status.code h

/-- What is in the buffer stays there, and has no say in what is appended. -/
theorem encodeElements_append (type : FieldType) (elements before out : List _) :
    lib.encodeElements type elements (before ++ out)
      = ((lib.encodeElements type elements out).1, before ++ (lib.encodeElements type elements out).2) := by
  induction elements generalizing out with
  | nil => rfl
  | cons element elements ih =>
    rw [CLibrary.encodeElements, CLibrary.encodeElements]
    cases lib.encodeScalar type.scalar (taken type.scalar element) with
    | error why => rfl
    | ok bytes =>
      dsimp only
      rw [List.append_assoc, ih]

theorem encodeField_append (type : FieldType) (value out : Bytes) :
    lib.encodeField type value out = ((lib.encodeField type value []).1, out ++ (lib.encodeField type value []).2) := by
  have hnil : out = out ++ [] := (List.append_nil out).symm
  unfold CLibrary.encodeField
  split
  · rw [hnil, encodeElements_append]
    simp only [List.append_nil]
  · dsimp only
    split
    · rw [List.append_nil]
    · rw [encodeElements_append, List.nil_append]
  · dsimp only
    split
    · rw [List.append_nil]
    · rw [hnil, encodeElements_append]
      simp only [List.append_nil]

theorem encodeElements_sound {type : FieldType} {elements : List Bytes} {out out' : Bytes}
    (h : lib.encodeElements type elements out = (.ok, out')) :
    ∃ values, lib.parsedElements type.scalar elements = some values ∧ values.length = elements.length
      ∧ (∀ value ∈ values, CountsBelow type.scalar.portable value)
      ∧ out' = out ++ values.flatMap (wire type.scalar.portable) := by
  induction elements generalizing out with
  | nil =>
    cases h
    exact ⟨[], rfl, rfl, fun _ hmem => absurd hmem List.not_mem_nil, (List.append_nil _).symm⟩
  | cons element elements ih =>
    rw [CLibrary.encodeElements] at h
    split at h
    · exact absurd (congrArg Prod.fst h) (failed_ne_ok _ _ _)
    · next bytes hbytes =>
      obtain ⟨value, hvalue, hgood, rfl⟩ := encodeScalar_sound hbytes
      obtain ⟨values, hvalues, hlength, hgoods, rfl⟩ := ih h
      refine ⟨value :: values, ?_, congrArg (· + 1) hlength, List.forall_mem_cons.mpr ⟨hgood, hgoods⟩, ?_⟩
      · unfold CLibrary.parsedElements at hvalues ⊢
        rw [List.mapM_cons, hvalue, hvalues]
        rfl
      · rw [List.flatMap_cons, List.append_assoc]

theorem encodeField_sound {type : FieldType} {value bytes : Bytes} (h : lib.encodeField type value [] = (.ok, bytes)) :
    ∃ parsed, lib.parsedField type value = some parsed ∧ CountsBelow type.portable parsed
    ∧ wire type.portable parsed = bytes := by
  obtain ⟨scalar, shape, length⟩ := type
  cases shape with
  | one =>
    obtain ⟨values, hvalues, hlength, hgoods, rfl⟩ := encodeElements_sound h
    obtain ⟨parsed, rfl⟩ := List.length_eq_one_iff.mp hlength
    unfold CLibrary.parsedElements at hvalues
    rw [List.mapM_cons] at hvalues
    obtain ⟨first, hfirst, hrest⟩ := Option.bind_eq_some_iff.mp hvalues
    cases hrest
    refine ⟨parsed, hfirst, hgoods parsed (List.mem_singleton_self _), ?_⟩
    rw [List.nil_append, List.flatMap_cons, List.flatMap_nil, List.append_nil]
    rfl
  | vector =>
    unfold CLibrary.encodeField at h
    dsimp only at h
    split at h
    · exact absurd (congrArg Prod.fst h) (failed_ne_ok _ _ _)
    · next hcount =>
      obtain ⟨values, hvalues, hlength, hgoods, rfl⟩ := encodeElements_sound h
      have hlt : values.length < 2 ^ 32 := by omega
      exact ⟨values, hvalues, ⟨hlt, hgoods⟩, by rw [← hlength]; rfl⟩
  | array =>
    unfold CLibrary.encodeField at h
    dsimp only at h
    split at h
    · exact absurd (congrArg Prod.fst h) (failed_ne_ok _ _ _)
    · next hcount =>
      obtain ⟨values, hvalues, hlength, hgoods, rfl⟩ := encodeElements_sound h
      have hsize : values.length = length := hlength.trans (not_not.mp hcount)
      refine ⟨⟨values, hsize⟩, ?_, hgoods, rfl⟩
      show (lib.parsedElements scalar (splitCommas value) >>= _) = _
      rw [hvalues]
      exact dif_pos hsize

/-! ## Texts of values -/

def Scalar.isIntegral (scalar : Scalar) : Bool := scalar ≠ .f32 ∧ scalar ≠ .f64 ∧ scalar ≠ .string

/-- A text that neither commas nor blanks can be split from. -/
structure Plain (word : Bytes) : Prop where
  ne_nil : word ≠ []
  no_comma : 0x2c ∉ word
  no_blank : ∀ byte ∈ word, isBlank byte = false

theorem plain_toText (n : Nat) : Plain (toText n) := by
  obtain ⟨hne, hall, -⟩ := toText_spec n
  have hdigit := List.all_eq_true.mp hall
  have hblank : ∀ byte : UInt8, isDigit byte = true → isBlank byte = false := by
    intro byte h
    obtain ⟨hlow, -⟩ := isDigit_iff.mp h
    unfold isBlank
    rw [Bool.or_eq_false_iff]
    constructor
    · exact beq_eq_false_iff_ne.mpr fun heq => absurd (heq ▸ hlow) (by decide)
    · exact beq_eq_false_iff_ne.mpr fun heq => absurd (heq ▸ hlow) (by decide)
  exact ⟨hne, fun hmem => absurd (hdigit _ hmem) (by decide), fun byte hmem => hblank byte (hdigit byte hmem)⟩

theorem plain_signedText (n : Int) : Plain (signedText n) := by
  have hdigits := plain_toText n.natAbs
  unfold signedText
  split
  · rw [text_minus]
    refine ⟨List.cons_ne_nil _ _, ?_, ?_⟩
    · intro hmem
      rcases List.mem_cons.mp hmem with heq | hmem
      · exact absurd heq (by decide)
      · exact hdigits.no_comma hmem
    · intro byte hmem
      rcases List.mem_cons.mp hmem with rfl | hmem
      · rfl
      · exact hdigits.no_blank byte hmem
  · exact hdigits

theorem plain_shownScalar {scalar : Scalar} (hintegral : scalar.isIntegral = true) (value : Value scalar.portable) :
    Plain (lib.shownScalar scalar value) := by
  cases scalar with
  | f32 | f64 | string => cases hintegral
  | bool =>
    have hwords : ∀ word ∈ [text "true", text "false"], word ≠ [] ∧ 0x2c ∉ word ∧ word.all (!isBlank ·) = true := by
      decide +kernel
    have hplain : ∀ word ∈ [text "true", text "false"], Plain word := fun word hmem =>
      ⟨(hwords word hmem).1, (hwords word hmem).2.1, fun byte hbyte =>
        (Bool.not_eq_true' _).mp (List.all_eq_true.mp (hwords word hmem).2.2 byte hbyte)⟩
    rcases Bool.eq_false_or_eq_true value with rfl | rfl
    · exact hplain _ List.mem_cons_self
    · exact hplain _ (List.mem_cons_of_mem _ List.mem_cons_self)
  | i8 | i16 | i32 | i64 => exact plain_signedText _
  | u8 | u16 | u32 | u64 => exact plain_toText _

theorem encodeScalar_shown {scalar : Scalar} (hintegral : scalar.isIntegral = true) (value : Value scalar.portable) :
    lib.encodeScalar scalar (lib.shownScalar scalar value) = .ok (wire scalar.portable value) := by
  have hsigned : ∀ (w : Width) (value : Signed w.bytes), ∃ bits, parseInteger (signedText value.val) true w.bytes = some bits
      ∧ putLe w.bytes bits = putLe w.bytes value.toUnsigned :=
    fun w value => parseInteger_signedText value.property.1 value.property.2
  have hunsigned : ∀ (w : Width) (value : Unsigned w.bytes), ∃ bits, parseInteger (toText value.val) false w.bytes = some bits
      ∧ putLe w.bytes bits = putLe w.bytes value.val :=
    fun w value => ⟨value.val, parseInteger_toText value.property, rfl⟩
  cases scalar with
  | f32 | f64 | string => cases hintegral
  | bool =>
    have hdiffers : ¬ (text "false" = text "true" ∨ text "false" = text "1") := by decide +kernel
    rcases Bool.eq_false_or_eq_true value with rfl | rfl
    · exact if_pos (.inl rfl)
    · exact (if_neg hdiffers).trans (if_pos (.inl rfl))
  | i8 => exact (encodeScalar_integer rfl).mpr (hsigned .one value)
  | i16 => exact (encodeScalar_integer rfl).mpr (hsigned .two value)
  | i32 => exact (encodeScalar_integer rfl).mpr (hsigned .four value)
  | i64 => exact (encodeScalar_integer rfl).mpr (hsigned .eight value)
  | u8 => exact (encodeScalar_integer rfl).mpr (hunsigned .one value)
  | u16 => exact (encodeScalar_integer rfl).mpr (hunsigned .two value)
  | u32 => exact (encodeScalar_integer rfl).mpr (hunsigned .four value)
  | u64 => exact (encodeScalar_integer rfl).mpr (hunsigned .eight value)

/-! ## Elements between commas -/

theorem elementText : text "[" = [0x5b] ∧ text "]" = [0x5d] ∧ text "[]" = [0x5b, 0x5d] ∧ text ", " = [0x2c, 0x20] := by
  decide +kernel

theorem dropWhile_blank {word : Bytes} (h : ∀ byte ∈ word, isBlank byte = false) : word.dropWhile isBlank = word := by
  cases word with
  | nil => rfl
  | cons byte word => rw [List.dropWhile_cons, h byte List.mem_cons_self, if_neg Bool.false_ne_true]

theorem trim_of_no_blank {word : Bytes} (h : ∀ byte ∈ word, isBlank byte = false) : trim word = word := by
  have hreverse : ∀ byte ∈ word.reverse, isBlank byte = false := fun byte hmem => h byte (List.mem_reverse.mp hmem)
  rw [trim, dropWhile_blank h, dropWhile_blank hreverse, List.reverse_reverse]

theorem trim_plain {word : Bytes} (h : Plain word) : trim word = word := trim_of_no_blank h.no_blank

theorem trim_space (word : Bytes) : trim (0x20 :: word) = trim word := rfl

theorem intercalate_comma (word : Bytes) (words : List Bytes) :
    (text ", ").intercalate (word :: words) = [0x2c].intercalate (word :: words.map fun word => 0x20 :: word) := by
  have hcomma := elementText.2.2.2
  induction words generalizing word with
  | nil => rw [List.map_nil, List.intercalate_singleton, List.intercalate_singleton]
  | cons next words ih =>
    rw [List.intercalate_cons_cons, ih next, hcomma, List.map_cons, List.intercalate_cons_cons, List.append_assoc,
      List.append_assoc]
    cases words with
    | nil => simp
    | cons last words => simp [List.intercalate_cons_cons]

/-- Commas split a list of plain texts again, with a space in front of all but the first. -/
theorem trim_splitCommas {words : List Bytes} (h : ∀ word ∈ words, Plain word) :
    (splitCommas ((text ", ").intercalate words)).map trim = words := by
  cases words with
  | nil => rfl
  | cons word words =>
    have hword := h word List.mem_cons_self
    have hwords := fun next hnext => h next (List.mem_cons_of_mem word hnext)
    have hcommas : ∀ part ∈ word :: words.map fun word => 0x20 :: word, 0x2c ∉ part := by
      intro part hpart
      rcases List.mem_cons.mp hpart with rfl | hpart
      · exact hword.no_comma
      · obtain ⟨next, hnext, rfl⟩ := List.mem_map.mp hpart
        exact List.not_mem_cons_of_ne_of_not_mem (by decide) (hwords next hnext).no_comma
    have hne : (text ", ").intercalate (word :: words) ≠ [] := by
      rw [intercalate_comma, Lib.Table.intercalate_cons]
      exact List.append_ne_nil_of_left_ne_nil hword.ne_nil _
    rw [splitCommas, if_neg hne, intercalate_comma, List.splitOn_intercalate _ hcommas (List.cons_ne_nil _ _), List.map_cons,
      List.map_map, trim_plain hword]
    congr 1
    calc words.map (trim ∘ fun word => 0x20 :: word)
        = words.map id := List.map_congr_left fun next hnext => (trim_space next).trans (trim_plain (hwords next hnext))
      _ = words := List.map_id words

theorem encodeElements_shown (type : FieldType) (hintegral : type.scalar.isIntegral = true)
    {values : List (Value type.scalar.portable)} : ∀ {elements : List Bytes} (out : Bytes),
      elements.map trim = values.map (lib.shownScalar type.scalar) →
        lib.encodeElements type elements out = (.ok, out ++ values.flatMap (wire type.scalar.portable)) := by
  have htaken : ∀ element, taken type.scalar element = trim element := by
    intro element
    refine if_neg fun hstring => ?_
    rw [hstring] at hintegral
    cases hintegral
  induction values with
  | nil =>
    intro elements out h
    obtain rfl := List.map_eq_nil_iff.mp h
    rw [CLibrary.encodeElements, List.flatMap_nil, List.append_nil]
  | cons value values ih =>
    intro elements out h
    obtain ⟨element, elements, rfl, hfirst, hrest⟩ := List.map_eq_cons_iff.mp h
    rw [CLibrary.encodeElements, htaken, hfirst, encodeScalar_shown hintegral]
    dsimp only
    rw [ih _ hrest, List.flatMap_cons, List.append_assoc]

/-! ## There and back -/

/-- A decoded text as it can be encoded again. -/
def withoutBrackets (type : FieldType) (text : Bytes) : Bytes := if type.shape = .one then text else (text.drop 1).dropLast

theorem withoutBrackets_shown (scalar : Scalar) (values : List (Value scalar.portable)) :
    ((lib.shownElements scalar values).drop 1).dropLast = (text ", ").intercalate (values.map (lib.shownScalar scalar)) := by
  obtain ⟨hopen, hclose, -⟩ := elementText
  rw [CLibrary.shownElements, hopen, hclose, List.append_assoc, List.singleton_append, List.drop_one, List.tail_cons,
    List.dropLast_concat]

theorem elements_shown (lib : CLibrary) {scalar : Scalar} (hintegral : scalar.isIntegral = true)
    (values : List (Value scalar.portable)) :
    (splitCommas ((text ", ").intercalate (values.map (lib.shownScalar scalar)))).map trim
      = values.map (lib.shownScalar scalar) := by
  apply trim_splitCommas
  intro word hword
  obtain ⟨value, _, rfl⟩ := List.mem_map.mp hword
  exact plain_shownScalar hintegral value

theorem length_elements_shown (lib : CLibrary) {scalar : Scalar} (hintegral : scalar.isIntegral = true)
    (values : List (Value scalar.portable)) :
    (splitCommas ((text ", ").intercalate (values.map (lib.shownScalar scalar)))).length = values.length := by
  have hlength := congrArg List.length (elements_shown lib hintegral values)
  rwa [List.length_map, List.length_map] at hlength

theorem encodeVector_shown {scalar : Scalar} (hintegral : scalar.isIntegral = true) (length : Nat)
    {values : List (Value scalar.portable)} (hlt : values.length < 2 ^ 32) :
    lib.encodeField ⟨scalar, .vector, length⟩ ((lib.shownElements scalar values).drop 1).dropLast []
      = (.ok, putLe 4 values.length ++ values.flatMap (wire scalar.portable)) := by
  have helements := elements_shown lib hintegral values
  have hlength := length_elements_shown lib hintegral values
  rw [withoutBrackets_shown, CLibrary.encodeField]
  dsimp only
  rw [if_neg (by omega), hlength]
  exact encodeElements_shown ⟨scalar, .vector, length⟩ hintegral _ helements

theorem encodeArray_shown {scalar : Scalar} (hintegral : scalar.isIntegral = true) (values : List (Value scalar.portable)) :
    lib.encodeField ⟨scalar, .array, values.length⟩ ((lib.shownElements scalar values).drop 1).dropLast []
      = (.ok, values.flatMap (wire scalar.portable)) := by
  have helements := elements_shown lib hintegral values
  have hlength := length_elements_shown lib hintegral values
  rw [withoutBrackets_shown, CLibrary.encodeField]
  dsimp only
  rw [if_neg (not_not.mpr hlength)]
  exact encodeElements_shown ⟨scalar, .array, values.length⟩ hintegral [] helements

theorem encodeField_shown {type : FieldType} (hintegral : type.scalar.isIntegral = true) {value : Value type.portable}
    (hgood : CountsBelow type.portable value) :
    lib.encodeField type (withoutBrackets type (lib.shownField type value)) [] = (.ok, wire type.portable value) := by
  obtain ⟨scalar, shape, length⟩ := type
  cases shape with
  | one =>
    have hwire : ∀ value : Value scalar.portable, [] ++ [value].flatMap (wire scalar.portable) = wire scalar.portable value := by
      intro value
      simp
    have helement : [lib.shownScalar scalar value].map trim = [value].map (lib.shownScalar scalar) :=
      congrArg (fun word => [word]) (trim_plain (plain_shownScalar hintegral value))
    have hencode := encodeElements_shown ⟨scalar, .one, length⟩ hintegral [] helement
    exact hencode.trans (congrArg (Prod.mk Status.ok) (hwire value))
  | vector => exact encodeVector_shown hintegral length hgood.1
  | array =>
    obtain ⟨values, rfl⟩ := value
    exact encodeArray_shown hintegral values

/-- A field's text and what its bytes are decoded to are encoded alike. -/
def EncodesAgain (lib : CLibrary) (type : FieldType) (value text' : Bytes) : Prop :=
  ∃ bytes, lib.encodeField type value [] = (.ok, bytes) ∧ lib.encodeField type (withoutBrackets type text') [] = (.ok, bytes)

theorem encodeFields_sound {fields : List (FieldType × Bytes)} {out out' : Bytes}
    (h : lib.encodeFields fields out = (.ok, out')) :
    ∃ values, lib.parsedFields fields = some values ∧ FieldCountsBelow (portableFields (typesOf fields)) values
      ∧ out' = out ++ wireFields (portableFields (typesOf fields)) values
      ∧ ∀ entry ∈ fields.zip (lib.shownFields (typesOf fields) values), entry.1.1.scalar.isIntegral = true →
        EncodesAgain lib entry.1.1 entry.1.2 entry.2 := by
  induction fields generalizing out with
  | nil =>
    cases h
    exact ⟨(), rfl, trivial, (List.append_nil _).symm, fun _ hmem => absurd hmem List.not_mem_nil⟩
  | cons field fields ih =>
    obtain ⟨type, value⟩ := field
    rw [CLibrary.encodeFields, encodeField_append] at h
    dsimp only at h
    split at h
    · next hok =>
      have hfield : lib.encodeField type value [] = (.ok, (lib.encodeField type value []).2) :=
        Prod.ext (Status.eq_ok hok) rfl
      obtain ⟨parsed, hparsed, hgood, hbytes⟩ := encodeField_sound hfield
      obtain ⟨values, hvalues, hgoods, rfl, hagain⟩ := ih h
      refine ⟨(parsed, values), ?_, ⟨hgood, hgoods⟩, ?_, ?_⟩
      · rw [CLibrary.parsedFields, hparsed, hvalues]
        rfl
      · rw [← hbytes, List.append_assoc]
        rfl
      · intro entry hentry hintegral
        rcases List.mem_cons.mp hentry with rfl | hentry
        · exact ⟨_, hfield, hbytes ▸ encodeField_shown hintegral hgood⟩
        · exact hagain entry hentry hintegral
    · next herr =>
      rw [(Prod.mk.inj h).1] at herr
      exact absurd rfl herr

theorem encode_struct {types : List FieldType} {values : Values (portableFields types)}
    (hgoods : FieldCountsBelow (portableFields types) values) {out buffer : Bytes}
    (hout : wireFields (portableFields types) values = out) (hroom : out.length ≤ buffer.length) :
    encode (structOf types) values buffer = (.ok out.length, out ++ buffer.drop out.length) := by
  subst hout
  have hsize : maxSize (.nested (portableFields types)) values = (wireFields (portableFields types) values).length :=
    maxSize_eq (.nested _) values
  have hencode := encode_eq (t := .nested (portableFields types)) (v := values) hgoods (Nat.le_trans (Nat.le_of_eq hsize) hroom)
  rw [hsize] at hencode
  exact hencode

/-- Fields with their texts. -/
def plainFields (fields : List (SupportedField × Bytes)) : List (FieldType × Bytes) :=
  fields.map fun field => (field.1.val, field.2)

theorem tool_encodes_as_the_library (lib : CLibrary) (fields : List (SupportedField × Bytes)) (out : Bytes)
    (h : lib.encodeFields (plainFields fields) [] = (.ok, out)) :
    ∃ values, lib.parsedFields (plainFields fields) = some values
      ∧ (∀ buffer : Bytes, out.length ≤ buffer.length →
        encode (structOf (typesOf (plainFields fields))) values buffer = (.ok out.length, out ++ buffer.drop out.length))
      ∧ lib.decodeFields (typesOf (plainFields fields)) out
        = .ok (lib.shownFields (typesOf (plainFields fields)) values)
      ∧ ∀ entry ∈ (plainFields fields).zip (lib.shownFields (typesOf (plainFields fields)) values),
        entry.1.1.scalar.isIntegral = true → EncodesAgain lib entry.1.1 entry.1.2 entry.2 := by
  obtain ⟨values, hvalues, hgoods, hout, hagain⟩ := encodeFields_sound h
  rw [List.nil_append] at hout
  refine ⟨values, hvalues, ?_, ?_, hagain⟩
  · intro buffer hroom
    exact encode_struct hgoods hout.symm hroom
  · exact (decodeFields_eq_ok _ out _).mpr ⟨values, hgoods, hout.symm, rfl⟩

/-- Reads and prints 1.5. -/
def halfLibrary : CLibrary where
  strtod text' := if text' = text "1.5" then (⟨0x3ff8000000000000, by decide⟩, 3, false) else (⟨0, by decide⟩, 0, false)
  printed precision _ := text (if precision = 1 then "2" else "1.5")
  exponent _ := 0

/-- A bool, the least `i8`, a vector of `u16`, a double and an array of two bytes. -/
def fiveFields : List (SupportedField × Bytes) :=
  [(⟨{ scalar := .bool }, rfl⟩, text "1"), (⟨{ scalar := .i8 }, rfl⟩, text " -128"),
    (⟨{ scalar := .u16, shape := .vector }, rfl⟩, text "0x10, 65535"), (⟨{ scalar := .f64 }, rfl⟩, text "1.5"),
    (⟨{ scalar := .u8, shape := .array, length := 2 }, rfl⟩, text "7,+8")]

def fiveBytes : Bytes := [1, 0x80, 2, 0, 0, 0, 0x10, 0, 0xff, 0xff, 0, 0, 0, 0, 0, 0, 0xf8, 0x3f, 7, 8]

theorem five_fields_encode :
    ∃ values, halfLibrary.parsedFields (plainFields fiveFields) = some values
      ∧ (∀ buffer : Bytes, fiveBytes.length ≤ buffer.length →
        encode (structOf (typesOf (plainFields fiveFields))) values buffer
          = (.ok fiveBytes.length, fiveBytes ++ buffer.drop fiveBytes.length))
      ∧ halfLibrary.decodeFields (typesOf (plainFields fiveFields)) fiveBytes
        = .ok (halfLibrary.shownFields (typesOf (plainFields fiveFields)) values) := by
  obtain ⟨values, hvalues, hencode, hdecode, -⟩ :=
    tool_encodes_as_the_library halfLibrary fiveFields fiveBytes (by decide +kernel)
  exact ⟨values, hvalues, hencode, hdecode⟩

example : (halfLibrary.decodeFields (typesOf (plainFields fiveFields)) fiveBytes).toOption =
    some (["true", "-128", "[16, 65535]", "1.5", "[7, 8]"].map text) := by decide +kernel

end PuppetMaster.Tools
