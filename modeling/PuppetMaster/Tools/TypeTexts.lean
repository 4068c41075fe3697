/-
  PuppetMaster.Tools.TypeTexts — the syntax of field types (`ParseFieldType`, `ToString`).

  `TypeText` is the syntax: a scalar's name, and `[]` or `[N]` behind it. `ParseFieldType`
  cuts at the first `[` and takes what stands between it and the last byte, which must be
  `]`. Before the cut there is no bracket, so the name of a scalar must stand there, and
  between the two there must be nothing or an unsigned number: no bracket, no blank
  (`bracketed_eq_ok`).
-/

import Mathlib.Data.List.TakeWhile
import PuppetMaster.Tools.FieldTexts
import PuppetMaster.Tools.IntegerTexts

namespace PuppetMaster.Tools

open PuppetMaster.Core
open PuppetMaster.Lib (of_byte_numbers)
open PuppetMaster.Portable (Width)

/-! ## The syntax -/

inductive TypeText : Bytes → FieldType → Prop
  | one (scalar : Scalar) : TypeText (nameOf scalar) { scalar }
  | vector (scalar : Scalar) : TypeText (nameOf scalar ++ text "[]") { scalar, shape := .vector }
  | array (scalar : Scalar) {digits : Bytes} {n : Nat} (h : Magnitude digits n) (hpos : 1 ≤ n) (hlt : n < 2 ^ 32) :
    TypeText (nameOf scalar ++ text "[" ++ digits ++ text "]") { scalar, shape := .array, length := n }

/-- Only an array has a length. -/
def FieldType.used (type : FieldType) : FieldType := { type with length := if type.shape = .array then type.length else 0 }

/-! ## Names -/

/-- No byte of a name or of a number is blank or a bracket. -/
def Solid (bytes : Bytes) : Prop := ∀ byte ∈ bytes, isBlank byte = false ∧ byte ≠ 0x5b ∧ byte ≠ 0x5d

def solidByte (byte : UInt8) : Bool := !isBlank byte && byte != 0x5b && byte != 0x5d

theorem all_solidByte {bytes : Bytes} : bytes.all solidByte = true ↔ Solid bytes := by
  simp only [List.all_eq_true, solidByte, Bool.and_eq_true, Bool.not_eq_true', bne_iff_ne, and_assoc, Solid]

instance (bytes : Bytes) : Decidable (Solid bytes) := decidable_of_iff _ all_solidByte

theorem exists_kScalars (scalar : Scalar) : ∃ entry ∈ kScalars, entry.2 = scalar := by
  cases scalar <;> decide

/-- Each row of the table is the one that its name finds. -/
theorem kScalars_names : ∀ entry ∈ kScalars, text entry.1 = nameOf entry.2
    ∧ (kScalars.find? fun row => nameOf entry.2 = text row.1).map Prod.snd = some entry.2
    ∧ nameOf entry.2 ≠ [] ∧ Solid (nameOf entry.2) := by decide +kernel

theorem nameOf_solid (scalar : Scalar) : nameOf scalar ≠ [] ∧ Solid (nameOf scalar) := by
  obtain ⟨entry, hentry, rfl⟩ := exists_kScalars scalar
  exact (kScalars_names entry hentry).2.2

theorem named_eq_ok {text' name : Bytes} {type type' : FieldType} :
    named text' name type = .ok type' ↔ ∃ scalar, name = nameOf scalar ∧ type' = { type with scalar } := by
  have hfind : ∀ scalar, (kScalars.find? fun entry => nameOf scalar = text entry.1).map Prod.snd = some scalar := by
    intro scalar
    obtain ⟨entry, hentry, rfl⟩ := exists_kScalars scalar
    exact (kScalars_names entry hentry).2.1
  constructor
  · intro h
    unfold named at h
    split at h
    · next entry hentry =>
      cases h
      have hname := List.find?_some hentry
      rw [decide_eq_true_eq, (kScalars_names entry (List.mem_of_find?_eq_some hentry)).1] at hname
      exact ⟨entry.2, hname, rfl⟩
    · cases h
  · rintro ⟨scalar, rfl, rfl⟩
    obtain ⟨entry, hentry, rfl⟩ := Option.map_eq_some_iff.mp (hfind scalar)
    rw [named, hentry]

theorem Magnitude.solid {digits : Bytes} {n : Nat} (h : Magnitude digits n) : Solid digits := by
  have hsolid : ∀ byte, isHexDigit byte = true ∨ byte = 0x78 ∨ byte = 0x58 →
      isBlank byte = false ∧ byte ≠ 0x5b ∧ byte ≠ 0x5d := of_byte_numbers (by decide +kernel)
  intro byte hbyte
  apply hsolid
  cases h with
  | decimal hne hdigits => exact .inl (by rw [isHexDigit, List.all_eq_true.mp hdigits byte hbyte]; rfl)
  | hexadecimal hmark hne hdigits =>
    rcases List.mem_cons.mp hbyte with rfl | hbyte
    · exact .inl (by decide)
    rcases List.mem_cons.mp hbyte with rfl | hbyte
    · exact .inr hmark
    · exact .inl (List.all_eq_true.mp hdigits byte hbyte)

theorem Magnitude.ne_nil {digits : Bytes} {n : Nat} (h : Magnitude digits n) : digits ≠ [] := by
  obtain ⟨byte, rest, rfl, -⟩ := h.isDigit_head
  exact List.cons_ne_nil _ _

/-- Without a sign, `ParseInteger` takes the numbers below 2^32. -/
theorem parseInteger_unsigned_iff {inside : Bytes} {n : Nat} (hplus : inside.head? ≠ some 0x2b) :
    parseInteger inside false 4 = some n ↔ Magnitude inside n ∧ n < 2 ^ 32 := by
  have hcode : parseInteger inside false 4 = some n ↔ _ := @parseInteger_iff inside false .four n
  have hrange (m : Nat) : InRange false .four (m : Int) ↔ m < 2 ^ 32 := by
    show 0 ≤ (m : Int) ∧ (m : Int) < 2 ^ 32 ↔ _
    omega
  rw [hcode]
  constructor
  · rintro ⟨m, hmagnitude, hsigned, hin, rfl⟩
    have hplain : splitSign inside = (false, inside) := by
      unfold splitSign at hsigned ⊢
      split
      · exact absurd (hsigned rfl) Bool.false_ne_true
      · exact absurd rfl hplus
      · rfl
    rw [hplain] at hmagnitude hin ⊢
    exact ⟨hmagnitude, (hrange m).mp hin⟩
  · rintro ⟨hmagnitude, hlt⟩
    rw [hmagnitude.splitSign_eq]
    exact ⟨n, hmagnitude, fun hfalse => absurd hfalse Bool.false_ne_true, (hrange n).mpr hlt, rfl⟩

/-! ## ParseFieldType, cut at the first bracket -/

/-- What it does with the text before the first bracket and the text between the brackets. -/
def bracketed (text' before inside : Bytes) : Result FieldType :=
  if inside = [] then named text' before { shape := .vector }
  else if inside.head? = some 0x2b then invalidFieldType text'
  else
    match parseInteger inside false 4 with
    | none | some 0 => invalidFieldType text'
    | some length => named text' before { shape := .array, length }

theorem bracketed_eq_ok {text' before inside : Bytes} {type : FieldType} :
    bracketed text' before inside = .ok type ↔ ∃ scalar, before = nameOf scalar ∧
      (inside = [] ∧ type = { scalar, shape := .vector }
        ∨ ∃ n, Magnitude inside n ∧ 1 ≤ n ∧ n < 2 ^ 32 ∧ type = { scalar, shape := .array, length := n }) := by
  unfold bracketed
  by_cases hempty : inside = []
  · rw [if_pos hempty, named_eq_ok]
    constructor
    · rintro ⟨scalar, hname, rfl⟩
      exact ⟨scalar, hname, .inl ⟨hempty, rfl⟩⟩
    · rintro ⟨scalar, hname, ⟨-, rfl⟩ | ⟨n, hmagnitude, -⟩⟩
      · exact ⟨scalar, hname, rfl⟩
      · exact absurd hempty hmagnitude.ne_nil
  rw [if_neg hempty]
  by_cases hplus : inside.head? = some 0x2b
  · rw [if_pos hplus]
    constructor
    · intro h
      cases h
    · rintro ⟨scalar, -, ⟨hnil, -⟩ | ⟨n, hmagnitude, -⟩⟩
      · exact absurd hnil hempty
      · -- a number begins with a digit
        obtain ⟨byte, rest, rfl, hdigit⟩ := hmagnitude.isDigit_head
        cases hplus
        exact absurd hdigit (by decide)
  rw [if_neg hplus]
  have hnumber (n : Nat) := @parseInteger_unsigned_iff inside n hplus
  constructor
  · intro h
    split at h
    · cases h
    · cases h
    · next n hzero hparse =>
      obtain ⟨scalar, hname, rfl⟩ := named_eq_ok.mp h
      obtain ⟨hmagnitude, hlt⟩ := (hnumber n).mp hparse
      exact ⟨scalar, hname, .inr ⟨n, hmagnitude, Nat.pos_of_ne_zero hzero, hlt, rfl⟩⟩
  · rintro ⟨scalar, hname, ⟨hnil, -⟩ | ⟨n, hmagnitude, hpos, hlt, rfl⟩⟩
    · exact absurd hnil hempty
    · rw [(hnumber n).mpr ⟨hmagnitude, hlt⟩]
      split
      · next h => cases h
      · next h =>
        cases h
        exact absurd hpos (by decide)
      · next m _ h =>
        cases h
        exact named_eq_ok.mpr ⟨scalar, hname, rfl⟩

theorem takeWhile_cut {before after : Bytes} (h : 0x5b ∉ before) :
    (before ++ 0x5b :: after).takeWhile (· != 0x5b) = before := by
  rw [List.takeWhile_append_of_pos]
  · simp
  · intro byte hbyte
    exact bne_iff_ne.mpr fun heq => h (heq ▸ hbyte)

/-- A text without a bracket, or cut at the first. -/
theorem cut_cases (name : Bytes) : 0x5b ∉ name ∨ ∃ before after, name = before ++ 0x5b :: after ∧ 0x5b ∉ before := by
  by_cases h : 0x5b ∈ name
  · obtain ⟨before, after, hcut, hbefore⟩ := List.eq_append_cons_of_mem h
    exact .inr ⟨before, after, hcut, hbefore⟩
  · exact .inl h

theorem parseFieldType_uncut {text' : Bytes} (h : 0x5b ∉ trim text') (hne : trim text' ≠ []) :
    parseFieldType text' = named text' (trim text') {} := by
  have hall : (trim text').takeWhile (· != 0x5b) = trim text' := by
    rw [List.takeWhile_eq_self_iff]
    intro byte hbyte
    exact bne_iff_ne.mpr fun heq => h (heq ▸ hbyte)
  unfold parseFieldType
  dsimp only
  rw [if_neg hne, hall, if_pos rfl]

theorem parseFieldType_cut {text' before after : Bytes} (hcut : trim text' = before ++ 0x5b :: after) (h : 0x5b ∉ before) :
    parseFieldType text' =
      if after.getLast? ≠ some 0x5d then invalidFieldType text' else bracketed text' before after.dropLast := by
  have hlength : before.length ≠ (before ++ 0x5b :: after).length := by
    rw [List.length_append, List.length_cons]
    omega
  have hlast : (before ++ 0x5b :: after).getLast? = some 0x5d ↔ after.getLast? = some 0x5d := by
    rw [List.getLast?_append_of_ne_nil _ (List.cons_ne_nil _ _), List.getLast?_cons]
    cases after.getLast? with
    | none => decide
    | some byte => exact Iff.rfl
  have hdrop : (before ++ 0x5b :: after).drop (before.length + 1) = after := by
    rw [← List.drop_drop, List.drop_left]
    rfl
  unfold parseFieldType bracketed
  dsimp only
  rw [hcut, if_neg (by simp), takeWhile_cut h, if_neg hlength, hdrop]
  exact if_congr (not_congr hlast) rfl rfl

/-! ## The texts it accepts -/

theorem TypeText.no_blank {name : Bytes} {type : FieldType} (h : TypeText name type) : ∀ byte ∈ name, isBlank byte = false := by
  have hbrackets : ∀ byte ∈ ([0x5b, 0x5d] : Bytes), isBlank byte = false := by
    simp only [List.forall_mem_cons, List.not_mem_nil, false_implies, implies_true, and_true]
    exact ⟨rfl, rfl⟩
  intro byte hbyte
  cases h with
  | one scalar => exact ((nameOf_solid scalar).2 byte hbyte).1
  | vector scalar =>
    rw [elementText.2.2.1] at hbyte
    rcases List.mem_append.mp hbyte with hbyte | hbyte
    · exact ((nameOf_solid scalar).2 byte hbyte).1
    · exact hbrackets byte hbyte
  | array scalar hmagnitude hpos hlt =>
    rw [elementText.1, elementText.2.1, List.append_assoc, List.append_assoc] at hbyte
    simp only [List.mem_append, List.mem_singleton] at hbyte
    rcases hbyte with hbyte | rfl | hbyte | rfl
    · exact ((nameOf_solid scalar).2 byte hbyte).1
    · rfl
    · exact (hmagnitude.solid byte hbyte).1
    · rfl

/-- Both brackets stand at most once, and the closing one at the end. -/
theorem TypeText.brackets {name : Bytes} {type : FieldType} (h : TypeText name type) :
    name.count 0x5b ≤ 1 ∧ name.count 0x5d ≤ 1 ∧ (0x5b ∈ name ∨ 0x5d ∈ name → name.getLast? = some 0x5d) := by
  have hcount : ∀ {bytes : Bytes}, Solid bytes → bytes.count 0x5b = 0 ∧ bytes.count 0x5d = 0 := fun hsolid =>
    ⟨List.count_eq_zero.mpr fun hmem => (hsolid _ hmem).2.1 rfl, List.count_eq_zero.mpr fun hmem => (hsolid _ hmem).2.2 rfl⟩
  cases h with
  | one scalar =>
    obtain ⟨hopen, hclose⟩ := hcount (nameOf_solid scalar).2
    refine ⟨by omega, by omega, ?_⟩
    rintro (hmem | hmem)
    · exact absurd hmem (List.count_eq_zero.mp hopen)
    · exact absurd hmem (List.count_eq_zero.mp hclose)
  | vector scalar =>
    obtain ⟨hopen, hclose⟩ := hcount (nameOf_solid scalar).2
    rw [elementText.2.2.1, List.count_append, List.count_append, hopen, hclose]
    exact ⟨by decide, by decide, fun _ => List.getLast?_append_of_ne_nil _ (List.cons_ne_nil _ _)⟩
  | @array scalar digits n hmagnitude hpos hlt =>
    obtain ⟨hopen, hclose⟩ := hcount (nameOf_solid scalar).2
    obtain ⟨hopen', hclose'⟩ := hcount hmagnitude.solid
    rw [elementText.1, elementText.2.1]
    simp only [List.count_append, hopen, hclose, hopen', hclose']
    exact ⟨by decide, by decide, fun _ => List.getLast?_append_of_ne_nil _ (List.cons_ne_nil _ _)⟩

theorem parseFieldType_sound {text' : Bytes} {type : FieldType} (h : parseFieldType text' = .ok type) :
    TypeText (trim text') type := by
  rcases cut_cases (trim text') with hno | ⟨before, after, hcut, hno⟩
  · by_cases hempty : trim text' = []
    · unfold parseFieldType at h
      dsimp only at h
      rw [if_pos hempty] at h
      cases h
    · rw [parseFieldType_uncut hno hempty] at h
      obtain ⟨scalar, hname, rfl⟩ := named_eq_ok.mp h
      rw [hname]
      exact .one scalar
  · rw [parseFieldType_cut hcut hno] at h
    split at h
    · cases h
    · next hlast =>
      obtain ⟨inside, rfl⟩ := List.getLast?_eq_some_iff.mp (not_not.mp hlast)
      rw [List.dropLast_concat] at h
      obtain ⟨scalar, rfl, ⟨rfl, rfl⟩ | ⟨n, hmagnitude, hpos, hlt, rfl⟩⟩ := bracketed_eq_ok.mp h
      · rw [hcut]
        exact elementText.2.2.1 ▸ TypeText.vector scalar
      · have harray := TypeText.array scalar hmagnitude hpos hlt
        rwa [elementText.1, elementText.2.1, List.append_assoc, List.append_assoc, List.singleton_append, ← hcut] at harray

theorem parseFieldType_complete {text' name : Bytes} {type : FieldType} (hname : trim text' = name) (h : TypeText name type) :
    parseFieldType text' = .ok type := by
  have hfree (scalar : Scalar) : 0x5b ∉ nameOf scalar := fun hmem => ((nameOf_solid scalar).2 _ hmem).2.1 rfl
  have hclosed {scalar : Scalar} (inside : Bytes) (hcut : trim text' = nameOf scalar ++ 0x5b :: (inside ++ [0x5d])) :
      parseFieldType text' = bracketed text' (nameOf scalar) inside := by
    rw [parseFieldType_cut hcut (hfree scalar), if_neg, List.dropLast_concat]
    rw [not_not]
    exact List.getLast?_concat
  cases h with
  | one scalar =>
    rw [parseFieldType_uncut (hname ▸ hfree scalar) (hname ▸ (nameOf_solid scalar).1), hname]
    exact named_eq_ok.mpr ⟨scalar, rfl, rfl⟩
  | vector scalar =>
    rw [elementText.2.2.1] at hname
    rw [hclosed [] hname]
    exact bracketed_eq_ok.mpr ⟨scalar, rfl, .inl ⟨rfl, rfl⟩⟩
  | array scalar hmagnitude hpos hlt =>
    rw [elementText.1, elementText.2.1, List.append_assoc, List.append_assoc, List.singleton_append] at hname
    rw [hclosed _ hname]
    exact bracketed_eq_ok.mpr ⟨scalar, rfl, .inr ⟨_, hmagnitude, hpos, hlt, rfl⟩⟩

/-- A type's own text is in the syntax. -/
theorem typeText_toText {type : FieldType} (hlength : type.shape = .array → 1 ≤ type.length ∧ type.length < 2 ^ 32) :
    TypeText type.toText type.used := by
  obtain ⟨scalar, shape, length⟩ := type
  cases shape with
  | one =>
    show TypeText (nameOf scalar ++ []) _
    rw [List.append_nil]
    exact .one scalar
  | vector => exact .vector scalar
  | array =>
    obtain ⟨hpos, hlt⟩ := hlength rfl
    obtain ⟨hne, hall, hvalue⟩ := toText_spec length
    have hmagnitude := Magnitude.decimal hne hall
    rw [hvalue] at hmagnitude
    have harray := TypeText.array scalar hmagnitude hpos hlt
    rwa [List.append_assoc, List.append_assoc, ← List.append_assoc (text "[")] at harray

theorem field_type_syntax :
    (∀ type : FieldType, (type.shape = .array → 1 ≤ type.length ∧ type.length < 2 ^ 32) →
        parseFieldType type.toText = .ok type.used)
      ∧ (∀ (text' : Bytes) (type : FieldType), parseFieldType text' = .ok type ↔ TypeText (trim text') type)
      ∧ ∀ (text' : Bytes) (type : FieldType), parseFieldType text' = .ok type →
        (trim text').count 0x5b ≤ 1 ∧ (trim text').count 0x5d ≤ 1
          ∧ (0x5b ∈ trim text' ∨ 0x5d ∈ trim text' → (trim text').getLast? = some 0x5d) := by
  refine ⟨?_, ?_, ?_⟩
  · intro type hlength
    have htext := typeText_toText hlength
    exact parseFieldType_complete (trim_of_no_blank htext.no_blank) htext
  · exact fun text' type => ⟨parseFieldType_sound, parseFieldType_complete rfl⟩
  · exact fun text' type h => (parseFieldType_sound h).brackets

end PuppetMaster.Tools
