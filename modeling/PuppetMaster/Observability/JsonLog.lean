/-
  PuppetMaster.Observability.JsonLog — one log record as a line of JSON (json_log_exporter.cpp).

  `render` writes its bytes one after the other; `render_eq` says what they are, field by
  field. What a character is written as shows it (`escape_shows`), so a string is read back
  as its bytes and the line as the record's document (`parse_render`). `log_line` adds that
  the line has no control byte, and that no other record has it.
-/

import Mathlib.Data.List.Basic
import PuppetMaster.Lib.JsonText
import PuppetMaster.Core.Status

namespace PuppetMaster.Observability

open PuppetMaster.Core PuppetMaster.Lib.JsonText
open PuppetMaster.Lib (of_numbers_below)

/-- The enumerators; `ToString` has a name for each. -/
inductive LogLevel where
  | trace
  | debug
  | info
  | warning
  | error
  | fatal
  deriving DecidableEq

def LogLevel.toString : LogLevel → Bytes
  | .trace => text "trace"
  | .debug => text "debug"
  | .info => text "info"
  | .warning => text "warning"
  | .error => text "error"
  | .fatal => text "fatal"

structure LogField where
  key : Bytes
  value : Bytes

structure LogRecord where
  level : LogLevel := .info
  component : Bytes
  event : Bytes
  message : Bytes
  fields : List LogField

/-! ## JsonLogExporter -/

def hex : Bytes := text "0123456789abcdef"

/-- The loop body of `WriteJsonString`. -/
def writeCharacter (output : Bytes) (character : UInt8) : Bytes :=
  if character = 0x22 then output ++ text "\\\""
  else if character = 0x5c then output ++ text "\\\\"
  else if character = 0x08 then output ++ text "\\b"
  else if character = 0x0c then output ++ text "\\f"
  else if character = 0x0a then output ++ text "\\n"
  else if character = 0x0d then output ++ text "\\r"
  else if character = 0x09 then output ++ text "\\t"
  else if character < 0x20 then
    output ++ text "\\u00" ++ [hex.getD (character >>> 4).toNat 0] ++ [hex.getD (character &&& 0x0f).toNat 0]
  else output ++ [character]

def writeJsonString (output value : Bytes) : Bytes :=
  let output := output ++ text "\""
  let output := value.foldl writeCharacter output
  output ++ text "\""

/-- The loop over the fields of a record. -/
def writeFields (output : Bytes) (first : Bool) : List LogField → Bytes
  | [] => output
  | field :: fields =>
    let output := if !first then output ++ text "," else output
    let output := output ++ text "\x7b\"key\":"
    let output := writeJsonString output field.key
    let output := output ++ text ",\"value\":"
    let output := writeJsonString output field.value
    let output := output ++ text "\x7d"
    writeFields output false fields

def render (record : LogRecord) : Bytes :=
  let output := text "\x7b\"level\":"
  let output := writeJsonString output record.level.toString
  let output := output ++ text ",\"component\":"
  let output := writeJsonString output record.component
  let output := output ++ text ",\"event\":"
  let output := writeJsonString output record.event
  let output := output ++ text ",\"message\":"
  let output := writeJsonString output record.message
  let output := output ++ text ",\"fields\":["
  let output := writeFields output true record.fields
  output ++ text "]\x7d"

/-! ## The bytes of a line -/

/-- What one character is written as. -/
def escape (character : UInt8) : Bytes := writeCharacter [] character

def quoted (value : Bytes) : Bytes := quote :: (value.flatMap escape ++ [quote])

/-- A member of an object, its name written as it is. -/
def shownMember (name : Bytes) (value : Bytes) : Bytes := quote :: (name ++ [quote]) ++ colon :: value

def shownField (field : LogField) : Bytes :=
  0x7b :: (shownMember (text "key") (quoted field.key) ++ comma ::
    (shownMember (text "value") (quoted field.value) ++ [0x7d]))

def shownFields : List LogField → Bytes
  | [] => [0x5d]
  | [field] => shownField field ++ [0x5d]
  | field :: fields => shownField field ++ comma :: shownFields fields

/-- A member's name stands between quotes, behind a comma from the second member on. -/
theorem nameText : text "\"" = [quote] ∧ text "," = [comma] ∧ text "\x7d" = [0x7d] ∧ text "]\x7d" = [0x5d] ++ [0x7d]
    ∧ text "\x7b\"key\":" = 0x7b :: quote :: (text "key" ++ [quote, colon])
    ∧ text ",\"value\":" = comma :: quote :: (text "value" ++ [quote, colon])
    ∧ text "\x7b\"level\":" = 0x7b :: quote :: (text "level" ++ [quote, colon])
    ∧ text ",\"component\":" = comma :: quote :: (text "component" ++ [quote, colon])
    ∧ text ",\"event\":" = comma :: quote :: (text "event" ++ [quote, colon])
    ∧ text ",\"message\":" = comma :: quote :: (text "message" ++ [quote, colon])
    ∧ text ",\"fields\":[" = comma :: quote :: (text "fields" ++ [quote, colon, 0x5b]) := by decide +kernel

theorem writeCharacter_eq (output : Bytes) (character : UInt8) :
    writeCharacter output character = output ++ escape character := by
  unfold escape writeCharacter
  simp only [apply_ite (output ++ ·), List.append_assoc, List.nil_append]

theorem writeJsonString_eq (output value : Bytes) : writeJsonString output value = output ++ quoted value := by
  have hquote := nameText.1
  have hloop : ∀ output : Bytes, value.foldl writeCharacter output = output ++ value.flatMap escape := by
    induction value with
    | nil => exact fun output => (List.append_nil output).symm
    | cons character value ih =>
      intro output
      rw [List.foldl_cons, ih, writeCharacter_eq, List.flatMap_cons, List.append_assoc]
  unfold writeJsonString quoted
  simp only [hquote, hloop, List.append_assoc, List.cons_append, List.nil_append]

theorem writeFields_first (output : Bytes) (field : LogField) (fields : List LogField) :
    writeFields output true (field :: fields) = writeFields (output ++ shownField field) false fields := by
  obtain ⟨-, -, hclose, -, hkey, hvalue, -⟩ := nameText
  simp only [writeFields, Bool.not_true, Bool.false_eq_true, if_false, writeJsonString_eq, hkey, hvalue, hclose, shownField,
    shownMember, List.append_assoc, List.cons_append, List.nil_append]

theorem writeFields_next (output : Bytes) (field : LogField) (fields : List LogField) :
    writeFields output false (field :: fields) = writeFields (output ++ [comma]) true (field :: fields) := by
  have hcomma := nameText.2.1
  simp only [writeFields, Bool.not_true, Bool.not_false, Bool.false_eq_true, if_true, if_false, hcomma]

theorem writeFields_eq (output : Bytes) (fields : List LogField) :
    writeFields output true fields ++ [0x5d] = output ++ shownFields fields := by
  induction fields generalizing output with
  | nil => rfl
  | cons field fields ih =>
    rw [writeFields_first]
    cases fields with
    | nil => simp only [writeFields, shownFields, List.append_assoc]
    | cons next fields =>
      rw [writeFields_next, ih]
      simp only [shownFields, List.append_assoc, List.cons_append, List.nil_append]

theorem render_eq (record : LogRecord) :
    render record = 0x7b ::
      (shownMember (text "level") (quoted record.level.toString) ++ comma ::
        (shownMember (text "component") (quoted record.component) ++ comma ::
          (shownMember (text "event") (quoted record.event) ++ comma ::
            (shownMember (text "message") (quoted record.message) ++ comma ::
              (shownMember (text "fields") (0x5b :: shownFields record.fields) ++ [0x7d]))))) := by
  obtain ⟨-, -, -, hclose, -, -, hlevel, hcomponent, hevent, hmessage, hfields⟩ := nameText
  unfold render
  simp only [writeJsonString_eq, hclose, ← List.append_assoc, writeFields_eq]
  simp only [hlevel, hcomponent, hevent, hmessage, hfields, shownMember, List.append_assoc, List.cons_append, List.nil_append]

/-! ## Read back -/

/-- The characters with an escape of their own. -/
def specials : List UInt8 := [0x22, 0x5c, 0x08, 0x0c, 0x0a, 0x0d, 0x09]

/-- Their letters. -/
def letters : List UInt8 := [0x22, 0x5c, 0x62, 0x66, 0x6e, 0x72, 0x74]

theorem map_escape_specials : specials.map escape = letters.map fun letter => [backslash, letter] := by decide +kernel

theorem escape_special : ∀ character ∈ specials, ∃ letter, escape character = [backslash, letter]
    ∧ escapeOf letter = some character := by
  have hescape := map_escape_specials
  simp only [specials, letters, List.map_cons, List.map_nil, List.cons.injEq, and_true] at hescape
  obtain ⟨hquote, hslash, hb, hf, hn, hr, ht⟩ := hescape
  simp only [specials, List.forall_mem_cons]
  exact ⟨⟨_, hquote, rfl⟩, ⟨_, hslash, rfl⟩, ⟨_, hb, rfl⟩, ⟨_, hf, rfl⟩, ⟨_, hn, rfl⟩, ⟨_, hr, rfl⟩, ⟨_, ht, rfl⟩,
    fun _ hmem => absurd hmem List.not_mem_nil⟩

/-- The two digits of a character, and that they are read as its halves. -/
def EscapedAsCode (character : UInt8) : Prop :=
  let high := character.toNat / 16
  let low := character.toNat % 16
  escape character = [backslash, 0x75, 0x30, 0x30, hex.getD high 0, hex.getD low 0]
    ∧ hexValue (hex.getD high 0) = some high ∧ hexValue (hex.getD low 0) = some low

instance (character : UInt8) : Decidable (EscapedAsCode character) := inferInstanceAs (Decidable (_ ∧ _))

theorem escape_control {character : UInt8} (h : character < 0x20) (hspecial : character ∉ specials) :
    EscapedAsCode character := by
  have hall : ∀ n < 32, UInt8.ofNat n ∉ specials → EscapedAsCode (UInt8.ofNat n) := by decide +kernel
  exact of_numbers_below (p := fun character => character ∉ specials → EscapedAsCode character) hall
    (UInt8.lt_iff_toNat_lt.mp h) hspecial

theorem escape_plain {character : UInt8} (h : ¬ character < 0x20) (hspecial : character ∉ specials) :
    escape character = [character] := by
  simp only [specials, List.mem_cons, List.not_mem_nil, or_false, not_or] at hspecial
  obtain ⟨hquote, hslash, hb, hf, hn, hr, ht⟩ := hspecial
  rw [escape, writeCharacter, if_neg hquote, if_neg hslash, if_neg hb, if_neg hf, if_neg hn, if_neg hr, if_neg ht, if_neg h]
  rfl

theorem escape_shows (character : UInt8) : Shows character (escape character) := by
  by_cases hspecial : character ∈ specials
  · obtain ⟨letter, hescape, hletter⟩ := escape_special character hspecial
    rw [hescape]
    exact .letter hletter
  · by_cases hcontrol : character < 0x20
    · obtain ⟨hescape, hhigh, hlow⟩ := escape_control hcontrol hspecial
      rw [hescape]
      exact .code hhigh hlow (by omega) (UInt8.lt_trans hcontrol (by decide))
    · rw [escape_plain hcontrol hspecial]
      have hquote : quote ∈ specials := by decide
      have hslash : backslash ∈ specials := by decide
      exact .plain (UInt8.not_lt.mp hcontrol) (fun heq => hspecial (heq ▸ hquote)) (fun heq => hspecial (heq ▸ hslash))

example : [0x22, 0x0a, 0x0b, 0x7f].map escape = [text "\\\"", text "\\n", text "\\u000b", [0x7f]] := by decide +kernel

theorem reads_quoted (s : Bytes) : Reads value (quoted s) (.string s) :=
  reads_string (reads_stringBody s fun character _ => escape_shows character)

/-- A name of bytes that need no escape. -/
def Plain (name : Bytes) : Prop := ∀ byte ∈ name, 0x20 ≤ byte ∧ byte ≠ quote ∧ byte ≠ backslash

def plainByte (byte : UInt8) : Bool := decide (0x20 ≤ byte) && byte != quote && byte != backslash

theorem all_plainByte {name : Bytes} : name.all plainByte = true ↔ Plain name := by
  simp only [List.all_eq_true, plainByte, Bool.and_eq_true, decide_eq_true_eq, bne_iff_ne, and_assoc, Plain]

instance (name : Bytes) : Decidable (Plain name) := decidable_of_iff _ all_plainByte

theorem plain_fieldNames : Plain (text "key") ∧ Plain (text "value") := by decide +kernel

theorem plain_names : Plain (text "level") ∧ Plain (text "component") ∧ Plain (text "event") ∧ Plain (text "message")
    ∧ Plain (text "fields") := by decide +kernel

theorem reads_shownMember {name shown : Bytes} {v : JsonValue} (hname : Plain name) (hvalue : Reads value shown v) :
    Reads (fun fuel => member (value fuel) fuel) (shownMember name shown) (name, v) := by
  have hkey := @reads_stringBody (fun byte => [byte]) name fun byte hbyte =>
    .plain (hname byte hbyte).1 (hname byte hbyte).2.1 (hname byte hbyte).2.2
  rw [List.flatMap_singleton'] at hkey
  exact reads_member hkey hvalue

/-- The document a line is read as. -/
def LogField.document (field : LogField) : JsonValue :=
  .object [(text "key", .string field.key), (text "value", .string field.value)]

def LogRecord.document (record : LogRecord) : JsonValue :=
  .object [(text "level", .string record.level.toString), (text "component", .string record.component),
    (text "event", .string record.event), (text "message", .string record.message),
    (text "fields", .array (record.fields.map LogField.document))]

theorem starts_shownMember (name shown : Bytes) (rest : Bytes) : Starts 0x7d (shownMember name shown ++ rest) :=
  ⟨quote, _, rfl, rfl, by decide⟩

theorem reads_shownField (field : LogField) : Reads value (shownField field) field.document := by
  have hkey := reads_shownMember plain_fieldNames.1 (reads_quoted field.key)
  have hvalue := reads_shownMember plain_fieldNames.2 (reads_quoted field.value)
  exact reads_object (reads_items (readsItems_more hkey (readsItems_last hvalue rfl) (by decide)) (starts_shownMember _ _ _))

theorem readsItems_shownFields (field : LogField) (fields : List LogField) :
    ReadsItems value 0x5d (shownFields (field :: fields)) ((field :: fields).map LogField.document) := by
  induction fields generalizing field with
  | nil => exact readsItems_last (reads_shownField field) rfl
  | cons next fields ih => exact readsItems_more (reads_shownField field) (ih next) (by decide)

theorem reads_shownFields (fields : List LogField) :
    Reads value (0x5b :: shownFields fields) (.array (fields.map LogField.document)) := by
  cases fields with
  | nil => exact reads_array (reads_nothing rfl)
  | cons field fields =>
    refine reads_array (reads_items (readsItems_shownFields field fields) ?_)
    cases fields <;> exact ⟨0x7b, _, rfl, rfl, by decide⟩

/-- A line is read back as its record. -/
theorem parse_render (record : LogRecord) : parse (render record) = some record.document := by
  obtain ⟨plevel, pcomponent, pevent, pmessage, pfields⟩ := plain_names
  have hlevel := reads_shownMember plevel (reads_quoted record.level.toString)
  have hcomponent := reads_shownMember pcomponent (reads_quoted record.component)
  have hevent := reads_shownMember pevent (reads_quoted record.event)
  have hmessage := reads_shownMember pmessage (reads_quoted record.message)
  have hfields := reads_shownMember pfields (reads_shownFields record.fields)
  have hcomma : (0x7d : UInt8) ≠ comma := by decide
  have hmembers := readsItems_more hlevel (readsItems_more hcomponent (readsItems_more hevent
    (readsItems_more hmessage (readsItems_last hfields rfl) hcomma) hcomma) hcomma) hcomma
  rw [render_eq]
  exact parse_of_reads (reads_object (reads_items hmembers (starts_shownMember _ _ _)))

/-! ## Control bytes -/

def Printable (bytes : Bytes) : Prop := ∀ byte ∈ bytes, 0x20 ≤ byte

theorem printable_append {a b : Bytes} : Printable (a ++ b) ↔ Printable a ∧ Printable b := List.forall_mem_append

theorem printable_cons {byte : UInt8} {bytes : Bytes} : Printable (byte :: bytes) ↔ 0x20 ≤ byte ∧ Printable bytes :=
  List.forall_mem_cons

theorem printable_nil : Printable [] := List.forall_mem_nil _

theorem printable_singleton {byte : UInt8} : Printable [byte] ↔ 0x20 ≤ byte := List.forall_mem_singleton

theorem printable_quoted (s : Bytes) : Printable (quoted s) := by
  refine printable_cons.mpr ⟨by decide, printable_append.mpr ⟨?_, printable_singleton.mpr (by decide)⟩⟩
  intro byte hbyte
  obtain ⟨character, -, hmem⟩ := List.mem_flatMap.mp hbyte
  exact (escape_shows character).printable byte hmem

theorem printable_shownMember {name shown : Bytes} (hname : Plain name) (hshown : Printable shown) :
    Printable (shownMember name shown) := by
  have hprintable : Printable name := fun byte hbyte => (hname byte hbyte).1
  simp only [shownMember, printable_cons, printable_append, printable_nil, and_true]
  exact ⟨⟨by decide, hprintable, by decide⟩, by decide, hshown⟩

theorem printable_shownFields (fields : List LogField) : Printable (shownFields fields) := by
  have hfield : ∀ field, Printable (shownField field) := by
    intro field
    have hkey := printable_shownMember plain_fieldNames.1 (printable_quoted field.key)
    have hvalue := printable_shownMember plain_fieldNames.2 (printable_quoted field.value)
    simp only [shownField, printable_cons, printable_append, printable_nil, and_true]
    exact ⟨by decide, hkey, by decide, hvalue, by decide⟩
  induction fields with
  | nil => exact printable_singleton.mpr (by decide)
  | cons field fields ih =>
    cases fields with
    | nil => exact printable_append.mpr ⟨hfield field, printable_singleton.mpr (by decide)⟩
    | cons next fields => exact printable_append.mpr ⟨hfield field, printable_cons.mpr ⟨by decide, ih⟩⟩

theorem printable_render (record : LogRecord) : Printable (render record) := by
  obtain ⟨plevel, pcomponent, pevent, pmessage, pfields⟩ := plain_names
  have hlevel := printable_shownMember plevel (printable_quoted record.level.toString)
  have hcomponent := printable_shownMember pcomponent (printable_quoted record.component)
  have hevent := printable_shownMember pevent (printable_quoted record.event)
  have hmessage := printable_shownMember pmessage (printable_quoted record.message)
  have hlist : Printable (0x5b :: shownFields record.fields) :=
    printable_cons.mpr ⟨by decide, printable_shownFields record.fields⟩
  have hfields := printable_shownMember pfields hlist
  rw [render_eq]
  simp only [printable_cons, printable_append, printable_nil, and_true]
  exact ⟨by decide, hlevel, by decide, hcomponent, by decide, hevent, by decide, hmessage, by decide, hfields,
    by decide⟩

/-! ## A line and its record -/

theorem LogLevel.toString_inj {a b : LogLevel} (h : a.toString = b.toString) : a = b := by
  have hall : ∀ a b : LogLevel, a.toString = b.toString → a = b := by
    intro a b
    cases a <;> cases b <;> decide +kernel
  exact hall a b h

theorem LogField.document_inj {a b : LogField} (h : a.document = b.document) : a = b := by
  cases a
  cases b
  cases h
  rfl

theorem LogRecord.document_inj {a b : LogRecord} (h : a.document = b.document) : a = b := by
  obtain ⟨level, component, event, message, fields⟩ := a
  obtain ⟨level', component', event', message', fields'⟩ := b
  simp only [LogRecord.document, JsonValue.object.injEq, List.cons.injEq, Prod.mk.injEq, JsonValue.string.injEq,
    JsonValue.array.injEq, true_and, and_true] at h
  obtain ⟨hlevel, rfl, rfl, rfl, hfields⟩ := h
  have hinj : Function.Injective LogField.document := fun _ _ => LogField.document_inj
  rw [LogLevel.toString_inj hlevel, List.map_injective_iff.mpr hinj hfields]

/-- A line has no control byte, is read back as its record, and is that of no other. -/
theorem log_line (record : LogRecord) :
    (∀ byte ∈ render record, 0x20 ≤ byte) ∧ parse (render record) = some record.document ∧
      ∀ other : LogRecord, render other = render record → other = record := by
  refine ⟨printable_render record, parse_render record, ?_⟩
  intro other h
  have hdocument : some other.document = some record.document := by
    rw [← parse_render other, ← parse_render record, h]
  exact LogRecord.document_inj (Option.some.inj hdocument)

end PuppetMaster.Observability
