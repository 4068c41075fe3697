/-
  PuppetMaster.Lib.JsonText — JSON texts as bytes, and a reader of them.

  `parse` reads one value and blanks around it. A string is bytes: an escape stands for the
  UTF-8 bytes of its character, and a byte from 0x80 on for itself. A number is kept as it
  is shown, and an object has its members in order, keys that stand twice included.

  The readers have fuel. `Reads reader bytes a`: with fuel for every byte, `reader` takes
  just these bytes and makes `a` of them, whatever follows. There is a rule for each part of
  a text, from a byte of a string (`Shows`) over `reads_stringBody`, `reads_member`,
  `readsItems_last` and `readsItems_more` to `reads_array` and `reads_object`; a value that
  is read is what the text is parsed as (`parse_of_reads`).
-/

import PuppetMaster.Lib.Hex

namespace PuppetMaster.Lib.JsonText

inductive JsonValue where
  | null
  | boolean (value : Bool)
  | number (shown : List UInt8)
  | string (value : List UInt8)
  | array (items : List JsonValue)
  | object (members : List (List UInt8 × JsonValue))

/-- What was read, and the bytes behind it. -/
abbrev Reader (α : Type) := List UInt8 → Option (α × List UInt8)

variable {α : Type}

def quote : UInt8 := 0x22
def comma : UInt8 := 0x2c
def colon : UInt8 := 0x3a
def backslash : UInt8 := 0x5c

def isBlank (byte : UInt8) : Bool := byte == 0x20 || byte == 0x09 || byte == 0x0a || byte == 0x0d

def skip (bytes : List UInt8) : List UInt8 := bytes.dropWhile isBlank

/-- One byte, behind blanks. -/
def expect (byte : UInt8) (bytes : List UInt8) : Option (List UInt8) :=
  if (skip bytes).head? = some byte then some (skip bytes).tail else none

/-! ## Strings -/

def hexValue (byte : UInt8) : Option Nat :=
  if 0x30 ≤ byte ∧ byte ≤ 0x39 then some (byte.toNat - 0x30)
  else if 0x41 ≤ byte ∧ byte ≤ 0x46 then some (byte.toNat - 0x37)
  else if 0x61 ≤ byte ∧ byte ≤ 0x66 then some (byte.toNat - 0x57)
  else none

def hexFour : Reader Nat
  | a :: b :: c :: d :: rest => do
    let a ← hexValue a
    let b ← hexValue b
    let c ← hexValue c
    let d ← hexValue d
    some (a * 4096 + b * 256 + c * 16 + d, rest)
  | _ => none

/-- A low surrogate, behind a high one. -/
def lowSurrogate (high : Nat) : Reader (List UInt8)
  | slash :: letter :: rest =>
    if slash = backslash ∧ letter = 0x75 then do
      let (low, rest) ← hexFour rest
      if 0xdc00 ≤ low ∧ low < 0xe000 then
        some (String.utf8EncodeChar (Char.ofNat (0x10000 + (high - 0xd800) * 0x400 + (low - 0xdc00))), rest)
      else none
    else none
  | _ => none

def unicode : Reader (List UInt8) := fun bytes => do
  let (code, rest) ← hexFour bytes
  if code < 0xd800 ∨ 0xe000 ≤ code then some (String.utf8EncodeChar (Char.ofNat code), rest)
  else if code < 0xdc00 then lowSurrogate code rest
  else none

/-- What the letter behind a backslash stands for. -/
def escapeOf (letter : UInt8) : Option UInt8 :=
  if letter = quote ∨ letter = backslash ∨ letter = 0x2f then some letter
  else if letter = 0x62 then some 0x08
  else if letter = 0x66 then some 0x0c
  else if letter = 0x6e then some 0x0a
  else if letter = 0x72 then some 0x0d
  else if letter = 0x74 then some 0x09
  else none

def escaped : Reader (List UInt8)
  | [] => none
  | letter :: rest => if letter = 0x75 then unicode rest else (escapeOf letter).map fun byte => ([byte], rest)

/-- One character of a string; the quote that ends it is none. -/
def character : Reader (List UInt8)
  | [] => none
  | byte :: rest =>
    if byte = backslash then escaped rest
    else if byte = quote ∨ byte < 0x20 then none
    else some ([byte], rest)

/-- A string, behind its first quote. -/
def stringBody : Nat → Reader (List UInt8)
  | 0, _ => none
  | fuel + 1, bytes =>
    if bytes.head? = some quote then some ([], bytes.tail)
    else do
      let (first, rest) ← character bytes
      let (more, rest) ← stringBody fuel rest
      some (first ++ more, rest)

/-! ## Numbers -/

def isDigit (byte : UInt8) : Bool := 0x30 ≤ byte && byte ≤ 0x39

/-- One digit or more. -/
def digits : Reader (List UInt8) := fun bytes =>
  let shown := bytes.takeWhile isDigit
  if shown = [] then none else some (shown, bytes.dropWhile isDigit)

/-- A byte of `marks` if one stands there. -/
def mark (marks : List UInt8) : List UInt8 → List UInt8 × List UInt8
  | [] => ([], [])
  | byte :: rest => if byte ∈ marks then ([byte], rest) else ([], byte :: rest)

/-- Nothing if no byte of `marks` stands there, and else that byte and what follows it. -/
def marked (marks : List UInt8) (behind : Reader (List UInt8)) : Reader (List UInt8) := fun bytes =>
  let (first, rest) := mark marks bytes
  if first = [] then some ([], bytes)
  else do
    let (more, rest) ← behind rest
    some (first ++ more, rest)

def number : Reader (List UInt8) := fun bytes => do
  let (minus, rest) := mark [0x2d] bytes
  let (integer, rest) ← digits rest
  if integer.head? = some 0x30 ∧ integer.length ≠ 1 then none
  else do
    let (fraction, rest) ← marked [0x2e] digits rest
    let (exponent, rest) ← marked [0x65, 0x45] (fun bytes => do
      let (sign, rest) := mark [0x2b, 0x2d] bytes
      let (shown, rest) ← digits rest
      some (sign ++ shown, rest)) rest
    some (minus ++ integer ++ fraction ++ exponent, rest)

/-! ## Values -/

/-- One item or more, up to `close`. -/
def items (item : Reader α) (close : UInt8) : Nat → Reader (List α)
  | 0, _ => none
  | fuel + 1, bytes => do
    let (first, rest) ← item bytes
    match expect close rest with
    | some rest => some ([first], rest)
    | none => do
      let rest ← expect comma rest
      let (more, rest) ← items item close fuel rest
      some (first :: more, rest)

def itemsOrNone (item : Reader α) (close : UInt8) (fuel : Nat) : Reader (List α) := fun bytes =>
  match expect close bytes with
  | some rest => some ([], rest)
  | none => items item close fuel bytes

def member (value : Reader JsonValue) (fuel : Nat) : Reader (List UInt8 × JsonValue) := fun bytes => do
  let rest ← expect quote bytes
  let (key, rest) ← stringBody fuel rest
  let rest ← expect colon rest
  let (shown, rest) ← value rest
  some ((key, shown), rest)

def word (shown : List UInt8) (value : JsonValue) : Reader JsonValue := fun bytes =>
  if shown.isPrefixOf bytes then some (value, bytes.drop shown.length) else none

def value : Nat → Reader JsonValue
  | 0, _ => none
  | fuel + 1, bytes =>
    match skip bytes with
    | [] => none
    | byte :: rest =>
      if byte = quote then (stringBody fuel rest).map fun read => (.string read.1, read.2)
      else if byte = 0x5b then (itemsOrNone (value fuel) 0x5d fuel rest).map fun read => (.array read.1, read.2)
      else if byte = 0x7b then
        (itemsOrNone (member (value fuel) fuel) 0x7d fuel rest).map fun read => (.object read.1, read.2)
      else if byte = 0x6e then word "null".toUTF8.toList .null (byte :: rest)
      else if byte = 0x74 then word "true".toUTF8.toList (.boolean true) (byte :: rest)
      else if byte = 0x66 then word "false".toUTF8.toList (.boolean false) (byte :: rest)
      else (number (byte :: rest)).map fun read => (.number read.1, read.2)

/-- One value, and nothing but blanks around it. -/
def parse (bytes : List UInt8) : Option JsonValue := do
  let (shown, rest) ← value bytes.length bytes
  if skip rest = [] then some shown else none

/-! ## What is read back -/

/-- With fuel for every byte the reader takes just these bytes, whatever follows. -/
def Reads (reader : Nat → Reader α) (bytes : List UInt8) (a : α) : Prop :=
  ∀ fuel rest, bytes.length ≤ fuel → reader fuel (bytes ++ rest) = some (a, rest)

/-- Items have fuel for their values and fuel for their number. -/
def ReadsItems (item : Nat → Reader α) (close : UInt8) (bytes : List UInt8) (as : List α) : Prop :=
  ∀ fuel count rest, bytes.length ≤ fuel → bytes.length ≤ count →
    items (item fuel) close count (bytes ++ rest) = some (as, rest)

/-- The bytes start with one that is neither blank nor this. -/
def Starts (other : UInt8) (bytes : List UInt8) : Prop :=
  ∃ byte rest, bytes = byte :: rest ∧ isBlank byte = false ∧ byte ≠ other

theorem skip_cons {byte : UInt8} (h : isBlank byte = false) (rest : List UInt8) : skip (byte :: rest) = byte :: rest := by
  rw [skip, List.dropWhile_cons, h]
  rfl

theorem expect_cons {byte : UInt8} (h : isBlank byte = false) (rest : List UInt8) :
    expect byte (byte :: rest) = some rest := by
  rw [expect, skip_cons h]
  exact if_pos rfl

theorem expect_other {byte first : UInt8} (h : isBlank first = false) (hne : first ≠ byte) (rest : List UInt8) :
    expect byte (first :: rest) = none := by
  rw [expect, skip_cons h]
  exact if_neg fun heq => hne (Option.some.inj heq)

/-- The ways a byte can stand in a string: as it is, behind a backslash, or by its code. -/
inductive Shows (byte : UInt8) : List UInt8 → Prop
  | plain (h : 0x20 ≤ byte) (hquote : byte ≠ quote) (hslash : byte ≠ backslash) : Shows byte [byte]
  | letter {letter : UInt8} (h : escapeOf letter = some byte) : Shows byte [backslash, letter]
  | code {high low : UInt8} {h l : Nat} (hhigh : hexValue high = some h) (hlow : hexValue low = some l)
    (hcode : h * 16 + l = byte.toNat) (hlt : byte < 0x80) : Shows byte [backslash, 0x75, 0x30, 0x30, high, low]

variable {byte : UInt8} {shown : List UInt8}

theorem utf8EncodeChar_byte {byte : UInt8} (h : byte.toNat < 128) : String.utf8EncodeChar (Char.ofNat byte.toNat) = [byte] :=
  of_numbers_below (p := fun byte => String.utf8EncodeChar (Char.ofNat byte.toNat) = [byte]) (by decide +kernel) h

theorem Shows.character (h : Shows byte shown) (rest : List UInt8) : character (shown ++ rest) = some ([byte], rest) := by
  cases h with
  | plain h hquote hslash =>
    show JsonText.character (byte :: rest) = _
    rw [JsonText.character, if_neg hslash, if_neg (not_or.mpr ⟨hquote, UInt8.not_lt.mpr h⟩)]
  | @letter letter h =>
    have hletter : letter ≠ 0x75 := by
      rintro rfl
      cases h
    show JsonText.character (backslash :: letter :: rest) = _
    rw [JsonText.character, if_pos rfl, escaped, if_neg hletter, h]
    rfl
  | @code high low h l hhigh hlow hcode hlt =>
    have hsmall : byte.toNat < 128 := UInt8.lt_iff_toNat_lt.mp hlt
    have hzero : hexValue 0x30 = some 0 := rfl
    have hfour : hexFour (0x30 :: 0x30 :: high :: low :: rest) = some (byte.toNat, rest) := by
      simp only [hexFour, hzero, hhigh, hlow, Option.bind_eq_bind, Option.bind_some, Nat.zero_mul, Nat.zero_add, hcode]
    show JsonText.character (backslash :: 0x75 :: 0x30 :: 0x30 :: high :: low :: rest) = _
    rw [JsonText.character, if_pos rfl, escaped, if_pos rfl, unicode, hfour]
    simp only [Option.bind_eq_bind, Option.bind_some]
    rw [if_pos (by omega), utf8EncodeChar_byte hsmall]

/-- A string's text has no control byte. -/
theorem Shows.printable (h : Shows byte shown) : ∀ b ∈ shown, 0x20 ≤ b := by
  have hletter : ∀ b, (escapeOf b).isSome → 0x20 ≤ b := of_byte_numbers (by decide +kernel)
  have hdigit : ∀ b, (hexValue b).isSome → 0x20 ≤ b := of_byte_numbers (by decide +kernel)
  cases h with
  | plain h => exact List.forall_mem_singleton.mpr h
  | letter h =>
    have hprintable := hletter _ (Option.isSome_of_mem h)
    exact List.forall_mem_cons.mpr ⟨by decide, List.forall_mem_singleton.mpr hprintable⟩
  | code hhigh hlow =>
    have hhigh := hdigit _ (Option.isSome_of_mem hhigh)
    have hlow := hdigit _ (Option.isSome_of_mem hlow)
    have hmark : ∀ b ∈ [backslash, 0x75, 0x30, 0x30], 0x20 ≤ b := by decide +kernel
    exact List.forall_mem_append.mpr
      ⟨hmark, List.forall_mem_cons.mpr ⟨hhigh, List.forall_mem_singleton.mpr hlow⟩⟩

/-- Its bytes are one or more, and the first does not end the string. -/
theorem Shows.exists_cons (h : Shows byte shown) : ∃ first others, shown = first :: others ∧ first ≠ quote := by
  cases h with
  | plain _ hquote => exact ⟨_, _, rfl, hquote⟩
  | letter => exact ⟨_, _, rfl, by decide⟩
  | code => exact ⟨_, _, rfl, by decide⟩

theorem Shows.stringBody (h : Shows byte shown) {fuel : Nat} {bytes s rest : List UInt8}
    (hmore : stringBody fuel bytes = some (s, rest)) : stringBody (fuel + 1) (shown ++ bytes) = some (byte :: s, rest) := by
  obtain ⟨first, others, hshown, hquote⟩ := h.exists_cons
  have hhead : (shown ++ bytes).head? ≠ some quote := by
    rw [hshown]
    exact fun heq => hquote (Option.some.inj heq)
  rw [JsonText.stringBody, if_neg hhead, h.character]
  simp only [Option.bind_eq_bind, Option.bind_some, hmore, List.singleton_append]

/-- What a writer of single bytes made of a string is read back. -/
theorem reads_stringBody {write : UInt8 → List UInt8} (bytes : List UInt8)
    (h : ∀ byte ∈ bytes, Shows byte (write byte)) : Reads stringBody (bytes.flatMap write ++ [quote]) bytes := by
  induction bytes with
  | nil =>
    intro fuel rest hfuel
    obtain ⟨fuel, rfl⟩ : ∃ n, fuel = n + 1 := Nat.exists_eq_add_one.mpr hfuel
    rfl
  | cons byte bytes ih =>
    intro fuel rest hfuel
    have hshows := h byte List.mem_cons_self
    obtain ⟨first, others, hshown, -⟩ := hshows.exists_cons
    have hlength : (write byte).length = others.length + 1 := congrArg List.length hshown
    rw [List.flatMap_cons, List.append_assoc] at hfuel ⊢
    rw [List.length_append] at hfuel
    obtain ⟨fuel, rfl⟩ : ∃ n, fuel = n + 1 := Nat.exists_eq_add_one.mpr (by omega)
    have hmore := ih (fun b hb => h b (List.mem_cons_of_mem _ hb)) fuel rest (by omega)
    rw [List.append_assoc] at hmore ⊢
    exact hshows.stringBody hmore

theorem reads_string {body s : List UInt8} (h : Reads stringBody body s) : Reads value (quote :: body) (.string s) := by
  intro fuel rest hfuel
  obtain ⟨fuel, rfl⟩ : ∃ n, fuel = n + 1 := Nat.exists_eq_add_one.mpr (Nat.lt_of_lt_of_le (Nat.succ_pos _) hfuel)
  rw [List.cons_append, value, skip_cons rfl]
  dsimp only
  rw [if_pos rfl, h fuel rest (Nat.le_of_succ_le_succ hfuel)]
  rfl

/-! ## Items -/

variable {item : Nat → Reader α} {close : UInt8} {bytes more : List UInt8} {a : α} {as : List α}

theorem readsItems_last (h : Reads item bytes a) (hclose : isBlank close = false) :
    ReadsItems item close (bytes ++ [close]) [a] := by
  intro fuel count rest hfuel hcount
  rw [List.length_append, List.length_singleton] at hfuel hcount
  obtain ⟨count, rfl⟩ : ∃ n, count = n + 1 := Nat.exists_eq_add_one.mpr (by omega)
  rw [items, List.append_assoc, h fuel _ (by omega)]
  simp only [Option.bind_eq_bind, Option.bind_some, List.singleton_append, expect_cons hclose]

theorem readsItems_more (h : Reads item bytes a) (hmore : ReadsItems item close more as) (hclose : close ≠ comma) :
    ReadsItems item close (bytes ++ comma :: more) (a :: as) := by
  intro fuel count rest hfuel hcount
  rw [List.length_append, List.length_cons] at hfuel hcount
  obtain ⟨count, rfl⟩ : ∃ n, count = n + 1 := Nat.exists_eq_add_one.mpr (by omega)
  rw [items, List.append_assoc, h fuel _ (by omega)]
  have hcomma : isBlank comma = false := rfl
  simp only [Option.bind_eq_bind, Option.bind_some, List.cons_append, expect_other hcomma hclose.symm, expect_cons hcomma,
    hmore fuel count rest (by omega) (by omega)]

theorem reads_nothing (hclose : isBlank close = false) :
    Reads (fun fuel => itemsOrNone (item fuel) close fuel) [close] [] := by
  intro fuel rest _
  simp only [itemsOrNone, List.singleton_append, expect_cons hclose]

theorem reads_items (h : ReadsItems item close bytes as) (hstart : Starts close bytes) :
    Reads (fun fuel => itemsOrNone (item fuel) close fuel) bytes as := by
  intro fuel rest hfuel
  obtain ⟨first, others, hbytes, hblank, hne⟩ := hstart
  have hnone : expect close (bytes ++ rest) = none := by
    rw [hbytes, List.cons_append]
    exact expect_other hblank hne _
  simp only [itemsOrNone, hnone]
  exact h fuel fuel rest hfuel hfuel

theorem reads_member {body key shown : List UInt8} {v : JsonValue} (hkey : Reads stringBody body key)
    (hvalue : Reads value shown v) :
    Reads (fun fuel => member (value fuel) fuel) (quote :: body ++ colon :: shown) (key, v) := by
  intro fuel rest hfuel
  rw [List.length_append, List.length_cons, List.length_cons] at hfuel
  have hquote : isBlank quote = false := rfl
  have hcolon : isBlank colon = false := rfl
  simp only [member, List.cons_append, List.append_assoc, expect_cons hquote, Option.bind_eq_bind, Option.bind_some,
    hkey fuel _ (show body.length ≤ fuel by omega), expect_cons hcolon, hvalue fuel _ (show shown.length ≤ fuel by omega)]

theorem reads_array {bytes : List UInt8} {vs : List JsonValue}
    (h : Reads (fun fuel => itemsOrNone (value fuel) 0x5d fuel) bytes vs) : Reads value (0x5b :: bytes) (.array vs) := by
  intro fuel rest hfuel
  obtain ⟨fuel, rfl⟩ : ∃ n, fuel = n + 1 := Nat.exists_eq_add_one.mpr (Nat.lt_of_lt_of_le (Nat.succ_pos _) hfuel)
  rw [List.cons_append, value, skip_cons rfl]
  dsimp only
  rw [if_neg (by decide), if_pos rfl]
  exact congrArg (Option.map _) (h fuel rest (Nat.le_of_succ_le_succ hfuel))

theorem reads_object {bytes : List UInt8} {members : List (List UInt8 × JsonValue)}
    (h : Reads (fun fuel => itemsOrNone (member (value fuel) fuel) 0x7d fuel) bytes members) :
    Reads value (0x7b :: bytes) (.object members) := by
  intro fuel rest hfuel
  obtain ⟨fuel, rfl⟩ : ∃ n, fuel = n + 1 := Nat.exists_eq_add_one.mpr (Nat.lt_of_lt_of_le (Nat.succ_pos _) hfuel)
  rw [List.cons_append, value, skip_cons rfl]
  dsimp only
  rw [if_neg (by decide), if_neg (by decide), if_pos rfl]
  exact congrArg (Option.map _) (h fuel rest (Nat.le_of_succ_le_succ hfuel))

theorem parse_of_reads {bytes : List UInt8} {v : JsonValue} (h : Reads value bytes v) : parse bytes = some v := by
  have hread := h bytes.length [] (Nat.le_refl _)
  rw [List.append_nil] at hread
  rw [parse, hread]
  rfl

end PuppetMaster.Lib.JsonText
