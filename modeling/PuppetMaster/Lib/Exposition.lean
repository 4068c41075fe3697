/-
  PuppetMaster.Lib.Exposition — families of metrics as text, and a reader of such texts.

  A family is a line of help, a line with its type and a line for each sample: the name of the
  family, the labels in braces if there are any, and the value. The value of a label stands in
  quotes, with escapes. `parse` reads a text line by line and collects the lines of each family.

  `parse_write`: the text of families whose names are names, and which have no line breaks but
  in the values of labels, is read back as these families.
-/

import Mathlib.Data.List.Basic

namespace PuppetMaster.Lib.Exposition

def newline : UInt8 := 0x0a
def space : UInt8 := 0x20
def quote : UInt8 := 0x22
def comma : UInt8 := 0x2c
def equals : UInt8 := 0x3d
def backslash : UInt8 := 0x5c
def opening : UInt8 := 0x7b
def closing : UInt8 := 0x7d

structure Sample where
  labels : List (List UInt8 × List UInt8)
  value : List UInt8
  deriving DecidableEq

structure Family where
  name : List UInt8
  help : List UInt8
  type : List UInt8
  samples : List Sample
  deriving DecidableEq

/-! ## Writing -/

def escapeByte (byte : UInt8) : List UInt8 :=
  if byte = backslash then [backslash, backslash]
  else if byte = quote then [backslash, quote]
  else if byte = newline then [backslash, 0x6e]
  else [byte]

def escape (value : List UInt8) : List UInt8 := value.flatMap escapeByte

def labelText (label : List UInt8 × List UInt8) : List UInt8 :=
  label.1 ++ equals :: quote :: (escape label.2 ++ [quote])

/-- The labels behind the opening brace. -/
def labelsText : List (List UInt8 × List UInt8) → List UInt8
  | [] => [closing]
  | [label] => labelText label ++ [closing]
  | label :: labels => labelText label ++ comma :: labelsText labels

def sampleLine (name : List UInt8) (sample : Sample) : List UInt8 :=
  name ++ (if sample.labels.isEmpty then [] else opening :: labelsText sample.labels) ++ space :: sample.value

/-- "# HELP " -/
def helpMark : List UInt8 := [0x23, 0x20, 0x48, 0x45, 0x4c, 0x50, 0x20]

/-- "# TYPE " -/
def typeMark : List UInt8 := [0x23, 0x20, 0x54, 0x59, 0x50, 0x45, 0x20]

def Family.lines (family : Family) : List (List UInt8) :=
  (helpMark ++ (family.name ++ space :: family.help)) :: (typeMark ++ (family.name ++ space :: family.type)) ::
    family.samples.map (sampleLine family.name)

def ended (lines : List (List UInt8)) : List UInt8 := lines.flatMap fun line => line ++ [newline]

def write (families : List Family) : List UInt8 := families.flatMap fun family => ended family.lines

/-! ## Reading -/

def unescape (byte : UInt8) : Option UInt8 :=
  if byte = backslash then some backslash
  else if byte = quote then some quote
  else if byte = 0x6e then some newline
  else none

/-- The value of a label behind its opening quote, and what follows the closing one. -/
def readValue : List UInt8 → Option (List UInt8 × List UInt8)
  | [] => none
  | [byte] => if byte = quote then some ([], []) else none
  | byte :: next :: rest =>
    if byte = quote then some ([], next :: rest)
    else if byte = backslash then do
      let (value, behind) ← readValue rest
      return ((← unescape next) :: value, behind)
    else do
      let (value, behind) ← readValue (next :: rest)
      return (byte :: value, behind)

def isNameByte (byte : UInt8) : Bool :=
  (0x61 ≤ byte && byte ≤ 0x7a) || (0x41 ≤ byte && byte ≤ 0x5a) || (0x30 ≤ byte && byte ≤ 0x39) || byte == 0x5f || byte == 0x3a

/-- The labels behind the opening brace, and what follows the closing one. -/
def readLabels : Nat → List UInt8 → Option (List (List UInt8 × List UInt8) × List UInt8)
  | 0, _ => none
  | fuel + 1, bytes =>
    match bytes.dropWhile isNameByte with
    | equal :: mark :: rest =>
      if equal = equals ∧ mark = quote then do
        let (value, behind) ← readValue rest
        let label := (bytes.takeWhile isNameByte, value)
        match behind with
        | [] => none
        | byte :: behind =>
          if byte = comma then do
            let (labels, behind) ← readLabels fuel behind
            return (label :: labels, behind)
          else if byte = closing then return ([label], behind)
          else none
      else none
    | _ => none

inductive Line where
  | help (name text : List UInt8)
  | type (name kind : List UInt8)
  | sample (name : List UInt8) (sample : Sample)
  deriving DecidableEq

/-- A name, a space, and the rest. -/
def readNamed (bytes : List UInt8) : Option (List UInt8 × List UInt8) :=
  match bytes.dropWhile isNameByte with
  | [] => none
  | byte :: rest => if byte = space then some (bytes.takeWhile isNameByte, rest) else none

def readSample (bytes : List UInt8) : Option Line :=
  let name := bytes.takeWhile isNameByte
  match bytes.dropWhile isNameByte with
  | [] => none
  | byte :: rest =>
    if byte = space then some (.sample name { labels := [], value := rest })
    else if byte = opening then do
      let (labels, behind) ← readLabels rest.length rest
      match behind with
      | [] => none
      | byte :: value => if byte = space then some (.sample name { labels, value }) else none
    else none

def readLine (line : List UInt8) : Option Line :=
  if helpMark.isPrefixOf line then (readNamed (line.drop helpMark.length)).map fun named => .help named.1 named.2
  else if typeMark.isPrefixOf line then (readNamed (line.drop typeMark.length)).map fun named => .type named.1 named.2
  else readSample line

/-- What was read from behind: the samples of a family, then its type, and the families behind it. -/
structure Gathered where
  samples : List (List UInt8 × Sample) := []
  type : Option (List UInt8 × List UInt8) := none
  families : List Family := []

def gather (line : Line) (gathered : Gathered) : Option Gathered :=
  match line, gathered.type with
  | .sample name sample, none => some { gathered with samples := (name, sample) :: gathered.samples }
  | .type name kind, none => some { gathered with type := some (name, kind) }
  | .help name help, some (typed, kind) =>
    if typed = name ∧ ∀ entry ∈ gathered.samples, entry.1 = name then
      some { families := { name, help, type := kind, samples := gathered.samples.map (·.2) } :: gathered.families }
    else none
  | _, _ => none

def gatherAll (lines : List Line) : Option Gathered := lines.foldrM gather {}

/-- Every line has an end, and the first line of a family is its help. -/
def parse (bytes : List UInt8) : Option (List Family) := do
  let lines := bytes.splitOn newline
  if lines.getLast? ≠ some [] then none
  else
    let gathered ← gatherAll (← lines.dropLast.mapM readLine)
    if gathered.samples.isEmpty ∧ gathered.type.isNone then some gathered.families else none

/-! ## What is written is read -/

structure Sample.WellFormed (sample : Sample) : Prop where
  labels : ∀ label ∈ sample.labels, ∀ byte ∈ label.1, isNameByte byte = true
  value : newline ∉ sample.value

structure Family.WellFormed (family : Family) : Prop where
  name : ∀ byte ∈ family.name, isNameByte byte = true
  help : newline ∉ family.help
  type : newline ∉ family.type
  samples : ∀ sample ∈ family.samples, sample.WellFormed

theorem readValue_escaped {byte next : UInt8} {rest value behind : List UInt8} (hnext : unescape next = some byte)
    (h : readValue rest = some (value, behind)) : readValue (backslash :: next :: rest) = some (byte :: value, behind) := by
  rw [readValue, if_neg (by decide), if_pos rfl, h]
  simp only [Option.bind_eq_bind, Option.bind_some, hnext, pure]

theorem readValue_escapeByte (byte : UInt8) {rest value behind : List UInt8} (hne : rest ≠ [])
    (h : readValue rest = some (value, behind)) : readValue (escapeByte byte ++ rest) = some (byte :: value, behind) := by
  unfold escapeByte
  split
  · next hbyte =>
    subst hbyte
    exact readValue_escaped rfl h
  · next hplain =>
    split
    · next hbyte =>
      subst hbyte
      exact readValue_escaped rfl h
    · next hquote =>
      split
      · next hbyte =>
        subst hbyte
        exact readValue_escaped rfl h
      · obtain ⟨next, tail, rfl⟩ := List.exists_cons_of_ne_nil hne
        rw [List.singleton_append, readValue, if_neg hquote, if_neg hplain, h]
        rfl

theorem readValue_escape (value rest : List UInt8) : readValue (escape value ++ quote :: rest) = some (value, rest) := by
  induction value with
  | nil =>
    cases rest with
    | nil => rfl
    | cons next rest => rfl
  | cons byte value ih =>
    rw [escape, List.flatMap_cons, List.append_assoc]
    exact readValue_escapeByte byte (by simp) ih

theorem newline_not_mem_escape (value : List UInt8) : newline ∉ escape value := by
  intro hmem
  obtain ⟨byte, -, hbyte⟩ := List.mem_flatMap.mp hmem
  unfold escapeByte at hbyte
  split at hbyte
  · revert hbyte; decide
  · split at hbyte
    · revert hbyte; decide
    · split at hbyte
      · revert hbyte; decide
      · next hother => exact hother (List.mem_singleton.mp hbyte).symm

/-! ## Names -/

variable {name : List UInt8}

theorem dropWhile_name (hname : ∀ byte ∈ name, isNameByte byte = true) (byte : UInt8) (hbyte : isNameByte byte = false)
    (rest : List UInt8) : (name ++ byte :: rest).dropWhile isNameByte = byte :: rest := by
  rw [List.dropWhile_append_of_pos hname, List.dropWhile_cons_of_neg (by simp [hbyte])]

theorem takeWhile_name (hname : ∀ byte ∈ name, isNameByte byte = true) (byte : UInt8) (hbyte : isNameByte byte = false)
    (rest : List UInt8) : (name ++ byte :: rest).takeWhile isNameByte = name := by
  rw [List.takeWhile_append_of_pos hname, List.takeWhile_cons_of_neg (by simp [hbyte]), List.append_nil]

theorem not_mem_name (hname : ∀ byte ∈ name, isNameByte byte = true) (byte : UInt8) (hbyte : isNameByte byte = false) :
    byte ∉ name := by
  intro hmem
  rw [hname byte hmem] at hbyte
  cases hbyte

theorem readNamed_named (hname : ∀ byte ∈ name, isNameByte byte = true) (rest : List UInt8) :
    readNamed (name ++ space :: rest) = some (name, rest) := by
  rw [readNamed, dropWhile_name hname space rfl, takeWhile_name hname space rfl]
  rfl

/-! ## Lines -/

theorem readLabels_labelsText {labels : List (List UInt8 × List UInt8)} (hne : labels ≠ [])
    (hnames : ∀ label ∈ labels, ∀ byte ∈ label.1, isNameByte byte = true) (rest : List UInt8) {fuel : Nat}
    (hfuel : labels.length ≤ fuel) : readLabels fuel (labelsText labels ++ rest) = some (labels, rest) := by
  induction labels generalizing fuel with
  | nil => exact absurd rfl hne
  | cons label labels ih =>
    obtain ⟨fuel, rfl⟩ : ∃ n, fuel = n + 1 := ⟨fuel - 1, by simp only [List.length_cons] at hfuel; omega⟩
    have hname := hnames label List.mem_cons_self
    cases labels with
    | nil =>
      have htext : labelsText [label] ++ rest = label.1 ++ equals :: quote :: (escape label.2 ++ quote :: closing :: rest) := by
        simp [labelsText, labelText]
      rw [htext, readLabels, dropWhile_name hname equals rfl]
      simp only [and_self, if_true, readValue_escape, takeWhile_name hname equals rfl, Option.bind_eq_bind, Option.bind_some]
      rfl
    | cons next labels =>
      have hrest := @ih (by simp) (fun label hmem => hnames label (List.mem_cons_of_mem _ hmem)) fuel
        (by simp only [List.length_cons] at hfuel ⊢; omega)
      have htext : labelsText (label :: next :: labels) ++ rest
          = label.1 ++ equals :: quote :: (escape label.2 ++ quote :: comma :: (labelsText (next :: labels) ++ rest)) := by
        simp [labelsText, labelText]
      rw [htext, readLabels, dropWhile_name hname equals rfl]
      simp only [and_self, if_true, readValue_escape, takeWhile_name hname equals rfl, Option.bind_eq_bind, Option.bind_some,
        hrest]
      rfl

theorem length_labelsText (labels : List (List UInt8 × List UInt8)) : labels.length ≤ (labelsText labels).length := by
  induction labels with
  | nil => exact Nat.zero_le _
  | cons label labels ih =>
    cases labels with
    | nil => simp [labelsText]
    | cons next labels =>
      simp only [labelsText, List.length_append, List.length_cons] at ih ⊢
      omega

theorem readSample_sampleLine (hname : ∀ byte ∈ name, isNameByte byte = true) {sample : Sample} (h : sample.WellFormed) :
    readSample (sampleLine name sample) = some (.sample name sample) := by
  obtain ⟨labels, value⟩ := sample
  cases labels with
  | nil =>
    have hline : sampleLine name ⟨[], value⟩ = name ++ space :: value := by simp [sampleLine]
    simp only [hline, readSample, dropWhile_name hname space rfl, takeWhile_name hname space rfl, if_true]
  | cons label labels =>
    have hline : sampleLine name ⟨label :: labels, value⟩
        = name ++ opening :: (labelsText (label :: labels) ++ space :: value) := by simp [sampleLine]
    have hfuel : (label :: labels).length ≤ (labelsText (label :: labels) ++ space :: value).length := by
      rw [List.length_append]
      exact Nat.le_add_right_of_le (length_labelsText _)
    have hread := readLabels_labelsText (List.cons_ne_nil label labels) h.labels (space :: value) hfuel
    simp only [hline, readSample, dropWhile_name hname opening rfl, takeWhile_name hname opening rfl,
      if_neg (show ¬ opening = space by decide), if_true, hread, Option.bind_eq_bind, Option.bind_some]

/-- A line that begins with a name, a brace or a space is no comment. -/
theorem not_comment (hname : ∀ byte ∈ name, isNameByte byte = true) {byte : UInt8} (hbyte : byte ≠ 0x23)
    (rest mark : List UInt8) :
    (0x23 :: mark).isPrefixOf (name ++ byte :: rest) = false := by
  cases name with
  | nil =>
    rw [List.nil_append, List.isPrefixOf, Bool.and_eq_false_iff]
    exact .inl (beq_eq_false_iff_ne.mpr hbyte.symm)
  | cons first name =>
    rw [List.cons_append, List.isPrefixOf, Bool.and_eq_false_iff]
    refine .inl (beq_eq_false_iff_ne.mpr ?_)
    rintro rfl
    exact absurd (hname _ List.mem_cons_self) (by decide)

theorem readLine_sampleLine (hname : ∀ byte ∈ name, isNameByte byte = true) {sample : Sample} (h : sample.WellFormed) :
    readLine (sampleLine name sample) = some (.sample name sample) := by
  obtain ⟨byte, rest, hbyte, hline⟩ : ∃ byte rest, byte ≠ 0x23 ∧ sampleLine name sample = name ++ byte :: rest := by
    cases hlabels : sample.labels with
    | nil => exact ⟨space, sample.value, by decide, by simp [sampleLine, hlabels]⟩
    | cons label labels =>
      exact ⟨opening, labelsText (label :: labels) ++ space :: sample.value, by decide, by simp [sampleLine, hlabels]⟩
  have hread := readSample_sampleLine hname h
  rw [readLine, hline, helpMark, typeMark, not_comment hname hbyte, not_comment hname hbyte, ← hline]
  exact hread

theorem readLine_help (hname : ∀ byte ∈ name, isNameByte byte = true) (help : List UInt8) :
    readLine (helpMark ++ (name ++ space :: help)) = some (.help name help) := by
  rw [readLine, if_pos (List.isPrefixOf_iff_prefix.mpr (List.prefix_append _ _)), List.drop_left, readNamed_named hname]
  rfl

theorem readLine_type (hname : ∀ byte ∈ name, isNameByte byte = true) (kind : List UInt8) :
    readLine (typeMark ++ (name ++ space :: kind)) = some (.type name kind) := by
  have hother : helpMark.isPrefixOf (typeMark ++ (name ++ space :: kind)) = false := rfl
  rw [readLine, if_neg (by rw [hother]; exact Bool.false_ne_true),
    if_pos (List.isPrefixOf_iff_prefix.mpr (List.prefix_append _ _)), List.drop_left, readNamed_named hname]
  rfl

/-! ## Texts -/

def Family.parsedLines (family : Family) : List Line :=
  .help family.name family.help :: .type family.name family.type :: family.samples.map (.sample family.name)

theorem readLine_lines {family : Family} (h : family.WellFormed) : family.lines.mapM readLine = some family.parsedLines := by
  have hsamples : ∀ samples : List Sample, (∀ sample ∈ samples, sample.WellFormed) →
      (samples.map (sampleLine family.name)).mapM readLine = some (samples.map (.sample family.name)) := by
    intro samples hall
    induction samples with
    | nil => rfl
    | cons sample samples ih =>
      rw [List.map_cons, List.mapM_cons, readLine_sampleLine h.name (hall sample List.mem_cons_self),
        ih fun sample hmem => hall sample (List.mem_cons_of_mem _ hmem)]
      rfl
  rw [Family.lines, List.mapM_cons, readLine_help h.name, List.mapM_cons, readLine_type h.name, hsamples _ h.samples]
  rfl

theorem gather_samples (name : List UInt8) (samples : List Sample) (families : List Family) :
    (samples.map (Line.sample name)).foldrM gather { families } =
      some { samples := samples.map fun sample => (name, sample), families } := by
  induction samples with
  | nil => rfl
  | cons sample samples ih =>
    rw [List.map_cons, List.foldrM_cons, ih]
    rfl

theorem gather_family (family : Family) (families : List Family) :
    family.parsedLines.foldrM gather { families } = some { families := family :: families } := by
  rw [Family.parsedLines, List.foldrM_cons, List.foldrM_cons, gather_samples]
  simp only [Option.bind_eq_bind, Option.bind_some, gather, List.forall_mem_map, implies_true, and_self, if_true, List.map_map]
  congr
  exact List.map_id _

theorem gatherAll_families (families : List Family) :
    gatherAll (families.flatMap Family.parsedLines) = some { families } := by
  induction families with
  | nil => rfl
  | cons family families ih =>
    rw [gatherAll] at ih ⊢
    rw [List.flatMap_cons, List.foldrM_append, ih]
    exact gather_family family families

theorem newline_not_mem_labelsText {labels : List (List UInt8 × List UInt8)}
    (hnames : ∀ label ∈ labels, ∀ byte ∈ label.1, isNameByte byte = true) : newline ∉ labelsText labels := by
  have hlabel : ∀ label ∈ labels, newline ∉ labelText label := by
    intro label hmem
    have hname := not_mem_name (hnames label hmem) newline rfl
    have hvalue := newline_not_mem_escape label.2
    simp only [labelText, List.mem_append, List.mem_cons, List.not_mem_nil, or_false, not_or]
    exact ⟨hname, by decide, by decide, hvalue, by decide⟩
  induction labels with
  | nil => decide
  | cons label labels ih =>
    have hfirst := hlabel label List.mem_cons_self
    have hrest := ih (fun label hmem => hnames label (List.mem_cons_of_mem _ hmem))
      (fun label hmem => hlabel label (List.mem_cons_of_mem _ hmem))
    cases labels with
    | nil =>
      simp only [labelsText, List.mem_append, List.mem_singleton, not_or]
      exact ⟨hfirst, by decide⟩
    | cons next labels =>
      simp only [labelsText, List.mem_append, List.mem_cons, not_or] at hrest ⊢
      exact ⟨hfirst, by decide, hrest⟩

theorem newline_not_mem_lines {family : Family} (h : family.WellFormed) : ∀ line ∈ family.lines, newline ∉ line := by
  have hname := not_mem_name h.name newline rfl
  intro line hmem
  rcases List.mem_cons.mp hmem with rfl | hmem
  · simp only [List.mem_append, List.mem_cons, not_or]
    exact ⟨by decide, hname, by decide, h.help⟩
  · rcases List.mem_cons.mp hmem with rfl | hmem
    · simp only [List.mem_append, List.mem_cons, not_or]
      exact ⟨by decide, hname, by decide, h.type⟩
    · obtain ⟨sample, hsample, rfl⟩ := List.mem_map.mp hmem
      have hsample := h.samples sample hsample
      simp only [sampleLine, List.mem_append, List.mem_cons, not_or]
      refine ⟨⟨hname, ?_⟩, by decide, hsample.value⟩
      split
      · exact List.not_mem_nil
      · simp only [List.mem_cons, not_or]
        exact ⟨by decide, newline_not_mem_labelsText hsample.labels⟩

theorem splitOn_ended {lines : List (List UInt8)} (h : ∀ line ∈ lines, newline ∉ line) :
    (ended lines).splitOn newline = lines ++ [[]] := by
  induction lines with
  | nil => rfl
  | cons line lines ih =>
    rw [ended, List.flatMap_cons, List.append_assoc, List.singleton_append,
      List.splitOn_append_cons_self_of_not_mem (h line List.mem_cons_self)]
    exact congrArg (line :: ·) (ih fun line hmem => h line (List.mem_cons_of_mem _ hmem))

theorem parse_write {families : List Family} (h : ∀ family ∈ families, family.WellFormed) :
    parse (write families) = some families := by
  have hwrite : write families = ended (families.flatMap Family.lines) := by
    rw [write, ended, List.flatMap_assoc]
    rfl
  have hlines : ∀ line ∈ families.flatMap Family.lines, newline ∉ line := by
    intro line hmem
    obtain ⟨family, hfamily, hline⟩ := List.mem_flatMap.mp hmem
    exact newline_not_mem_lines (h family hfamily) line hline
  have hread : (families.flatMap Family.lines).mapM readLine = some (families.flatMap Family.parsedLines) := by
    clear hwrite hlines
    induction families with
    | nil => rfl
    | cons family families ih =>
      rw [List.flatMap_cons, List.mapM_append, readLine_lines (h family List.mem_cons_self),
        ih fun family hmem => h family (List.mem_cons_of_mem _ hmem)]
      rfl
  rw [parse, hwrite, splitOn_ended hlines]
  simp only [List.getLast?_concat, ne_eq, not_true_eq_false, if_false, List.dropLast_concat, hread, Option.bind_eq_bind,
    Option.bind_some, gatherAll_families]
  rfl

end PuppetMaster.Lib.Exposition
