/-
  PuppetMaster.Shm.Listing — the segments of a host (`SharedRegion::List`, `DomainOf`,
  `ListSegments`, `RemoveUnusedSegments`).

  `List` takes every file whose name has digits where the domain is; `DomainOf` reads them
  with `std::stoul` into a 32-bit number. `none` is the exception of `std::stoul`, which
  nothing catches. The memory of the segments is the world's: what `InspectSegment` finds,
  which processes live, what `shm_unlink` answers.

  - `accepts_iff`, `domainOf_name`: a listed name, and the domain that is read from it.
  - `consistent_iff`: listing agrees with naming exactly when the digits of every listed name
    are those of a 32-bit number, without a leading zero.
  - `a_listed_name_has_no_domain`: other digits abort `ListSegments`.
-/

import Mathlib.Data.List.Sort
import Mathlib.Data.List.TakeWhile
import PuppetMaster.Core.Decimal
import PuppetMaster.Lib.Hex
import PuppetMaster.Shm.Open
import PuppetMaster.Shm.Participants

namespace PuppetMaster.Shm.Listing

open PuppetMaster.Core PuppetMaster.Shm.Participants
open PuppetMaster.Shm.Open (fnv1a64 hex16 objectName)
open PuppetMaster.Lib (of_byte_numbers)

/-! ## SharedRegion::List -/

def dot : UInt8 := 0x2e

def slash : UInt8 := 0x2f

/-- The text between "pm." and the next dot, and the text behind it. -/
def parts (file : Bytes) : Option (Bytes × Bytes) :=
  if (text "pm.").isPrefixOf file then
    let rest := file.drop 3
    match rest.findIdx? (· == dot) with
    | none | some 0 => none
    | some i => some (rest.take i, rest.drop (i + 1))
  else none

def accepts (domain : Option UInt32) (file : Bytes) : Bool :=
  match parts file with
  | none => false
  | some (domainText, hash) =>
    domainText.all isDigit && (decide (hash.length = 16) && hash.all Lib.isHexDigit)
      && domain.all fun d => decide (domainText = toText d.toNat)

/-- The names of the files, sorted. -/
def names (domain : Option UInt32) (files : List Bytes) : List Bytes :=
  ((files.filter (accepts domain)).map (slash :: ·)).insertionSort (· ≤ ·)

/-! ## DomainOf -/

/-- `std::stoul` with base 10 and a 64-bit `unsigned long`; `none` when it throws. -/
def stoul (value : Bytes) : Option Nat :=
  let value := value.dropWhile isSpace
  let negative := decide (value.head? = some 0x2d)
  let digits := (if negative || decide (value.head? = some 0x2b) then value.tail else value).takeWhile isDigit
  if digits = [] ∨ 2 ^ 64 ≤ decimal digits then none
  else some (if negative then (2 ^ 64 - decimal digits) % 2 ^ 64 else decimal digits)

def domainOf (objectName : Bytes) : Option UInt32 :=
  let start :=
    match objectName.findIdx? (· == dot) with
    | some i => i + 1
    | none => 0
  (stoul ((objectName.drop start).takeWhile (· != dot))).map UInt32.ofNat

/-! ## ListSegments and RemoveUnusedSegments -/

inductive InspectionState where
  | valid
  | uninitialized
  | incompatible
  deriving DecidableEq, Repr

structure SegmentInspection where
  state : InspectionState := .valid
  problem : Bytes := []
  size : Nat := 0
  topic : Bytes := []
  descriptor : MessageDescriptor := ⟨[], [], 0⟩
  geometry : SegmentGeometry := ⟨0, 0⟩
  writeSequence : Nat := 0
  participants : List Identity := []
  deriving DecidableEq

inductive SegmentState where
  | inUse
  | unused
  | uninitialized
  | incompatible
  deriving DecidableEq, Repr

structure SegmentInfo where
  objectName : Bytes
  domainId : UInt32
  state : SegmentState := .unused
  problem : Bytes := []
  sizeBytes : Nat := 0
  topic : Bytes := []
  descriptor : MessageDescriptor := ⟨[], [], 0⟩
  geometry : SegmentGeometry := ⟨0, 0⟩
  messagesWritten : Nat := 0
  livePids : List Nat := []
  deadParticipants : Nat := 0
  deriving DecidableEq

/-- `directory`: what is in /dev/shm. -/
structure World where
  directory : Result (List Bytes)
  inspect : Bytes → Result SegmentInspection
  alive : Identity → Bool
  remove : Bytes → Status

def describe (world : World) (objectName : Bytes) (inspection : SegmentInspection) : Option SegmentInfo :=
  (domainOf objectName).map fun domain =>
    let info : SegmentInfo :=
      { objectName := objectName, domainId := domain, sizeBytes := inspection.size, problem := inspection.problem }
    match inspection.state with
    | .uninitialized => { info with state := .uninitialized }
    | .incompatible => { info with state := .incompatible }
    | .valid =>
      let live := inspection.participants.filter world.alive
      { info with
        topic := inspection.topic
        descriptor := inspection.descriptor
        geometry := inspection.geometry
        messagesWritten := inspection.writeSequence
        livePids := live.map (·.pid)
        deadParticipants := inspection.participants.length - live.length
        state := if live.isEmpty then .unused else .inUse }

def named (name : Bytes) (status : Status) : Status := .error status.code (name ++ text ": " ++ status.message)

def describeAll (world : World) : List Bytes → Option (Result (List SegmentInfo))
  | [] => some (.ok [])
  | name :: rest =>
    match world.inspect name with
    | .error status =>
      if status.code = .notFound then describeAll world rest else some (.error (named name status))
    | .ok inspection =>
      (describe world name inspection).bind fun info =>
        (describeAll world rest).map fun segments => segments.map (info :: ·)

def listSegments (world : World) (domain : Option UInt32) : Option (Result (List SegmentInfo)) :=
  match world.directory with
  | .error status => some (.error status)
  | .ok files => describeAll world (names domain files)

def removeAll (world : World) : List SegmentInfo → Result (List SegmentInfo)
  | [] => .ok []
  | segment :: rest =>
    if segment.state = .inUse then removeAll world rest
    else if !(world.remove segment.objectName).isOk then .error (named segment.objectName (world.remove segment.objectName))
    else (removeAll world rest).map (segment :: ·)

def removeUnusedSegments (world : World) (domain : Option UInt32) : Option (Result (List SegmentInfo)) :=
  (listSegments world domain).map fun segments => segments.bind (removeAll world)

/-! ## The name of a segment -/

/-- `ObjectName`, of any hash. -/
def nameOf (domain : UInt32) (hash : UInt64) : Bytes := text s!"/pm.{domain.toNat}." ++ hex16 hash

theorem objectName_eq (domain : UInt32) (topic : Bytes) : objectName domain topic = nameOf domain (fnv1a64 topic) := rfl

/-- What a name starts with, with and without the slash, and what stands before the hash. -/
theorem nameText : text "/pm." = slash :: text "pm." ∧ text "pm." = [112, 109, dot] ∧ (text "pm.").length = 3
    ∧ text "." = [dot] := by decide +kernel

theorem nameOf_eq (domain : UInt32) (hash : UInt64) :
    nameOf domain hash = slash :: (text "pm." ++ (toText domain.toNat ++ dot :: hex16 hash)) := by
  have hinterpolated : text s!"/pm.{domain.toNat}." = text "/pm." ++ (text (toString domain.toNat) ++ text ".") := by
    rw [← text_append, ← text_append, ← String.append_assoc]
    rfl
  obtain ⟨hfirst, -, -, hlast⟩ := nameText
  rw [nameOf, hinterpolated, text_toString, hfirst, hlast]
  simp

theorem hexDigits_eq (w n : Nat) :
    Lib.hexDigits w n = (List.range w).map fun i => Lib.hexDigit (n / 16 ^ (w - 1 - i) % 16) := by
  induction w generalizing n with
  | zero => rfl
  | succ w ih =>
    have hhigh : ((List.range w).map fun i => Lib.hexDigit (n / 16 ^ (w - i) % 16)) =
        (List.range w).map fun i => Lib.hexDigit (n / 16 / 16 ^ (w - 1 - i) % 16) := by
      refine List.map_congr_left fun i hi => ?_
      have hlt := List.mem_range.mp hi
      rw [Nat.div_div_eq_div_mul, ← Nat.pow_succ', show (w - 1 - i).succ = w - i by omega]
    rw [Lib.hexDigits, ih, List.range_succ, List.map_append, Nat.add_sub_cancel, hhigh, List.map_singleton, Nat.sub_self,
      Nat.pow_zero, Nat.div_one]

theorem hex16_eq (hash : UInt64) : hex16 hash = Lib.hexDigits 16 hash.toNat := (hexDigits_eq 16 hash.toNat).symm

theorem exists_hex16 {hash : Bytes} (hlength : hash.length = 16) (hhex : hash.all Lib.isHexDigit = true) :
    ∃ n, hex16 n = hash := by
  obtain ⟨n, hn, hdigits⟩ := Lib.exists_hexDigits hlength (List.all_eq_true.mp hhex)
  refine ⟨UInt64.ofNat n, ?_⟩
  rw [hex16_eq, UInt64.toNat_ofNat_of_lt' hn, hdigits]

/-! ## What List takes and DomainOf reads -/

variable {file digits hash : Bytes} {domain : Option UInt32}

theorem not_dot_of_digits (h : digits.all isDigit = true) : dot ∉ digits := fun hmem =>
  absurd (List.all_eq_true.mp h dot hmem) (by decide)

theorem findIdx?_dot (h : dot ∉ digits) : (digits ++ dot :: hash).findIdx? (· == dot) = some digits.length := by
  induction digits with
  | nil => rfl
  | cons digit digits ih =>
    obtain ⟨hne, hrest⟩ := List.ne_and_not_mem_of_not_mem_cons h
    rw [List.cons_append, List.findIdx?_cons, if_neg (by simpa using Ne.symm hne), ih hrest]
    rfl

theorem parts_eq (hne : digits ≠ []) (hdot : dot ∉ digits) :
    parts (text "pm." ++ (digits ++ dot :: hash)) = some (digits, hash) := by
  have hlength := nameText.2.2.1
  have hdrop : (text "pm." ++ (digits ++ dot :: hash)).drop 3 = digits ++ dot :: hash := by
    rw [← hlength, List.drop_left]
  unfold parts
  rw [if_pos (List.isPrefixOf_iff_prefix.mpr (List.prefix_append _ _))]
  dsimp only
  rw [hdrop, findIdx?_dot hdot]
  cases digits with
  | nil => exact absurd rfl hne
  | cons digit digits =>
    show some (((digit :: digits) ++ dot :: hash).take _, ((digit :: digits) ++ dot :: hash).drop _) = _
    rw [List.take_left, ← List.drop_drop, List.drop_left]
    rfl

theorem exists_of_parts (h : parts file = some (digits, hash)) : file = text "pm." ++ (digits ++ dot :: hash) ∧ digits ≠ [] := by
  have hlength := nameText.2.2.1
  unfold parts at h
  split at h
  · rename_i hprefix
    obtain ⟨rest, rfl⟩ := List.isPrefixOf_iff_prefix.mp hprefix
    dsimp only at h
    rw [← hlength, List.drop_left] at h
    split at h
    · cases h
    · cases h
    · rename_i i hzero hfound
      cases h
      obtain ⟨hi, hdot, -⟩ := List.findIdx?_eq_some_iff_getElem.mp hfound
      refine ⟨?_, ?_⟩
      · congr 1
        have hat : rest[i] = dot := by simpa using hdot
        rw [← hat, ← List.drop_eq_getElem_cons hi, List.take_append_drop]
      · intro hnil
        rcases List.take_eq_nil_iff.mp hnil with hi0 | hrest
        · exact hzero hi0
        · rw [hrest] at hi
          exact absurd hi (Nat.not_lt_zero i)
  · cases h

theorem accepts_iff :
    accepts domain file = true ↔ ∃ digits hash, file = text "pm." ++ (digits ++ dot :: hash) ∧ digits ≠ [] ∧
      digits.all isDigit = true ∧ hash.length = 16 ∧ hash.all Lib.isHexDigit = true ∧ ∀ d, domain = some d →
      digits = toText d.toNat := by
  constructor
  · intro h
    unfold accepts at h
    split at h
    · cases h
    · rename_i digits hash hparts
      simp only [Bool.and_eq_true, decide_eq_true_eq] at h
      obtain ⟨⟨hall, hlength, hhex⟩, hdomain⟩ := h
      obtain ⟨hfile, hne⟩ := exists_of_parts hparts
      refine ⟨digits, hash, hfile, hne, hall, hlength, hhex, fun d hd => ?_⟩
      rw [hd] at hdomain
      exact of_decide_eq_true hdomain
  · rintro ⟨digits, hash, rfl, hne, hall, hlength, hhex, hdomain⟩
    unfold accepts
    rw [parts_eq hne (not_dot_of_digits hall)]
    cases domain with
    | none => simp [hall, hlength, hhex]
    | some d => simp [hall, hlength, hhex, ← hdomain d rfl]

theorem plain_of_digit {byte : UInt8} (h : isDigit byte = true) : isSpace byte = false ∧ byte ≠ 0x2d ∧ byte ≠ 0x2b := by
  have hall : ∀ byte, isDigit byte = true → isSpace byte = false ∧ byte ≠ 0x2d ∧ byte ≠ 0x2b :=
    of_byte_numbers (by decide +kernel)
  exact hall byte h

theorem stoul_digits (hne : digits ≠ []) (hall : digits.all isDigit = true) :
    stoul digits = if 2 ^ 64 ≤ decimal digits then none else some (decimal digits) := by
  obtain ⟨first, rest, rfl⟩ := List.exists_cons_of_ne_nil hne
  obtain ⟨hspace, hminus, hplus⟩ := plain_of_digit ((Bool.and_eq_true _ _).mp hall).1
  have hdrop : (first :: rest).dropWhile isSpace = first :: rest := List.dropWhile_cons_of_neg (by simp [hspace])
  have htake : (first :: rest).takeWhile isDigit = first :: rest :=
    List.takeWhile_eq_self_iff.mpr (List.all_eq_true.mp hall)
  unfold stoul
  simp only [hdrop, List.head?_cons, Option.some.injEq, hminus, hplus, decide_false, Bool.or_self, Bool.false_eq_true,
    if_false, htake, hne, false_or]

theorem takeWhile_to_dot (h : dot ∉ digits) : (digits ++ dot :: hash).takeWhile (· != dot) = digits := by
  induction digits with
  | nil => rfl
  | cons digit digits ih =>
    obtain ⟨hne, hrest⟩ := List.ne_and_not_mem_of_not_mem_cons h
    rw [List.cons_append, List.takeWhile_cons_of_pos (by simpa using Ne.symm hne), ih hrest]

/-- What `DomainOf` reads from a listed name. -/
theorem domainOf_name (hne : digits ≠ []) (hall : digits.all isDigit = true) :
    domainOf (slash :: (text "pm." ++ (digits ++ dot :: hash))) =
      if 2 ^ 64 ≤ decimal digits then none else some (UInt32.ofNat (decimal digits)) := by
  have hfirst := nameText.2.1
  have hfind : (slash :: ([112, 109, dot] ++ (digits ++ dot :: hash))).findIdx? (· == dot) = some 3 := rfl
  unfold domainOf
  rw [hfirst, hfind]
  show ((stoul ((digits ++ dot :: hash).takeWhile (· != dot))).map UInt32.ofNat) = _
  rw [takeWhile_to_dot (not_dot_of_digits hall), stoul_digits hne hall]
  split <;> rfl

/-! ## Well-numbered names -/

/-- The digits are those of a 32-bit number, without a leading zero. -/
def wellNumbered (file : Bytes) : Bool :=
  match parts file with
  | none => true
  | some (digits, _) => canonical digits && decide (decimal digits < 2 ^ 32)

/-- The domain that is read from the name is the one the name is of. -/
def NamesItsDomain (file : Bytes) : Prop :=
  ∃ (d : UInt32) (hash : UInt64), domainOf (slash :: file) = some d ∧ slash :: file = nameOf d hash

theorem namesItsDomain_iff (h : accepts none file = true) : NamesItsDomain file ↔ wellNumbered file = true := by
  obtain ⟨digits, hash, rfl, hne, hall, hlength, hhex, -⟩ := accepts_iff.mp h
  unfold wellNumbered
  rw [parts_eq hne (not_dot_of_digits hall)]
  simp only [Bool.and_eq_true, decide_eq_true_eq]
  constructor
  · rintro ⟨d, n, hdomain, hname⟩
    rw [nameOf_eq, List.cons.injEq, List.append_cancel_left_eq] at hname
    have hdigits : digits = toText d.toNat := by
      have htext := congrArg (List.takeWhile (· != dot)) hname.2
      rwa [takeWhile_to_dot (not_dot_of_digits hall), takeWhile_to_dot (not_dot_of_digits (toText_spec _).2.1)] at htext
    rw [hdigits, decimal_toText]
    exact ⟨canonical_toText _, d.toNat_lt⟩
  · rintro ⟨hcanonical, hlt⟩
    obtain ⟨n, hn⟩ := exists_hex16 hlength hhex
    refine ⟨UInt32.ofNat (decimal digits), n, ?_, ?_⟩
    · rw [domainOf_name hne hall, if_neg (by omega)]
    · rw [nameOf_eq, UInt32.toNat_ofNat_of_lt' hlt, toText_decimal hcanonical, hn]

/-- `List(d)` takes the names whose domain reads as `d`. -/
theorem accepts_some (h : wellNumbered file = true) (d : UInt32) :
    accepts (some d) file = (accepts none file && decide (domainOf (slash :: file) = some d)) := by
  rw [Bool.eq_iff_iff, Bool.and_eq_true, decide_eq_true_eq, accepts_iff, accepts_iff]
  constructor
  · rintro ⟨digits, hash, rfl, hne, hall, hlength, hhex, hdomain⟩
    have hdigits := hdomain d rfl
    refine ⟨⟨digits, hash, rfl, hne, hall, hlength, hhex, fun d hd => by cases hd⟩, ?_⟩
    have hlt := d.toNat_lt
    rw [domainOf_name hne hall, hdigits, decimal_toText, if_neg (by omega), UInt32.ofNat_toNat]
  · rintro ⟨⟨digits, hash, rfl, hne, hall, hlength, hhex, -⟩, hdomain⟩
    unfold wellNumbered at h
    rw [parts_eq hne (not_dot_of_digits hall)] at h
    simp only [Bool.and_eq_true, decide_eq_true_eq] at h
    rw [domainOf_name hne hall, if_neg (by omega)] at hdomain
    refine ⟨digits, hash, rfl, hne, hall, hlength, hhex, fun d' hd' => ?_⟩
    cases hd'
    rw [← Option.some.inj hdomain, UInt32.toNat_ofNat_of_lt' h.2, toText_decimal h.1]

theorem sort_filter (p : Bytes → Bool) (l : List Bytes) :
    (l.filter p).insertionSort (· ≤ ·) = (l.insertionSort (· ≤ ·)).filter p := by
  refine List.Perm.eq_of_pairwise' (List.pairwise_insertionSort _ _) ((List.pairwise_insertionSort _ _).filter _) ?_
  exact (List.perm_insertionSort _ _).trans ((List.perm_insertionSort _ _).filter _).symm

theorem names_some {files : List Bytes} (h : ∀ file ∈ files, accepts none file = true → wellNumbered file = true) (d : UInt32) :
    names (some d) files = (names none files).filter fun name => decide (domainOf name = some d) := by
  have hfiltered : files.filter (accepts (some d)) =
      (files.filter (accepts none)).filter fun file => decide (domainOf (slash :: file) = some d) := by
    rw [List.filter_filter]
    refine List.filter_congr fun file hfile => ?_
    cases haccepts : accepts none file with
    | true => rw [accepts_some (h file hfile haccepts), haccepts, Bool.and_comm]
    | false =>
      rw [Bool.and_false]
      refine Bool.eq_false_iff.mpr fun hsome => ?_
      obtain ⟨digits, hash, hname, hne, hall, hlength, hhex, -⟩ := accepts_iff.mp hsome
      have hany : accepts none file = true :=
        accepts_iff.mpr ⟨digits, hash, hname, hne, hall, hlength, hhex, fun d hd => by cases hd⟩
      rw [haccepts] at hany
      cases hany
  unfold names
  rw [hfiltered, ← sort_filter, List.filter_map]
  rfl

/-! ## The calls over List -/

variable {world : World} {files : List Bytes}

theorem mem_names {name : Bytes} : name ∈ names domain files ↔ ∃ file ∈ files, accepts domain file = true
    ∧ slash :: file = name := by
  unfold names
  rw [List.mem_insertionSort, List.mem_map]
  simp only [List.mem_filter, and_assoc]

theorem describe_fields {name : Bytes} {inspection : SegmentInspection} {info : SegmentInfo}
    (h : describe world name inspection = some info) : info.objectName = name ∧ domainOf name = some info.domainId := by
  obtain ⟨d, hd, hinfo⟩ := Option.map_eq_some_iff.mp h
  subst hinfo
  cases inspection.state <;> exact ⟨rfl, hd⟩

theorem describeAll_mem {all : List Bytes} {segments : List SegmentInfo} (h : describeAll world all = some (.ok segments)) :
    ∀ segment ∈ segments, segment.objectName ∈ all ∧ domainOf segment.objectName = some segment.domainId := by
  induction all generalizing segments with
  | nil =>
    cases h
    intro segment hsegment
    cases hsegment
  | cons name rest ih =>
    unfold describeAll at h
    split at h
    · split at h
      · intro segment hsegment
        obtain ⟨hmem, hdomain⟩ := ih h segment hsegment
        exact ⟨List.mem_cons_of_mem _ hmem, hdomain⟩
      · cases h
    · obtain ⟨info, hinfo, h⟩ := Option.bind_eq_some_iff.mp h
      obtain ⟨result, hresult, h⟩ := Option.map_eq_some_iff.mp h
      cases result with
      | error status => cases h
      | ok more =>
        cases h
        intro segment hsegment
        rcases List.mem_cons.mp hsegment with rfl | hsegment
        · obtain ⟨hname, hdomain⟩ := describe_fields hinfo
          rw [hname]
          exact ⟨List.mem_cons_self, hdomain⟩
        · obtain ⟨hmem, hdomain⟩ := ih hresult segment hsegment
          exact ⟨List.mem_cons_of_mem _ hmem, hdomain⟩

theorem describeAll_ne_none {all : List Bytes} (h : ∀ name ∈ all, domainOf name ≠ none) : describeAll world all ≠ none := by
  induction all with
  | nil => exact Option.some_ne_none _
  | cons name rest ih =>
    have hrest := ih fun name hname => h name (List.mem_cons_of_mem _ hname)
    unfold describeAll
    split
    · split
      · exact hrest
      · exact Option.some_ne_none _
    · obtain ⟨d, hd⟩ := Option.ne_none_iff_exists'.mp (h name List.mem_cons_self)
      obtain ⟨result, hresult⟩ := Option.ne_none_iff_exists'.mp hrest
      simp [describe, hd, hresult]

theorem removeAll_mem {segments removed : List SegmentInfo} (h : removeAll world segments = .ok removed) :
    ∀ segment ∈ removed, segment ∈ segments := by
  induction segments generalizing removed with
  | nil =>
    cases h
    intro segment hsegment
    cases hsegment
  | cons first rest ih =>
    unfold removeAll at h
    split at h
    · intro segment hsegment
      exact List.mem_cons_of_mem _ (ih h segment hsegment)
    · split at h
      · cases h
      · cases hrest : removeAll world rest with
        | error status =>
          rw [hrest] at h
          cases h
        | ok more =>
          rw [hrest] at h
          cases h
          intro segment hsegment
          rcases List.mem_cons.mp hsegment with rfl | hsegment
          · exact List.mem_cons_self
          · exact List.mem_cons_of_mem _ (ih hrest segment hsegment)

/-- A listing of segments that says of each whose it is. -/
def Attributed (domain : Option UInt32) (listing : Option (Result (List SegmentInfo))) : Prop :=
  listing ≠ none ∧ ∀ segments, listing = some (.ok segments) → ∀ segment ∈ segments,
    (∃ hash, segment.objectName = nameOf segment.domainId hash) ∧ ∀ d, domain = some d → segment.domainId = d

/-- Listing agrees with naming. -/
structure Consistent (files : List Bytes) : Prop where
  named : ∀ file ∈ files, accepts none file = true → NamesItsDomain file
  byDomain : ∀ d, names (some d) files = (names none files).filter fun name => decide (domainOf name = some d)
  listed : ∀ world domain, world.directory = .ok files →
    Attributed domain (listSegments world domain) ∧ Attributed domain (removeUnusedSegments world domain)

theorem attributed_of_named (hnamed : ∀ name ∈ names domain files, ∃ (d : UInt32) (hash : UInt64),
      domainOf name = some d ∧ name = nameOf d hash ∧ ∀ wanted, domain = some wanted → d = wanted)
    (hfiles : world.directory = .ok files) :
    Attributed domain (listSegments world domain) ∧ Attributed domain (removeUnusedSegments world domain) := by
  have hlist : listSegments world domain = describeAll world (names domain files) := by rw [listSegments, hfiles]
  have hlisted : Attributed domain (listSegments world domain) := by
    rw [hlist]
    refine ⟨describeAll_ne_none fun name hname hnone => ?_, fun segments hsegments segment hsegment => ?_⟩
    · obtain ⟨d, -, hd, -⟩ := hnamed name hname
      rw [hnone] at hd
      cases hd
    · obtain ⟨hmem, hdomain⟩ := describeAll_mem hsegments segment hsegment
      obtain ⟨d, hash, hd, hname, hwanted⟩ := hnamed _ hmem
      cases hd.symm.trans hdomain
      exact ⟨⟨hash, hname⟩, hwanted⟩
  refine ⟨hlisted, fun hnone => hlisted.1 (Option.map_eq_none_iff.mp hnone), fun removed hremoved segment hsegment => ?_⟩
  obtain ⟨result, hresult, hremove⟩ := Option.map_eq_some_iff.mp hremoved
  cases result with
  | error status => cases hremove
  | ok segments => exact hlisted.2 segments hresult segment (removeAll_mem hremove segment hsegment)

theorem consistent_iff (files : List Bytes) :
    Consistent files ↔ ∀ file ∈ files, accepts none file = true → wellNumbered file = true := by
  refine ⟨fun h file hfile haccepts => (namesItsDomain_iff haccepts).mp (h.named file hfile haccepts), fun h => ?_⟩
  have hnamed (file : Bytes) (hfile : file ∈ files) (haccepts : accepts none file = true) : NamesItsDomain file :=
    (namesItsDomain_iff haccepts).mpr (h file hfile haccepts)
  refine ⟨hnamed, names_some h, fun world domain hfiles => attributed_of_named (fun name hname => ?_) hfiles⟩
  cases domain with
  | none =>
    obtain ⟨file, hfile, haccepts, rfl⟩ := mem_names.mp hname
    obtain ⟨d, hash, hd, heq⟩ := hnamed file hfile haccepts
    exact ⟨d, hash, hd, heq, fun wanted hwanted => by cases hwanted⟩
  | some wanted =>
    rw [names_some h wanted, List.mem_filter, decide_eq_true_eq] at hname
    obtain ⟨hmem, hdomain⟩ := hname
    obtain ⟨file, hfile, haccepts, rfl⟩ := mem_names.mp hmem
    obtain ⟨d, hash, hd, heq⟩ := hnamed file hfile haccepts
    cases hd.symm.trans hdomain
    exact ⟨wanted, hash, hd, heq, fun other hother => Option.some.inj hother⟩

/-- The names the transport gives are listed, each in its domain. -/
theorem objectName_listed (domain : UInt32) (topic : Bytes) :
    ∃ file, objectName domain topic = slash :: file ∧ accepts (some domain) file = true ∧ wellNumbered file = true := by
  obtain ⟨hne, hall, hvalue⟩ := toText_spec domain.toNat
  have hhex : (hex16 (fnv1a64 topic)).all Lib.isHexDigit = true := by
    rw [hex16_eq]
    exact List.all_eq_true.mpr Lib.isHexDigit_hexDigits
  have hlength : (hex16 (fnv1a64 topic)).length = 16 := by rw [hex16_eq, Lib.length_hexDigits]
  refine ⟨_, (objectName_eq domain topic).trans (nameOf_eq domain _), ?_, ?_⟩
  · exact accepts_iff.mpr ⟨_, _, rfl, hne, hall, hlength, hhex, fun d hd => by cases hd; rfl⟩
  · rw [wellNumbered, parts_eq hne (not_dot_of_digits hall)]
    simp only [canonical_toText, hvalue, domain.toNat_lt, decide_true, Bool.and_self]

/-! ## Other digits -/

/-- "pm.99999999999999999999." and sixteen zeros. -/
def twentyNines : Bytes := text "pm." ++ (List.replicate 20 0x39 ++ dot :: List.replicate 16 0x30)

theorem a_listed_name_has_no_domain : ¬ ∀ files, Consistent files := by
  intro h
  obtain ⟨d, hash, hd, hname⟩ := (h [twentyNines]).named twentyNines List.mem_cons_self (by decide +kernel)
  have hnone : domainOf (slash :: twentyNines) = none := by decide +kernel
  rw [hnone] at hd
  cases hd

end PuppetMaster.Shm.Listing
