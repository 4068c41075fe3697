/-
  PuppetMaster.Shm.Open — any number of `Segment::Open` calls on one object name, one
  system call, header store or header load at a time.

  `SharedRegion::CreateOrOpen`: an exclusive create makes a new, empty, zero-filled
  object; its creator sizes it, maps it and stores the header fields one by one, the magic
  last. Everybody else opens the object that has the name, waits until it has a size,
  maps it, waits for the magic and compares the fields with its own request, one load at
  a time. A wait may time out, a system call or the initialisation of the lock may fail,
  and a process may die anywhere. Names can be unlinked and segments retired at any time.

  A call's `Request` is checked first; what the rest works on is an `Accepted` request,
  whose strings fit their fields. A header string is its field of `kNameCapacity` bytes:
  `storeName` copies the string and a NUL over the front, `nameEquals` compares up to the
  first NUL.

  History: an object's `owner` and `creator`, the call and the request that made it.
-/

import Mathlib.Algebra.Group.Nat.Defs
import Mathlib.Logic.Function.Basic
import PuppetMaster.Core.Message
import PuppetMaster.Core.Status
import PuppetMaster.Lib.Run
import PuppetMaster.Shm.Segment

namespace PuppetMaster.Shm.Open

open PuppetMaster.Core PuppetMaster.Lib

/-! ## Geometry -/

def kSlotAlignment : Nat := 64
def kSlotPayloadOffset : Nat := kSlotAlignment
def kNameCapacity : Nat := 256
def kLayoutVersion : Nat := 1
def kMagic : Nat := 0x3130304d48534d50
def kSegmentRetired : Nat := 1

/-- `std::numeric_limits<std::size_t>::max()`. -/
def sizeMax : Nat := 2 ^ 64 - 1

/-- Rounds up to a multiple of `kSlotAlignment`, or 0 on overflow. -/
def alignUp (value : Nat) : Nat :=
  if sizeMax - (kSlotAlignment - 1) < value then 0
  else (value + kSlotAlignment - 1) / kSlotAlignment * kSlotAlignment

def slotStride (slotPayloadSize : Nat) : Nat :=
  if sizeMax - kSlotPayloadOffset < slotPayloadSize then 0 else alignUp (kSlotPayloadOffset + slotPayloadSize)

/-- 40 bytes of words, three names, `write_seq`, `notify_word` and `flags` at 832, the lock
    at 848 and 64 participants at 912, rounded up to the alignment. -/
def sizeofSegmentHeader : Nat := 1984

def headerSize : Nat := alignUp sizeofSegmentHeader

def segmentSize (geometry : SegmentGeometry) : Nat :=
  let stride := slotStride geometry.slotPayloadSize
  if stride = 0 ∨ geometry.slotCount = 0 then 0
  else if (sizeMax - headerSize) / stride < geometry.slotCount then 0
  else headerSize + geometry.slotCount * stride

/-! ## Names -/

/-- `Fnv1a64`. -/
def fnv1a64 (topic : Bytes) : UInt64 :=
  topic.foldl (fun hash byte => (hash ^^^ byte.toUInt64) * 0x100000001b3) 0xcbf29ce484222325

def hexDigit (n : Nat) : UInt8 := if n < 10 then UInt8.ofNat (48 + n) else UInt8.ofNat (87 + n)

/-- `%016llx`. -/
def hex16 (n : UInt64) : Bytes := (List.range 16).map fun i => hexDigit (n.toNat / 16 ^ (15 - i) % 16)

def objectName (domain : UInt32) (topic : Bytes) : Bytes :=
  text s!"/pm.{domain.toNat}." ++ hex16 (fnv1a64 topic)

/-- A header string: `char field[kNameCapacity]`. -/
structure NameField where
  bytes : Bytes
  size : bytes.length = kNameCapacity
  deriving DecidableEq

def NameField.zero : NameField := ⟨List.replicate kNameCapacity 0, by simp⟩

def fitsName (value : Bytes) : Bool := decide (value.length < kNameCapacity)

/-- Copies the string and its terminator; the bytes after it stay. -/
def storeName (field : NameField) (value : Bytes) (fits : value.length < kNameCapacity) : NameField where
  bytes := value ++ 0 :: field.bytes.drop (value.length + 1)
  size := by
    have := field.size
    simp only [List.length_append, List.length_cons, List.length_drop]
    omega

/-- Compares up to the first NUL, which must be there. -/
def nameEquals (field : NameField) (value : Bytes) : Bool :=
  match field.bytes.findIdx? (· == 0) with
  | none => false
  | some length => decide (length = value.length) && decide (field.bytes.take length = value)

/-- The string a field holds, for error messages. -/
def loadName (field : NameField) : Bytes := field.bytes.take ((field.bytes.findIdx? (· == 0)).getD kNameCapacity)

/-! ## Requests -/

structure Identity where
  topic : Bytes
  descriptor : MessageDescriptor
  deriving DecidableEq

structure Request where
  domain : UInt32
  identity : Identity
  geometry : SegmentGeometry
  create : Bool
  deriving DecidableEq

def Identity.fits (identity : Identity) : Bool :=
  fitsName identity.topic && fitsName identity.descriptor.typeName && fitsName identity.descriptor.encoding

/-- A request that got past the checks at the top of `Open`. -/
structure Accepted extends Request where
  fits : identity.fits = true
  sized : segmentSize geometry ≠ 0
  counted : geometry.slotCount < 2 ^ 32
  deriving DecidableEq

def accept (request : Request) : Except Status Accepted :=
  if fits : request.identity.fits = true then
    if sized : segmentSize request.geometry ≠ 0 ∧ request.geometry.slotCount < 2 ^ 32 then
      .ok ⟨request, fits, sized.1, sized.2⟩
    else .error (.error .invalidArgument (text "shm segment geometry is too large"))
  else .error (.error .invalidArgument
    (text "shm topic, type name, and encoding must each be shorter than 256 bytes"))

theorem Accepted.topic_fits (q : Accepted) : q.identity.topic.length < kNameCapacity := by
  have := q.fits
  simp only [Identity.fits, Bool.and_eq_true, fitsName, decide_eq_true_eq] at this
  exact this.1.1

theorem Accepted.typeName_fits (q : Accepted) : q.identity.descriptor.typeName.length < kNameCapacity := by
  have := q.fits
  simp only [Identity.fits, Bool.and_eq_true, fitsName, decide_eq_true_eq] at this
  exact this.1.2

theorem Accepted.encoding_fits (q : Accepted) : q.identity.descriptor.encoding.length < kNameCapacity := by
  have := q.fits
  simp only [Identity.fits, Bool.and_eq_true, fitsName, decide_eq_true_eq] at this
  exact this.2

/-! ## The header -/

structure Header where
  magic : Nat
  layoutVersion : Nat
  headerSize : Nat
  slotPayloadSize : Nat
  slotStride : Nat
  slotCount : Nat
  messageVersion : UInt32
  topicName : NameField
  typeName : NameField
  encoding : NameField
  writeSeq : Nat
  flags : Nat
  lockReady : Bool
  deriving DecidableEq

/-- A region is zero-filled. -/
def Header.zero : Header := ⟨0, 0, 0, 0, 0, 0, 0, .zero, .zero, .zero, 0, 0, false⟩

/-- The stores of the creator. -/
inductive Field where
  | layoutVersion
  | headerSize
  | slotPayloadSize
  | slotStride
  | slotCount
  | topicName
  | typeName
  | encoding
  | messageVersion
  | lockStorage
  | writeSeq
  | flags
  | magic
  deriving DecidableEq, Repr

/-- Publishing the magic last makes the header visible to openers. -/
def headerStores : List Field :=
  [.layoutVersion, .headerSize, .slotPayloadSize, .slotStride, .slotCount, .topicName, .typeName, .encoding,
    .messageVersion, .lockStorage, .writeSeq, .flags, .magic]

def storeField (q : Accepted) (h : Header) : Field → Header
  | .layoutVersion => { h with layoutVersion := kLayoutVersion }
  | .headerSize => { h with headerSize := headerSize }
  | .slotPayloadSize => { h with slotPayloadSize := q.geometry.slotPayloadSize }
  | .slotStride => { h with slotStride := slotStride q.geometry.slotPayloadSize }
  | .slotCount => { h with slotCount := q.geometry.slotCount }
  | .topicName => { h with topicName := storeName h.topicName q.identity.topic q.topic_fits }
  | .typeName => { h with typeName := storeName h.typeName q.identity.descriptor.typeName q.typeName_fits }
  | .encoding => { h with encoding := storeName h.encoding q.identity.descriptor.encoding q.encoding_fits }
  | .messageVersion => { h with messageVersion := q.identity.descriptor.version }
  | .lockStorage => { h with lockReady := true }
  | .writeSeq => { h with writeSeq := 0 }
  | .flags => { h with flags := 0 }
  | .magic => { h with magic := kMagic }

/-- The comparisons of an opener, in their order. -/
inductive Check where
  | layoutVersion
  | headerSize
  | topicName
  | slotPayloadSize
  | slotCount
  | slotStride
  | typeName
  | encoding
  | messageVersion
  | regionSize
  | retired
  deriving DecidableEq, Repr

def openerChecks : List Check :=
  [.layoutVersion, .headerSize, .topicName, .slotPayloadSize, .slotCount, .slotStride, .typeName, .encoding,
    .messageVersion, .regionSize, .retired]

/-- `size` is what the opener mapped. -/
def passes (q : Accepted) (size : Nat) (h : Header) : Check → Bool
  | .layoutVersion => decide (h.layoutVersion = kLayoutVersion)
  | .headerSize => decide (h.headerSize = Open.headerSize)
  | .topicName => nameEquals h.topicName q.identity.topic
  | .slotPayloadSize => decide (h.slotPayloadSize = q.geometry.slotPayloadSize)
  | .slotCount => decide (h.slotCount = q.geometry.slotCount)
  | .slotStride => decide (h.slotStride = slotStride q.geometry.slotPayloadSize)
  | .typeName => nameEquals h.typeName q.identity.descriptor.typeName
  | .encoding => nameEquals h.encoding q.identity.descriptor.encoding
  | .messageVersion => decide (h.messageVersion = q.identity.descriptor.version)
  | .regionSize => decide (segmentSize q.geometry ≤ size)
  | .retired => decide (h.flags % 2 ≠ kSegmentRetired)

def removeHint (name : Bytes) : Bytes :=
  text " (segment " ++ name ++ text "; remove it with shm::RemoveSegment if it is stale)"

def storedDescriptor (h : Header) : MessageDescriptor := ⟨loadName h.typeName, loadName h.encoding, h.messageVersion⟩

/-- What a failed comparison returns. -/
def refusal (name : Bytes) (q : Accepted) (h : Header) : Check → Status
  | .layoutVersion | .headerSize =>
    .error .failedPrecondition (text "shm segment has an incompatible layout version" ++ removeHint name)
  | .topicName => .error .failedPrecondition (text "shm segment name collides with another topic" ++ removeHint name)
  | .slotPayloadSize | .slotCount | .slotStride =>
    .error .failedPrecondition (text "shm topic " ++ q.identity.topic
      ++ text s!" exists with slot size {h.slotPayloadSize} x {h.slotCount} slots; this process requested "
      ++ text s!"{q.geometry.slotPayloadSize} x {q.geometry.slotCount}" ++ removeHint name)
  | .typeName | .encoding | .messageVersion =>
    .error .invalidArgument (text "shm topic " ++ q.identity.topic ++ text " carries "
      ++ (storedDescriptor h).toText ++ text ", not " ++ q.identity.descriptor.toText ++ removeHint name)
  | .regionSize =>
    .error .failedPrecondition (text "shm segment is smaller than its declared geometry" ++ removeHint name)
  | .retired => .error .notFound (text "shm topic " ++ q.identity.topic ++ text " was closed by its reader")

/-! ## The machine -/

/-- Where a call is; each case names the system call or access it makes next. `created` is
    the region's: whether this call made it. -/
inductive Pc where
  | idle
  | creating (q : Accepted)
  | sizing (q : Accepted) (x : Nat)
  | mapping (q : Accepted) (x : Nat)
  | storing (q : Accepted) (x : Nat) (rest : List Field)
  | opening (q : Accepted)
  | statting (q : Accepted) (x : Nat)
  | attaching (q : Accepted) (x size : Nat)
  | polling (q : Accepted) (x size : Nat)
  | checking (q : Accepted) (x size : Nat) (rest : List Check)
  | locking (q : Accepted) (x : Nat) (created : Bool)
  | succeeded (q : Accepted) (x : Nat) (created : Bool)
  | failed (status : Status)
  | dead
  deriving DecidableEq

structure Object where
  owner : Nat
  creator : Accepted
  size : Nat
  header : Header
  deriving DecidableEq

/-- `name` is the object that has the name now; objects live on without it. -/
structure St where
  name : Option Nat
  objects : Nat → Option Object
  next : Nat
  calls : Nat → Pc

/-- `errno` is the text of a failed system call, `none` if it succeeds. -/
inductive Act where
  | call (k : Nat) (request : Request)
  | create (k : Nat) (errno : Option Bytes)
  | size (k : Nat) (errno : Option Bytes)
  | open_ (k : Nat) (errno : Option Bytes)
  | stat (k : Nat) (errno : Option Bytes)
  | map (k : Nat) (errno : Option Bytes)
  | timeout (k : Nat)
  | store (k : Nat) (failure : Option Bytes)
  | poll (k : Nat)
  | check (k : Nat)
  | lock (k : Nat) (failure : Option Status)
  | die (k : Nat)
  | unlink
  | retire (x : Nat)
  deriving DecidableEq

def setCall (s : St) (k : Nat) (pc : Pc) : St := { s with calls := Function.update s.calls k pc }

def setObject (s : St) (x : Nat) (o : Object) : St := { s with objects := Function.update s.objects x (some o) }

def errnoMessage (what : String) (errno : Bytes) : Bytes := text what ++ text ": " ++ errno

def unavailable (what : String) (errno : Bytes) : Status := .error .unavailable (errnoMessage what errno)

/-- A new object for the name. -/
def createObject (s : St) (k : Nat) (q : Accepted) : St :=
  { setCall s k (.sizing q s.next) with
    name := some s.next
    objects := Function.update s.objects s.next (some ⟨k, q, 0, .zero⟩)
    next := s.next + 1 }

variable (name : Bytes)

/-- The creator's next store; the lock storage may fail to initialise, which removes the name. -/
def storeNext (s : St) (k : Nat) (q : Accepted) (x : Nat) (field : Field) (rest : List Field) (failure : Option Bytes) :
    Option St :=
  (s.objects x).map fun o =>
    match field, failure with
    | .lockStorage, some message => { setCall s k (.failed (.error .internal message)) with name := none }
    | field, _ =>
      setCall (setObject s x { o with header := storeField q o.header field }) k
        (if rest.isEmpty then .locking q x true else .storing q x rest)

def checkNext (s : St) (k : Nat) (q : Accepted) (x size : Nat) (check : Check) (rest : List Check) : Option St :=
  (s.objects x).map fun o =>
    if passes q size o.header check then
      setCall s k (if rest.isEmpty then .locking q x false else .checking q x size rest)
    else setCall s k (.failed (refusal name q o.header check))

def step (s : St) : Act → Option St
  | .call k request =>
    match s.calls k with
    | .idle =>
      if objectName request.domain request.identity.topic = name then
        match accept request with
        | .error status => some (setCall s k (.failed status))
        | .ok q => some (setCall s k (if q.create then .creating q else .opening q))
      else none
    | _ => none
  | .create k errno =>
    match s.calls k with
    | .creating q =>
      -- EEXIST is not among the errors given: it is what an existing name answers.
      match errno, s.name with
      | some errno, _ => some (setCall s k (.failed (unavailable "shm_open" errno)))
      | none, some _ => some (setCall s k (.opening q))
      | none, none => some (createObject s k q)
    | _ => none
  | .size k errno =>
    match s.calls k with
    | .sizing q x =>
      match errno with
      | some errno =>
        some { setCall s k (.failed (.error .resourceExhausted (errnoMessage "ftruncate" errno))) with name := none }
      | none => (s.objects x).map fun o =>
        setCall (setObject s x { o with size := segmentSize q.geometry }) k (.mapping q x)
    | _ => none
  | .open_ k errno =>
    match s.calls k with
    | .opening q =>
      match s.name, errno with
      | none, errno =>
        if q.create then some (setCall s k (.failed (unavailable "shm_open" (errno.getD []))))
        else some (setCall s k (.failed
          (.error .notFound (text "shm topic " ++ q.identity.topic ++ text " does not exist"))))
      | some _, some errno => some (setCall s k (.failed (unavailable "shm_open" errno)))
      | some x, none => some (setCall s k (.statting q x))
    | _ => none
  | .stat k errno =>
    match s.calls k with
    | .statting q x =>
      match errno with
      | some errno => some (setCall s k (.failed (unavailable "fstat" errno)))
      | none => (s.objects x).bind fun o => if 0 < o.size then some (setCall s k (.attaching q x o.size)) else none
    | _ => none
  | .map k errno =>
    match s.calls k, errno with
    | .mapping q x, none => some (setCall s k (.storing q x headerStores))
    | .attaching q x size, none =>
      if size < headerSize then
        some (setCall s k (.failed
          (.error .failedPrecondition (text "shm segment is smaller than its header" ++ removeHint name))))
      else some (setCall s k (.polling q x size))
    | .mapping _ _, some errno => some (setCall s k (.failed (unavailable "mmap" errno)))
    | .attaching _ _ _, some errno => some (setCall s k (.failed (unavailable "mmap" errno)))
    | _, _ => none
  | .timeout k =>
    match s.calls k with
    | .statting _ _ =>
      some (setCall s k (.failed (.error .deadlineExceeded (text "shared region was never sized: " ++ name))))
    | .polling _ _ _ =>
      some (setCall s k (.failed
        (.error .failedPrecondition (text "shm segment was never initialized" ++ removeHint name))))
    | _ => none
  | .store k failure =>
    match s.calls k with
    | .storing q x (field :: rest) => storeNext s k q x field rest failure
    | _ => none
  | .poll k =>
    match s.calls k with
    | .polling q x size =>
      (s.objects x).map fun o =>
        if o.header.magic = kMagic then setCall s k (.checking q x size openerChecks) else s
    | _ => none
  | .check k =>
    match s.calls k with
    | .checking q x size (check :: rest) => checkNext name s k q x size check rest
    | _ => none
  | .lock k failure =>
    match s.calls k with
    | .locking q x created =>
      match failure with
      | some status => some (setCall s k (.failed status))
      | none => some (setCall s k (.succeeded q x created))
    | _ => none
  | .die k => some (setCall s k .dead)
  | .unlink => some { s with name := none }
  | .retire x => (s.objects x).map fun o =>
    setObject s x { o with header := { o.header with flags := o.header.flags ||| kSegmentRetired } }

def init : St := ⟨none, fun _ => none, 0, fun _ => .idle⟩

end PuppetMaster.Shm.Open
