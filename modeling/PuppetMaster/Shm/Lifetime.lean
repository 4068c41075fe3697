/-
  PuppetMaster.Shm.Lifetime — who creates, retires and removes the segment of one
  reader-owned topic (shm_transport.cpp: `GetOrOpenTopic`, `TopicState`, `CreateReader`,
  `CreateWriter`, `ShmTransport::Close`; `Segment::Open`, `SharedRegion`).

  The object name resolves to at most one object (`name`). A thread `(p, t)` belongs to
  process `p`; a process stands for one open ShmTransport, whose mutex is held through
  GetOrOpenTopic and whose map has at most one entry for the topic (`registry`). An
  attachment is a participant entry of an object and, once `notifier` succeeded, the
  TopicState around it; `refs` counts the shared pointers to it, and the last one to go
  runs the destructor.

  One move is one of the steps that other processes can see: the lookup in the map,
  `shm_open` with and without O_EXCL, initialising the header, the check of the retired
  flag, the participant claim, AddReader, RemoveReader, the exchange of
  `retired_by_me_`, the retired flag, the unlink, the participant release, the liveness
  check. `good` says whether a step that may fail for reasons of its own (the header's
  initialisation, an opener's checks and timeouts, the notifier) succeeds. An object
  whose header was never published (`ready`) can be looked up but not attached to.

  `life` is the one reader there may be at a time: it begins with CreateReader and ends
  when that fails, when the reader's topic has been retired and unlinked, or with its
  process. `oneReader` is the assumption that no reader is created while there is one.

  A TopicState that only had writers unlinks the name when its segment is not retired
  and has no live participant. Unlink acts on the name, and both checks lie before it:
  whoever looks the name up or attaches in between loses it. `nobodyAttached` is the
  condition that keeps this out: when a writer-only Close unlinks, no live process is
  attached or attaching to the object the name then resolves to.
-/

import Mathlib.Logic.Function.Basic
import Mathlib.Data.Prod.Basic
import PuppetMaster.Lib.Run
import PuppetMaster.Shm.Participants

namespace PuppetMaster.Shm.Lifetime

open PuppetMaster.Lib
open PuppetMaster.Shm.Participants (kMaxParticipants Thread)

/-! ## The machine -/

inductive Endpoint where
  | reader
  | writer
  deriving DecidableEq, Repr

/-- A shared-memory object: its retired flag, whether its header was published, and the
    attachments in its participant table. -/
structure Object where
  retired : Bool
  ready : Bool
  participants : List Nat
  deriving DecidableEq, Repr

structure Attachment where
  process : Nat
  object : Nat
  refs : Nat
  readerEndpoints : Nat
  writerEndpoints : Nat
  readers : Nat
  hadReader : Bool
  closed : Bool
  retiredByMe : Bool
  deriving DecidableEq, Repr

/-- Where a thread is; each case names its next step. `held`: the thread still has a
    shared pointer to drop. -/
inductive Pc where
  | idle
  | excl
  | reopening (kind : Endpoint)
  | initializing (o : Nat)
  | checking (kind : Endpoint) (o : Nat)
  | claiming (kind : Endpoint) (o : Nat)
  | notifier (kind : Endpoint) (x : Nat)
  | adding (x : Nat)
  | removingReader (x : Nat)
  | exchange (x : Nat) (held : Bool)
  | retireFlag (x : Nat) (held : Bool)
  | unlink (x : Nat) (held : Bool)
  | dropping (x : Nat)
  | closing (x : Nat) (held : Bool)
  | releasing (x : Nat) (had held : Bool)
  | retiredCheck (x : Nat) (held : Bool)
  | liveCheck (x : Nat) (held : Bool)
  | removing (x : Nat) (held : Bool)
  deriving DecidableEq, Repr

/-- The reader there is: being created by a thread, or reading through an attachment. -/
inductive Life where
  | creating (τ : Thread)
  | reading (x : Nat)
  deriving DecidableEq, Repr

structure St where
  name : Option Nat
  objects : Nat → Object
  attachments : Nat → Option Attachment
  nextObject : Nat
  nextAttachment : Nat
  crashed : Nat → Bool
  isOpen : Nat → Bool
  mutex : Nat → Bool
  registry : Nat → Option Nat
  threads : Thread → Pc
  life : Option Life

inductive Act where
  | openTransport (p : Nat)
  | createReader (τ : Thread)
  | createWriter (τ : Thread)
  | closeReader (τ : Thread) (x : Nat)
  | closeWriter (τ : Thread) (x : Nat)
  | closeTransport (τ : Thread)
  | advance (τ : Thread) (good : Bool)
  | crash (p : Nat)
  deriving DecidableEq, Repr

def setThread (s : St) (τ : Thread) (pc : Pc) : St := { s with threads := Function.update s.threads τ pc }

def setObject (s : St) (o : Nat) (f : Object → Object) : St :=
  { s with objects := Function.update s.objects o (f (s.objects o)) }

def setAttachment (s : St) (x : Nat) (f : Attachment → Attachment) : St :=
  { s with attachments := Function.update s.attachments x ((s.attachments x).map f) }

/-- An attachment of a process that has not crashed. -/
def isLive (s : St) (x : Nat) : Bool :=
  match s.attachments x with
  | some t => !s.crashed t.process
  | none => false

/-- `ReclaimDeadParticipants`. -/
def reclaim (s : St) (o : Nat) : St :=
  setObject s o fun object => { object with participants := object.participants.filter (isLive s) }

def retired (s : St) (x : Nat) : Bool :=
  match s.attachments x with
  | some t => (s.objects t.object).retired
  | none => false

/-- Creating the endpoint failed: the transport's mutex is released. -/
def fail (s : St) (τ : Thread) (kind : Endpoint) : St :=
  { setThread s τ .idle with
    mutex := Function.update s.mutex τ.1 false
    life := match kind with
      | .reader => none
      | .writer => s.life }

def afterClose (x : Nat) (held : Bool) : Pc := if held then .dropping x else .idle

/-- The lookup in the transport's map: an attachment that is still referenced and whose
    topic is not gone is used again; else the entry is erased. -/
def lookup (s : St) (p : Nat) : Option Nat :=
  (s.registry p).bind fun x => (s.attachments x).bind fun t =>
    if 0 < t.refs ∧ (s.objects t.object).retired = false then some x else none

def addRef (s : St) (x : Nat) : St := setAttachment s x fun t => { t with refs := t.refs + 1 }

def createEndpoint (s : St) (τ : Thread) (kind : Endpoint) : Option St :=
  if s.threads τ = .idle ∧ s.isOpen τ.1 = true ∧ s.mutex τ.1 = false then
    match lookup s τ.1, kind with
    | some x, .reader => some { setThread (addRef s x) τ (.adding x) with life := some (.creating τ) }
    | some x, .writer => some (setAttachment (addRef s x) x fun t => { t with writerEndpoints := t.writerEndpoints + 1 })
    | none, .reader =>
      some { setThread s τ .excl with
        registry := Function.update s.registry τ.1 none
        mutex := Function.update s.mutex τ.1 true
        life := some (.creating τ) }
    | none, .writer =>
      some { setThread s τ (.reopening .writer) with
        registry := Function.update s.registry τ.1 none
        mutex := Function.update s.mutex τ.1 true }
  else none

/-- Opening the segment and the attachment around it. -/
def openStep (s : St) (τ : Thread) (good : Bool) : Pc → Option St
  | .excl =>
    match s.name with
    | none =>
      some { setThread s τ (.initializing s.nextObject) with
        objects := Function.update s.objects s.nextObject ⟨false, false, []⟩
        name := some s.nextObject
        nextObject := s.nextObject + 1 }
    | some _ => some (setThread s τ (.reopening .reader))
  | .reopening kind =>
    match s.name with
    | none => some (fail s τ kind)
    | some o => some (setThread s τ (.checking kind o))
  | .initializing o =>
    if good then some (setThread (setObject s o fun object => { object with ready := true }) τ (.claiming .reader o))
    else some { fail s τ .reader with name := none }
  | .checking kind o =>
    if good then
      if (s.objects o).ready then
        if (s.objects o).retired then some (fail s τ kind) else some (setThread s τ (.claiming kind o))
      else none
    else some (fail s τ kind)
  | .claiming kind o =>
    let r := reclaim s o
    if (r.objects o).participants.length < kMaxParticipants then
      let x := s.nextAttachment
      some { setThread (setObject r o fun object => { object with participants := x :: object.participants }) τ
          (.notifier kind x) with
        attachments := Function.update s.attachments x (some ⟨τ.1, o, 0, 0, 0, 0, false, false, false⟩)
        nextAttachment := x + 1 }
    else some (fail r τ kind)
  | .notifier kind x =>
    (s.attachments x).bind fun t =>
      if good then
        let constructed := { setAttachment s x fun t => { t with refs := 1 } with
          registry := Function.update s.registry τ.1 (some x)
          mutex := Function.update s.mutex τ.1 false }
        match kind with
        | .reader => some (setThread constructed τ (.adding x))
        | .writer =>
          some (setThread (setAttachment constructed x fun t => { t with writerEndpoints := 1 }) τ .idle)
      else
        -- ReleaseParticipant; the attachment is never used
        some (fail (setAttachment (setObject s t.object fun object =>
          { object with participants := object.participants.erase x }) x fun t =>
          { t with closed := true, readers := 0 }) τ kind)
  | .adding x =>
    (s.attachments x).bind fun t =>
      if t.closed then some { setThread s τ (.dropping x) with life := none }
      else
        some { setThread (setAttachment s x fun t => { t with
            readers := t.readers + 1
            hadReader := true
            readerEndpoints := t.readerEndpoints + 1 }) τ .idle with
          life := some (.reading x) }
  | _ => none

/-- `RemoveReader`, `RetireOnce`, `TopicState::Close` and dropping a shared pointer. -/
def closeStep (s : St) (τ : Thread) : Pc → Option St
  | .removingReader x =>
    (s.attachments x).map fun t =>
      setThread (setAttachment s x fun t => { t with readers := t.readers - 1 }) τ
        (if t.readers - 1 = 0 then .exchange x true else .dropping x)
  | .exchange x held =>
    (s.attachments x).map fun t =>
      if t.retiredByMe then setThread s τ (afterClose x held)
      else setThread (setAttachment s x fun t => { t with retiredByMe := true }) τ (.retireFlag x held)
  | .retireFlag x held =>
    (s.attachments x).map fun t =>
      setThread (setObject s t.object fun object => { object with retired := true }) τ (.unlink x held)
  | .unlink x held =>
    some { setThread s τ (afterClose x held) with
      name := none
      life := if s.life = some (.reading x) then none else s.life }
  | .dropping x =>
    (s.attachments x).map fun t =>
      setThread (setAttachment s x fun t => { t with refs := t.refs - 1 }) τ
        (if t.refs - 1 = 0 then .closing x false else .idle)
  | .closing x held =>
    (s.attachments x).map fun t =>
      if t.closed then setThread s τ (afterClose x held)
      else setThread (setAttachment s x fun t => { t with closed := true, readers := 0 }) τ
        (.releasing x (decide (0 < t.readers) || t.hadReader) held)
  | .releasing x had held =>
    (s.attachments x).map fun t =>
      setThread (setObject s t.object fun object => { object with participants := object.participants.erase x }) τ
        (if had then .exchange x held else .retiredCheck x held)
  | .retiredCheck x held =>
    some (setThread s τ (if retired s x then afterClose x held else .liveCheck x held))
  | .liveCheck x held =>
    (s.attachments x).map fun t =>
      let r := reclaim s t.object
      setThread r τ (if (r.objects t.object).participants = [] then .removing x held else afterClose x held)
  | .removing x held => some { setThread s τ (afterClose x held) with name := none }
  | _ => none

/-- The process a reader lives in. -/
def Life.process (s : St) : Life → Option Nat
  | .creating τ => some τ.1
  | .reading x => (s.attachments x).map (·.process)

def step (s : St) : Act → Option St
  | .openTransport p => if s.crashed p then none else some { s with isOpen := Function.update s.isOpen p true }
  | .createReader τ => if s.crashed τ.1 then none else createEndpoint s τ .reader
  | .createWriter τ => if s.crashed τ.1 then none else createEndpoint s τ .writer
  | .closeReader τ x =>
    (s.attachments x).bind fun t =>
      if s.crashed τ.1 = false ∧ s.threads τ = .idle ∧ t.process = τ.1 ∧ 0 < t.readerEndpoints then
        some (setThread (setAttachment s x fun t => { t with readerEndpoints := t.readerEndpoints - 1 }) τ
          (.removingReader x))
      else none
  | .closeWriter τ x =>
    (s.attachments x).bind fun t =>
      if s.crashed τ.1 = false ∧ s.threads τ = .idle ∧ t.process = τ.1 ∧ 0 < t.writerEndpoints then
        some (setThread (setAttachment s x fun t => { t with writerEndpoints := t.writerEndpoints - 1 }) τ (.dropping x))
      else none
  | .closeTransport τ =>
    if s.crashed τ.1 = false ∧ s.threads τ = .idle ∧ s.mutex τ.1 = false then
      let closed := { s with
        isOpen := Function.update s.isOpen τ.1 false
        registry := Function.update s.registry τ.1 none }
      match (s.registry τ.1).bind fun x => (s.attachments x).bind fun t => if 0 < t.refs then some x else none with
      | some x => some (setThread (addRef closed x) τ (.closing x true))
      | none => some closed
    else none
  | .advance τ good =>
    if s.crashed τ.1 then none else (openStep s τ good (s.threads τ)).or (closeStep s τ (s.threads τ))
  | .crash p =>
    some { s with
      crashed := Function.update s.crashed p true
      life := s.life.bind fun l => if l.process s = some p then none else some l }

def init : St where
  name := none
  objects _ := ⟨false, false, []⟩
  attachments _ := none
  nextObject := 0
  nextAttachment := 0
  crashed _ := false
  isOpen _ := false
  mutex _ := false
  registry _ := none
  threads _ := .idle
  life := none

/-! ## Assumption and condition -/

/-- A reader is created only when there is none. -/
def oneReader (s : St) : Act → Prop
  | .createReader _ => s.life = none
  | _ => True

/-- The object a thread has looked up and is attaching to. -/
def attaching : Pc → Option Nat
  | .initializing o | .checking _ o | .claiming _ o => some o
  | _ => none

/-- A live process is attached or attaching to object `o`. -/
def Attached (s : St) (o : Nat) : Prop :=
  (∃ x ∈ (s.objects o).participants, isLive s x = true) ∨
  ∃ τ : Thread, s.crashed τ.1 = false ∧ attaching (s.threads τ) = some o

/-- A writer-only Close unlinks only a name that nobody is attached or attaching to. -/
def nobodyAttached (s : St) : Act → Prop
  | .advance τ _ => ∀ x held, s.threads τ = .removing x held → ∀ o, s.name = some o → ¬ Attached s o
  | _ => True

end PuppetMaster.Shm.Lifetime
