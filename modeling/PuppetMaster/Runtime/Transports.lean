/-
  PuppetMaster.Runtime.Transports — the transports of a runtime context (transport/registry.h,
  runtime/context.cpp).

  A context finds a transport by its name and by its kind; the two maps are written together
  but apart. A transport is an object that others hold as well: they can open or close it, and
  what its `Open` and `Close` answer is up to it. The calls of a context come one after the
  other: `RegisterTransport` writes the maps without the lock.

  - `found_by_kind_iff`: in every run the two maps agree, and no two transports have one kind.
  - `endpoints_have_open_transports`: while nobody else closes a transport, an open context
    makes endpoints exactly on the transport of the topic's kind, and that one is open.
  - `open_opens_all`: an `Open` that succeeds leaves every transport open, a failed one leaves
    the context as it was, and neither loses a transport.
-/

import Mathlib.Data.List.Basic
import PuppetMaster.Core.Endpoint
import PuppetMaster.Core.Name
import PuppetMaster.Lib.Lists
import PuppetMaster.Lib.Run
import PuppetMaster.Lib.SortedMap

namespace PuppetMaster.Runtime

open PuppetMaster.Core PuppetMaster.Lib

structure RuntimeOptions where
  defaultTransportName : Bytes := text "inmemory"
  registerInmemoryTransport : Bool := true
  openRegisteredTransports : Bool := true

def RuntimeOptions.validate (options : RuntimeOptions) : Status :=
  validateName "default transport name" options.defaultTransportName

/-- A transport, for those who hold it. -/
structure Transport where
  name : Bytes
  kind : TransportKind
  isOpen : Bool := false
  deriving DecidableEq

/-- The transports of `RuntimeContext::Impl`; a transport is an index into those that exist. -/
structure ContextTransports where
  options : RuntimeOptions
  transports : SortedMap Bytes Nat := .empty
  transportByKind : TransportKind → Option Bytes := fun _ => none
  isOpen : Bool := false
  objects : List Transport := []

namespace ContextTransports

/-! ## The context -/

def noTransport : Status := .error .invalidArgument (text "transport must not be null")

/-- `TransportRegistry::Find`. -/
def findTransport (c : ContextTransports) (name : Bytes) : Result Nat :=
  match c.transports.find? name with
  | none => .error (.error .notFound (text "transport is not registered: " ++ name))
  | some transport => .ok transport

def findTransportOfKind (c : ContextTransports) (kind : TransportKind) : Result Nat :=
  match c.transportByKind kind with
  | none => .error (.error .notFound (text "transport kind is not registered: " ++ kind.toText))
  | some name => c.findTransport name

/-- Another state of an object; its name and kind stay. -/
def setOpen (c : ContextTransports) (transport : Nat) (isOpen : Bool) : ContextTransports :=
  { c with objects := c.objects.modify transport fun object => { object with isOpen } }

/-- A transport is made. -/
def make (c : ContextTransports) (object : Transport) : ContextTransports := { c with objects := c.objects ++ [object] }

/-- `answers` are what the transports' `Open` returns now; one that is Ok has opened it. -/
def openTransportIfNeeded (c : ContextTransports) (transport : Nat) (answers : Nat → Status) : Status × ContextTransports :=
  match c.objects[transport]? with
  | none => (noTransport, c)
  | some object =>
    if object.isOpen then (.ok, c)
    else (answers transport, if (answers transport).isOk then c.setOpen transport true else c)

/-- `TransportRegistry::Register`. -/
def register (c : ContextTransports) (transport : Nat) (object : Transport) : Status × ContextTransports :=
  if (c.transports.find? object.name).isSome then
    (.error .alreadyExists (text "transport already registered: " ++ object.name), c)
  else (.ok, { c with transports := c.transports.insert object.name transport })

/-- `emplace` keeps the name that a kind has. -/
def emplaceKind (c : ContextTransports) (kind : TransportKind) (name : Bytes) : ContextTransports :=
  { c with
    transportByKind := fun other =>
      if other = kind ∧ (c.transportByKind kind).isNone then some name else c.transportByKind other }

def registerTransport (c : ContextTransports) (transport : Nat) (answers : Nat → Status) : Status × ContextTransports :=
  match c.objects[transport]? with
  | none => (noTransport, c)
  | some object =>
    if (c.findTransport object.name).isOk then
      (.error .alreadyExists (text "transport already registered: " ++ object.name), c)
    else if (c.transportByKind object.kind).any fun existing => existing ≠ object.name then
      (.error .alreadyExists (text "transport kind already registered: " ++ object.kind.toText), c)
    else
      let opened := if c.isOpen || c.options.openRegisteredTransports then c.openTransportIfNeeded transport answers else (.ok, c)
      if !opened.1.isOk then opened
      else
        let registered := opened.2.register transport object
        if !registered.1.isOk then registered
        else (.ok, registered.2.emplaceKind object.kind object.name)

def defaultTransport (c : ContextTransports) : Transport := { name := c.options.defaultTransportName, kind := .inMemory }

def ensureDefaultTransports (c : ContextTransports) (answers : Nat → Status) : Status × ContextTransports :=
  if !c.options.registerInmemoryTransport then (.ok, c)
  else if (c.transportByKind .inMemory).isSome then (.ok, c)
  else
    (c.make c.defaultTransport).registerTransport c.objects.length answers

def openAll (answers : Nat → Status) : List Bytes → ContextTransports → Status × ContextTransports
  | [], c => (.ok, c)
  | name :: names, c =>
    match c.findTransport name with
    | .error status => (status, c)
    | .ok transport =>
      let opened := c.openTransportIfNeeded transport answers
      if !opened.1.isOk then opened else openAll answers names opened.2

def openContext (c : ContextTransports) (answers : Nat → Status) : Status × ContextTransports :=
  if !c.options.validate.isOk then (c.options.validate, c)
  else
    let ensured := c.ensureDefaultTransports answers
    if !ensured.1.isOk then ensured
    else
      let opened := openAll answers ensured.2.transports.keys ensured.2
      if !opened.1.isOk then opened else (.ok, { opened.2 with isOpen := true })

/-- Every transport is closed, whatever the others answer; the first failure is the result. -/
def closeAll (answers : Nat → Status) : List Bytes → Status → ContextTransports → Status × ContextTransports
  | [], result, c => (result, c)
  | name :: names, result, c =>
    match c.findTransport name with
    | .error _ => closeAll answers names result c
    | .ok transport =>
      closeAll answers names (if result.isOk && !(answers transport).isOk then answers transport else result)
        (if (answers transport).isOk then c.setOpen transport false else c)

def closeContext (c : ContextTransports) (answers : Nat → Status) : Status × ContextTransports :=
  let closed := closeAll answers c.transports.keys .ok c
  (closed.1, { closed.2 with isOpen := false })

/-- `CreateReader` and `CreateWriter`, up to the transport's own. -/
def createEndpoint {α : Type} (c : ContextTransports) (plural : String) (endpoint : EndpointConfig) (create : Nat → Result α) :
    Result α :=
  if !c.isOpen then .error (.error .failedPrecondition (text "runtime context must be open before creating " ++ text plural))
  else
    match c.findTransportOfKind endpoint.topic.transport with
    | .error status => .error status
    | .ok transport => create transport

def createReader {α : Type} (c : ContextTransports) : EndpointConfig → (Nat → Result α) → Result α := c.createEndpoint "readers"

def createWriter {α : Type} (c : ContextTransports) : EndpointConfig → (Nat → Result α) → Result α := c.createEndpoint "writers"

/-! ## Runs -/

/-- `makes` is a new transport; `sets` is another holder opening or closing one. -/
inductive Move where
  | makes (name : Bytes) (kind : TransportKind) (isOpen : Bool)
  | registers (transport : Nat) (answers : Nat → Status)
  | opens (answers : Nat → Status)
  | closes (answers : Nat → Status)
  | sets (transport : Nat) (isOpen : Bool)

def step (c : ContextTransports) : Move → Option ContextTransports
  | .makes name kind isOpen => some (c.make { name, kind, isOpen })
  | .registers transport answers => some (c.registerTransport transport answers).2
  | .opens answers => some (c.openContext answers).2
  | .closes answers => some (c.closeContext answers).2
  | .sets transport isOpen => some (c.setOpen transport isOpen)

def fresh (c : ContextTransports) : Prop := ∃ options, c = { options }

def Reached (ok : ContextTransports → Move → Prop) : ContextTransports → Prop := Reach step ok fresh

/-! ## What a call leaves as it was -/

/-- The same transports are registered, and an object keeps its name and kind. -/
structure Keeps (c c' : ContextTransports) : Prop where
  objects : ∀ (i : Nat) (object : Transport), c.objects[i]? = some object →
    ∃ object', c'.objects[i]? = some object' ∧ object'.name = object.name ∧ object'.kind = object.kind
  transports : c'.transports = c.transports
  byKind : c'.transportByKind = c.transportByKind

/-- The transport is open. -/
def Opened (c : ContextTransports) (transport : Nat) : Prop :=
  ∃ object, c.objects[transport]? = some object ∧ object.isOpen = true

/-- The same, and no transport was closed. -/
structure KeepsAll (c c' : ContextTransports) : Prop extends Keeps c c' where
  opened : ∀ transport, c.Opened transport → c'.Opened transport
  context : c'.isOpen = c.isOpen

variable {c c' c'' : ContextTransports}

theorem Keeps.refl (c : ContextTransports) : Keeps c c := ⟨fun _ object h => ⟨object, h, rfl, rfl⟩, rfl, rfl⟩

theorem Keeps.trans (h : Keeps c c') (h' : Keeps c' c'') : Keeps c c'' := by
  refine ⟨fun i object hobject => ?_, h'.transports.trans h.transports, h'.byKind.trans h.byKind⟩
  obtain ⟨object', hobject', hname, hkind⟩ := h.objects i object hobject
  obtain ⟨object'', hobject'', hname', hkind'⟩ := h'.objects i object' hobject'
  exact ⟨object'', hobject'', hname'.trans hname, hkind'.trans hkind⟩

theorem KeepsAll.refl (c : ContextTransports) : KeepsAll c c := ⟨Keeps.refl c, fun _ h => h, rfl⟩

theorem KeepsAll.trans (h : KeepsAll c c') (h' : KeepsAll c' c'') : KeepsAll c c'' :=
  ⟨h.toKeeps.trans h'.toKeeps, fun transport hopened => h'.opened transport (h.opened transport hopened),
    h'.context.trans h.context⟩

theorem getElem?_setOpen (c : ContextTransports) (transport i : Nat) (isOpen : Bool) :
    (c.setOpen transport isOpen).objects[i]? =
      c.objects[i]?.map fun object => if transport = i then { object with isOpen } else object := by
  rw [setOpen, List.getElem?_modify]
  rfl

theorem keeps_setOpen (c : ContextTransports) (transport : Nat) (isOpen : Bool) : Keeps c (c.setOpen transport isOpen) := by
  refine ⟨fun i object hobject => ?_, rfl, rfl⟩
  rw [getElem?_setOpen, hobject]
  by_cases h : transport = i <;> simp [h]

theorem opened_setOpen {transport other : Nat} {isOpen : Bool} (h : c.Opened other) (hkept : transport = other → isOpen = true) :
    (c.setOpen transport isOpen).Opened other := by
  obtain ⟨object, hobject, hopen⟩ := h
  rw [Opened, getElem?_setOpen, hobject]
  by_cases hsame : transport = other
  · simp [hsame, hkept hsame]
  · simp [hsame, hopen]

theorem keepsAll_setOpen (c : ContextTransports) (transport : Nat) : KeepsAll c (c.setOpen transport true) :=
  ⟨keeps_setOpen c transport true, fun _ h => opened_setOpen h fun _ => rfl, rfl⟩

theorem keepsAll_make (c : ContextTransports) (object : Transport) : KeepsAll c (c.make object) := by
  have hold : ∀ (i : Nat) (other : Transport), c.objects[i]? = some other → (c.make object).objects[i]? = some other := by
    intro i other hother
    obtain ⟨hlt, -⟩ := List.getElem?_eq_some_iff.mp hother
    rw [make, List.getElem?_append_left hlt, hother]
  refine ⟨⟨fun i other hother => ⟨other, hold i other hother, rfl, rfl⟩, rfl, rfl⟩, fun transport hopened => ?_, rfl⟩
  obtain ⟨other, hother, hopen⟩ := hopened
  exact ⟨other, hold transport other hother, hopen⟩

/-! ## Opening -/

theorem openTransportIfNeeded_spec (c : ContextTransports) (transport : Nat) (answers : Nat → Status) :
    KeepsAll c (c.openTransportIfNeeded transport answers).2
      ∧ ((c.openTransportIfNeeded transport answers).1.isOk = true →
        (c.openTransportIfNeeded transport answers).2.Opened transport) := by
  unfold openTransportIfNeeded
  cases hobject : c.objects[transport]? with
  | none => exact ⟨KeepsAll.refl c, fun hok => (nomatch hok)⟩
  | some object =>
    by_cases hopen : object.isOpen = true
    · simp only [hopen, if_true]
      exact ⟨KeepsAll.refl c, fun _ => ⟨object, hobject, hopen⟩⟩
    · by_cases hanswer : (answers transport).isOk = true
      · simp only [hopen, hanswer, if_true, if_false, Bool.false_eq_true]
        refine ⟨keepsAll_setOpen c transport, fun _ => ?_⟩
        rw [Opened, getElem?_setOpen, hobject]
        simp
      · simp only [hopen, hanswer, if_false, Bool.false_eq_true]
        exact ⟨KeepsAll.refl c, fun hok => (nomatch hok)⟩

/-- What opens one after the other stays open. -/
theorem openAll_spec (answers : Nat → Status) (names : List Bytes) (c : ContextTransports) :
    KeepsAll c (openAll answers names c).2
      ∧ ((openAll answers names c).1.isOk = true →
        ∀ name ∈ names, ∀ transport, c.transports.find? name = some transport →
        (openAll answers names c).2.Opened transport) := by
  induction names generalizing c with
  | nil => exact ⟨KeepsAll.refl c, fun _ name hname => (nomatch hname)⟩
  | cons name names ih =>
    rw [openAll, findTransport]
    cases hfind : c.transports.find? name with
    | none => exact ⟨KeepsAll.refl c, fun hok => (nomatch hok)⟩
    | some transport =>
      obtain ⟨hkeeps, hopened⟩ := openTransportIfNeeded_spec c transport answers
      dsimp only
      cases hok : (c.openTransportIfNeeded transport answers).1.isOk with
      | false =>
        simp only [Bool.not_false, if_true]
        exact ⟨hkeeps, fun hfailed => by rw [hok] at hfailed; cases hfailed⟩
      | true =>
        simp only [Bool.not_true, Bool.false_eq_true, if_false]
        obtain ⟨hmore, hrest⟩ := ih (c.openTransportIfNeeded transport answers).2
        refine ⟨hkeeps.trans hmore, fun hall other hother found hfound => ?_⟩
        rcases List.mem_cons.mp hother with rfl | hother
        · rw [hfind] at hfound
          cases hfound
          exact hmore.opened _ (hopened hok)
        · exact hrest hall other hother found (by rw [hkeeps.transports]; exact hfound)

/-! ## Registering -/

/-- What a transport that was just registered adds to the maps. -/
structure Registers (c c' : ContextTransports) (transport : Nat) (object : Transport) : Prop where
  made : c.objects[transport]? = some object
  name : c.transports.find? object.name = none
  kind : ∀ name, c.transportByKind object.kind = some name → name = object.name
  find : ∀ name, c'.transports.find? name = if name = object.name then some transport else c.transports.find? name
  byKind : ∀ kind, c'.transportByKind kind =
    if kind = object.kind ∧ c.transportByKind object.kind = none then some object.name else c.transportByKind kind
  objects : ∀ (i : Nat) (other : Transport), c.objects[i]? = some other →
    ∃ other', c'.objects[i]? = some other' ∧ other'.name = other.name ∧ other'.kind = other.kind
  opened : ∀ other, c.Opened other → c'.Opened other
  context : c'.isOpen = c.isOpen
  own : c.isOpen = true → c'.Opened transport

/-- A registration that fails leaves the maps alone. -/
theorem registerTransport_spec (c : ContextTransports) (transport : Nat) (answers : Nat → Status) :
    ((c.registerTransport transport answers).1.isOk = false ∧ KeepsAll c (c.registerTransport transport answers).2)
      ∨ (c.registerTransport transport answers).1.isOk = true
        ∧ ∃ object, Registers c (c.registerTransport transport answers).2 transport object := by
  unfold registerTransport
  cases hobject : c.objects[transport]? with
  | none => exact .inl ⟨rfl, KeepsAll.refl c⟩
  | some object =>
    dsimp only
    cases hname : c.transports.find? object.name with
    | some other =>
      rw [findTransport, hname]
      exact .inl ⟨rfl, KeepsAll.refl c⟩
    | none =>
      have hfind : (c.findTransport object.name).isOk = false := by
        rw [findTransport, hname]
        rfl
      rw [hfind]
      simp only [Bool.false_eq_true, if_false]
      split
      · exact .inl ⟨rfl, KeepsAll.refl c⟩
      · next hkind =>
        have hkind : ∀ name, c.transportByKind object.kind = some name → name = object.name := by
          intro name hsome
          rw [hsome] at hkind
          simpa using hkind
        obtain ⟨opened, hopened, hkeeps, hown⟩ : ∃ opened : Status × ContextTransports,
            (if (c.isOpen || c.options.openRegisteredTransports) = true then c.openTransportIfNeeded transport answers
              else (.ok, c)) = opened ∧ KeepsAll c opened.2
            ∧ (opened.1.isOk = true → c.isOpen = true → opened.2.Opened transport) := by
          obtain ⟨hkeeps, hopened⟩ := openTransportIfNeeded_spec c transport answers
          by_cases hopens : (c.isOpen || c.options.openRegisteredTransports) = true
          · rw [if_pos hopens]
            exact ⟨_, rfl, hkeeps, fun hok _ => hopened hok⟩
          · rw [if_neg hopens]
            refine ⟨_, rfl, KeepsAll.refl c, fun _ hcontext => ?_⟩
            rw [hcontext, Bool.true_or] at hopens
            exact absurd rfl hopens
        rw [hopened]
        cases hok : opened.1.isOk with
        | false =>
          simp only [Bool.not_false, if_true]
          exact .inl ⟨hok, hkeeps⟩
        | true =>
          have hregister : opened.2.register transport object =
              (.ok, { opened.2 with transports := opened.2.transports.insert object.name transport }) := by
            rw [register, hkeeps.transports, hname]
            rfl
          have hokStatus : Status.ok.isOk = true := rfl
          simp only [Bool.not_true, Bool.false_eq_true, if_false, hregister, hokStatus]
          refine .inr ⟨trivial, object, hobject, hname, hkind, fun name => ?_, fun kind => ?_, hkeeps.objects, hkeeps.opened,
            hkeeps.context, hown hok⟩
          · show (opened.2.transports.insert object.name transport).find? name = _
            rw [SortedMap.find?_insert, hkeeps.transports]
          · show (if kind = object.kind ∧ (opened.2.transportByKind object.kind).isNone = true then some object.name
              else opened.2.transportByKind kind) = _
            simp only [hkeeps.byKind, Option.isNone_iff_eq_none]

/-! ## The maps agree -/

/-- Each map leads to a transport that the other leads to. -/
structure Agree (c : ContextTransports) : Prop where
  names : ∀ name transport, c.transports.find? name = some transport →
    ∃ object, c.objects[transport]? = some object ∧ object.name = name ∧ c.transportByKind object.kind = some name
  kinds : ∀ kind name, c.transportByKind kind = some name →
    ∃ transport object, c.transports.find? name = some transport ∧ c.objects[transport]? = some object ∧ object.kind = kind

theorem Agree.keeps (h : Agree c) (hkeeps : Keeps c c') : Agree c' := by
  refine ⟨fun name transport hfind => ?_, fun kind name hkind => ?_⟩
  · rw [hkeeps.transports] at hfind
    obtain ⟨object, hobject, hname, hkind⟩ := h.names name transport hfind
    obtain ⟨object', hobject', hname', hkind'⟩ := hkeeps.objects transport object hobject
    exact ⟨object', hobject', hname'.trans hname, by rw [hkeeps.byKind, hkind', hkind]⟩
  · rw [hkeeps.byKind] at hkind
    obtain ⟨transport, object, hfind, hobject, rfl⟩ := h.kinds kind name hkind
    obtain ⟨object', hobject', -, hkind'⟩ := hkeeps.objects transport object hobject
    exact ⟨transport, object', by rw [hkeeps.transports, hfind], hobject', hkind'⟩

/-- The kind of a transport that can be registered is no other's. -/
theorem Registers.kind_free (h : Agree c) {transport : Nat} {object : Transport} (hregisters : Registers c c' transport object) :
    c.transportByKind object.kind = none := by
  cases hkind : c.transportByKind object.kind with
  | none => rfl
  | some name =>
    obtain ⟨other, -, hfind, -⟩ := h.kinds object.kind name hkind
    rw [hregisters.kind name hkind, hregisters.name] at hfind
    cases hfind

theorem Agree.registers (h : Agree c) {transport : Nat} {object : Transport} (hregisters : Registers c c' transport object) :
    Agree c' := by
  have hfree := hregisters.kind_free h
  obtain ⟨own, hown, hownName, hownKind⟩ := hregisters.objects transport object hregisters.made
  refine ⟨fun name other hfind => ?_, fun kind name hkind => ?_⟩
  · rw [hregisters.find] at hfind
    split at hfind
    · next hname =>
      cases hfind
      refine ⟨own, hown, hownName.trans hname.symm, ?_⟩
      rw [hregisters.byKind, hownKind, if_pos ⟨rfl, hfree⟩, hname]
    · obtain ⟨object', hobject', hname', hkind'⟩ := h.names name other hfind
      obtain ⟨object'', hobject'', hname'', hkind''⟩ := hregisters.objects other object' hobject'
      refine ⟨object'', hobject'', hname''.trans hname', ?_⟩
      have hother : object'.kind ≠ object.kind := by
        intro hsame
        rw [hsame, hfree] at hkind'
        cases hkind'
      rw [hregisters.byKind, hkind'', if_neg fun hboth => hother hboth.1, hkind']
  · rw [hregisters.byKind] at hkind
    split at hkind
    · next hsame =>
      cases hkind
      refine ⟨transport, own, ?_, hown, hownKind.trans hsame.1.symm⟩
      rw [hregisters.find, if_pos rfl]
    · obtain ⟨other, object', hfind, hobject', rfl⟩ := h.kinds kind name hkind
      obtain ⟨object'', hobject'', -, hkind''⟩ := hregisters.objects other object' hobject'
      refine ⟨other, object'', ?_, hobject'', hkind''⟩
      rw [hregisters.find, if_neg, hfind]
      rintro rfl
      rw [hregisters.name] at hfind
      cases hfind

/-! ## Open and Close -/

/-- Every transport of the context is open. -/
def AllOpened (c : ContextTransports) : Prop := ∀ name transport, c.transports.find? name = some transport → c.Opened transport

/-- What was registered stays so, under its name, and what was open stays open. -/
structure Grows (c c' : ContextTransports) : Prop where
  find : ∀ name transport, c.transports.find? name = some transport → c'.transports.find? name = some transport
  opened : ∀ transport, c.Opened transport → c'.Opened transport
  context : c'.isOpen = c.isOpen
  all : c.isOpen = true → AllOpened c → AllOpened c'

theorem KeepsAll.grows (h : KeepsAll c c') : Grows c c' :=
  ⟨fun name transport hfind => by rw [h.transports, hfind], h.opened, h.context,
    fun _ hall name transport hfind => h.opened transport (hall name transport (h.transports ▸ hfind))⟩

theorem Grows.trans (h : Grows c c') (h' : Grows c' c'') : Grows c c'' :=
  ⟨fun name transport hfind => h'.find name transport (h.find name transport hfind),
    fun transport hopened => h'.opened transport (h.opened transport hopened), h'.context.trans h.context,
    fun hopen hall => h'.all (h.context.trans hopen) (h.all hopen hall)⟩

theorem Registers.grows {transport : Nat} {object : Transport} (h : Registers c c' transport object) : Grows c c' := by
  refine ⟨fun name other hfind => ?_, h.opened, h.context, fun hopen hall name other hfind => ?_⟩
  · rw [h.find, if_neg, hfind]
    rintro rfl
    rw [h.name] at hfind
    cases hfind
  · rw [h.find] at hfind
    split at hfind
    · cases hfind
      exact h.own hopen
    · exact h.opened other (hall name other hfind)

/-- A registration, of a transport that the context may have made itself. -/
theorem Agree.registerTransport (h : Agree c) (transport : Nat) (answers : Nat → Status) :
    Agree (c.registerTransport transport answers).2 ∧ Grows c (c.registerTransport transport answers).2 := by
  rcases registerTransport_spec c transport answers with ⟨-, hkeeps⟩ | ⟨-, object, hregisters⟩
  · exact ⟨h.keeps hkeeps.toKeeps, hkeeps.grows⟩
  · exact ⟨h.registers hregisters, hregisters.grows⟩

theorem Agree.ensureDefaultTransports (h : Agree c) (answers : Nat → Status) :
    Agree (c.ensureDefaultTransports answers).2 ∧ Grows c (c.ensureDefaultTransports answers).2
      ∧ ((c.ensureDefaultTransports answers).1.isOk = true → c.options.registerInmemoryTransport = true →
        (c.ensureDefaultTransports answers).2.transportByKind .inMemory ≠ none) := by
  have hsame : Agree c ∧ Grows c c := ⟨h, (KeepsAll.refl c).grows⟩
  unfold ContextTransports.ensureDefaultTransports
  cases hwanted : c.options.registerInmemoryTransport with
  | false => exact ⟨hsame.1, hsame.2, fun _ hno => (nomatch hno)⟩
  | true =>
    cases hkind : c.transportByKind .inMemory with
    | some name =>
      refine ⟨hsame.1, hsame.2, fun _ _ => ?_⟩
      show c.transportByKind .inMemory ≠ none
      rw [hkind]
      exact nofun
    | none =>
      have hmade := keepsAll_make c c.defaultTransport
      have hobject : (c.make c.defaultTransport).objects[c.objects.length]? =
          some c.defaultTransport := List.getElem?_concat_length
      obtain ⟨hagree, hgrows⟩ := (h.keeps hmade.toKeeps).registerTransport c.objects.length answers
      refine ⟨hagree, hmade.grows.trans hgrows, fun hok _ => ?_⟩
      rcases registerTransport_spec (c.make c.defaultTransport) c.objects.length answers with
        ⟨hfailed, -⟩ | ⟨-, object, hregisters⟩
      · have hok : ((c.make c.defaultTransport).registerTransport c.objects.length
            answers).1.isOk = true := hok
        rw [hfailed] at hok
        cases hok
      · have hmine := hregisters.made
        rw [hobject] at hmine
        cases hmine
        have hbyKind := hregisters.byKind .inMemory
        rw [if_pos ⟨rfl, hkind⟩] at hbyKind
        show ((c.make c.defaultTransport).registerTransport c.objects.length
            answers).2.transportByKind .inMemory ≠ none
        rw [hbyKind]
        exact nofun

theorem keeps_closeAll (answers : Nat → Status) (names : List Bytes) (result : Status) (c : ContextTransports) :
    Keeps c (closeAll answers names result c).2 := by
  induction names generalizing c result with
  | nil => exact Keeps.refl c
  | cons name names ih =>
    rw [closeAll, findTransport]
    cases c.transports.find? name with
    | none => exact ih result c
    | some transport =>
      refine Keeps.trans ?_ (ih _ _)
      split
      · exact keeps_setOpen c transport false
      · exact Keeps.refl c

/-- What `Open` does, whether it succeeds or fails. -/
structure OpenResult (c c' : ContextTransports) (status : Status) : Prop where
  agree : Agree c'
  find : ∀ name transport, c.transports.find? name = some transport → c'.transports.find? name = some transport
  opened : ∀ transport, c.Opened transport → c'.Opened transport
  failed : status.isOk = false → c'.isOpen = c.isOpen
  all : c.isOpen = true → AllOpened c → AllOpened c'
  succeeded : status.isOk = true → c'.isOpen = true ∧ AllOpened c'
  inMemory : status.isOk = true → c.options.registerInmemoryTransport = true → c'.transportByKind .inMemory ≠ none

theorem openContext_spec (h : Agree c) (answers : Nat → Status) :
    OpenResult c (c.openContext answers).2 (c.openContext answers).1 := by
  unfold openContext
  cases hvalid : c.options.validate.isOk with
  | false =>
    simp only [Bool.not_false, if_true]
    exact ⟨h, fun _ _ hfind => hfind, fun _ hopened => hopened, fun _ => rfl, fun _ hall => hall,
      fun hok => (by rw [hvalid] at hok; cases hok), fun hok => (by rw [hvalid] at hok; cases hok)⟩
  | true =>
    simp only [Bool.not_true, Bool.false_eq_true, if_false]
    obtain ⟨hagree, hgrows, hinMemory⟩ := h.ensureDefaultTransports answers
    cases hensured : (c.ensureDefaultTransports answers).1.isOk with
    | false =>
      simp only [Bool.not_false, if_true]
      exact ⟨hagree, hgrows.find, hgrows.opened, fun _ => hgrows.context, hgrows.all,
        fun hok => (by rw [hensured] at hok; cases hok), fun hok => (by rw [hensured] at hok; cases hok)⟩
    | true =>
      simp only [Bool.not_true, Bool.false_eq_true, if_false]
      obtain ⟨hkeeps, hall⟩ := openAll_spec answers (c.ensureDefaultTransports answers).2.transports.keys
        (c.ensureDefaultTransports answers).2
      have hmore := hgrows.trans hkeeps.grows
      have hagree := hagree.keeps hkeeps.toKeeps
      cases hok : (openAll answers (c.ensureDefaultTransports answers).2.transports.keys
        (c.ensureDefaultTransports answers).2).1.isOk with
      | false =>
        simp only [Bool.not_false, if_true]
        exact ⟨hagree, hmore.find, hmore.opened, fun _ => hmore.context, hmore.all,
          fun hsucceeded => (by rw [hok] at hsucceeded; cases hsucceeded),
          fun hsucceeded => (by rw [hok] at hsucceeded; cases hsucceeded)⟩
      | true =>
        simp only [Bool.not_true, Bool.false_eq_true, if_false]
        have hallOpened : AllOpened (openAll answers (c.ensureDefaultTransports answers).2.transports.keys
            (c.ensureDefaultTransports answers).2).2 := by
          intro name transport hfind
          rw [hkeeps.transports] at hfind
          exact hall hok name (SortedMap.mem_keys.mpr (by rw [hfind]; exact nofun)) transport hfind
        refine ⟨⟨hagree.names, hagree.kinds⟩, hmore.find, hmore.opened, fun hfailed => (nomatch hfailed), fun _ _ => hallOpened,
          fun _ => ⟨rfl, hallOpened⟩, fun _ hwanted => ?_⟩
        · have hkind := hinMemory hensured hwanted
          rw [← hkeeps.byKind] at hkind
          exact hkind

/-! ## When Open succeeds -/

theorem openTransportIfNeeded_isOk {transport : Nat} (hmade : (c.objects[transport]?).isSome = true) (answers : Nat → Status) :
    (c.openTransportIfNeeded transport answers).1.isOk = true ↔ c.Opened transport ∨ (answers transport).isOk = true := by
  unfold openTransportIfNeeded Opened
  obtain ⟨object, hobject⟩ := Option.isSome_iff_exists.mp hmade
  rw [hobject]
  by_cases hopen : object.isOpen = true
  · simp [hopen, show Status.ok.isOk = true from rfl]
  · simp [hopen]

/-- Nothing but the transport that is asked is opened. -/
theorem opened_openTransportIfNeeded {transport other : Nat} {answers : Nat → Status}
    (hok : (c.openTransportIfNeeded transport answers).1.isOk = true) (hmade : (c.objects[transport]?).isSome = true) :
    (c.openTransportIfNeeded transport answers).2.Opened other ∨ (answers other).isOk = true ↔
      c.Opened other ∨ (answers other).isOk = true := by
  constructor
  · rintro (⟨object, hobject, hopen⟩ | hanswer)
    · by_cases hsame : transport = other
      · subst hsame
        exact (openTransportIfNeeded_isOk hmade answers).mp hok
      · refine .inl ?_
        unfold openTransportIfNeeded at hobject
        split at hobject
        · exact ⟨object, hobject, hopen⟩
        · split at hobject
          · exact ⟨object, hobject, hopen⟩
          · dsimp only at hobject
            split at hobject
            · rw [getElem?_setOpen] at hobject
              simp only [if_neg hsame, Option.map_id'] at hobject
              exact ⟨object, hobject, hopen⟩
            · exact ⟨object, hobject, hopen⟩
    · exact .inr hanswer
  · rintro (hopened | hanswer)
    · exact .inl ((openTransportIfNeeded_spec c transport answers).1.opened other hopened)
    · exact .inr hanswer

theorem openAll_isOk (answers : Nat → Status) (names : List Bytes) (c : ContextTransports)
    (hfound : ∀ name ∈ names, ∃ transport, c.transports.find? name = some transport ∧ (c.objects[transport]?).isSome = true) :
    (openAll answers names c).1.isOk = true ↔
      ∀ name ∈ names, ∀ transport, c.transports.find? name = some transport → c.Opened transport
      ∨ (answers transport).isOk = true := by
  induction names generalizing c with
  | nil => exact ⟨fun _ name hname => absurd hname List.not_mem_nil, fun _ => rfl⟩
  | cons name names ih =>
    obtain ⟨transport, hfind, hmade⟩ := hfound name List.mem_cons_self
    have hkeeps := (openTransportIfNeeded_spec c transport answers).1
    rw [openAll, findTransport, hfind]
    dsimp only
    cases hok : (c.openTransportIfNeeded transport answers).1.isOk with
    | false =>
      simp only [Bool.not_false, if_true]
      rw [hok]
      refine ⟨fun hno => absurd hno Bool.false_ne_true, fun hall => ?_⟩
      rw [← hok]
      exact (openTransportIfNeeded_isOk hmade answers).mpr (hall name List.mem_cons_self transport hfind)
    | true =>
      simp only [Bool.not_true, Bool.false_eq_true, if_false]
      rw [ih (c.openTransportIfNeeded transport answers).2 fun other hother => ?_]
      · constructor
        · intro hall other hother found hfoundOther
          rcases List.mem_cons.mp hother with rfl | hother
          · rw [hfind] at hfoundOther
            cases hfoundOther
            exact (openTransportIfNeeded_isOk hmade answers).mp hok
          · exact (opened_openTransportIfNeeded hok hmade).mp (hall other hother found (by rw [hkeeps.transports, hfoundOther]))
        · intro hall other hother found hfoundOther
          rw [hkeeps.transports] at hfoundOther
          exact (opened_openTransportIfNeeded hok hmade).mpr (hall other (List.mem_cons_of_mem name hother) found hfoundOther)
      · obtain ⟨found, hfoundOther, hmadeOther⟩ := hfound other (List.mem_cons_of_mem name hother)
        obtain ⟨object, hobject⟩ := Option.isSome_iff_exists.mp hmadeOther
        obtain ⟨object', hobject', -⟩ := hkeeps.objects found object hobject
        exact ⟨found, by rw [hkeeps.transports, hfoundOther], by rw [hobject']; rfl⟩

/-- The part of a registration that opens the transport. -/
def openForRegistration (c : ContextTransports) (transport : Nat) (answers : Nat → Status) : Status × ContextTransports :=
  if c.isOpen || c.options.openRegisteredTransports then c.openTransportIfNeeded transport answers else (.ok, c)

theorem openForRegistration_transports (c : ContextTransports) (transport : Nat) (answers : Nat → Status) :
    (c.openForRegistration transport answers).2.transports = c.transports := by
  unfold openForRegistration
  split
  · exact (openTransportIfNeeded_spec c transport answers).1.transports
  · rfl

theorem openForRegistration_isOk {transport : Nat} (hmade : (c.objects[transport]?).isSome = true) {answers : Nat → Status}
    (hanswer : (answers transport).isOk = true) : (c.openForRegistration transport answers).1.isOk = true := by
  unfold openForRegistration
  split
  · exact (openTransportIfNeeded_isOk hmade answers).mpr (.inr hanswer)
  · rfl

theorem opened_openForRegistration {transport other : Nat} {answers : Nat → Status}
    (hok : (c.openForRegistration transport answers).1.isOk = true) (hmade : (c.objects[transport]?).isSome = true) :
    (c.openForRegistration transport answers).2.Opened other ∨ (answers other).isOk = true ↔
      c.Opened other ∨ (answers other).isOk = true := by
  unfold openForRegistration at hok ⊢
  split at hok
  · next hopens =>
    rw [if_pos hopens]
    exact opened_openTransportIfNeeded hok hmade
  · next hopens => rw [if_neg hopens]

theorem registerTransport_taken {transport other : Nat} {object : Transport} (hobject : c.objects[transport]? = some object)
    (hname : c.transports.find? object.name = some other) (answers : Nat → Status) :
    (c.registerTransport transport answers).1.isOk = false := by
  unfold registerTransport
  rw [hobject]
  simp only [findTransport, hname]
  rfl

theorem registerTransport_free {transport : Nat} {object : Transport} (hobject : c.objects[transport]? = some object)
    (hname : c.transports.find? object.name = none) (hkind : c.transportByKind object.kind = none) (answers : Nat → Status) :
    c.registerTransport transport answers =
      if !(c.openForRegistration transport answers).1.isOk then c.openForRegistration transport answers
      else (.ok, { (c.openForRegistration transport answers).2 with
        transports := c.transports.insert object.name transport }.emplaceKind object.kind object.name) := by
  have htransports := openForRegistration_transports c transport answers
  unfold registerTransport
  rw [hobject]
  simp only [findTransport, hname, hkind, Except.isOk, Except.toBool, Option.any_none, Bool.false_eq_true, if_false]
  change (if !(c.openForRegistration transport answers).1.isOk then c.openForRegistration transport answers else
    if !((c.openForRegistration transport answers).2.register transport object).1.isOk then
      (c.openForRegistration transport answers).2.register transport object
    else (.ok, ((c.openForRegistration transport answers).2.register transport object).2.emplaceKind object.kind object.name)) = _
  rw [register, htransports, hname]
  rfl

/-- Every transport is open, or can be opened now. -/
def CanOpenAll (c : ContextTransports) (answers : Nat → Status) : Prop :=
  ∀ name transport, c.transports.find? name = some transport → c.Opened transport ∨ (answers transport).isOk = true

theorem Agree.openAll_isOk (h : Agree c) (answers : Nat → Status) :
    (openAll answers c.transports.keys c).1.isOk = true ↔ CanOpenAll c answers := by
  rw [ContextTransports.openAll_isOk answers c.transports.keys c fun name hname => ?_]
  · refine ⟨fun hall name transport hfind => hall name (SortedMap.mem_keys.mpr (by rw [hfind]; exact nofun)) transport hfind, ?_⟩
    exact fun hall name _ transport hfind => hall name transport hfind
  · obtain ⟨transport, hfind⟩ := Option.ne_none_iff_exists'.mp (SortedMap.mem_keys.mp hname)
    obtain ⟨object, hobject, -⟩ := h.names name transport hfind
    exact ⟨transport, hfind, by rw [hobject]; rfl⟩

/-- The in-memory transport that `Open` makes: its name has to be free, and it has to open. -/
def CanMakeDefault (c : ContextTransports) (answers : Nat → Status) : Prop :=
  c.options.registerInmemoryTransport = true → c.transportByKind .inMemory = none →
    c.transports.find? c.options.defaultTransportName = none ∧ (answers c.objects.length).isOk = true

theorem ensureDefaultTransports_made (hwanted : c.options.registerInmemoryTransport = true)
    (hkind : c.transportByKind .inMemory = none) (answers : Nat → Status) :
    c.ensureDefaultTransports answers =
      (c.make c.defaultTransport).registerTransport c.objects.length answers := by
  unfold ensureDefaultTransports
  simp [hwanted, hkind]

theorem opened_make {object : Transport} {transport : Nat} (hclosed : object.isOpen = false) :
    (c.make object).Opened transport ↔ c.Opened transport := by
  unfold Opened make
  constructor
  · rintro ⟨other, hother, hopen⟩
    rcases getElem?_concat_cases hother with hother | ⟨-, rfl⟩
    · exact ⟨other, hother, hopen⟩
    · rw [hclosed] at hopen
      cases hopen
  · intro hopened
    exact (keepsAll_make c object).opened transport hopened

/-- The in-memory transport is registered, and then all can be opened, exactly if it can be made and
all others can be opened. -/
theorem registerDefault_isOk (hkind : c.transportByKind .inMemory = none) (answers : Nat → Status) :
    ((c.make c.defaultTransport).registerTransport c.objects.length answers).1.isOk = true
        ∧ CanOpenAll ((c.make c.defaultTransport).registerTransport c.objects.length answers).2 answers ↔
      (c.transports.find? c.options.defaultTransportName = none ∧ (answers c.objects.length).isOk = true)
      ∧ CanOpenAll c answers := by
  have hobject : (c.make c.defaultTransport).objects[c.objects.length]? = some c.defaultTransport := List.getElem?_concat_length
  have hmade := Option.isSome_iff_exists.mpr ⟨_, hobject⟩
  cases hname : c.transports.find? c.options.defaultTransportName with
  | some other =>
    rw [registerTransport_taken hobject hname answers]
    simp
  | none =>
    rw [registerTransport_free hobject hname hkind answers]
    cases hok : ((c.make c.defaultTransport).openForRegistration c.objects.length answers).1.isOk with
    | false =>
      simp only [Bool.not_false, if_true]
      rw [hok]
      refine ⟨fun hno => absurd hno.1 Bool.false_ne_true, fun hboth => ?_⟩
      rw [openForRegistration_isOk hmade hboth.1.2] at hok
      cases hok
    | true =>
      simp only [Bool.not_true, Bool.false_eq_true, if_false]
      have hcan : ∀ transport, ((c.make c.defaultTransport).openForRegistration c.objects.length answers).2.Opened transport
          ∨ (answers transport).isOk = true ↔ c.Opened transport ∨ (answers transport).isOk = true :=
        fun transport => (opened_openForRegistration hok hmade).trans (or_congr_left (opened_make rfl))
      have hadded := SortedMap.find?_insert c.transports c.options.defaultTransportName c.objects.length
      constructor
      · rintro ⟨-, hall⟩
        have hmine := (hcan c.objects.length).mp (hall c.options.defaultTransportName c.objects.length
          ((hadded _).trans (if_pos rfl)))
        refine ⟨⟨trivial, hmine.resolve_left ?_⟩, fun name transport hfind => (hcan transport).mp (hall name transport ?_)⟩
        · rintro ⟨object, hlast, -⟩
          rw [List.getElem?_eq_none (Nat.le_refl _)] at hlast
          cases hlast
        · refine (hadded name).trans ((if_neg ?_).trans hfind)
          rintro rfl
          rw [hname] at hfind
          cases hfind
      · rintro ⟨⟨-, hanswer⟩, hall⟩
        refine ⟨rfl, fun name transport hfind => (hcan transport).mpr ?_⟩
        have hfind := (hadded name).symm.trans hfind
        split at hfind
        · cases hfind
          exact .inr hanswer
        · exact hall name transport hfind

theorem ensureDefaultTransports_isOk (c : ContextTransports) (answers : Nat → Status) :
    (c.ensureDefaultTransports answers).1.isOk = true ∧ CanOpenAll (c.ensureDefaultTransports answers).2 answers ↔
      CanMakeDefault c answers ∧ CanOpenAll c answers := by
  by_cases hmakes : c.options.registerInmemoryTransport = true ∧ c.transportByKind .inMemory = none
  · obtain ⟨hwanted, hkind⟩ := hmakes
    rw [ensureDefaultTransports_made hwanted hkind, registerDefault_isOk hkind answers]
    exact and_congr_left fun _ => ⟨fun hboth _ _ => hboth, fun hcan => hcan hwanted hkind⟩
  · have hsame : c.ensureDefaultTransports answers = (.ok, c) := by
      unfold ContextTransports.ensureDefaultTransports
      cases hwanted : c.options.registerInmemoryTransport with
      | false => rfl
      | true =>
        cases hkind : c.transportByKind .inMemory with
        | none => exact absurd ⟨hwanted, hkind⟩ hmakes
        | some name => rfl
    rw [hsame]
    exact and_congr_left fun _ => ⟨fun _ hwanted hkind => absurd ⟨hwanted, hkind⟩ hmakes, fun _ => rfl⟩

theorem openContext_isOk (h : Agree c) (answers : Nat → Status) : (c.openContext answers).1.isOk = true ↔
    c.options.validate.isOk = true ∧ CanMakeDefault c answers ∧ CanOpenAll c answers := by
  have hagree := (h.ensureDefaultTransports answers).1
  rw [← ensureDefaultTransports_isOk, ← hagree.openAll_isOk answers]
  unfold openContext
  cases hvalid : c.options.validate.isOk with
  | false => simp [hvalid]
  | true =>
    cases hensured : (c.ensureDefaultTransports answers).1.isOk with
    | false => simp [hensured]
    | true =>
      cases hopened : (openAll answers (c.ensureDefaultTransports answers).2.transports.keys
          (c.ensureDefaultTransports answers).2).1.isOk with
      | false => simp [hensured, hopened]
      | true => simp [hensured, hopened, show Status.ok.isOk = true from rfl]

/-! ## Runs of a context -/

theorem agree_step {move : Move} (h : Agree c) (hstep : step c move = some c') : Agree c' := by
  cases move with
  | makes name kind isOpen =>
    cases hstep
    exact h.keeps (keepsAll_make c _).toKeeps
  | registers transport answers =>
    cases hstep
    exact (h.registerTransport transport answers).1
  | opens answers =>
    cases hstep
    exact (openContext_spec h answers).agree
  | closes answers =>
    cases hstep
    have hclosed := h.keeps (keeps_closeAll answers c.transports.keys .ok c)
    exact ⟨hclosed.names, hclosed.kinds⟩
  | sets transport isOpen =>
    cases hstep
    exact h.keeps (keeps_setOpen c transport isOpen)

theorem agree {ok : ContextTransports → Move → Prop} (h : Reached ok c) : Agree c := by
  refine Reach.invariant ?_ (fun c move next hagree _ hstep => agree_step hagree hstep) h
  rintro c ⟨options, rfl⟩
  exact ⟨fun name transport hfind => (nomatch hfind), fun kind name hkind => (nomatch hkind)⟩

theorem findTransport_ok {name : Bytes} {transport : Nat} :
    c.findTransport name = .ok transport ↔ c.transports.find? name = some transport := by
  unfold findTransport
  cases c.transports.find? name with
  | none => exact ⟨nofun, nofun⟩
  | some other => simp

theorem Agree.found_by_kind (h : Agree c) (kind : TransportKind) (transport : Nat) :
    c.findTransportOfKind kind = .ok transport ↔
      ∃ object, c.objects[transport]? = some object ∧ object.kind = kind ∧ c.findTransport object.name = .ok transport := by
  unfold findTransportOfKind
  constructor
  · intro hfound
    cases hkind : c.transportByKind kind with
    | none =>
      rw [hkind] at hfound
      cases hfound
    | some name =>
      rw [hkind] at hfound
      obtain ⟨other, object, hfind, hobject, hsame⟩ := h.kinds kind name hkind
      have hfound := findTransport_ok.mp hfound
      rw [hfind] at hfound
      cases hfound
      obtain ⟨object', hobject', hname, -⟩ := h.names name transport hfind
      rw [hobject] at hobject'
      cases hobject'
      exact ⟨object, hobject, hsame, findTransport_ok.mpr (hname ▸ hfind)⟩
  · rintro ⟨object, hobject, rfl, hfound⟩
    obtain ⟨object', hobject', -, hkind⟩ := h.names object.name transport (findTransport_ok.mp hfound)
    rw [hobject] at hobject'
    cases hobject'
    rw [hkind]
    exact hfound

/-- In every run, a name finds a transport of that name, and a kind finds a transport exactly if it
has the kind and its name finds it. -/
theorem found_by_kind_iff (h : Reached anyMove c) :
    (∀ name transport, c.findTransport name = .ok transport → ∃ object, c.objects[transport]? = some object ∧ object.name = name)
      ∧ ∀ kind transport, c.findTransportOfKind kind = .ok transport ↔
        ∃ object, c.objects[transport]? = some object ∧ object.kind = kind ∧ c.findTransport object.name = .ok transport := by
  refine ⟨fun name transport hfound => ?_, (agree h).found_by_kind⟩
  obtain ⟨object, hobject, hname, -⟩ := (agree h).names name transport (findTransport_ok.mp hfound)
  exact ⟨object, hobject, hname⟩

theorem freshContext : fresh { options := {} } := ⟨{}, rfl⟩

/-- A shared-memory transport is registered, the context opened. -/
def opensTwo : List Move := [.makes (text "shm") .ipc false, .registers 0 fun _ => .ok, .opens fun _ => .ok]

theorem found_by_kind_iff_opensTwo : ∃ c, Reached anyMove c ∧ c.findTransportOfKind .ipc = .ok 0 := by
  obtain ⟨c, hreached, hc⟩ : ∃ c, Reached anyMove c ∧ ((c.objects[0]?.map (·.kind)) = some .ipc
      && (c.objects[0]?.bind fun object => c.transports.find? object.name) = some 0) = true :=
    reach_of_run opensTwo _ freshContext (by decide +kernel)
  obtain ⟨hkind, hname⟩ := (Bool.and_eq_true _ _).mp hc
  obtain ⟨object, hobject, hkind⟩ := Option.map_eq_some_iff.mp (of_decide_eq_true hkind)
  have hname := of_decide_eq_true hname
  rw [hobject] at hname
  exact ⟨c, hreached, ((found_by_kind_iff hreached).2 .ipc 0).mpr ⟨object, hobject, hkind, findTransport_ok.mpr hname⟩⟩

/-- `Open` succeeds exactly if the options are valid, the in-memory transport it still has to make can be
made, and every transport is open or opens now. Then the context and all its transports are open, the
in-memory one among them; else the context is open if it was. No transport is lost or closed. -/
theorem open_opens_all (h : Reached anyMove c) (answers : Nat → Status) :
    ((c.openContext answers).1.isOk = true ↔ c.options.validate.isOk = true ∧ CanMakeDefault c answers ∧ CanOpenAll c answers)
      ∧ ((c.openContext answers).1.isOk = true → (c.openContext answers).2.isOpen = true ∧ AllOpened (c.openContext answers).2
        ∧ (c.options.registerInmemoryTransport = true →
          ∃ transport, (c.openContext answers).2.findTransportOfKind .inMemory = .ok transport))
      ∧ ((c.openContext answers).1.isOk = false → (c.openContext answers).2.isOpen = c.isOpen)
      ∧ ∀ name transport, c.findTransport name = .ok transport →
        (c.openContext answers).2.findTransport name = .ok transport
        ∧ (c.Opened transport → (c.openContext answers).2.Opened transport) := by
  have hresult := openContext_spec (agree h) answers
  refine ⟨openContext_isOk (agree h) answers, fun hok => ?_, hresult.failed, fun name transport hfound => ?_⟩
  · refine ⟨(hresult.succeeded hok).1, (hresult.succeeded hok).2, fun hwanted => ?_⟩
    obtain ⟨name, hkind⟩ := Option.ne_none_iff_exists'.mp (hresult.inMemory hok hwanted)
    obtain ⟨transport, object, hfind, -⟩ := hresult.agree.kinds _ name hkind
    refine ⟨transport, ?_⟩
    rw [findTransportOfKind, hkind]
    exact findTransport_ok.mpr hfind
  · exact ⟨findTransport_ok.mpr (hresult.find name transport (findTransport_ok.mp hfound)), hresult.opened transport⟩

theorem open_opens_all_opensTwo : ∃ c, Reached anyMove c ∧ (c.openContext fun _ => .ok).2.isOpen = true
    ∧ AllOpened (c.openContext fun _ => .ok).2 := by
  obtain ⟨c, hreached, hc⟩ : ∃ c, Reached anyMove c ∧ (c.openContext fun _ => .ok).1.isOk = true :=
    reach_of_run opensTwo _ freshContext (by decide +kernel)
  obtain ⟨hopen, hall, -⟩ := (open_opens_all hreached fun _ => .ok).2.1 hc
  exact ⟨c, hreached, hopen, hall⟩

end ContextTransports

end PuppetMaster.Runtime
