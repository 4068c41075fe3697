/-
  PuppetMaster.Runtime.QueueDepths — the queue depth of a topic with several readers
  (`ReaderQueueDepths`, runtime/context.cpp).

  An observed reader adds itself when it is made, reports its pending messages when data
  arrives and after a read, and removes itself when it is destroyed; a report can come late,
  when the reader is gone. Each call holds the lock while it records the topic's total, so a
  history is a list of calls. `openReaders` are the readers a history leaves open, with what
  each reported last. `depths_agree`: the metric of a topic is the sum of these reports.
-/

import PuppetMaster.Observability.Observer

namespace PuppetMaster.Runtime

open PuppetMaster.Core PuppetMaster.Lib PuppetMaster.Observability

variable {κ : Type}

structure ReaderQueueDepths (κ : Type) where
  observer : Observer κ
  pendingByTopic : SortedMap Bytes (SortedMap Nat UInt64) := .empty
  nextId : Nat := 0

/-! ## ReaderQueueDepths -/

/-- The emissions of one `Record...` function, and of no other thread between them. -/
def emitAll (observer : Observer κ) (events : List Event) (now : Int) : Observer κ :=
  events.foldl (fun observer event => (observer.emit event now).1) observer

def totalPending (readers : SortedMap Nat UInt64) : UInt64 :=
  readers.entries.foldl (fun total reader => total + reader.2) 0

def ReaderQueueDepths.recordTotal (depths : ReaderQueueDepths κ) (topic : Bytes) (readers : SortedMap Nat UInt64) (now : Int) :
    ReaderQueueDepths κ :=
  { depths with observer := emitAll depths.observer (recordQueueDepth topic (totalPending readers)) now }

/-- The new reader's id is no key yet. -/
def ReaderQueueDepths.add (depths : ReaderQueueDepths κ) (topic : Bytes) : ReaderQueueDepths κ × Nat :=
  let id := depths.nextId
  ({ depths with
      nextId := id + 1
      pendingByTopic := depths.pendingByTopic.modify topic .empty (·.insert id 0) }, id)

def ReaderQueueDepths.update (depths : ReaderQueueDepths κ) (topic : Bytes) (id : Nat) (pending : UInt64) (now : Int) :
    ReaderQueueDepths κ :=
  match depths.pendingByTopic.find? topic with
  | none => depths
  | some readers =>
    if (readers.find? id).isNone then depths
    else
      let readers := readers.assign id pending
      { depths with pendingByTopic := depths.pendingByTopic.assign topic readers }.recordTotal topic readers now

def ReaderQueueDepths.remove (depths : ReaderQueueDepths κ) (topic : Bytes) (id : Nat) (now : Int) : ReaderQueueDepths κ :=
  match depths.pendingByTopic.find? topic with
  | none => depths
  | some readers =>
    if (readers.find? id).isNone then depths
    else
      let readers := readers.erase id
      if readers.entries.isEmpty then
        { depths with
          pendingByTopic := depths.pendingByTopic.erase topic
          observer := emitAll depths.observer (recordQueueDepth topic 0) now }
      else { depths with pendingByTopic := depths.pendingByTopic.assign topic readers }.recordTotal topic readers now

/-! ## Histories -/

/-- `observe` is a call of the observer from elsewhere. -/
inductive DepthCall (κ : Type) where
  | add (topic : Bytes)
  | update (topic : Bytes) (id : Nat) (pending : UInt64) (now : Int)
  | remove (topic : Bytes) (id : Nat) (now : Int)
  | observe (call : Call κ)

def ReaderQueueDepths.perform (depths : ReaderQueueDepths κ) : DepthCall κ → ReaderQueueDepths κ
  | .add topic => (depths.add topic).1
  | .update topic id pending now => depths.update topic id pending now
  | .remove topic id now => depths.remove topic id now
  | .observe call => { depths with observer := depths.observer.perform call }

structure OpenReader where
  id : Nat
  topic : Bytes
  pending : UInt64

/-- The readers that are open, and the number of those ever added. -/
structure OpenReaders where
  readers : List OpenReader := []
  added : Nat := 0

def OpenReaders.after (opened : OpenReaders) : DepthCall κ → OpenReaders
  | .add topic => { readers := opened.readers ++ [⟨opened.added, topic, 0⟩], added := opened.added + 1 }
  | .update topic id pending _ =>
    { opened with readers := opened.readers.map fun reader =>
        if reader.topic = topic ∧ reader.id = id then { reader with pending } else reader }
  | .remove topic id _ =>
    { opened with readers := opened.readers.filter fun reader => ¬(reader.topic = topic ∧ reader.id = id) }
  | .observe _ => opened

def openReaders (calls : List (DepthCall κ)) : List OpenReader := (calls.foldl OpenReaders.after {}).readers

def readersOf (topic : Bytes) (readers : List OpenReader) : List OpenReader := readers.filter fun reader => reader.topic = topic

/-- The sum of what the open readers of a topic reported last. -/
def pendingOf (topic : Bytes) (readers : List OpenReader) : UInt64 := ((readersOf topic readers).map (·.pending)).sum

/-- What the metrics of a topic show. -/
def depthOf (topic : Bytes) (observer : Observer κ) : UInt64 :=
  ((observer.topics.find? topic).getD {}).metrics.queueDepth

/-- The other calls leave the observer enabled and record no queue depth of their own. -/
def Undisturbed : DepthCall κ → Prop
  | .observe (.setEnabled _) => False
  | .observe (.emit event _) => event.kind ≠ .queueDepth
  | _ => True

/-! ## The metric -/

theorem TopicAccumulator.apply_queueDepth (topic : TopicAccumulator) (event : Event) :
    (topic.apply event).metrics.queueDepth =
      if event.kind = .queueDepth then event.queueDepth else topic.metrics.queueDepth := by
  unfold TopicAccumulator.apply
  cases hkind : event.kind with
  | topicReceived =>
    simp only [TopicAccumulator.received]
    split <;> rfl
  | topicPublished => rfl
  | queueDepth => rfl
  | taskExecution => rfl
  | deadlineMiss => rfl

theorem depthOf_apply (topic : Bytes) (observer : Observer κ) (event : Event) :
    depthOf topic (observer.apply event) =
      if event.kind = .queueDepth ∧ event.resource = topic then event.queueDepth else depthOf topic observer := by
  unfold depthOf
  rw [apply_topics]
  by_cases hkind : event.kind.ofTopic = true
  · rw [if_pos hkind, SortedMap.modify, SortedMap.find?_insert]
    by_cases hname : topic = event.resource
    · rw [if_pos hname, Option.getD_some, TopicAccumulator.apply_queueDepth, hname]
      simp
    · rw [if_neg hname, if_neg fun h => hname h.2.symm]
  · rw [if_neg hkind, if_neg]
    rintro ⟨hdepth, -⟩
    rw [hdepth] at hkind
    exact hkind rfl

theorem depthOf_record {observer : Observer κ} (henabled : observer.options.enabled = true) (topic name : Bytes)
    (depth : UInt64) (now : Int) :
    depthOf name (emitAll observer (recordQueueDepth topic depth) now) = if name = topic then depth
    else depthOf name observer := by
  have hemit : emitAll observer (recordQueueDepth topic depth) now =
      observer.apply (Event.stamped { kind := .queueDepth, resource := topic, queueDepth := depth } now) := by
    simp [emitAll, recordQueueDepth, Observer.emit, henabled]
  rw [hemit, depthOf_apply]
  simp [Event.stamped, eq_comm]

theorem emitAll_options (observer : Observer κ) (events : List Event) (now : Int) :
    (emitAll observer events now).options = observer.options := by
  induction events generalizing observer with
  | nil => rfl
  | cons event events ih => exact (ih _).trans (emit_options observer event now)

/-- The other calls keep the depths, and the observer enabled. -/
theorem depthOf_perform {observer : Observer κ} (henabled : observer.options.enabled = true) {call : Call κ}
    (h : Undisturbed (.observe call)) (topic : Bytes) :
    depthOf topic (observer.perform call) = depthOf topic observer ∧ (observer.perform call).options.enabled = true := by
  cases call with
  | emit event now =>
    have hemit : observer.perform (.emit event now) = observer.apply (event.stamped now) := by
      simp [Observer.perform, Observer.emit, henabled]
    have hkind : (event.stamped now).kind = event.kind := by
      unfold Event.stamped
      split <;> rfl
    rw [hemit, depthOf_apply, if_neg fun hdepth => h (hkind ▸ hdepth.1), apply_options]
    exact ⟨rfl, henabled⟩
  | setEnabled enabled => exact h.elim
  | setEventCallback callback => exact ⟨rfl, henabled⟩
  | setMetricsCallback callback => exact ⟨rfl, henabled⟩
  | setLogCallback callback => exact ⟨rfl, henabled⟩

/-! ## The readers of a topic -/

def pairs (topic : Bytes) (readers : List OpenReader) : List (Nat × UInt64) :=
  (readersOf topic readers).map fun reader => (reader.id, reader.pending)

def entriesOf (topic : Bytes) (depths : ReaderQueueDepths κ) : List (Nat × UInt64) :=
  ((depths.pendingByTopic.find? topic).getD .empty).entries

theorem pairs_add (name topic : Bytes) (id : Nat) (readers : List OpenReader) :
    pairs name (readers ++ [⟨id, topic, 0⟩]) = pairs name readers ++ if name = topic then [(id, 0)] else [] := by
  unfold pairs readersOf
  by_cases h : topic = name
  · simp [List.filter_append, h]
  · simp [List.filter_append, h, Ne.symm h]

theorem pairs_update (name topic : Bytes) (id : Nat) (pending : UInt64) (readers : List OpenReader) :
    pairs name (readers.map fun reader => if reader.topic = topic ∧ reader.id = id then { reader with pending } else reader) =
      if name = topic then (pairs name readers).map fun entry => if entry.1 = id then (entry.1, pending) else entry
      else pairs name readers := by
  unfold pairs readersOf
  induction readers with
  | nil => simp
  | cons reader readers ih =>
    by_cases hname : name = topic
    · by_cases htopic : reader.topic = topic
      · by_cases hid : reader.id = id <;> simp_all
      · simp_all
    · by_cases htopic : reader.topic = topic
      · by_cases hid : reader.id = id <;> simp_all [eq_comm]
      · by_cases hown : reader.topic = name <;> simp_all

theorem pairs_remove (name topic : Bytes) (id : Nat) (readers : List OpenReader) :
    pairs name (readers.filter fun reader => ¬(reader.topic = topic ∧ reader.id = id)) =
      if name = topic then (pairs name readers).filter fun entry => entry.1 ≠ id else pairs name readers := by
  unfold pairs readersOf
  induction readers with
  | nil => simp
  | cons reader readers ih =>
    by_cases hname : name = topic
    · by_cases htopic : reader.topic = topic
      · by_cases hid : reader.id = id <;> simp_all
      · simp_all
    · by_cases htopic : reader.topic = topic
      · by_cases hid : reader.id = id <;> simp_all [eq_comm]
      · by_cases hown : reader.topic = name <;> simp_all

theorem pendingOf_eq (topic : Bytes) (readers : List OpenReader) :
    pendingOf topic readers = ((pairs topic readers).map Prod.snd).sum := by
  rw [pendingOf, pairs, List.map_map]
  rfl

theorem totalPending_eq (readers : SortedMap Nat UInt64) : totalPending readers = (readers.entries.map Prod.snd).sum := by
  rw [totalPending, List.sum_eq_foldl, List.foldl_map]

/-! ## Agreement -/

/-- The map has the open readers under their topics, and the metrics have their sums. -/
structure Tracks (depths : ReaderQueueDepths κ) (opened : OpenReaders) : Prop where
  next : depths.nextId = opened.added
  entries : ∀ topic, entriesOf topic depths = pairs topic opened.readers
  nonempty : ∀ topic readers, depths.pendingByTopic.find? topic = some readers → readers.entries ≠ []
  below : ∀ reader ∈ opened.readers, reader.id < opened.added
  enabled : depths.observer.options.enabled = true
  depth : ∀ topic, depthOf topic depths.observer = pendingOf topic opened.readers

variable {depths : ReaderQueueDepths κ} {opened : OpenReaders}

theorem Tracks.add (h : Tracks depths opened) (topic : Bytes) :
    Tracks (depths.add topic).1 (opened.after (κ := κ) (.add topic)) := by
  have hlast : ((((depths.pendingByTopic.find? topic).getD .empty).insert depths.nextId 0)).entries =
      pairs topic opened.readers ++ [(opened.added, 0)] := by
    rw [← h.entries topic, ← h.next]
    refine insertEntry_last 0 fun entry hentry => ?_
    have hmem : entry ∈ pairs topic opened.readers := by
      rw [← h.entries topic]
      exact hentry
    obtain ⟨reader, hreader, rfl⟩ := List.mem_map.mp hmem
    rw [h.next]
    exact h.below reader (List.mem_filter.mp hreader).1
  refine ⟨?_, ?_, ?_, ?_, h.enabled, ?_⟩
  · exact congrArg (· + 1) h.next
  · intro name
    have hfind := SortedMap.find?_insert depths.pendingByTopic topic
      (((depths.pendingByTopic.find? topic).getD .empty).insert depths.nextId 0) name
    show (((depths.pendingByTopic.modify topic .empty (·.insert depths.nextId 0)).find? name).getD .empty).entries = _
    rw [SortedMap.modify, hfind]
    show _ = pairs name (opened.readers ++ [⟨opened.added, topic, 0⟩])
    rw [pairs_add]
    by_cases hname : name = topic
    · rw [if_pos hname, if_pos hname, hname]
      exact hlast
    · rw [if_neg hname, if_neg hname, List.append_nil]
      exact h.entries name
  · intro name readers hfind
    have hinsert : (depths.pendingByTopic.modify topic .empty (·.insert depths.nextId 0)).find? name = some readers := hfind
    rw [SortedMap.modify, SortedMap.find?_insert] at hinsert
    split at hinsert
    · cases hinsert
      rw [hlast]
      exact List.append_ne_nil_of_right_ne_nil _ (List.cons_ne_nil _ _)
    · exact h.nonempty name readers hinsert
  · intro reader hreader
    rcases List.mem_append.mp hreader with hold | hnew
    · exact Nat.lt_succ_of_lt (h.below reader hold)
    · rw [List.mem_singleton.mp hnew]
      exact Nat.lt_succ_self _
  · intro name
    show depthOf name depths.observer = pendingOf name (opened.readers ++ [⟨opened.added, topic, 0⟩])
    rw [h.depth name, pendingOf_eq, pendingOf_eq, pairs_add]
    split <;> simp

theorem below_update {bound : Nat} {readers : List OpenReader} (h : ∀ reader ∈ readers, reader.id < bound) (topic : Bytes)
    (id : Nat) (pending : UInt64) :
    ∀ reader ∈ readers.map (fun reader => if reader.topic = topic ∧ reader.id = id then { reader with pending } else reader),
      reader.id < bound := by
  intro reader hreader
  obtain ⟨old, hold, rfl⟩ := List.mem_map.mp hreader
  have hid := h old hold
  split <;> exact hid

/-- The open readers of a topic are the keys of its map. -/
theorem Tracks.find_id (h : Tracks depths opened) {topic : Bytes} {readers : SortedMap Nat UInt64}
    (hfind : depths.pendingByTopic.find? topic = some readers) (id : Nat) :
    readers.find? id = none ↔ ∀ entry ∈ pairs topic opened.readers, entry.1 ≠ id := by
  rw [SortedMap.find?_eq_none, ← h.entries topic, entriesOf, hfind, Option.getD_some]

theorem Tracks.find_topic (h : Tracks depths opened) {topic : Bytes} (hfind : depths.pendingByTopic.find? topic = none) :
    pairs topic opened.readers = [] := by
  rw [← h.entries topic, entriesOf, hfind]
  rfl

/-- A report of a reader that is not open changes nothing. -/
theorem Tracks.update_absent (h : Tracks depths opened) {topic : Bytes} {id : Nat}
    (habsent : ∀ entry ∈ pairs topic opened.readers, entry.1 ≠ id) (pending : UInt64) (now : Int) :
    Tracks depths (opened.after (κ := κ) (.update topic id pending now)) := by
  have hpairs : ∀ name, pairs name (opened.after (κ := κ) (.update topic id pending now)).readers =
    pairs name opened.readers := by
    intro name
    rw [OpenReaders.after, pairs_update]
    split
    · next hname =>
      rw [hname]
      have hsame : ∀ entry ∈ pairs topic opened.readers, (if entry.1 = id then (entry.1, pending) else entry) = entry :=
        fun entry hentry => if_neg (habsent entry hentry)
      exact (List.map_congr_left hsame).trans (List.map_id _)
    · rfl
  exact ⟨h.next, fun name => (h.entries name).trans (hpairs name).symm, h.nonempty, below_update h.below topic id pending,
    h.enabled, fun name => by rw [h.depth name, pendingOf_eq, pendingOf_eq, hpairs name]⟩

theorem Tracks.remove_absent (h : Tracks depths opened) {topic : Bytes} {id : Nat}
    (habsent : ∀ entry ∈ pairs topic opened.readers, entry.1 ≠ id) (now : Int) :
    Tracks depths (opened.after (κ := κ) (.remove topic id now)) := by
  have hpairs : ∀ name, pairs name (opened.after (κ := κ) (.remove topic id now)).readers = pairs name opened.readers := by
    intro name
    rw [OpenReaders.after, pairs_remove]
    split
    · next hname =>
      rw [hname]
      exact List.filter_eq_self.mpr fun entry hentry => decide_eq_true (habsent entry hentry)
    · rfl
  exact ⟨h.next, fun name => (h.entries name).trans (hpairs name).symm, h.nonempty,
    fun reader hreader => h.below reader (List.mem_filter.mp hreader).1,
    h.enabled, fun name => by rw [h.depth name, pendingOf_eq, pendingOf_eq, hpairs name]⟩

/-- The readers of one topic change, to none or to `more`, and their sum is recorded. -/
theorem Tracks.changes (h : Tracks depths opened) {changed : ReaderQueueDepths κ} {after : OpenReaders} {topic : Bytes}
    {more : Option (SortedMap Nat UInt64)} {now : Int} (hnonempty : ∀ readers, more = some readers → readers.entries ≠ [])
    (hfind : ∀ name, changed.pendingByTopic.find? name = if name = topic then more else depths.pendingByTopic.find? name)
    (hpairs : ∀ name, pairs name after.readers = if name = topic then (more.getD .empty).entries else pairs name opened.readers)
    (hnext : changed.nextId = after.added) (hbelow : ∀ reader ∈ after.readers, reader.id < after.added)
    (hobserver : changed.observer = emitAll depths.observer (recordQueueDepth topic (totalPending (more.getD .empty))) now) :
    Tracks changed after := by
  refine ⟨hnext, fun name => ?_, fun name readers hreaders => ?_, hbelow, ?_, fun name => ?_⟩
  · rw [entriesOf, hfind, hpairs]
    split
    · rfl
    · exact h.entries name
  · rw [hfind] at hreaders
    split at hreaders
    · exact hnonempty readers hreaders
    · exact h.nonempty name readers hreaders
  · rw [hobserver]
    exact (congrArg Options.enabled (emitAll_options _ _ _)).trans h.enabled
  · rw [hobserver, depthOf_record h.enabled, pendingOf_eq, hpairs, totalPending_eq]
    split
    · rfl
    · rw [h.depth name, pendingOf_eq]

theorem find?_assign_topic {pendingByTopic : SortedMap Bytes (SortedMap Nat UInt64)} {topic : Bytes}
    {readers : SortedMap Nat UInt64} (hfind : pendingByTopic.find? topic = some readers) (more : SortedMap Nat UInt64)
    (name : Bytes) :
    (pendingByTopic.assign topic more).find? name = if name = topic then some more else pendingByTopic.find? name := by
  rw [SortedMap.find?_assign]
  split
  · next hname => rw [hname, hfind, Option.map_some]
  · rfl

theorem Tracks.update (h : Tracks depths opened) (topic : Bytes) (id : Nat) (pending : UInt64) (now : Int) :
    Tracks (depths.update topic id pending now) (opened.after (κ := κ) (.update topic id pending now)) := by
  unfold ReaderQueueDepths.update
  cases hfind : depths.pendingByTopic.find? topic with
  | none => exact h.update_absent (by simp [h.find_topic hfind]) pending now
  | some readers =>
    cases hid : (readers.find? id).isNone with
    | true =>
      simp only [hid, if_true]
      exact h.update_absent ((h.find_id hfind id).mp (Option.isNone_iff_eq_none.mp hid)) pending now
    | false =>
      simp only [hid, Bool.false_eq_true, if_false]
      have hassign : (readers.assign id pending).entries =
          (pairs topic opened.readers).map fun entry => if entry.1 = id then (entry.1, pending) else entry := by
        rw [← h.entries topic, entriesOf, hfind]
        rfl
      refine h.changes ?_ (find?_assign_topic hfind _) (fun name => ?_) h.next (below_update h.below topic id pending) rfl
      · intro more hmore
        cases hmore
        exact List.map_eq_nil_iff.not.mpr (h.nonempty topic readers hfind)
      · rw [OpenReaders.after, pairs_update, Option.getD_some, hassign]
        split
        · next hname => rw [hname]
        · rfl

theorem Tracks.remove (h : Tracks depths opened) (topic : Bytes) (id : Nat) (now : Int) :
    Tracks (depths.remove topic id now) (opened.after (κ := κ) (.remove topic id now)) := by
  unfold ReaderQueueDepths.remove
  cases hfind : depths.pendingByTopic.find? topic with
  | none => exact h.remove_absent (by simp [h.find_topic hfind]) now
  | some readers =>
    cases hid : (readers.find? id).isNone with
    | true =>
      simp only [hid, if_true]
      exact h.remove_absent ((h.find_id hfind id).mp (Option.isNone_iff_eq_none.mp hid)) now
    | false =>
      simp only [hid, Bool.false_eq_true, if_false]
      have hpairs : ∀ name, pairs name (opened.after (κ := κ) (.remove topic id now)).readers =
          if name = topic then (readers.erase id).entries else pairs name opened.readers := by
        have herase : (readers.erase id).entries = (pairs topic opened.readers).filter fun entry => entry.1 ≠ id := by
          rw [← h.entries topic, entriesOf, hfind]
          rfl
        intro name
        rw [OpenReaders.after, pairs_remove, herase]
        split
        · next hname => rw [hname]
        · rfl
      have hbelow : ∀ reader ∈ (opened.after (κ := κ) (.remove topic id now)).readers, reader.id < opened.added :=
        fun reader hreader => h.below reader (List.mem_filter.mp hreader).1
      cases hempty : (readers.erase id).entries.isEmpty with
      | true =>
        simp only [if_true]
        refine h.changes (fun more hmore => ?_) (SortedMap.find?_erase _ topic) (fun name => ?_) h.next hbelow rfl
        · cases hmore
        · rw [hpairs, List.isEmpty_iff.mp hempty]
          rfl
      | false =>
        simp only [Bool.false_eq_true, if_false]
        refine h.changes (fun more hmore => ?_) (find?_assign_topic hfind _) hpairs h.next hbelow rfl
        cases hmore
        exact List.isEmpty_eq_false_iff.mp hempty

theorem Tracks.perform (h : Tracks depths opened) {call : DepthCall κ} (hcall : Undisturbed call) :
    Tracks (depths.perform call) (opened.after call) := by
  cases call with
  | add topic => exact h.add topic
  | update topic id pending now => exact h.update topic id pending now
  | remove topic id now => exact h.remove topic id now
  | observe call =>
    have hkept := depthOf_perform h.enabled hcall
    exact ⟨h.next, h.entries, h.nonempty, h.below, (hkept []).2, fun topic => (hkept topic).1.trans (h.depth topic)⟩

theorem tracks_run (options : Options κ) (write : κ) (startedAt : Int) (henabled : options.enabled = true)
    (calls : List (DepthCall κ)) (hcalls : ∀ call ∈ calls, Undisturbed call) :
    Tracks (calls.foldl ReaderQueueDepths.perform { observer := .create options write startedAt })
      (calls.foldl OpenReaders.after {}) := by
  induction calls using List.reverseRecOn with
  | nil =>
    refine ⟨rfl, fun _ => rfl, ?_, fun _ hreader => absurd hreader List.not_mem_nil, ?_, fun _ => rfl⟩
    · intro topic readers hfind
      cases hfind
    · exact (create_enabled options write startedAt).trans henabled
  | append_singleton calls call ih =>
    rw [List.foldl_append, List.foldl_append]
    exact (ih fun call hcall => hcalls call (List.mem_append_left _ hcall)).perform
      (hcalls call (List.mem_append_right _ List.mem_cons_self))

/-- In every history the metric of a topic is the sum of what its open readers reported last,
and the map has a topic exactly while it has open readers. -/
theorem depths_agree (options : Options κ) (write : κ) (startedAt : Int) (henabled : options.enabled = true)
    (calls : List (DepthCall κ)) (hcalls : ∀ call ∈ calls, Undisturbed call) (topic : Bytes) :
    let depths := calls.foldl ReaderQueueDepths.perform { observer := .create options write startedAt }
    depthOf topic depths.observer = pendingOf topic (openReaders calls)
      ∧ (depths.pendingByTopic.find? topic = none ↔ readersOf topic (openReaders calls) = []) := by
  intro depths
  have htracks := tracks_run options write startedAt henabled calls hcalls
  refine ⟨htracks.depth topic, ?_⟩
  constructor
  · intro hnone
    exact List.map_eq_nil_iff.mp (htracks.find_topic hnone)
  · intro hempty
    have hentries := htracks.entries topic
    rw [pairs, show readersOf topic (calls.foldl OpenReaders.after {}).readers = [] from hempty] at hentries
    cases hfind : depths.pendingByTopic.find? topic with
    | none => rfl
    | some readers =>
      rw [entriesOf, show (calls.foldl ReaderQueueDepths.perform _).pendingByTopic.find? topic =
        some readers from hfind] at hentries
      exact absurd hentries (htracks.nonempty topic readers hfind)

/-- Two readers, a late report of the first. -/
def lateReport : List (DepthCall Unit) :=
  [.add (text "poses"), .add (text "poses"), .update (text "poses") 0 4 10, .update (text "poses") 1 2 20,
    .remove (text "poses") 0 30, .update (text "poses") 0 9 40]

theorem depths_agree_lateReport :
    let depths := lateReport.foldl ReaderQueueDepths.perform { observer := .create {} () 0 }
    depthOf (text "poses") depths.observer = 2 := by
  have hcalls : ∀ call ∈ lateReport, Undisturbed call := by
    intro call hcall
    simp only [lateReport, List.mem_cons, List.not_mem_nil, or_false] at hcall
    rcases hcall with rfl | rfl | rfl | rfl | rfl | rfl <;> trivial
  have hagree := (depths_agree {} () 0 rfl lateReport hcalls (text "poses")).1
  exact hagree.trans (by decide +kernel)

end PuppetMaster.Runtime
