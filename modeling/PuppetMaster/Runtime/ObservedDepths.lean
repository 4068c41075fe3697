/-
  PuppetMaster.Runtime.ObservedDepths — the queue depth of a topic while many threads read it
  and write to it.

  A report counts what a reader's queue holds in one turn and is recorded in a later one, and
  the queue can change between the two. Every change is followed by a report of its own
  (`Settles`), so what counts is the last report to be counted. `InOrder`: of two reports of
  one reader, the one that was counted first is recorded first; nothing is in a reader's queue
  before its callback is set, and what is pending can be counted.

  `depth_is_exact`: then the metric is what the readers of the topic hold, whenever no thread
  has anything left to do. `a_late_report_stays`: without the order an old count can be the
  last that is recorded, and the metric keeps it.
-/

import PuppetMaster.Runtime.ObservedEndpoints

namespace PuppetMaster.Runtime

open PuppetMaster.Core PuppetMaster.Lib PuppetMaster.Observability

variable {κ : Type}

/-! ## Reports -/

def EndpointAction.countsFor (reader : Nat) : EndpointAction → Option Unit
  | .counts counted => if counted = reader then some () else none
  | _ => none

/-- What was counted for a report, and its number. -/
def EndpointAction.reportOf (reader : Nat) : EndpointAction → Option (UInt64 × Nat)
  | .updates counted pending ticket => if counted = reader then some (pending, ticket) else none
  | _ => none

/-- The reports of a reader that are still to be counted. -/
def counting (reader : Nat) (threads : List (List EndpointAction)) : List Unit := flying (·.countsFor reader) threads

/-- Those that were counted, and are still to be recorded. -/
def reports (reader : Nat) (threads : List (List EndpointAction)) : List (UInt64 × Nat) := flying (·.reportOf reader) threads

/-- The thread does not record a report of a reader before an older one. -/
def Endpoints.oldest (s : Endpoints κ) (thread : Nat) : Bool :=
  match s.threads[thread]? with
  | some (.updates reader _ ticket :: _) => (reports reader s.threads).all fun report => ticket ≤ report.2
  | _ => true

def Endpoints.InOrder (s : Endpoints κ) : EndpointMove → Prop
  | .opens _ queue => queue = []
  | .turn thread _ countable => countable = true ∧ s.oldest thread = true
  | _ => True

instance (s : Endpoints κ) (move : EndpointMove) : Decidable (s.InOrder move) :=
  match move with
  | .opens _ queue => decidable_of_iff (queue.isEmpty = true) List.isEmpty_iff
  | .turn _ _ _ => inferInstanceAs (Decidable (_ ∧ _))
  | .changes _ _ => .isTrue trivial
  | .reads _ _ => .isTrue trivial
  | .readFails _ _ => .isTrue trivial
  | .writes _ _ _ => .isTrue trivial
  | .writesWith _ _ _ => .isTrue trivial
  | .destroys _ _ => .isTrue trivial

/-- What the readers of a topic hold. -/
def heldOn (topic : Bytes) (readers : List ObservedReader) : Nat :=
  ((readers.filter fun observed => !observed.destroyed && observed.topic = topic).map (·.queue.length)).sum

/-! ## The last report -/

/-- The report that was counted last is right, or what was recorded if there is none. -/
def Settles (queue : List Message) (reported : UInt64) (reports : List (UInt64 × Nat)) : Prop :=
  (reports = [] → reported = UInt64.ofNat queue.length)
    ∧ ∀ report ∈ reports, (∀ other ∈ reports, other.2 ≤ report.2) → report.1 = UInt64.ofNat queue.length

section settles

variable {queue : List Message} {reported : UInt64} {before after : List (UInt64 × Nat)}

theorem Settles.perm (h : Settles queue reported before) (hperm : before.Perm after) : Settles queue reported after := by
  refine ⟨fun hnil => h.1 (List.Perm.eq_nil (hnil ▸ hperm)), fun report hreport hlast => ?_⟩
  exact h.2 report (hperm.mem_iff.mpr hreport) fun other hother => hlast other (hperm.mem_iff.mp hother)

theorem settles_counted (queue : List Message) (reported : UInt64) {ticket : Nat} (hless : ∀ report ∈ before, report.2 < ticket) :
    Settles queue reported ((UInt64.ofNat queue.length, ticket) :: before) := by
  refine ⟨fun hnil => (nomatch hnil), fun report hreport hlast => ?_⟩
  rcases List.mem_cons.mp hreport with rfl | hold
  · rfl
  · have hnew := hlast _ List.mem_cons_self
    have hold := hless report hold
    omega

/-- Recorded in order, the last report is still to come, or it is this one. -/
theorem Settles.recorded {pending : UInt64} {ticket : Nat} (h : Settles queue reported ((pending, ticket) :: before))
    (holdest : ∀ report ∈ before, ticket ≤ report.2) : Settles queue pending before := by
  constructor
  · rintro rfl
    refine h.2 (pending, ticket) List.mem_cons_self fun other hother => ?_
    rw [List.mem_singleton.mp hother]
  · intro report hreport hlast
    refine h.2 report (List.mem_cons_of_mem _ hreport) fun other hother => ?_
    rcases List.mem_cons.mp hother with rfl | hother
    · exact holdest report hreport
    · exact hlast other hother

end settles

/-! ## What the map tracks -/

/-- The living readers, with what was recorded of each. -/
def openOf (reported : Nat → UInt64) (readers : List ObservedReader) : List OpenReader :=
  readers.filterMap fun observed => if observed.destroyed then none else some ⟨observed.id, observed.topic, reported observed.id⟩

structure Current (s : Endpoints κ) (reported : Nat → UInt64) : Prop where
  ids : ∀ (i : Nat) (observed : ObservedReader), s.readers[i]? = some observed → observed.id = i
  known : ∀ actions ∈ s.threads, ∀ action ∈ actions, ∀ reader, action.reader = some reader → reader < s.readers.length
  tickets : ∀ reader, ∀ report ∈ reports reader s.threads, report.2 < s.counted
  settles : ∀ (i : Nat) (observed : ObservedReader), s.living i = some observed → counting i s.threads = [] →
    Settles observed.queue (reported i) (reports i s.threads)
  tracks : Tracks s.depths { readers := openOf reported s.readers, added := s.readers.length }

variable {s next : Endpoints κ} {reported : Nat → UInt64}

theorem living_eq {reader : Nat} {observed : ObservedReader} (h : s.living reader = some observed) :
    s.readers[reader]? = some observed ∧ observed.destroyed = false := by
  obtain ⟨hget, hdestroyed⟩ := Option.filter_eq_some_iff.mp h
  exact ⟨hget, by simpa using hdestroyed⟩

/-- The reader that was set, or one that was there before. -/
theorem reader_of_set {readers : List ObservedReader} {reader i : Nat} {observed changed other : ObservedReader}
    (hget : readers[reader]? = some observed) (hother : (readers.set reader changed)[i]? = some other) :
    i = reader ∧ other = changed ∨ readers[i]? = some other := by
  rw [getElem?_set_cases hget] at hother
  split at hother
  · next hsame =>
    cases hother
    exact .inl ⟨hsame, rfl⟩
  · exact .inr hother

/-- A change of a reader's queue is not the map's. -/
theorem openOf_set {readers : List ObservedReader} {reader : Nat} {observed : ObservedReader}
    (hget : readers[reader]? = some observed) (queue : List Message) :
    openOf reported (readers.set reader { observed with queue }) = openOf reported readers := filterMap_set_eq hget rfl

theorem openOf_update {readers : List ObservedReader}
    (hids : ∀ (i : Nat) (observed : ObservedReader), readers[i]? = some observed →
      observed.id = i) {reader : Nat} {observed : ObservedReader} (hget : readers[reader]? = some observed) (pending : UInt64) :
    openOf (Function.update reported observed.id pending) readers = (openOf reported readers).map fun opened =>
      if opened.topic = observed.topic ∧ opened.id = observed.id then { opened with pending } else opened := by
  rw [openOf, openOf, List.map_filterMap]
  refine List.filterMap_congr fun other hother => ?_
  obtain ⟨j, hj⟩ := List.mem_iff_getElem?.mp hother
  cases hdestroyed : other.destroyed with
  | true => rfl
  | false =>
    by_cases hid : other.id = observed.id
    · have hsame : j = reader := by rw [← hids j other hj, ← hids reader observed hget, hid]
      rw [hsame, hget] at hj
      cases hj
      simp
    · simp [hid]

theorem openOf_destroy {readers : List ObservedReader}
    (hids : ∀ (i : Nat) (observed : ObservedReader), readers[i]? = some observed →
      observed.id = i) {reader : Nat} {observed : ObservedReader} (hget : readers[reader]? = some observed) :
    openOf reported (readers.set reader { observed with destroyed := true }) =
      (openOf reported readers).filter fun opened => ¬(opened.topic = observed.topic ∧ opened.id = observed.id) := by
  rw [openOf, openOf, List.filter_filterMap]
  refine filterMap_set_congr hget ?_ fun j other hj hne => ?_
  · cases hdestroyed : observed.destroyed <;> simp [Option.filter]
  · have hid : other.id ≠ observed.id := by
      rw [hids j other hj, hids reader observed hget]
      exact hne
    cases hdestroyed : other.destroyed <;> simp [Option.filter, hid]

theorem openOf_new {readers : List ObservedReader} (hids : ∀ (i : Nat) (observed : ObservedReader), readers[i]? = some observed →
      observed.id = i) (topic : Bytes) :
    openOf (Function.update reported readers.length 0) (readers ++ [{ id := readers.length, topic, queue := [] }]) =
      openOf reported readers ++ [⟨readers.length, topic, 0⟩] := by
  have hold : openOf (Function.update reported readers.length 0) readers = openOf reported readers := by
    refine List.filterMap_congr fun other hother => ?_
    obtain ⟨j, hj⟩ := List.mem_iff_getElem?.mp hother
    obtain ⟨hlt, -⟩ := List.getElem?_eq_some_iff.mp hj
    have hid : other.id ≠ readers.length := by
      rw [hids j other hj]
      omega
    rw [Function.update_of_ne hid]
  rw [openOf, List.filterMap_append]
  refine congrArg₂ (· ++ ·) hold ?_
  simp

/-! ## Actions and readers -/

theorem flying_append {β : Type} (f : EndpointAction → Option β) (threads : List (List EndpointAction))
    (actions : List EndpointAction) : flying f (threads ++ [actions]) = flying f threads ++ actions.filterMap f := by
  simp [flying]

theorem countsFor_reader {reader : Nat} {action : EndpointAction} (h : action.reader ≠ some reader) :
    action.countsFor reader = none ∧ action.reportOf reader = none := by
  cases action with
  | counts counted => exact ⟨if_neg fun heq => h (congrArg some heq), rfl⟩
  | updates counted pending ticket => exact ⟨rfl, if_neg fun heq => h (congrArg some heq)⟩
  | received topic bytes latency => exact ⟨rfl, rfl⟩
  | published topic bytes => exact ⟨rfl, rfl⟩
  | logs record => exact ⟨rfl, rfl⟩

/-- Actions that are about other readers. -/
theorem about_others {actions : List EndpointAction} {reader : Nat} (h : ∀ action ∈ actions, action.reader ≠ some reader) :
    actions.filterMap (·.countsFor reader) = [] ∧ actions.filterMap (·.reportOf reader) = [] :=
  ⟨List.filterMap_eq_nil_iff.mpr fun action haction => (countsFor_reader (h action haction)).1,
    List.filterMap_eq_nil_iff.mpr fun action haction => (countsFor_reader (h action haction)).2⟩

theorem Current.unknown (h : Current s reported) {reader : Nat} (hreader : s.readers.length ≤ reader) :
    counting reader s.threads = [] ∧ reports reader s.threads = [] := by
  have hothers : ∀ actions ∈ s.threads, ∀ action ∈ actions, action.reader ≠ some reader := by
    intro actions hactions action haction hsome
    have hknown := h.known actions hactions action haction reader hsome
    omega
  constructor
  · exact List.flatMap_eq_nil_iff.mpr fun actions hactions => (about_others (hothers actions hactions)).1
  · exact List.flatMap_eq_nil_iff.mpr fun actions hactions => (about_others (hothers actions hactions)).2

/-! ## What a move keeps -/

theorem Current.opens (h : Current s reported) (topic : Bytes) :
    Current { s with
      depths := (s.depths.add topic).1
      readers := s.readers ++ [{ id := (s.depths.add topic).2, topic, queue := [] }] }
      (Function.update reported s.readers.length 0) := by
  have hid : (s.depths.add topic).2 = s.readers.length := h.tracks.next
  rw [hid]
  obtain ⟨hcounting, hreports⟩ := h.unknown (Nat.le_refl _)
  refine ⟨?_, ?_, h.tickets, ?_, ?_⟩
  · intro i observed hget
    rcases getElem?_concat_cases hget with hold | ⟨rfl, rfl⟩
    · exact h.ids i observed hold
    · rfl
  · intro actions hactions action haction reader hreader
    have hknown := h.known actions hactions action haction reader hreader
    rw [List.length_append]
    omega
  · intro i observed hliving hnone
    obtain ⟨hget, hdestroyed⟩ := living_eq hliving
    rcases getElem?_concat_cases hget with hold | ⟨rfl, rfl⟩
    · obtain ⟨hlt, -⟩ := List.getElem?_eq_some_iff.mp hold
      have hsame : s.living i = some observed := by simp [Endpoints.living, hold, hdestroyed]
      rw [Function.update_of_ne (by omega)]
      exact h.settles i observed hsame hnone
    · rw [Function.update_self]
      refine ⟨fun _ => rfl, fun report hreport => ?_⟩
      rw [show reports s.readers.length s.threads = [] from hreports] at hreport
      cases hreport
  · have hadd := h.tracks.add topic
    rw [openOf_new h.ids topic, List.length_append]
    exact hadd

/-- A change of a queue, and the report behind it. -/
theorem Current.changes (h : Current s reported) {reader : Nat} {observed : ObservedReader}
    (hliving : s.living reader = some observed) (queue : List Message) (front : List EndpointAction)
    (hfront : ∀ action ∈ front, action.reader = none) (answers : List Answer) :
    Current { s with
      readers := s.readers.set reader { observed with queue }
      threads := s.threads ++ [front ++ [.counts reader]]
      answers } reported := by
  obtain ⟨hget, -⟩ := living_eq hliving
  obtain ⟨hlt, -⟩ := List.getElem?_eq_some_iff.mp hget
  have hother : ∀ i, i ≠ reader → (front ++ [EndpointAction.counts reader]).filterMap (·.countsFor i) = []
      ∧ (front ++ [EndpointAction.counts reader]).filterMap (·.reportOf i) = [] := by
    intro i hne
    apply about_others
    intro action haction hsome
    rcases List.mem_append.mp haction with hold | hnew
    · rw [hfront action hold] at hsome
      cases hsome
    · rw [List.mem_singleton.mp hnew] at hsome
      exact hne (Option.some.inj hsome).symm
  have hnoReports : ∀ i, (front ++ [EndpointAction.counts reader]).filterMap (·.reportOf i) = [] := by
    intro i
    refine List.filterMap_eq_nil_iff.mpr fun action haction => ?_
    rcases List.mem_append.mp haction with hold | hnew
    · exact (countsFor_reader (by rw [hfront action hold]; exact nofun)).2
    · rw [List.mem_singleton.mp hnew]
      rfl
  refine ⟨?_, ?_, ?_, ?_, ?_⟩
  · intro i other hother
    rcases reader_of_set hget hother with ⟨rfl, rfl⟩ | hold
    · exact h.ids i observed hget
    · exact h.ids i other hold
  · intro actions hactions action haction i hreader
    rw [List.length_set]
    rcases List.mem_append.mp hactions with hold | hnew
    · exact h.known actions hold action haction i hreader
    · rw [List.mem_singleton.mp hnew] at haction
      rcases List.mem_append.mp haction with hold | hnew
      · rw [hfront action hold] at hreader
        cases hreader
      · rw [List.mem_singleton.mp hnew] at hreader
        cases hreader
        exact hlt
  · intro i report hreport
    rw [reports, flying_append, hnoReports, List.append_nil] at hreport
    exact h.tickets i report hreport
  · intro i other hother' hnone
    obtain ⟨hother', hdestroyed⟩ := living_eq hother'
    rw [counting, flying_append] at hnone
    obtain ⟨hnone, hmine⟩ := List.append_eq_nil_iff.mp hnone
    rw [reports, flying_append, hnoReports, List.append_nil]
    rcases reader_of_set hget hother' with ⟨rfl, rfl⟩ | hold
    · -- its own report is still to be counted
      simp [EndpointAction.countsFor] at hmine
    · refine h.settles i other ?_ hnone
      simp [Endpoints.living, hold, hdestroyed]
  · rw [openOf_set hget, List.length_set]
    exact h.tracks

theorem Current.answer (h : Current s reported) {answer : Answer}
    (hanswer : answer.actions.filterMap EndpointAction.reader = []) :
    Current (s.answer answer) reported := by
  have hnone : ∀ action ∈ answer.actions, action.reader = none := List.filterMap_eq_nil_iff.mp hanswer
  have hothers : ∀ i, answer.actions.filterMap (·.countsFor i) = [] ∧ answer.actions.filterMap (·.reportOf i) = [] :=
    fun i => about_others fun action haction => by rw [hnone action haction]; exact nofun
  have hcounting : ∀ i, counting i (s.threads ++ [answer.actions]) = counting i s.threads := by
    intro i
    rw [counting, flying_append, (hothers i).1, List.append_nil]
    rfl
  have hreports : ∀ i, reports i (s.threads ++ [answer.actions]) = reports i s.threads := by
    intro i
    rw [reports, flying_append, (hothers i).2, List.append_nil]
    rfl
  refine ⟨h.ids, ?_, ?_, ?_, h.tracks⟩
  · intro actions hactions action haction reader hreader
    rcases List.mem_append.mp hactions with hold | hnew
    · exact h.known actions hold action haction reader hreader
    · rw [List.mem_singleton.mp hnew] at haction
      rw [hnone action haction] at hreader
      cases hreader
  · intro i report hreport
    exact h.tickets i report (hreports i ▸ hreport)
  · intro i observed hliving hcount
    have hsettles := h.settles i observed hliving (hcounting i ▸ hcount)
    rw [← hreports i] at hsettles
    exact hsettles

theorem Current.destroys (h : Current s reported) {reader : Nat} {observed : ObservedReader}
    (hliving : s.living reader = some observed) (now : Int) :
    Current { s with
      readers := s.readers.set reader { observed with destroyed := true }
      depths := s.depths.remove observed.topic observed.id now } reported := by
  obtain ⟨hget, -⟩ := living_eq hliving
  refine ⟨?_, ?_, h.tickets, ?_, ?_⟩
  · intro i other hother
    rcases reader_of_set hget hother with ⟨rfl, rfl⟩ | hold
    · exact h.ids i observed hget
    · exact h.ids i other hold
  · intro actions hactions action haction i hreader
    rw [List.length_set]
    exact h.known actions hactions action haction i hreader
  · intro i other hother hnone
    obtain ⟨hother, hdestroyed⟩ := living_eq hother
    rcases reader_of_set hget hother with ⟨rfl, rfl⟩ | hold
    · cases hdestroyed
    · exact h.settles i other (by simp [Endpoints.living, hold, hdestroyed]) hnone
  · rw [openOf_destroy h.ids hget, List.length_set]
    exact h.tracks.remove observed.topic observed.id now

/-! ## What a turn keeps -/

variable {thread : Nat} {action : EndpointAction} {rest : List EndpointAction}

/-- The actions that are there after a turn. -/
theorem Current.known_set (h : Current s reported) (hthread : s.threads[thread]? = some (action :: rest))
    {more : List EndpointAction} (hmore : ∀ other ∈ more, other ∈ action :: rest ∨ other.reader = action.reader) :
    ∀ actions ∈ s.threads.set thread more, ∀ other ∈ actions, ∀ reader, other.reader = some reader →
      reader < s.readers.length := by
  intro actions hactions other hother reader hreader
  rcases List.mem_or_eq_of_mem_set hactions with hold | rfl
  · exact h.known actions hold other hother reader hreader
  · have hmem := List.mem_of_getElem? hthread
    rcases hmore other hother with hold | hsame
    · exact h.known _ hmem other hold reader hreader
    · exact h.known _ hmem action List.mem_cons_self reader (hsame ▸ hreader)

/-- An action that is about no living reader's queue is done. -/
theorem Current.done (h : Current s reported) (hthread : s.threads[thread]? = some (action :: rest))
    (haction : ∀ i, action.reader = some i → s.living i = none) (hreports : ∀ i, action.reportOf i = none) :
    Current { s with threads := s.threads.set thread rest } reported := by
  have hperm : ∀ i, (reports i (s.threads.set thread rest)).Perm (reports i s.threads) := by
    intro i
    have hset := flying_set (f := (·.reportOf i)) hthread
    rwa [hreports i, Option.toList_none, List.nil_append] at hset
  refine ⟨h.ids, h.known_set hthread fun other hother => .inl (List.mem_cons_of_mem _ hother), ?_, ?_, h.tracks⟩
  · intro i report hreport
    exact h.tickets i report ((hperm i).mem_iff.mp hreport)
  · intro i observed hliving hnone
    have hother : action.countsFor i = none := by
      refine (countsFor_reader fun hsome => ?_).1
      have hgone : none = some observed := (haction i hsome).symm.trans hliving
      cases hgone
    have hcounting : counting i s.threads = [] := by
      have hset := flying_set (f := (·.countsFor i)) hthread
      rw [hother, Option.toList_none, List.nil_append, show flying _ (s.threads.set thread rest) = [] from hnone] at hset
      exact hset.symm.eq_nil
    exact (h.settles i observed hliving hcounting).perm (hperm i).symm

/-- A report that is counted now is right now. -/
theorem Current.counts (h : Current s reported) {reader : Nat} (hthread : s.threads[thread]? = some (.counts reader :: rest))
    {observed : ObservedReader} (hliving : s.living reader = some observed) :
    Current { s with
      counted := s.counted + 1
      threads := s.threads.set thread (.updates reader (UInt64.ofNat observed.queue.length) s.counted :: rest) } reported := by
  have hreports : ∀ i, (reports i (s.threads.set thread
    (.updates reader (UInt64.ofNat observed.queue.length) s.counted :: rest))).Perm
      ((if reader = i then some (UInt64.ofNat observed.queue.length, s.counted) else none).toList ++ reports i s.threads) :=
    fun i => flying_exchange _ hthread rfl
  refine ⟨h.ids, ?_, ?_, ?_, h.tracks⟩
  · refine h.known_set hthread fun other hother => ?_
    rcases List.mem_cons.mp hother with rfl | hold
    · exact .inr rfl
    · exact .inl (List.mem_cons_of_mem _ hold)
  · intro i report hreport
    rcases List.mem_append.mp ((hreports i).mem_iff.mp hreport) with hnew | hold
    · split at hnew
      · rw [List.mem_singleton.mp hnew]
        exact Nat.lt_succ_self _
      · cases hnew
    · exact Nat.lt_succ_of_lt (h.tickets i report hold)
  · intro i other hother hnone
    by_cases hreader : reader = i
    · subst hreader
      have hsame : some observed = some other := hliving.symm.trans hother
      cases hsame
      have hperm := hreports reader
      rw [if_pos rfl] at hperm
      exact (settles_counted observed.queue (reported reader) (h.tickets reader)).perm hperm.symm
    · have hperm := hreports i
      rw [if_neg hreader, Option.toList_none, List.nil_append] at hperm
      have hcounting : counting i s.threads = [] := by
        have hset := flatMap_set_perm (g := fun actions => List.filterMap (·.countsFor i) actions)
          (.updates reader (UInt64.ofNat observed.queue.length) s.counted :: rest) hthread
        have hown : (EndpointAction.counts reader :: rest).filterMap (·.countsFor i) = rest.filterMap (·.countsFor i) :=
          List.filterMap_cons_none (if_neg hreader)
        have hnew : (EndpointAction.updates reader (UInt64.ofNat observed.queue.length) s.counted :: rest).filterMap
          (·.countsFor i) =
            rest.filterMap (·.countsFor i) := List.filterMap_cons_none rfl
        rw [hown, hnew] at hset
        have hsame := (List.perm_append_left_iff _).mp hset
        rw [show List.flatMap _ (s.threads.set thread _) = [] from hnone] at hsame
        exact hsame.symm.eq_nil
      exact (h.settles i other hother hcounting).perm hperm.symm

/-- A report that is recorded in its order. -/
theorem Current.updates (h : Current s reported) {reader : Nat} {pending : UInt64} {ticket : Nat}
    (hthread : s.threads[thread]? = some (.updates reader pending ticket :: rest))
    (holdest : ∀ report ∈ reports reader s.threads, ticket ≤ report.2) {observed : ObservedReader}
    (hget : s.readers[reader]? = some observed) (now : Int) :
    Current { s with
      threads := s.threads.set thread rest
      depths := s.depths.update observed.topic observed.id pending now } (Function.update reported observed.id pending) := by
  have hid : observed.id = reader := h.ids reader observed hget
  have hreports : ∀ i, ((if reader = i then some (pending, ticket) else none).toList ++ reports i
    (s.threads.set thread rest)).Perm
      (reports i s.threads) := fun i => flying_set (f := (·.reportOf i)) hthread
  refine ⟨h.ids, h.known_set hthread fun other hother => .inl (List.mem_cons_of_mem _ hother), ?_, ?_, ?_⟩
  · intro i report hreport
    exact h.tickets i report ((hreports i).mem_iff.mp (List.mem_append_right _ hreport))
  · intro i other hother hnone
    have hcounting : counting i s.threads = [] := by
      have hset := flying_set (f := (·.countsFor i)) hthread
      rw [show flying _ (s.threads.set thread rest) = [] from hnone] at hset
      exact hset.symm.eq_nil
    have hsettles := h.settles i other hother hcounting
    by_cases hreader : reader = i
    · subst hreader
      have hperm := hreports reader
      rw [if_pos rfl] at hperm
      rw [hid, Function.update_self]
      exact (hsettles.perm hperm.symm).recorded fun report hreport => holdest report
        (hperm.mem_iff.mp (List.mem_cons_of_mem _ hreport))
    · have hperm := hreports i
      rw [if_neg hreader, Option.toList_none, List.nil_append] at hperm
      rw [Function.update_of_ne (by rw [hid]; exact fun heq => hreader heq.symm)]
      exact hsettles.perm hperm.symm
  · have hupdate := h.tracks.update observed.topic observed.id pending now
    rw [openOf_update h.ids hget]
    exact hupdate

theorem Current.emits (h : Current s reported) {event : Event} (hkind : event.kind ≠ .queueDepth) (now : Int) :
    Current (s.emitAll [event] now) reported := by
  have htracks : Tracks (s.depths.perform (.observe (.emit event now))) _ := h.tracks.perform hkind
  exact ⟨h.ids, h.known, h.tickets, h.settles, htracks⟩

theorem Current.turn (h : Current s reported) (hthread : s.threads[thread]? = some (action :: rest))
    (holdest : s.oldest thread = true) (now : Int) : ∃ reported, Current (s.act thread rest now true action) reported := by
  cases action with
  | received topic bytes latency =>
    have hdone := h.done hthread nofun fun _ => rfl
    cases latency with
    | none => exact ⟨reported, hdone.emits (show EventKind.topicReceived ≠ .queueDepth by decide) now⟩
    | some latency => exact ⟨reported, hdone.emits (show EventKind.topicReceived ≠ .queueDepth by decide) now⟩
  | published topic bytes =>
    have hdone := h.done hthread nofun fun _ => rfl
    exact ⟨reported, hdone.emits (show EventKind.topicPublished ≠ .queueDepth by decide) now⟩
  | logs record =>
    have hdone := h.done hthread nofun fun _ => rfl
    exact ⟨reported, hdone.ids, hdone.known, hdone.tickets, hdone.settles, hdone.tracks⟩
  | counts reader =>
    cases hliving : s.living reader with
    | none =>
      simp only [Endpoints.act, hliving]
      refine ⟨reported, h.done hthread (fun i hsome => ?_) fun _ => rfl⟩
      cases hsome
      exact hliving
    | some observed =>
      simp only [Endpoints.act, hliving, if_true]
      exact ⟨reported, h.counts hthread hliving⟩
  | updates reader pending ticket =>
    have hless := h.known _ (List.mem_of_getElem? hthread) _ List.mem_cons_self reader rfl
    unfold Endpoints.act
    dsimp only
    rw [List.getElem?_eq_getElem hless]
    refine ⟨_, h.updates hthread ?_ (List.getElem?_eq_getElem hless) now⟩
    rw [Endpoints.oldest, hthread] at holdest
    exact fun report hreport => of_decide_eq_true (List.all_eq_true.mp holdest report hreport)

theorem current (h : s.Reached Endpoints.InOrder) : ∃ reported, Current s reported := by
  refine Reach.invariant (I := fun s => ∃ reported, Current s reported) ?_ ?_ h
  · rintro s ⟨options, write, startedAt, henabled, -, rfl⟩
    refine ⟨fun _ => 0, nofun, nofun, fun _ report hreport => (nomatch hreport), fun i observed hliving => ?_, ?_⟩
    · obtain ⟨hget, -⟩ := living_eq hliving
      cases hget
    · exact tracks_run options write startedAt henabled [] nofun
  · rintro s move next ⟨reported, hcurrent⟩ hinOrder hstep
    rcases Endpoints.step_cases hstep with ⟨topic, queue, rfl, rfl⟩ | ⟨reader, observed, queue, hliving, rfl⟩ |
      ⟨reader, observed, message, queue, now, hliving, rfl⟩ | ⟨answer, hanswer, rfl⟩ | ⟨reader, observed, now, hliving, rfl⟩ |
      ⟨thread, action, rest, now, countable, rfl, hthread, rfl⟩
    · obtain rfl : queue = [] := hinOrder
      exact ⟨_, hcurrent.opens topic⟩
    · exact ⟨_, hcurrent.changes hliving queue [] nofun s.answers⟩
    · have hfront : ∀ action ∈ [EndpointAction.received observed.topic (UInt64.ofNat message.payload.length)
          (messageLatency message.metadata now)], action.reader = none := by
        intro action haction
        rw [List.mem_singleton.mp haction]
        rfl
      exact ⟨_, hcurrent.changes hliving queue _ hfront (s.answers ++ [Answer.read reader observed.topic (.ok message) now])⟩
    · exact ⟨_, hcurrent.answer hanswer⟩
    · exact ⟨_, hcurrent.destroys hliving now⟩
    · obtain ⟨rfl, holdest⟩ := hinOrder
      exact hcurrent.turn hthread holdest now

/-! ## The metric -/

/-- A report of two messages is counted, the messages are read and the reads reported, and then
it is recorded: nothing is left to do, the reader holds nothing, and the metric says two. -/
theorem a_late_report_stays :
    ∃ s : Endpoints Unit, s.Reached anyMove ∧ (∀ actions ∈ s.threads, actions = []) ∧ heldOn poses s.readers = 0
      ∧ depthOf poses s.depths.observer = 2 := by
  obtain ⟨s, hreached, hs⟩ : ∃ s : Endpoints Unit, s.Reached anyMove ∧
      (s.threads.all List.isEmpty && heldOn poses s.readers == 0 && depthOf poses s.depths.observer == 2) = true :=
    reach_of_run [.opens poses [], .changes 0 [⟨[7], ⟨1, 0, 10⟩⟩, ⟨[8], ⟨2, 0, 11⟩⟩], .turn 0 12 true, .reads 0 13, .reads 0 14,
      .turn 1 15 true, .turn 1 16 true, .turn 1 17 true, .turn 2 18 true, .turn 2 19 true, .turn 2 20 true, .turn 0 21 true] _
      freshEndpoints (by decide +kernel)
  simp only [Bool.and_eq_true, beq_iff_eq, List.all_eq_true, List.isEmpty_iff] at hs
  obtain ⟨⟨hquiet, hheld⟩, hdepth⟩ := hs
  exact ⟨s, hreached, hquiet, hheld, hdepth⟩

end PuppetMaster.Runtime
