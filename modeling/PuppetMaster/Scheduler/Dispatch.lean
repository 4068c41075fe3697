/-
  PuppetMaster.Scheduler.Dispatch — the events of the queue and the choice of the next.

  `selectEvent` is the loop of `DispatchLoop` over `pending_events`: events of executing
  components are skipped, and a later event replaces the selected one only when it is
  strictly better. `selectEvent_some` and `selectEvent_none` are what a caller needs: the
  selected event stands in the queue at the index given and its component is not
  executing, and nothing is selected only when nothing is eligible.
-/

import Mathlib.Algebra.Group.Int.Defs
import Mathlib.Data.List.Basic
import PuppetMaster.Scheduler.Trigger

namespace PuppetMaster.Scheduler

open PuppetMaster.Core

/-- `ScheduledEvent`; `id` is history, it numbers the events of all runs. -/
structure Event where
  component : Name
  deadline : Int
  priority : Int
  dueTime : Int
  queuedAt : Int
  id : Nat
  deriving DecidableEq, Repr

/-- `SteadyClock::time_point::max()`, in nanoseconds. -/
def maxTime : Int := 2 ^ 63 - 1

def dueTime (deadline queuedAt : Int) : Int :=
  if 0 < deadline ∧ deadline < maxTime - queuedAt then queuedAt + deadline else maxTime

def maxBoost : Int := 2 ^ 40

def effectivePriority (options : SchedulerOptions) (event : Event) (now : Int) : Int :=
  if 0 < options.priorityAgingInterval ∧ event.queuedAt < now then
    event.priority + min ((now - event.queuedAt).tdiv options.priorityAgingInterval) maxBoost
  else event.priority

/-! ## Selection -/

/-- The locals of the selection loop. -/
structure Scan where
  selected : Option (Nat × Event)
  selectedPriority : Int
  highestDeclared : Int
  deriving DecidableEq, Repr

def Scan.start : Scan := ⟨none, 0, -(2 ^ 63)⟩

def better (effective selectedPriority : Int) (candidate selected : Event) : Bool :=
  decide (selectedPriority < effective)
    || (decide (effective = selectedPriority) && decide (candidate.dueTime < selected.dueTime))

def scanStep (options : SchedulerOptions) (executing : List Name) (now : Int) (scan : Scan) (index : Nat)
    (candidate : Event) : Scan :=
  if candidate.component ∈ executing then scan
  else
    let highest := max scan.highestDeclared candidate.priority
    let effective := effectivePriority options candidate now
    match scan.selected with
    | none => ⟨some (index, candidate), effective, highest⟩
    | some (at_, selected) =>
      if better effective scan.selectedPriority candidate selected then ⟨some (index, candidate), effective, highest⟩
      else ⟨some (at_, selected), scan.selectedPriority, highest⟩

/-- The loop from `index` on. -/
def scanFrom (options : SchedulerOptions) (executing : List Name) (now : Int) : Nat → List Event → Scan → Scan
  | _, [], scan => scan
  | index, candidate :: rest, scan =>
    scanFrom options executing now (index + 1) rest (scanStep options executing now scan index candidate)

def selectEvent (options : SchedulerOptions) (executing : List Name) (now : Int) (pending : List Event) : Scan :=
  scanFrom options executing now 0 pending .start

/-- What the loop has selected so far stands in the queue and may run. -/
def Scan.Sound (executing : List Name) (pending : List Event) (scan : Scan) : Prop :=
  ∀ index event, scan.selected = some (index, event) →
    pending[index]? = some event ∧ event.component ∉ executing

variable {options : SchedulerOptions} {executing : List Name} {now : Int}

theorem scanStep_sound {pending : List Event} {scan : Scan} {index : Nat} {candidate : Event}
    (hs : scan.Sound executing pending) (hc : pending[index]? = some candidate) :
    (scanStep options executing now scan index candidate).Sound executing pending := by
  unfold scanStep
  by_cases he : candidate.component ∈ executing
  · simpa only [he, if_true] using hs
  · simp only [he, if_false]
    have hnew : ∀ p h, Scan.Sound executing pending ⟨some (index, candidate), p, h⟩ := by
      intro p h i e heq
      cases heq
      exact ⟨hc, he⟩
    split
    · exact hnew _ _
    · rename_i at_ selected hsel
      split
      · exact hnew _ _
      · intro i e heq
        cases heq
        exact hs _ _ hsel

theorem scanFrom_sound {pending : List Event} {scan : Scan} (skipped rest : List Event)
    (hp : pending = skipped ++ rest) (hs : scan.Sound executing pending) :
    (scanFrom options executing now skipped.length rest scan).Sound executing pending := by
  induction rest generalizing skipped scan with
  | nil => exact hs
  | cons candidate rest ih =>
    have hc : pending[skipped.length]? = some candidate := by simp [hp]
    have hstep : (scanStep options executing now scan skipped.length candidate).Sound executing pending :=
      scanStep_sound hs hc
    have := ih (skipped ++ [candidate]) (by simp [hp]) hstep
    simpa only [scanFrom, List.length_append, List.length_singleton] using this

theorem selectEvent_some {pending : List Event} {index : Nat} {event : Event}
    (h : (selectEvent options executing now pending).selected = some (index, event)) :
    pending[index]? = some event ∧ event.component ∉ executing :=
  scanFrom_sound [] pending rfl (by intro _ _ h; cases h) index event h

theorem scanStep_isSome {scan : Scan} {index : Nat} {candidate : Event}
    (h : scan.selected.isSome ∨ candidate.component ∉ executing) :
    (scanStep options executing now scan index candidate).selected.isSome := by
  unfold scanStep
  by_cases he : candidate.component ∈ executing
  · simpa only [he, if_true, not_true, or_false] using h
  · simp only [he, if_false]
    split
    · rfl
    · split
      · rfl
      · rfl

theorem scanFrom_isSome {scan : Scan} (index : Nat) (pending : List Event)
    (h : scan.selected.isSome ∨ ∃ e ∈ pending, e.component ∉ executing) :
    (scanFrom options executing now index pending scan).selected.isSome := by
  induction pending generalizing scan index with
  | nil =>
    rcases h with h | ⟨e, he, _⟩
    · exact h
    · cases he
  | cons candidate rest ih =>
    apply ih
    rcases h with h | ⟨e, he, hx⟩
    · exact .inl (scanStep_isSome (.inl h))
    · rcases List.mem_cons.mp he with rfl | he
      · exact .inl (scanStep_isSome (.inr hx))
      · exact .inr ⟨e, he, hx⟩

/-- Nothing is selected only when the component of every pending event is executing. -/
theorem selectEvent_none {pending : List Event} (h : (selectEvent options executing now pending).selected = none) :
    ∀ e ∈ pending, e.component ∈ executing := by
  intro e he
  by_contra hx
  have hsome : (selectEvent options executing now pending).selected.isSome :=
    scanFrom_isSome 0 pending (.inr ⟨e, he, hx⟩)
  simp [h] at hsome

end PuppetMaster.Scheduler
