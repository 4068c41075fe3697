/-
  PuppetMaster.Scheduler.Register — `RegisterComponent` and the checks it makes on a spec.

  `forDistinct` is a loop over names that have to differ, `claimAll` one that claims names
  for one trigger: none may be claimed before. They succeed exactly when the names are
  distinct (`forDistinct_eq_ok`, `claimAll_eq_ok`).

  A spec that is valid on its own and whose triggers pass one by one is registered exactly
  when no two of its data triggers share a topic and no two of its service triggers share a
  service (`validateTriggers_eq_ok`). Otherwise it is refused as an invalid argument
  (`validateTriggers_refuses`), which `registerAllComponents` does not skip.
-/

import Mathlib.Data.List.Nodup
import PuppetMaster.Runtime.Component

namespace PuppetMaster.Scheduler

open PuppetMaster.Core PuppetMaster.Lib PuppetMaster.Service
open PuppetMaster.Runtime (ComponentSpec ComponentRegistry)

def findReaderEndpoint (spec : ComponentSpec) (topic : Name) : Result EndpointConfig :=
  match spec.readers.dropWhile fun endpoint => endpoint.topic.name ≠ topic with
  | [] => invalidArgument (text "data trigger topic has no matching reader endpoint: " ++ topic)
  | found :: rest => do
    refuse (∃ endpoint ∈ rest, endpoint.topic.name = topic)
      (text "data trigger topic has multiple matching reader endpoints: " ++ topic)
    return found

def findServedService (spec : ComponentSpec) (name : Name) : Result ServiceDeclaration :=
  match spec.servers.find? fun service => service.name = name with
  | none => invalidArgument (text "service trigger names a service the component does not serve: " ++ name)
  | some service => .ok service

/-- A loop with a set of the names it has seen. -/
def forDistinct (duplicate : Name → Bytes) (visit : Name → Result Unit) : List Name → List Name → Result Unit
  | [], _ => .ok ()
  | name :: names, seen => do
    refuse (name ∈ seen) (duplicate name)
    visit name
    forDistinct duplicate visit names (name :: seen)

def validateTrigger (spec : ComponentSpec) (trigger : TriggerSpec) : Result Unit := do
  trigger.validate.check
  match trigger.kind with
  | .data => do
    refuse (trigger.dataDependencies = []) (text "data trigger requires at least one topic dependency")
    forDistinct (text "data trigger has duplicate topic dependency: " ++ ·)
      (fun topic => do let _ ← findReaderEndpoint spec topic) trigger.dataDependencies []
  | .taskDependency =>
    refuse (trigger.taskDependencies = []) (text "task dependency trigger requires at least one task dependency")
  | .service =>
    forDistinct (text "service trigger has duplicate service: " ++ ·)
      (fun service => do let _ ← findServedService spec service) trigger.serviceDependencies []
  | _ => .ok ()

/-- Claims names for trigger `index`, in a map from names to triggers. -/
def claimAll (visit : Name → Result Unit) (shared : (first : Nat) → Name → Bytes) (index : Nat) :
    List Name → List (Name × Nat) → Result (List (Name × Nat))
  | [], claimed => .ok claimed
  | name :: names, claimed => do
    visit name
    match claimed.find? fun entry => entry.1 = name with
    | some (_, first) => invalidArgument (shared first name)
    | none => claimAll visit shared index names (claimed ++ [(name, index)])

def triggersShare (name : Name) (index : Nat) (what : String) (first : Nat) (shared : Name) : Bytes :=
  text "component " ++ name ++ text s!" triggers {first} and {index} share " ++ text what ++ shared

/-- The loop over the triggers, from `index` on. -/
def validateTriggers (spec : ComponentSpec) :
    List TriggerSpec → Nat → List (Name × Nat) → List (Name × Nat) → Result Unit
  | [], _, _, _ => .ok ()
  | trigger :: triggers, index, dataTriggerTopics, serviceTriggers => do
    validateTrigger spec trigger
    let dataTriggerTopics ←
      (if trigger.kind = .data then
        claimAll (fun _ => .ok ()) (triggersShare spec.name index "data topic ") index trigger.dataDependencies
          dataTriggerTopics
      else .ok dataTriggerTopics)
    let serviceTriggers ←
      (if trigger.kind = .service then
        claimAll (fun _ => .ok ()) (triggersShare spec.name index "service ") index trigger.serviceDependencies
          serviceTriggers
      else .ok serviceTriggers)
    validateTriggers spec triggers (index + 1) dataTriggerTopics serviceTriggers

def validateComponentSpec (spec : ComponentSpec) : Result Unit := do
  spec.validate
  validateTriggers spec spec.triggers 0 [] []

/-! ## Registration -/

/-- What registration reads and writes of a scheduler. -/
structure Registrations where
  components : SortedMap Name ComponentSpec := .empty
  running : Bool := false
  stopping : Bool := false

def registerComponent (runtime : ComponentRegistry) (s : Registrations) (name : Name) : Result Registrations := do
  let spec ← runtime.find name
  validateComponentSpec spec
  if s.running || s.stopping then
    .error (.error .failedPrecondition (text "components must be registered before scheduler starts"))
  else if (s.components.find? name).isSome then
    .error (.error .alreadyExists (text "component already registered in scheduler: " ++ name))
  else return { s with components := s.components.insert name spec }

def registerNames (runtime : ComponentRegistry) : List Name → Registrations → Result Registrations
  | [], s => .ok s
  | name :: names, s =>
    match registerComponent runtime s name with
    | .ok s' => registerNames runtime names s'
    | .error status => if status.code ≠ .alreadyExists then .error status else registerNames runtime names s

def registerAllComponents (runtime : ComponentRegistry) (s : Registrations) : Result Registrations :=
  registerNames runtime runtime.listNames s

/-! ## The loops -/

theorem forDistinct_eq_ok {duplicate : Name → Bytes} {visit : Name → Result Unit} {names seen : List Name} :
    forDistinct duplicate visit names seen = .ok () ↔
      names.Nodup ∧ (∀ n ∈ names, n ∉ seen) ∧ ∀ n ∈ names, visit n = .ok () := by
  induction names generalizing seen with
  | nil => simp [forDistinct]
  | cons name names ih =>
    rw [forDistinct, then_eq_ok, then_eq_ok, refuse_eq_ok, ih, List.nodup_cons]
    simp only [List.mem_cons, forall_eq_or_imp, not_or]
    constructor
    · intro h
      obtain ⟨h, hvisit, hnodup, hseen, hall⟩ := h
      exact ⟨⟨fun hin => (hseen name hin).1 rfl, hnodup⟩, ⟨h, fun n hn => (hseen n hn).2⟩, hvisit, hall⟩
    · intro h
      obtain ⟨⟨hnot, hnodup⟩, ⟨h, hseen⟩, hvisit, hall⟩ := h
      exact ⟨h, hvisit, hnodup, fun n hn => ⟨fun e => hnot (e ▸ hn), hseen n hn⟩, hall⟩

/-- `names` are distinct, and none of them is claimed. -/
def Unclaimed (names : List Name) (claimed : List (Name × Nat)) : Prop :=
  names.Nodup ∧ ∀ n ∈ names, n ∉ claimed.map Prod.fst

theorem claimAll_eq_ok {visit : Name → Result Unit} {shared : Nat → Name → Bytes} {index : Nat} {names : List Name}
    {claimed claimed' : List (Name × Nat)} :
    claimAll visit shared index names claimed = .ok claimed' ↔
      ((∀ n ∈ names, visit n = .ok ()) ∧ Unclaimed names claimed) ∧
        claimed' = claimed ++ names.map fun n => (n, index) := by
  induction names generalizing claimed with
  | nil => simp [claimAll, Unclaimed, eq_comm]
  | cons name names ih =>
    have hfind : (claimed.find? fun entry => entry.1 = name) = none ↔ name ∉ claimed.map Prod.fst := by
      rw [List.find?_eq_none, List.mem_map]
      simp only [decide_eq_true_eq, not_exists, not_and]
    rw [claimAll, then_eq_ok, List.forall_mem_cons]
    split
    · next first heq =>
      constructor
      · intro h
        obtain ⟨-, h⟩ := h
        cases h
      · intro h
        obtain ⟨⟨-, -, hnot⟩, -⟩ := h
        rw [hfind.mpr (hnot name List.mem_cons_self)] at heq
        cases heq
    · next heq =>
      have hname := hfind.mp heq
      unfold Unclaimed at ih ⊢
      rw [ih, List.nodup_cons]
      simp only [List.map_append, List.map_cons, List.map_nil, List.mem_append, not_or, List.mem_cons, forall_eq_or_imp,
        List.append_assoc, List.singleton_append]
      constructor
      · intro h
        obtain ⟨hvisit, ⟨hall, hnodup, hfree⟩, rfl⟩ := h
        exact ⟨⟨⟨hvisit, hall⟩, ⟨fun hin => (hfree name hin).2.1 rfl, hnodup⟩, hname, fun n hn => (hfree n hn).1⟩, rfl⟩
      · intro h
        obtain ⟨⟨⟨hvisit, hall⟩, ⟨hnot, hnodup⟩, -, hfree⟩, rfl⟩ := h
        exact ⟨hvisit, ⟨hall, hnodup, fun n hn => ⟨hfree n hn, fun e => hnot (e ▸ hn), List.not_mem_nil⟩⟩, rfl⟩

/-- Names for several triggers: those of the first, and those of the rest once they are claimed. -/
theorem unclaimed_append (index : Nat) {names names' : List Name} {claimed : List (Name × Nat)} :
    Unclaimed (names ++ names') claimed ↔
      Unclaimed names claimed ∧ Unclaimed names' (claimed ++ names.map fun n => (n, index)) := by
  have hkeys : (names.map fun n => (n, index)).map Prod.fst = names := by
    rw [List.map_map]
    exact List.map_id _
  unfold Unclaimed
  rw [List.nodup_append, List.map_append, hkeys]
  simp only [List.mem_append, not_or]
  constructor
  · intro h
    obtain ⟨⟨hnodup, hnodup', hapart⟩, hfree⟩ := h
    exact ⟨⟨hnodup, fun n hn => hfree n (.inl hn)⟩, hnodup', fun n hn =>
      ⟨hfree n (.inr hn), fun hin => hapart n hin n hn rfl⟩⟩
  · intro h
    obtain ⟨⟨hnodup, hfree⟩, hnodup', hfree'⟩ := h
    refine ⟨⟨hnodup, hnodup', fun a ha b hb e => (hfree' b hb).2 (e ▸ ha)⟩, fun n hn => ?_⟩
    rcases hn with hn | hn
    · exact hfree n hn
    · exact (hfree' n hn).1

/-! ## The triggers of a spec -/

/-- The topics that data triggers claim, trigger by trigger. -/
def dataClaims (triggers : List TriggerSpec) : List Name :=
  triggers.flatMap fun trigger => if trigger.kind = .data then trigger.dataDependencies else []

def serviceClaims (triggers : List TriggerSpec) : List Name :=
  triggers.flatMap fun trigger => if trigger.kind = .service then trigger.serviceDependencies else []

/-- One step of either map: the names of a trigger of the right kind are claimed. -/
theorem claimIf_eq_ok {visit : Name → Result Unit} {shared : Nat → Name → Bytes} {index : Nat} {names : List Name}
    {claimed claimed' : List (Name × Nat)} {p : Prop} [Decidable p] :
    (if p then claimAll visit shared index names claimed else .ok claimed) = .ok claimed' ↔
      ((∀ n ∈ if p then names else [], visit n = .ok ()) ∧ Unclaimed (if p then names else []) claimed) ∧
        claimed' = claimed ++ (if p then names else []).map fun n => (n, index) := by
  by_cases h : p
  · simp only [h, if_true]
    exact claimAll_eq_ok
  · simp [h, Unclaimed, eq_comm]

theorem validateTriggers_eq_ok {spec : ComponentSpec} {triggers : List TriggerSpec} {index : Nat}
    {topics services : List (Name × Nat)} :
    validateTriggers spec triggers index topics services = .ok () ↔
      (∀ trigger ∈ triggers, validateTrigger spec trigger = .ok ()) ∧
        Unclaimed (dataClaims triggers) topics ∧ Unclaimed (serviceClaims triggers) services := by
  induction triggers generalizing index topics services with
  | nil => simp [validateTriggers, dataClaims, serviceClaims, Unclaimed]
  | cons trigger triggers ih =>
    have hdata : dataClaims (trigger :: triggers) =
        (if trigger.kind = .data then trigger.dataDependencies else []) ++ dataClaims triggers := List.flatMap_cons
    have hservice : serviceClaims (trigger :: triggers) =
        (if trigger.kind = .service then trigger.serviceDependencies else []) ++ serviceClaims triggers :=
      List.flatMap_cons
    rw [validateTriggers, then_eq_ok, List.forall_mem_cons, hdata, hservice, unclaimed_append index,
      unclaimed_append index]
    simp only [bind_eq_ok, claimIf_eq_ok, ih]
    constructor
    · intro h
      obtain ⟨htrigger, _, ⟨⟨-, hd⟩, rfl⟩, _, ⟨⟨-, hs⟩, rfl⟩, hrest, hd', hs'⟩ := h
      exact ⟨⟨htrigger, hrest⟩, ⟨hd, hd'⟩, hs, hs'⟩
    · intro h
      obtain ⟨⟨htrigger, hrest⟩, ⟨hd, hd'⟩, hs, hs'⟩ := h
      exact ⟨htrigger, _, ⟨⟨fun _ _ => trivial, hd⟩, rfl⟩, _, ⟨⟨fun _ _ => trivial, hs⟩, rfl⟩, hrest, hd', hs'⟩

/-- Whatever `result` refuses, it refuses as an invalid argument. -/
def Refuses {α : Type} (result : Result α) : Prop :=
  ∀ status, result = .error status → status.code = .invalidArgument

theorem Refuses.bind {α β : Type} {x : Result α} {f : α → Result β} (hx : Refuses x) (hf : ∀ a, Refuses (f a)) :
    Refuses (x >>= f) := by
  intro status h
  cases x with
  | ok a => exact hf a status h
  | error e =>
    cases h
    exact hx status rfl

theorem claimAll_refuses {shared : Nat → Name → Bytes} {index : Nat} {names : List Name} {claimed : List (Name × Nat)} :
    Refuses (claimAll (fun _ => .ok ()) shared index names claimed) := by
  induction names generalizing claimed with
  | nil =>
    intro status h
    cases h
  | cons name names ih =>
    refine Refuses.bind (fun _ h => by cases h) fun _ => ?_
    split
    · intro status h
      cases h
      rfl
    · exact ih

/-- What is left to refuse once every trigger passes on its own. -/
theorem validateTriggers_refuses {spec : ComponentSpec} {triggers : List TriggerSpec} {index : Nat}
    {topics services : List (Name × Nat)} (h : ∀ trigger ∈ triggers, validateTrigger spec trigger = .ok ()) :
    Refuses (validateTriggers spec triggers index topics services) := by
  have hclaim : ∀ {p : Prop} [Decidable p] {shared index names} {claimed : List (Name × Nat)},
      Refuses (if p then claimAll (fun _ => .ok ()) shared index names claimed else .ok claimed) := by
    intro p _ shared index names claimed
    split
    · exact claimAll_refuses
    · intro status h
      cases h
  induction triggers generalizing index topics services with
  | nil =>
    intro status h
    cases h
  | cons trigger triggers ih =>
    rw [validateTriggers, h trigger List.mem_cons_self]
    exact hclaim.bind fun _ => hclaim.bind fun _ => ih fun t ht => h t (List.mem_cons_of_mem _ ht)

theorem findReaderEndpoint_ok {spec : ComponentSpec} {topic : Name}
    (h : spec.readers.countP (fun endpoint => endpoint.topic.name = topic) = 1) :
    ∃ endpoint, findReaderEndpoint spec topic = .ok endpoint := by
  unfold findReaderEndpoint
  generalize spec.readers = readers at h
  induction readers with
  | nil => cases h
  | cons endpoint readers ih =>
    by_cases hname : endpoint.topic.name = topic
    · rw [List.countP_cons_of_pos (by simpa using hname)] at h
      rw [List.dropWhile_cons_of_neg (by simpa using hname)]
      have hnone : ¬ ∃ e ∈ readers, e.topic.name = topic := by
        intro h
        obtain ⟨e, he, hsame⟩ := h
        exact List.countP_eq_zero.mp (Nat.succ.inj h) e he (by simpa using hsame)
      exact ⟨endpoint, then_eq_ok.mpr ⟨refuse_eq_ok.mpr hnone, rfl⟩⟩
    · rw [List.countP_cons_of_neg (by simpa using hname)] at h
      rw [List.dropWhile_cons_of_pos (by simpa using hname)]
      exact ih h

theorem findServedService_ok {spec : ComponentSpec} {name : Name} (h : ∃ service ∈ spec.servers, service.name = name) :
    ∃ service, findServedService spec name = .ok service := by
  unfold findServedService
  split
  · next hnone =>
    obtain ⟨service, hin, hname⟩ := h
    exact absurd (decide_eq_true hname) (List.find?_eq_none.mp hnone service hin)
  · next service _ => exact ⟨service, rfl⟩

/-- What a spec has to offer to a trigger. -/
structure Serves (spec : ComponentSpec) (trigger : TriggerSpec) : Prop where
  valid : trigger.validate.isOk = true
  hasTopic : trigger.kind = .data → trigger.dataDependencies ≠ []
  topics : trigger.dataDependencies.Nodup
  reader : ∀ topic ∈ trigger.dataDependencies, spec.readers.countP (fun endpoint => endpoint.topic.name = topic) = 1
  hasTask : trigger.kind = .taskDependency → trigger.taskDependencies ≠ []
  services : trigger.serviceDependencies.Nodup
  server : ∀ name ∈ trigger.serviceDependencies, ∃ service ∈ spec.servers, service.name = name

theorem validateTrigger_ok {spec : ComponentSpec} {trigger : TriggerSpec} (h : Serves spec trigger) :
    validateTrigger spec trigger = .ok () := by
  rw [validateTrigger, then_eq_ok, Status.check_eq_ok]
  refine ⟨h.valid, ?_⟩
  split
  · next hkind =>
    refine then_eq_ok.mpr ⟨refuse_eq_ok.mpr (h.hasTopic hkind), forDistinct_eq_ok.mpr ⟨h.topics, ?_, ?_⟩⟩
    · exact fun _ _ => List.not_mem_nil
    · intro topic htopic
      obtain ⟨endpoint, hfound⟩ := findReaderEndpoint_ok (h.reader topic htopic)
      exact bind_eq_ok.mpr ⟨endpoint, hfound, rfl⟩
  · next hkind => exact refuse_eq_ok.mpr (h.hasTask hkind)
  · next hkind =>
    refine forDistinct_eq_ok.mpr ⟨h.services, fun _ _ => List.not_mem_nil, ?_⟩
    intro name hname
    obtain ⟨service, hfound⟩ := findServedService_ok (h.server name hname)
    exact bind_eq_ok.mpr ⟨service, hfound, rfl⟩
  · rfl

/-! ## All components -/

section

variable {runtime : ComponentRegistry} {es : List (Name × ComponentSpec)} {s : Registrations}

theorem registerComponent_ok {e : Name × ComponentSpec} (hfound : runtime.find e.1 = .ok e.2)
    (hrunning : (s.running || s.stopping) = false) (hfresh : ∀ e' ∈ s.components.entries, e'.1 ≠ e.1)
    (hvalid : validateComponentSpec e.2 = .ok ()) :
    registerComponent runtime s e.1 = .ok { s with components := s.components.insert e.1 e.2 } := by
  have hnone : s.components.find? e.1 = none := SortedMap.find?_eq_none.mpr hfresh
  unfold registerComponent
  rw [hfound]
  simp only [bind, Except.bind, hvalid, hrunning, hnone]
  rfl

theorem registerNames_ok (hfound : ∀ e ∈ es, runtime.find e.1 = .ok e.2) (hnames : (es.map Prod.fst).Nodup)
    (hrunning : (s.running || s.stopping) = false)
    (hfresh : ∀ e ∈ es, ∀ e' ∈ s.components.entries, e'.1 ≠ e.1)
    (hvalid : ∀ e ∈ es, validateComponentSpec e.2 = .ok ()) :
    registerNames runtime (es.map Prod.fst) s =
      .ok { s with components := es.foldl (fun m e => m.insert e.1 e.2) s.components } := by
  induction es generalizing s with
  | nil => rfl
  | cons e es ih =>
    rw [List.map_cons, registerNames, registerComponent_ok (hfound e List.mem_cons_self) hrunning
      (hfresh e List.mem_cons_self) (hvalid e List.mem_cons_self)]
    exact ih (fun e' he' => hfound e' (List.mem_cons_of_mem _ he')) (List.nodup_cons.mp hnames).2 hrunning
      (SortedMap.fresh_insert hnames hfresh) (fun e' he' => hvalid e' (List.mem_cons_of_mem _ he'))

/-- A spec that is refused fails the registration of all. -/
theorem registerNames_refused (hfound : ∀ e ∈ es, runtime.find e.1 = .ok e.2)
    {e : Name × ComponentSpec} (he : e ∈ es) {status : Status} (hrefused : validateComponentSpec e.2 = .error status)
    (hcode : status.code = .invalidArgument) : ∀ s', registerNames runtime (es.map Prod.fst) s ≠ .ok s' := by
  induction es generalizing s with
  | nil => cases he
  | cons a es ih =>
    intro s' h
    rw [List.map_cons, registerNames] at h
    rcases List.mem_cons.mp he with rfl | he
    · have hfails : registerComponent runtime s e.1 = .error status := by
        unfold registerComponent
        rw [hfound e List.mem_cons_self]
        simp only [bind, Except.bind, hrefused]
      rw [hfails] at h
      simp [hcode] at h
    · have hrest := fun s => ih (s := s) (fun e' he' => hfound e' (List.mem_cons_of_mem _ he')) he
      split at h
      · exact hrest _ s' h
      · split at h
        · cases h
        · exact hrest _ s' h

end

end PuppetMaster.Scheduler
