/-
  PuppetMaster.Configuration.AllOrNothing — when a failed `CreateScheduler` leaves the
  runtime as it was.

  Registration changes the runtime component by component, and the scheduler checks all
  components only behind it (`registerAllComponents_ok_iff`). So a failure after the first
  registration leaves what was registered there (`scheduleAll_unchanged_iff`).

  - `create_scheduler_all_or_nothing_iff`: for both overloads, the inputs on which an error
    means an unchanged runtime.
  - `a_refused_component_stays_registered`: a valid project that is registered, refused by
    the scheduler and left in the runtime.
-/

import PuppetMaster.Configuration.CreateScheduler

namespace PuppetMaster.Configuration

open PuppetMaster.Core PuppetMaster.Lib PuppetMaster.Scheduler PuppetMaster.Service
open PuppetMaster.Runtime (ComponentSpec ComponentRegistry ComponentState validateEndpoints)

/-! ## Refusals of the scheduler -/

/-- A status that is an error is an invalid argument. -/
def RefusesStatus (status : Status) : Prop := status.isOk = false → status.code = .invalidArgument

theorem refusesStatus_ok : RefusesStatus .ok := fun h => by cases h

theorem refusesStatus_error (message : Bytes) : RefusesStatus (.error .invalidArgument message) := fun _ => rfl

theorem RefusesStatus.ite {p : Prop} [Decidable p] {status status' : Status} (h : RefusesStatus status)
    (h' : RefusesStatus status') : RefusesStatus (if p then status else status') := by
  split
  · exact h
  · exact h'

theorem RefusesStatus.check {status : Status} (h : RefusesStatus status) : Refuses status.check := by
  intro status' hcheck
  unfold Status.check at hcheck
  split at hcheck
  · cases hcheck
  · next hok =>
    cases hcheck
    exact h (Bool.not_eq_true _ ▸ hok)

theorem refuses_ok {α : Type} (a : α) : Refuses (.ok a : Result α) := fun _ h => by cases h

theorem refuses_invalidArgument {α : Type} (message : Bytes) : Refuses (invalidArgument message : Result α) := fun _ h => by
  cases h
  rfl

theorem refuses_refuse {p : Prop} [Decidable p] (message : Bytes) : Refuses (refuse p message) := by
  unfold refuse
  split
  · exact refuses_invalidArgument message
  · exact refuses_ok ()

theorem refuses_forM {α : Type} {f : α → Result Unit} (as : List α) (h : ∀ a, Refuses (f a)) : Refuses (as.forM f) := by
  induction as with
  | nil => exact refuses_ok ()
  | cons a as ih => exact (h a).bind fun _ => ih

theorem refuses_forDistinct {duplicate : Name → Bytes} {visit : Name → Result Unit} (names seen : List Name)
    (h : ∀ name, Refuses (visit name)) : Refuses (forDistinct duplicate visit names seen) := by
  induction names generalizing seen with
  | nil => exact refuses_ok ()
  | cons name names ih => exact (refuses_refuse _).bind fun _ => (h name).bind fun _ => ih (name :: seen)

theorem refusesStatus_validateName (kind : String) (value : Bytes) : RefusesStatus (validateName kind value) :=
  (refusesStatus_error _).ite ((refusesStatus_error _).ite ((refusesStatus_error _).ite refusesStatus_ok))

theorem refusesStatus_trigger (trigger : TriggerSpec) : RefusesStatus trigger.validate :=
  (refusesStatus_error _).ite ((refusesStatus_error _).ite ((refusesStatus_error _).ite ((refusesStatus_error _).ite
    ((refusesStatus_error _).ite refusesStatus_ok))))

theorem refusesStatus_service (spec : ServiceDeclaration) : RefusesStatus spec.validate :=
  (refusesStatus_validateName _ _).ite ((refusesStatus_error _).ite ((refusesStatus_error _).ite ((refusesStatus_error _).ite
    ((refusesStatus_error _).ite refusesStatus_ok))))

theorem refuses_validateEndpoints (endpoints : List EndpointConfig) (kind : String) :
    Refuses (validateEndpoints endpoints kind) := by
  refine refuses_forM endpoints fun endpoint => ?_
  split
  · exact refuses_ok ()
  · exact refuses_invalidArgument _

theorem refuses_findReaderEndpoint (spec : ComponentSpec) (topic : Name) : Refuses (findReaderEndpoint spec topic) := by
  unfold findReaderEndpoint
  split
  · exact refuses_invalidArgument _
  · exact (refuses_refuse _).bind fun _ => refuses_ok _

theorem refuses_findServedService (spec : ComponentSpec) (name : Name) : Refuses (findServedService spec name) := by
  unfold findServedService
  split
  · exact refuses_invalidArgument _
  · exact refuses_ok _

theorem refuses_validateTrigger (spec : ComponentSpec) (trigger : TriggerSpec) : Refuses (validateTrigger spec trigger) := by
  refine (refusesStatus_trigger trigger).check.bind fun _ => ?_
  split
  · exact (refuses_refuse _).bind fun _ => refuses_forDistinct _ _ fun topic =>
      (refuses_findReaderEndpoint spec topic).bind fun _ => refuses_ok ()
  · exact refuses_refuse _
  · exact refuses_forDistinct _ _ fun name => (refuses_findServedService spec name).bind fun _ => refuses_ok ()
  · exact refuses_ok ()

theorem refuses_validateTriggers (spec : ComponentSpec) (triggers : List TriggerSpec) (index : Nat)
    (topics services : List (Name × Nat)) : Refuses (validateTriggers spec triggers index topics services) := by
  induction triggers generalizing index topics services with
  | nil => exact refuses_ok ()
  | cons trigger triggers ih =>
    refine (refuses_validateTrigger spec trigger).bind fun _ => Refuses.bind ?_ fun _ => Refuses.bind ?_ fun _ => ih _ _ _
    · split
      · exact claimAll_refuses
      · exact refuses_ok _
    · split
      · exact claimAll_refuses
      · exact refuses_ok _

/-- Whatever the scheduler's check refuses, it refuses as an invalid argument. -/
theorem refuses_validateComponentSpec (spec : ComponentSpec) : Refuses (validateComponentSpec spec) := by
  refine Refuses.bind ?_ fun _ => refuses_validateTriggers _ _ _ _ _
  refine (refusesStatus_validateName _ _).check.bind fun _ => ?_
  refine (refuses_validateEndpoints _ _).bind fun _ => (refuses_validateEndpoints _ _).bind fun _ => ?_
  refine (refuses_forM _ fun trigger => (refusesStatus_trigger trigger).check).bind fun _ => ?_
  exact (refuses_forM _ fun spec => (refusesStatus_service spec).check).bind fun _ =>
    refuses_forM _ fun spec => (refusesStatus_service spec).check

/-- A new scheduler takes all components of a runtime exactly when each passes its check. -/
theorem registerAllComponents_ok_iff (registry : ComponentRegistry) :
    (∃ registered, registerAllComponents registry {} = .ok registered) ↔
      ∀ e ∈ registry.entries, validateComponentSpec e.2 = .ok () := by
  have hfound : ∀ e ∈ registry.entries, registry.find e.1 = .ok e.2 := by
    intro e he
    rw [ComponentRegistry.find, SortedMap.find?_of_mem he]
  constructor
  · rintro ⟨registered, hregistered⟩ e he
    cases hvalid : validateComponentSpec e.2 with
    | ok u => rfl
    | error status =>
      exact absurd hregistered (registerNames_refused hfound he hvalid
        (refuses_validateComponentSpec e.2 status hvalid) registered)
  · intro hvalid
    exact ⟨_, registerNames_ok hfound registry.keys_nodup rfl (fun _ _ _ h => absurd h List.not_mem_nil) hvalid⟩

/-! ## One registration after the other -/

/-- A registry takes a spec that is valid and whose name is free. -/
structure Registrable (registry : ComponentRegistry) (spec : ComponentSpec) : Prop where
  valid : spec.validate = .ok ()
  free : registry.find? spec.name = none

theorem register_eq_ok {registry registry' : ComponentRegistry} {spec : ComponentSpec} :
    registry.register spec = .ok registry' ↔ Registrable registry spec ∧ registry' = registry.insert spec.name spec := by
  rw [ComponentRegistry.register, then_eq_ok]
  cases hfind : registry.find? spec.name with
  | some other =>
    constructor
    · rintro ⟨-, h⟩
      cases h
    · rintro ⟨h, -⟩
      cases hfind.symm.trans h.free
  | none =>
    constructor
    · rintro ⟨hvalid, h⟩
      cases h
      exact ⟨⟨hvalid, hfind⟩, rfl⟩
    · rintro ⟨h, rfl⟩
      exact ⟨h.valid, rfl⟩

/-- What an operation registers: the spec of its argument, or nothing when that cannot be registered. -/
structure Registers {α : Type} (register : RuntimeComponents → α → Result RuntimeComponents) (specOf : α → ComponentSpec) :
    Prop where
  taken : ∀ runtime a, Registrable runtime.components (specOf a) → ∃ after, register runtime a = .ok after ∧
    after.components = runtime.components.insert (specOf a).name (specOf a)
  refused : ∀ runtime a, ¬ Registrable runtime.components (specOf a) → ∃ status, register runtime a = .error status

theorem registers_spec : Registers RuntimeComponents.registerSpec id := by
  constructor
  · intro runtime spec h
    exact ⟨_, bind_eq_ok.mpr ⟨_, register_eq_ok.mpr ⟨h, rfl⟩, rfl⟩, rfl⟩
  · intro runtime spec h
    cases hregister : runtime.components.register spec with
    | ok registry => exact absurd (register_eq_ok.mp hregister).1 h
    | error status =>
      refine ⟨status, ?_⟩
      rw [RuntimeComponents.registerSpec, hregister]
      rfl

theorem registers_instance (call : Nat) :
    Registers (RuntimeComponents.registerInstance call) fun component => (component.describe call).1 := by
  constructor
  · intro runtime component h
    exact ⟨_, bind_eq_ok.mpr ⟨(), h.valid, bind_eq_ok.mpr ⟨_, register_eq_ok.mpr ⟨h, rfl⟩, rfl⟩⟩, rfl⟩
  · intro runtime component h
    cases hregister : runtime.registerInstance call component with
    | error status => exact ⟨status, rfl⟩
    | ok after =>
      obtain ⟨registry, hregistry, -⟩ := bind_eq_ok.mp (then_eq_ok.mp hregister).2
      exact absurd (register_eq_ok.mp hregistry).1 h

section

variable {α : Type} {register : RuntimeComponents → α → Result RuntimeComponents} {specOf : α → ComponentSpec}
  {runtime : RuntimeComponents}

/-- A name that is registered stays registered. -/
theorem registerEach_keeps (h : Registers register specOf) (as : List α) (runtime : RuntimeComponents) {name : Name}
    (hname : (runtime.components.find? name).isSome = true) :
    ((registerEach register as runtime).2.components.find? name).isSome = true := by
  induction as generalizing runtime with
  | nil => exact hname
  | cons a as ih =>
    unfold registerEach
    by_cases hfree : Registrable runtime.components (specOf a)
    · obtain ⟨after, hok, hcomponents⟩ := h.taken runtime a hfree
      rw [hok]
      refine ih after ?_
      rw [hcomponents, SortedMap.find?_insert]
      split
      · rfl
      · exact hname
    · obtain ⟨status, hfailed⟩ := h.refused runtime a hfree
      rw [hfailed]
      exact hname

/-- The specs of a list, one by one in the order of the list, are registrable. -/
structure AllRegistrable (registry : ComponentRegistry) (specs : List ComponentSpec) : Prop where
  distinct : (specs.map (·.name)).Nodup
  registrable : ∀ spec ∈ specs, Registrable registry spec

theorem allRegistrable_cons {registry : ComponentRegistry} {spec : ComponentSpec} {specs : List ComponentSpec} :
    AllRegistrable registry (spec :: specs) ↔
      Registrable registry spec ∧ AllRegistrable (registry.insert spec.name spec) specs := by
  have hother : ∀ other : ComponentSpec, (registry.insert spec.name spec).find? other.name = none ↔
      other.name ≠ spec.name ∧ registry.find? other.name = none := by
    intro other
    rw [SortedMap.find?_insert]
    split
    · next heq => exact ⟨fun h => (by cases h), fun h => absurd heq h.1⟩
    · next hne => exact ⟨fun h => ⟨hne, h⟩, fun h => h.2⟩
  constructor
  · rintro ⟨hdistinct, hall⟩
    obtain ⟨hnot, hdistinct⟩ := List.nodup_cons.mp hdistinct
    refine ⟨hall spec List.mem_cons_self, hdistinct, fun other hmem => ?_⟩
    have hregistrable := hall other (List.mem_cons_of_mem _ hmem)
    refine ⟨hregistrable.valid, (hother other).mpr ⟨fun heq => hnot ?_, hregistrable.free⟩⟩
    exact List.mem_map.mpr ⟨other, hmem, heq⟩
  · rintro ⟨hspec, hdistinct, hall⟩
    refine ⟨List.nodup_cons.mpr ⟨fun hmem => ?_, hdistinct⟩, fun other hmem => ?_⟩
    · obtain ⟨other, hmem, heq⟩ := List.mem_map.mp hmem
      exact ((hother other).mp (hall other hmem).free).1 heq
    · rcases List.mem_cons.mp hmem with rfl | hmem
      · exact hspec
      · exact ⟨(hall other hmem).valid, ((hother other).mp (hall other hmem).free).2⟩

theorem registerEach_ok_iff (h : Registers register specOf) (as : List α) (runtime : RuntimeComponents) :
    (registerEach register as runtime).1 = .ok () ↔ AllRegistrable runtime.components (as.map specOf) := by
  induction as generalizing runtime with
  | nil => exact ⟨fun _ => ⟨List.nodup_nil, fun _ h => absurd h List.not_mem_nil⟩, fun _ => rfl⟩
  | cons a as ih =>
    rw [List.map_cons, allRegistrable_cons]
    unfold registerEach
    by_cases hfree : Registrable runtime.components (specOf a)
    · obtain ⟨after, hok, hcomponents⟩ := h.taken runtime a hfree
      rw [hok, ← hcomponents]
      exact (ih after).trans ⟨fun hall => ⟨hfree, hall⟩, fun hall => hall.2⟩
    · obtain ⟨status, hfailed⟩ := h.refused runtime a hfree
      rw [hfailed]
      exact ⟨fun hok => (by cases hok), fun hall => absurd hall.1 hfree⟩

theorem registerEach_components (h : Registers register specOf) (as : List α) (runtime : RuntimeComponents)
    (hall : AllRegistrable runtime.components (as.map specOf)) : (registerEach register as runtime).2.components =
      (entriesOf (as.map specOf)).foldl (fun m e => m.insert e.1 e.2) runtime.components := by
  induction as generalizing runtime with
  | nil => rfl
  | cons a as ih =>
    rw [List.map_cons, allRegistrable_cons] at hall
    obtain ⟨after, hok, hcomponents⟩ := h.taken runtime a hall.1
    unfold registerEach
    rw [hok]
    show (registerEach register as after).2.components = _
    rw [ih after (hcomponents ▸ hall.2), hcomponents]
    rfl

/-- All specs are registered, and the scheduler takes them and what was registered before. -/
structure AllTaken (registry : ComponentRegistry) (specs : List ComponentSpec) : Prop where
  registrable : AllRegistrable registry specs
  accepted : ∀ spec ∈ specs, validateComponentSpec spec = .ok ()
  existing : ∀ e ∈ registry.entries, validateComponentSpec e.2 = .ok ()

theorem scheduleAll_ok_iff (h : Registers register specOf) (as : List α) (runtime : RuntimeComponents) :
    (∃ registered, (scheduleAll (registerEach register as runtime)).1 = .ok registered) ↔
      AllTaken runtime.components (as.map specOf) := by
  have hregister := registerEach_ok_iff h as runtime
  unfold scheduleAll
  cases hfirst : (registerEach register as runtime).1 with
  | error status =>
    refine ⟨fun hok => ?_, fun hall => ?_⟩
    · obtain ⟨registered, hok⟩ := hok
      cases hok
    · cases hfirst.symm.trans (hregister.mpr hall.registrable)
  | ok u =>
    have hall := hregister.mp hfirst
    have hnames : ((entriesOf (as.map specOf)).map Prod.fst).Nodup := by
      rw [entriesOf, List.map_map]
      exact hall.distinct
    have hfresh : ∀ e ∈ entriesOf (as.map specOf), ∀ e' ∈ runtime.components.entries, e'.1 ≠ e.1 := by
      intro e he
      obtain ⟨spec, hspec, rfl⟩ := List.mem_map.mp he
      exact SortedMap.find?_eq_none.mp (hall.registrable spec hspec).free
    have hperm := SortedMap.foldl_insert_perm runtime.components hnames hfresh
    show (∃ registered, registerAllComponents _ {} = .ok registered) ↔ _
    rw [registerAllComponents_ok_iff, registerEach_components h as runtime hall]
    simp only [hperm.mem_iff, List.mem_append]
    constructor
    · intro hvalid
      refine ⟨hall, fun spec hspec => ?_, fun e he => hvalid e (.inr he)⟩
      exact hvalid (spec.name, spec) (.inl (List.mem_map_of_mem hspec))
    · intro hall e he
      rcases he with he | he
      · obtain ⟨spec, hspec, rfl⟩ := List.mem_map.mp he
        exact hall.accepted spec hspec
      · exact hall.existing e he

/-- An error means that the runtime is as it was. -/
def AllOrNothing (before : RuntimeComponents) (outcome : Result Registrations × RuntimeComponents) : Prop :=
  ∀ status, outcome.1 = .error status → outcome.2 = before

/-- The first registration changes the runtime: from there on nothing may fail. -/
theorem scheduleAll_unchanged_iff (h : Registers register specOf) (as : List α) (runtime : RuntimeComponents) :
    AllOrNothing runtime (scheduleAll (registerEach register as runtime)) ↔
      ∀ first, (as.map specOf).head? = some first → Registrable runtime.components first →
        AllTaken runtime.components (as.map specOf) := by
  have hkept : (scheduleAll (registerEach register as runtime)).2 = (registerEach register as runtime).2 := by
    unfold scheduleAll
    split <;> rfl
  cases as with
  | nil =>
    refine ⟨fun _ first hfirst => (by cases hfirst), fun _ status _ => ?_⟩
    rw [hkept]
    rfl
  | cons a as =>
    by_cases hfree : Registrable runtime.components (specOf a)
    · -- the name of the first is registered in the end and was not before
      have hchanged : (scheduleAll (registerEach register (a :: as) runtime)).2 ≠ runtime := by
        obtain ⟨after, hok, hcomponents⟩ := h.taken runtime a hfree
        have hname : (after.components.find? (specOf a).name).isSome = true := by
          rw [hcomponents, SortedMap.find?_insert, if_pos rfl]
          rfl
        have hend := registerEach_keeps h as after hname
        rw [hkept]
        unfold registerEach
        rw [hok]
        intro heq
        rw [show (registerEach register as after).2 = runtime from heq, hfree.free] at hend
        cases hend
      rw [← scheduleAll_ok_iff h]
      constructor
      · intro hnothing first _ _
        cases hresult : (scheduleAll (registerEach register (a :: as) runtime)).1 with
        | ok registered => exact ⟨registered, rfl⟩
        | error status => exact absurd (hnothing status hresult) hchanged
      · intro hall status hfailed
        obtain ⟨registered, hok⟩ := hall (specOf a) rfl hfree
        cases hfailed.symm.trans hok
    · refine ⟨fun _ first hfirst hregistrable => ?_, fun _ status _ => ?_⟩
      · cases hfirst
        exact absurd hregistrable hfree
      · obtain ⟨status', hfailed⟩ := h.refused runtime a hfree
        rw [hkept]
        unfold registerEach
        rw [hfailed]

end

/-! ## The two overloads -/

/-- The specs of a valid project are registered as specs. -/
theorem registerEach_specs {project : ProjectConfig} {components : List ComponentConfig} {specs : List ComponentSpec}
    (hspecs : List.Forall₂ (fun component spec => component.toComponentSpec project = .ok spec) components specs)
    (runtime : RuntimeComponents) :
    registerEach project.registerSpec components runtime = registerEach RuntimeComponents.registerSpec specs runtime := by
  induction hspecs generalizing runtime with
  | nil => rfl
  | @cons component spec components specs hspec _ ih =>
    have hfirst : project.registerSpec runtime component = runtime.registerSpec spec := by
      rw [ProjectConfig.registerSpec, hspec]
      rfl
    unfold registerEach
    rw [hfirst]
    split
    · exact ih _
    · rfl

/-- The checks that stand before any registration. -/
structure Checkable (project : ProjectConfig) (runtime : RuntimeComponents) : Prop where
  valid : project.validate = .ok ()
  unregistered : ∀ component ∈ project.components, project.checkUnregistered runtime.components component = .ok ()

/-- The specs of a project, when its checks pass, are all taken if the scheduler takes what is there and no two triggers
of a component share a service. -/
theorem allTaken_iff {project : ProjectConfig} {runtime : RuntimeComponents} {specs : List ComponentSpec}
    (h : Checkable project runtime)
    (hspecs : List.Forall₂ (fun component spec => component.toComponentSpec project = .ok spec) project.components specs) :
    AllRegistrable runtime.components specs ∧ (AllTaken runtime.components specs ↔
      (∀ e ∈ runtime.components.entries, validateComponentSpec e.2 = .ok ()) ∧
        ∀ component ∈ project.components, ServicesApart component) := by
  have hchecked := checked_of_validate h.valid
  have hnames : (specs.map (·.name)).Nodup := by
    have hsame : List.Forall₂ (· = ·) (project.components.map (·.name)) (specs.map (·.name)) := by
      rw [List.forall₂_map_left_iff, List.forall₂_map_right_iff]
      exact hspecs.imp fun _ _ hspec => (toComponentSpec_built hspec).name.symm
    rw [List.forall₂_eq_eq_eq] at hsame
    exact hsame ▸ hchecked.names
  have hregistrable : ∀ spec ∈ specs, Registrable runtime.components spec := by
    intro spec hspec
    obtain ⟨component, hc, hbuilt⟩ := forall₂_mem_right hspecs hspec
    refine ⟨(toComponentSpec_built hbuilt).valid, ?_⟩
    obtain ⟨spec', hspec', hfree⟩ := bind_eq_ok.mp (h.unregistered component hc)
    cases hbuilt.symm.trans hspec'
    cases hfind : runtime.components.find? spec.name with
    | none => rfl
    | some other =>
      rw [hfind] at hfree
      cases hfree
  have haccepted : (∀ spec ∈ specs, validateComponentSpec spec = .ok ()) ↔
      ∀ component ∈ project.components, ServicesApart component := by
    constructor
    · intro hall component hc
      obtain ⟨spec, hspec, hbuilt⟩ := forall₂_mem_left hspecs hc
      obtain ⟨-, -, hdeclared⟩ := hchecked.components component hc
      exact (validateComponentSpec_eq_ok hchecked (toComponentSpec_built hbuilt) hdeclared).mp (hall spec hspec)
    · intro hall spec hspec
      obtain ⟨component, hc, hbuilt⟩ := forall₂_mem_right hspecs hspec
      obtain ⟨-, -, hdeclared⟩ := hchecked.components component hc
      exact (validateComponentSpec_eq_ok hchecked (toComponentSpec_built hbuilt) hdeclared).mpr (hall component hc)
  refine ⟨⟨hnames, hregistrable⟩, fun hall => ⟨hall.existing, haccepted.mp hall.accepted⟩, fun hall => ?_⟩
  exact ⟨⟨hnames, hregistrable⟩, haccepted.mpr hall.2, hall.1⟩

theorem createScheduler_checkable {project : ProjectConfig} {runtime : RuntimeComponents} (h : Checkable project runtime) :
    project.createScheduler runtime = scheduleAll (registerEach project.registerSpec project.components runtime) := by
  have hspecs : project.applySpecs runtime = registerEach project.registerSpec project.components runtime := by
    rw [ProjectConfig.applySpecs, then_eq_ok.mpr ⟨h.valid, forM_eq_ok.mpr h.unregistered⟩]
  have hoptions : project.schedulerOptions.validate.check = .ok () :=
    (then_eq_ok.mp (then_eq_ok.mp h.valid).2).1
  rw [ProjectConfig.createScheduler, h.valid, hspecs, hoptions, scheduleAll]
  cases (registerEach project.registerSpec project.components runtime).1 with
  | error status => rfl
  | ok u => rfl

/-- A project that fails the checks is registered nowhere. -/
theorem createScheduler_unchecked {project : ProjectConfig} {runtime : RuntimeComponents} (h : ¬ Checkable project runtime) :
    (project.createScheduler runtime).2 = runtime := by
  unfold ProjectConfig.createScheduler
  cases hvalid : project.validate with
  | error status => rfl
  | ok u =>
    have happly : ∃ status, project.applySpecs runtime = (.error status, runtime) := by
      unfold ProjectConfig.applySpecs
      cases hchecks : project.validate >>= fun _ => project.components.forM (project.checkUnregistered runtime.components) with
      | error status => exact ⟨status, rfl⟩
      | ok u =>
        obtain ⟨hvalid, hunregistered⟩ := then_eq_ok.mp hchecks
        exact absurd ⟨hvalid, forM_eq_ok.mp hunregistered⟩ h
    obtain ⟨status, happly⟩ := happly
    rw [happly]

theorem createScheduler_iff (project : ProjectConfig) (runtime : RuntimeComponents) :
    AllOrNothing runtime (project.createScheduler runtime) ↔
      (Checkable project runtime → project.components ≠ [] →
        (∀ e ∈ runtime.components.entries, validateComponentSpec e.2 = .ok ()) ∧
          ∀ component ∈ project.components, ServicesApart component) := by
  by_cases h : Checkable project runtime
  · obtain ⟨specs, hspecs⟩ := exists_forall₂ fun component hc =>
      ((checked_of_validate h.valid).components component hc).imp fun _ => And.left
    obtain ⟨hregistrable, htaken⟩ := allTaken_iff h hspecs
    rw [createScheduler_checkable h, registerEach_specs hspecs, scheduleAll_unchanged_iff registers_spec, List.map_id]
    constructor
    · intro hall _ hsome
      cases hfirst : specs.head? with
      | none =>
        have hlength := hspecs.length_eq
        rw [List.head?_eq_none_iff.mp hfirst] at hlength
        exact absurd (List.length_eq_zero_iff.mp hlength) hsome
      | some first =>
        exact htaken.mp (hall first hfirst (hregistrable.registrable first (List.mem_of_head? hfirst)))
    · intro hall first hfirst _
      refine htaken.mpr (hall h fun hnil => ?_)
      obtain ⟨component, hc, -⟩ := forall₂_mem_right hspecs (List.mem_of_head? hfirst)
      rw [hnil] at hc
      cases hc
  · exact ⟨fun _ hcheckable => absurd hcheckable h, fun _ _ _ => createScheduler_unchecked h⟩

theorem createSchedulerWith_iff (project : ProjectConfig) (description : Name → Bytes) (runtime : RuntimeComponents)
    (factory : Option ComponentFactory) :
    AllOrNothing runtime (project.createSchedulerWith description runtime factory) ↔
      ∀ make instances, project.validate = .ok () → factory = some make →
        project.components.mapM (project.makeInstance description runtime make) = .ok instances →
        ∀ first, (instances.map fun made => (made.describe 1).1).head? = some first →
          Registrable runtime.components first →
          AllTaken runtime.components (instances.map fun made => (made.describe 1).1) := by
  unfold ProjectConfig.createSchedulerWith
  cases hvalid : project.validate with
  | error status => exact ⟨fun _ _ _ h => (by cases h), fun _ _ _ => rfl⟩
  | ok u =>
    cases factory with
    | none => exact ⟨fun _ _ _ _ h => (by cases h), fun _ _ _ => rfl⟩
    | some make =>
      cases hinstances : project.components.mapM (project.makeInstance description runtime make) with
      | error status =>
        refine ⟨fun _ make' instances _ heq hmade => ?_, fun _ _ _ => ?_⟩
        · cases heq
          cases hinstances.symm.trans hmade
        · simp only [hinstances]
      | ok instances =>
        simp only [hinstances]
        rw [scheduleAll_unchanged_iff (registers_instance 1)]
        constructor
        · intro hall make' instances' _ heq hmade first hfirst hregistrable
          cases heq
          cases hinstances.symm.trans hmade
          exact hall first hfirst hregistrable
        · exact fun hall => hall make instances trivial rfl hinstances

/-- Without a factory and with one, an error of `CreateScheduler` leaves the runtime unchanged exactly when nothing is
registered before it: a check refuses the input, there is no component, the first is refused, or nothing fails behind. -/
theorem create_scheduler_all_or_nothing_iff (project : ProjectConfig) (description : Name → Bytes)
    (runtime : RuntimeComponents) (factory : Option ComponentFactory) :
    (AllOrNothing runtime (project.createScheduler runtime) ↔
      (Checkable project runtime → project.components ≠ [] →
        (∀ e ∈ runtime.components.entries, validateComponentSpec e.2 = .ok ()) ∧
          ∀ component ∈ project.components, ServicesApart component)) ∧
    (AllOrNothing runtime (project.createSchedulerWith description runtime factory) ↔
      ∀ make instances, project.validate = .ok () → factory = some make →
        project.components.mapM (project.makeInstance description runtime make) = .ok instances →
        ∀ first, (instances.map fun made => (made.describe 1).1).head? = some first →
          Registrable runtime.components first →
          AllTaken runtime.components (instances.map fun made => (made.describe 1).1)) :=
  ⟨createScheduler_iff project runtime, createSchedulerWith_iff project description runtime factory⟩

/-- An instance that describes itself as it is asked to. -/
def asAsked : ComponentFactory := fun described => .ok (some ⟨fun _ => described⟩)

theorem not_allOrNothing {before : RuntimeComponents} {outcome : Result Registrations × RuntimeComponents} (name : Name)
    (hfailed : outcome.1.isOk = false) (hbefore : before.components.find? name = none)
    (hafter : (outcome.2.components.find? name).isSome = true) : ¬ AllOrNothing before outcome := by
  intro h
  cases hresult : outcome.1 with
  | ok registered =>
    rw [hresult] at hfailed
    cases hfailed
  | error status =>
    rw [h status hresult, hbefore] at hafter
    cases hafter

/-- The component with two triggers for one service passes the project's checks, is registered, and fails the
scheduler's. -/
theorem a_refused_component_stays_registered :
    ¬ AllOrNothing {} (twiceTriggered.createScheduler {}) ∧
      ¬ AllOrNothing {} (twiceTriggered.createSchedulerWith (fun _ => []) {} (some asAsked)) :=
  ⟨not_allOrNothing [99] (by decide +kernel) (by decide +kernel) (by decide +kernel),
    not_allOrNothing [99] (by decide +kernel) (by decide +kernel) (by decide +kernel)⟩

end PuppetMaster.Configuration
