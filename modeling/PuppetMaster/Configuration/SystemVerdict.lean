/-
  PuppetMaster.Configuration.SystemVerdict — when `ValidateSystem` reports an error.

  `SystemConflict` is what the check is for: two used declarations of one wire name differ,
  a name is read (called) but written (served) by no project, or by several. For valid
  projects with distinct labels the report has an error exactly when there is such a
  conflict, but for two kinds of input (`reports_conflicts_iff`):

  - `UnusedDiffers`: a project that uses a topic declares its name a second time, over
    another transport, and uses that declaration nowhere. Declarations are matched by the
    project's label, so the unused one is compared too.
  - `HiddenDiffers`: two used declarations of a service differ, but their contracts are the
    same text (`a_version_in_the_type_name`: type "A v2" of no version and type "A" of
    version 2).

  `report_errors_iff` has the verdict of one pass, for topics and services alike.
-/

import Mathlib.Data.List.Induction
import PuppetMaster.Configuration.Checked
import PuppetMaster.Configuration.SystemCheck

namespace PuppetMaster.Configuration

open PuppetMaster.Core PuppetMaster.Lib PuppetMaster.Scheduler

namespace Interface

variable {α : Type} (i : Interface α)

/-! ## What counts as a conflict -/

/-- A component reads the topic, or calls the service, that `item` declares. -/
def Consumes (project : ProjectConfig) (item : α) : Prop :=
  ∃ component ∈ project.components, ∃ id ∈ i.consumed component, i.find project id = .ok item

def Provides (project : ProjectConfig) (item : α) : Prop :=
  ∃ component ∈ project.components, ∃ id ∈ i.provided component, i.find project id = .ok item

def IsUsed (project : ProjectConfig) (item : α) : Prop := i.Consumes project item ∨ i.Provides project item

/-- Two used declarations of one name differ. -/
def UsedDiffer (differ : α → α → Prop) (projects : List NamedProject) : Prop :=
  ∃ entry ∈ projects, ∃ entry' ∈ projects, ∃ item item', i.IsUsed entry.project item ∧ i.IsUsed entry'.project item' ∧
    i.name item = i.name item' ∧ differ item item'

/-- A name is consumed, and no project provides it. -/
def Unprovided (projects : List NamedProject) : Prop :=
  ∃ entry ∈ projects, ∃ item, i.Consumes entry.project item ∧
    ∀ entry' ∈ projects, ∀ item', i.Provides entry'.project item' → i.name item' ≠ i.name item

/-- More than one project provides a name; projects are told apart by their labels. -/
def ProvidedTwice (projects : List NamedProject) : Prop :=
  ∃ entry ∈ projects, ∃ entry' ∈ projects, entry.label ≠ entry'.label ∧
    ∃ item item', i.Provides entry.project item ∧ i.Provides entry'.project item' ∧ i.name item = i.name item'

/-- A project declares a name once for use, and once more for none: the second differs from a used one. -/
def UnusedDiffers (projects : List NamedProject) : Prop :=
  ∃ entry ∈ projects, ∃ unused ∈ i.declared entry.project, ¬ i.IsUsed entry.project unused ∧
    (∃ item, i.IsUsed entry.project item ∧ i.name item = i.name unused) ∧
    ∃ entry' ∈ projects, ∃ item', i.IsUsed entry'.project item' ∧ i.name item' = i.name unused ∧
      i.differ unused item' = true

end Interface

def TopicsDiffer (a b : TopicConfig) : Prop :=
  a.messageType ≠ b.messageType ∨ a.encoding ≠ b.encoding ∨ a.messageVersion ≠ b.messageVersion ∨ a.transport ≠ b.transport

def ServicesDiffer (a b : ServiceConfig) : Prop :=
  a.requestType ≠ b.requestType ∨ a.replyType ≠ b.replyType ∨ a.encoding ≠ b.encoding ∨
    a.requestVersion ≠ b.requestVersion ∨ a.replyVersion ≠ b.replyVersion ∨ a.transport ≠ b.transport

def SystemConflict (projects : List NamedProject) : Prop :=
  (topics.UsedDiffer TopicsDiffer projects ∨ topics.Unprovided projects ∨ topics.ProvidedTwice projects) ∨
    services.UsedDiffer ServicesDiffer projects ∨ services.Unprovided projects ∨ services.ProvidedTwice projects

/-- A conflict of services that shows in their contracts, or any other conflict. -/
def PlainConflict (projects : List NamedProject) : Prop :=
  (topics.UsedDiffer TopicsDiffer projects ∨ topics.Unprovided projects ∨ topics.ProvidedTwice projects) ∨
    services.UsedDiffer (fun a b => a.contract ≠ b.contract) projects ∨ services.Unprovided projects ∨
    services.ProvidedTwice projects

/-- Used declarations of a service that differ behind one text. -/
def HiddenDiffers (projects : List NamedProject) : Prop :=
  services.UsedDiffer (fun a b => ServicesDiffer a b ∧ a.contract = b.contract) projects

/-! ## What is collected -/

/-- The uses of one name, from what was added to them. -/
structure Collected {α : Type} (uses : Uses α) (added : List (Use α)) : Prop where
  declarations : ∀ label item, (label, item) ∈ uses.declarations ↔ ⟨.declared, label, item⟩ ∈ added
  consumers : ∀ label, label ∈ uses.consumers.keys ↔ ∃ item, ⟨.consumed, label, item⟩ ∈ added
  providers : ∀ label, label ∈ uses.providers.keys ↔ ∃ item, ⟨.provided, label, item⟩ ∈ added

theorem collected {α : Type} (added : List (Use α)) : Collected (added.foldl Uses.add {}) added := by
  induction added using List.reverseRecOn with
  | nil => exact ⟨by simp, by simp [SortedMap.keys, SortedMap.empty], by simp [SortedMap.keys, SortedMap.empty]⟩
  | append_singleton added use ih =>
    obtain ⟨hdeclarations, hconsumers, hproviders⟩ := ih
    rw [List.foldl_append, List.foldl_cons, List.foldl_nil]
    obtain ⟨role, label, item⟩ := use
    cases role with
    | declared =>
      refine ⟨fun l d => ?_, fun l => ?_, fun l => ?_⟩
      · simp [Uses.add, hdeclarations]
      · simp [Uses.add, hconsumers]
      · simp [Uses.add, hproviders]
    | consumed =>
      refine ⟨fun l d => ?_, fun l => ?_, fun l => ?_⟩
      · simp [Uses.add, hdeclarations]
      · simp [Uses.add, SortedMap.mem_keys_insert, hconsumers, exists_or, or_comm]
      · simp [Uses.add, hproviders]
    | provided =>
      refine ⟨fun l d => ?_, fun l => ?_, fun l => ?_⟩
      · simp [Uses.add, hdeclarations]
      · simp [Uses.add, hconsumers]
      · simp [Uses.add, SortedMap.mem_keys_insert, hproviders, exists_or, or_comm]

namespace Interface

variable {α : Type} {i : Interface α} {projects : List NamedProject}

def usesAt (i : Interface α) (projects : List NamedProject) (name : Name) : Uses α :=
  ((i.collect projects).find? name).getD {}

theorem collected_usesAt (name : Name) :
    Collected (i.usesAt projects name) ((projects.flatMap i.usesOf).filter fun use => i.name use.item = name) := by
  have hfold := SortedMap.find?_foldl_modify (fun use : Use α => i.name use.item) {} Uses.add name
    (projects.flatMap i.usesOf) .empty
  rw [usesAt, collect, hfold]
  exact collected _

theorem mem_found {role : Role} {entry : NamedProject} {ids : List Bytes} {use : Use α} :
    use ∈ i.found role entry ids ↔
      use.role = role ∧ use.label = entry.label ∧ ∃ id ∈ ids, i.find entry.project id = .ok use.item := by
  unfold found
  rw [List.mem_filterMap]
  constructor
  · intro h
    obtain ⟨id, hid, h⟩ := h
    split at h
    · next item hfound =>
      cases h
      exact ⟨rfl, rfl, id, hid, hfound⟩
    · cases h
  · obtain ⟨role', label, item⟩ := use
    intro h
    obtain ⟨rfl, rfl, id, hid, hfound⟩ := h
    refine ⟨id, hid, ?_⟩
    rw [hfound]

/-- What the loops over one project visit. -/
theorem mem_usesOf {entry : NamedProject} {use : Use α} :
    use ∈ i.usesOf entry ↔ use.label = entry.label ∧
      ((use.role = .declared ∧ use.item ∈ i.declared entry.project) ∨
        (use.role = .consumed ∧ i.Consumes entry.project use.item) ∨
        (use.role = .provided ∧ i.Provides entry.project use.item)) := by
  obtain ⟨role, label, item⟩ := use
  unfold usesOf Consumes Provides
  simp only [List.mem_append, List.mem_map, List.mem_flatMap, mem_found, Use.mk.injEq]
  constructor
  · intro h
    rcases h with ⟨item', hmem, rfl, rfl, rfl⟩ | ⟨component, hc, ⟨rfl, rfl, hid⟩ | ⟨rfl, rfl, hid⟩⟩
    · exact ⟨rfl, .inl ⟨rfl, hmem⟩⟩
    · exact ⟨rfl, .inr (.inl ⟨rfl, component, hc, hid⟩)⟩
    · exact ⟨rfl, .inr (.inr ⟨rfl, component, hc, hid⟩)⟩
  · intro h
    obtain ⟨rfl, ⟨rfl, hmem⟩ | ⟨rfl, component, hc, hid⟩ | ⟨rfl, component, hc, hid⟩⟩ := h
    · exact .inl ⟨item, hmem, rfl, rfl, rfl⟩
    · exact .inr ⟨component, hc, .inl ⟨rfl, rfl, hid⟩⟩
    · exact .inr ⟨component, hc, .inr ⟨rfl, rfl, hid⟩⟩

theorem mem_declarations {name : Name} {label : Bytes} {item : α} :
    (label, item) ∈ (i.usesAt projects name).declarations ↔
      ∃ entry ∈ projects, entry.label = label ∧ item ∈ i.declared entry.project ∧ i.name item = name := by
  rw [(collected_usesAt name).declarations, List.mem_filter, List.mem_flatMap]
  simp only [mem_usesOf, decide_eq_true_eq]
  constructor
  · intro h
    obtain ⟨⟨entry, he, rfl, h⟩, hname⟩ := h
    exact ⟨entry, he, rfl, by simpa using h, hname⟩
  · intro h
    obtain ⟨entry, he, rfl, hmem, hname⟩ := h
    exact ⟨⟨entry, he, rfl, .inl ⟨trivial, hmem⟩⟩, hname⟩

/-- The labels under which a name is used in one role, from what that role is. -/
theorem exists_use_iff {role : Role} {P : ProjectConfig → α → Prop}
    (hrole : ∀ (entry : NamedProject) (label : Bytes) (item : α),
      (⟨role, label, item⟩ : Use α) ∈ i.usesOf entry ↔ label = entry.label ∧ P entry.project item)
    {name : Name} {label : Bytes} :
    (∃ item, ⟨role, label, item⟩ ∈ (projects.flatMap i.usesOf).filter fun use => i.name use.item = name) ↔
      ∃ entry ∈ projects, entry.label = label ∧ ∃ item, P entry.project item ∧ i.name item = name := by
  simp only [List.mem_filter, List.mem_flatMap, hrole, decide_eq_true_eq]
  constructor
  · intro h
    obtain ⟨item, ⟨entry, he, rfl, hitem⟩, hname⟩ := h
    exact ⟨entry, he, rfl, item, hitem, hname⟩
  · intro h
    obtain ⟨entry, he, rfl, item, hitem, hname⟩ := h
    exact ⟨item, ⟨entry, he, rfl, hitem⟩, hname⟩

theorem mem_consumers {name : Name} {label : Bytes} :
    label ∈ (i.usesAt projects name).consumers.keys ↔
      ∃ entry ∈ projects, entry.label = label ∧ ∃ item, i.Consumes entry.project item ∧ i.name item = name := by
  rw [(collected_usesAt name).consumers]
  exact exists_use_iff fun entry label item => by simp [mem_usesOf]

theorem mem_providers {name : Name} {label : Bytes} :
    label ∈ (i.usesAt projects name).providers.keys ↔
      ∃ entry ∈ projects, entry.label = label ∧ ∃ item, i.Provides entry.project item ∧ i.name item = name := by
  rw [(collected_usesAt name).providers]
  exact exists_use_iff fun entry label item => by simp [mem_usesOf]

theorem isUsedBy_iff {name : Name} {label : Bytes} :
    (i.usesAt projects name).isUsedBy label = true ↔
      ∃ entry ∈ projects, entry.label = label ∧ ∃ item, i.IsUsed entry.project item ∧ i.name item = name := by
  rw [Uses.isUsedBy, Bool.or_eq_true, decide_eq_true_eq, decide_eq_true_eq, mem_consumers, mem_providers]
  constructor
  · intro h
    rcases h with ⟨entry, he, hlabel, item, hitem, hname⟩ | ⟨entry, he, hlabel, item, hitem, hname⟩
    · exact ⟨entry, he, hlabel, item, .inl hitem, hname⟩
    · exact ⟨entry, he, hlabel, item, .inr hitem, hname⟩
  · intro h
    obtain ⟨entry, he, hlabel, item, hitem | hitem, hname⟩ := h
    · exact .inl ⟨entry, he, hlabel, item, hitem, hname⟩
    · exact .inr ⟨entry, he, hlabel, item, hitem, hname⟩

/-- Every declaration of the name in a project that uses it is compared. -/
theorem mem_compared (hlabels : (projects.map (·.label)).Nodup) {name : Name} {label : Bytes} {item : α} :
    (label, item) ∈ (i.usesAt projects name).compared ↔
      ∃ entry ∈ projects, entry.label = label ∧ item ∈ i.declared entry.project ∧ i.name item = name ∧
        ∃ used, i.IsUsed entry.project used ∧ i.name used = name := by
  rw [Uses.compared, List.mem_filter, mem_declarations, isUsedBy_iff]
  constructor
  · intro h
    obtain ⟨⟨entry, he, rfl, hmem, hname⟩, entry', he', hlabel, hused⟩ := h
    obtain rfl := List.inj_on_of_nodup_map hlabels he' he hlabel
    exact ⟨entry', he', rfl, hmem, hname, hused⟩
  · intro h
    obtain ⟨entry, he, hlabel, hmem, hname, hused⟩ := h
    exact ⟨⟨entry, he, hlabel, hmem, hname⟩, entry, he, hlabel, hused⟩

/-! ## The verdict on one name -/

variable {κ : Type} {key : α → κ}

theorem conflicts_ne_nil (hdiffer : ∀ a b, i.differ a b = true ↔ key a ≠ key b) {name : Name} {uses : Uses α} :
    i.conflicts name uses ≠ [] ↔ ∃ d ∈ uses.compared, ∃ d' ∈ uses.compared, key d.2 ≠ key d'.2 := by
  unfold conflicts
  split
  · next h => simp [h]
  · next first rest h =>
    rw [h, ne_eq, List.map_eq_nil_iff, List.filter_eq_nil_iff]
    simp only [hdiffer, not_not]
    push Not
    constructor
    · intro h
      obtain ⟨use, huse, hne⟩ := h
      exact ⟨first, List.mem_cons_self, use, List.mem_cons_of_mem _ huse, hne⟩
    · intro h
      obtain ⟨d, hd, d', hd', hne⟩ := h
      -- if all agree with the first, all agree
      by_contra hnone
      push Not at hnone
      have hfirst : ∀ x ∈ first :: rest, key first.2 = key x.2 := List.forall_mem_cons.mpr ⟨rfl, hnone⟩
      exact hne ((hfirst d hd).symm.trans (hfirst d' hd'))

theorem providerErrors_ne_nil {name : Name} {uses : Uses α} :
    i.providerErrors name uses ≠ [] ↔ uses.providers.keys = [] ∨ 1 < uses.providers.keys.length := by
  unfold providerErrors
  split
  · next h => simp [h]
  · next h =>
    split
    · next hseveral => simp [hseveral]
    · next hseveral => simp [h, hseveral]

theorem errorsOf_ne_nil (hdiffer : ∀ a b, i.differ a b = true ↔ key a ≠ key b) {name : Name} {uses : Uses α} :
    i.errorsOf name uses ≠ [] ↔
      (∃ d ∈ uses.compared, ∃ d' ∈ uses.compared, key d.2 ≠ key d'.2) ∨
        (uses.consumers.keys ≠ [] ∧ uses.providers.keys = []) ∨ 1 < uses.providers.keys.length := by
  unfold errorsOf
  split
  · next hunused =>
    obtain ⟨hconsumers, hproviders⟩ := hunused
    have hnone : uses.compared = [] := by simp [Uses.compared, Uses.isUsedBy, hconsumers, hproviders]
    simp [hnone, hconsumers, hproviders]
  · next hused =>
    rw [ne_eq, List.append_eq_nil_iff, not_and_or, ← ne_eq, ← ne_eq, conflicts_ne_nil hdiffer, providerErrors_ne_nil]
    have hboth : uses.providers.keys = [] → uses.consumers.keys ≠ [] := fun h h' => hused ⟨h', h⟩
    exact or_congr_right (or_congr_left ⟨fun h => ⟨hboth h, h⟩, fun h => h.2⟩)

theorem report_errors_ne_nil :
    (i.report projects).errors ≠ [] ↔ ∃ name, i.errorsOf name (i.usesAt projects name) ≠ [] := by
  rw [report, ne_eq, List.flatMap_eq_nil_iff]
  push Not
  constructor
  · intro h
    obtain ⟨entry, he, hne⟩ := h
    refine ⟨entry.1, ?_⟩
    rw [usesAt, SortedMap.find?_of_mem he]
    exact hne
  · intro h
    obtain ⟨name, hne⟩ := h
    cases hfound : (i.collect projects).find? name with
    | none =>
      rw [usesAt, hfound] at hne
      exact absurd rfl hne
    | some uses =>
      rw [usesAt, hfound] at hne
      exact ⟨(name, uses), SortedMap.mem_entries_of_find? hfound, hne⟩

/-! ## The verdict of one pass -/

/-- An id resolves to a declaration of its own project. -/
def FindsDeclared (i : Interface α) : Prop :=
  ∀ {project id item}, i.find project id = .ok item → item ∈ i.declared project

theorem IsUsed.declared (hfinds : i.FindsDeclared) {project : ProjectConfig} {item : α} (h : i.IsUsed project item) :
    item ∈ i.declared project := by
  rcases h with ⟨_, _, _, _, hfound⟩ | ⟨_, _, _, _, hfound⟩
  · exact hfinds hfound
  · exact hfinds hfound

/-- A compared declaration that differs from a used one is used itself, or unused. -/
theorem differs_from_used (hdiffer : ∀ a b, i.differ a b = true ↔ key a ≠ key b) {entry entry' : NamedProject}
    (he : entry ∈ projects) (he' : entry' ∈ projects) {item used used' : α} (hdeclared : item ∈ i.declared entry.project)
    (hused : i.IsUsed entry.project used) (hname : i.name used = i.name item) (hused' : i.IsUsed entry'.project used')
    (hname' : i.name used' = i.name item) (hne : key item ≠ key used') :
    i.UsedDiffer (fun a b => key a ≠ key b) projects ∨ i.UnusedDiffers projects := by
  by_cases hitem : i.IsUsed entry.project item
  · exact .inl ⟨entry, he, entry', he', item, used', hitem, hused', hname'.symm, hne⟩
  · exact .inr ⟨entry, he, item, hdeclared, hitem, ⟨used, hused, hname⟩, entry', he', used', hused', hname',
      (hdiffer _ _).mpr hne⟩

theorem compared_differ_iff (hlabels : (projects.map (·.label)).Nodup) (hfinds : i.FindsDeclared)
    (hdiffer : ∀ a b, i.differ a b = true ↔ key a ≠ key b) :
    (∃ name, ∃ d ∈ (i.usesAt projects name).compared, ∃ d' ∈ (i.usesAt projects name).compared, key d.2 ≠ key d'.2) ↔
      i.UsedDiffer (fun a b => key a ≠ key b) projects ∨ i.UnusedDiffers projects := by
  constructor
  · intro h
    obtain ⟨name, d, hd, d', hd', hne⟩ := h
    obtain ⟨entry, he, -, hdeclared, hname, used, hused, husedName⟩ := (mem_compared hlabels).mp hd
    obtain ⟨entry', he', -, hdeclared', hname', used', hused', husedName'⟩ := (mem_compared hlabels).mp hd'
    -- one of the two differs from the declaration that the first project uses
    by_cases hfirst : key d.2 = key used
    · have hother : key d'.2 ≠ key used := fun heq => hne (hfirst.trans heq.symm)
      exact differs_from_used hdiffer he' he hdeclared' hused' (husedName'.trans hname'.symm) hused
        (husedName.trans hname'.symm) hother
    · exact differs_from_used hdiffer he he hdeclared hused (husedName.trans hname.symm) hused
        (husedName.trans hname.symm) hfirst
  · have hcompared : ∀ {entry : NamedProject} {item : α}, entry ∈ projects → i.IsUsed entry.project item →
        (entry.label, item) ∈ (i.usesAt projects (i.name item)).compared := fun he hitem =>
      (mem_compared hlabels).mpr ⟨_, he, rfl, hitem.declared hfinds, rfl, _, hitem, rfl⟩
    rintro (⟨entry, he, entry', he', item, item', hitem, hitem', hname, hne⟩ |
      ⟨entry, he, unused, hdeclared, -, ⟨used, hused, hname⟩, entry', he', item', hitem', hname', hne⟩)
    · exact ⟨i.name item, _, hcompared he hitem, _, hname ▸ hcompared he' hitem', hne⟩
    · exact ⟨i.name unused, (entry.label, unused),
        (mem_compared hlabels).mpr ⟨entry, he, rfl, hdeclared, rfl, used, hused, hname⟩,
        _, hname' ▸ hcompared he' hitem', (hdiffer _ _).mp hne⟩

theorem unprovided_iff :
    (∃ name, (i.usesAt projects name).consumers.keys ≠ [] ∧ (i.usesAt projects name).providers.keys = []) ↔
      i.Unprovided projects := by
  constructor
  · intro h
    obtain ⟨name, hconsumers, hproviders⟩ := h
    obtain ⟨label, hlabel⟩ := List.exists_mem_of_ne_nil _ hconsumers
    obtain ⟨entry, he, -, item, hitem, rfl⟩ := mem_consumers.mp hlabel
    refine ⟨entry, he, item, hitem, fun entry' he' item' hitem' hname => ?_⟩
    have hmem := mem_providers.mpr ⟨entry', he', rfl, item', hitem', hname⟩
    rw [hproviders] at hmem
    cases hmem
  · intro h
    obtain ⟨entry, he, item, hitem, hnone⟩ := h
    refine ⟨i.name item, List.ne_nil_of_mem (mem_consumers.mpr ⟨entry, he, rfl, item, hitem, rfl⟩), ?_⟩
    refine List.eq_nil_iff_forall_not_mem.mpr fun label hlabel => ?_
    obtain ⟨entry', he', -, item', hitem', hname⟩ := mem_providers.mp hlabel
    exact hnone entry' he' item' hitem' hname

theorem providedTwice_iff :
    (∃ name, 1 < (i.usesAt projects name).providers.keys.length) ↔ i.ProvidedTwice projects := by
  constructor
  · intro h
    obtain ⟨name, hlong⟩ := h
    obtain ⟨label, hlabel, label', hlabel', hne⟩ := exists_ne_of_nodup (SortedMap.keys_nodup _) hlong
    obtain ⟨entry, he, rfl, item, hitem, rfl⟩ := mem_providers.mp hlabel
    obtain ⟨entry', he', rfl, item', hitem', hname⟩ := mem_providers.mp hlabel'
    exact ⟨entry, he, entry', he', hne, item, item', hitem, hitem', hname.symm⟩
  · intro h
    obtain ⟨entry, he, entry', he', hne, item, item', hitem, hitem', hname⟩ := h
    have hlabel := mem_providers.mpr ⟨entry, he, rfl, item, hitem, rfl⟩
    have hlabel' := mem_providers.mpr ⟨entry', he', rfl, item', hitem', hname.symm⟩
    exact ⟨i.name item, length_gt_one_of_ne hlabel hlabel' hne⟩

theorem report_errors_iff (hlabels : (projects.map (·.label)).Nodup) (hfinds : i.FindsDeclared)
    (hdiffer : ∀ a b, i.differ a b = true ↔ key a ≠ key b) :
    (i.report projects).errors ≠ [] ↔
      (i.UsedDiffer (fun a b => key a ≠ key b) projects ∨ i.UnusedDiffers projects) ∨ i.Unprovided projects ∨
        i.ProvidedTwice projects := by
  rw [report_errors_ne_nil, ← compared_differ_iff hlabels hfinds hdiffer, ← unprovided_iff, ← providedTwice_iff,
    ← exists_or, ← exists_or]
  exact exists_congr fun name => errorsOf_ne_nil hdiffer

end Interface

/-! ## Topics and services -/

variable {projects : List NamedProject}

theorem topics_findsDeclared : topics.FindsDeclared := by
  intro project id topic h
  unfold topics ProjectConfig.findTopic at h
  dsimp only at h
  split at h
  · next found hfound =>
    cases h
    exact List.mem_of_find?_eq_some hfound
  · cases h

theorem services_findsDeclared : services.FindsDeclared := by
  intro project id service h
  unfold services ProjectConfig.findService at h
  dsimp only at h
  split at h
  · next found hfound =>
    cases h
    exact List.mem_of_find?_eq_some hfound
  · cases h

/-- The fields of a topic that the check compares. -/
def TopicConfig.compared (topic : TopicConfig) : Bytes × Bytes × UInt32 × TransportKind :=
  (topic.messageType, topic.encoding, topic.messageVersion, topic.transport)

theorem topicsDiffer_iff (a b : TopicConfig) : TopicsDiffer a b ↔ a.compared ≠ b.compared := by
  unfold TopicsDiffer TopicConfig.compared
  simp only [ne_eq, Prod.mk.injEq, not_and_or]

theorem topics_differ_iff (a b : TopicConfig) : topics.differ a b = true ↔ a.compared ≠ b.compared := by
  rw [← topicsDiffer_iff, TopicsDiffer]
  simp [topics, or_assoc]

theorem services_differ_iff (a b : ServiceConfig) : services.differ a b = true ↔ a.contract ≠ b.contract := by
  simp [services]

theorem Interface.UsedDiffer.imp {α : Type} {i : Interface α} {differ differ' : α → α → Prop}
    (himp : ∀ a b, differ a b → differ' a b) (h : i.UsedDiffer differ projects) : i.UsedDiffer differ' projects := by
  obtain ⟨entry, he, entry', he', item, item', hitem, hitem', hname, hdiffer⟩ := h
  exact ⟨entry, he, entry', he', item, item', hitem, hitem', hname, himp _ _ hdiffer⟩

/-- A valid project declares no service name twice. -/
theorem services_no_unused (hvalid : ∀ entry ∈ projects, entry.project.validate = .ok ()) :
    ¬ services.UnusedDiffers projects := by
  intro h
  obtain ⟨entry, he, unused, hdeclared, hnot, ⟨used, hused, hname⟩, -⟩ := h
  have hservices : validateServices entry.project = .ok () := by
    have h := hvalid entry he
    unfold ProjectConfig.validate at h
    simp only [then_eq_ok] at h
    exact h.2.2.2.2.2.2.1
  have hsame : used = unused := service_of_name hservices (hused.declared services_findsDeclared) hdeclared hname
  exact hnot (hsame ▸ hused)

/-- A difference of contracts is a difference of declarations; the others hide behind one text. -/
theorem servicesDiffer_iff : services.UsedDiffer ServicesDiffer projects ↔
    services.UsedDiffer (fun a b => a.contract ≠ b.contract) projects ∨ HiddenDiffers projects := by
  constructor
  · intro h
    obtain ⟨entry, he, entry', he', item, item', hitem, hitem', hname, hdiffer⟩ := h
    by_cases htext : item.contract = item'.contract
    · exact .inr ⟨entry, he, entry', he', item, item', hitem, hitem', hname, hdiffer, htext⟩
    · exact .inl ⟨entry, he, entry', he', item, item', hitem, hitem', hname, htext⟩
  · intro h
    rcases h with h | h
    · refine h.imp fun a b htext => ?_
      by_contra hsame
      unfold ServicesDiffer at hsame
      push Not at hsame
      obtain ⟨hrequest, hreply, hencoding, hrequestVersion, hreplyVersion, htransport⟩ := hsame
      apply htext
      rw [ServiceConfig.contract, ServiceConfig.contract, hrequest, hreply, hencoding, hrequestVersion, hreplyVersion,
        htransport]
    · exact h.imp fun a b hboth => hboth.1

/-! ## The verdict -/

theorem systemConflict_iff : SystemConflict projects ↔ PlainConflict projects ∨ HiddenDiffers projects := by
  unfold SystemConflict PlainConflict
  rw [servicesDiffer_iff]
  simp only [or_assoc, or_left_comm, or_comm]

theorem validateSystem_errors_iff (hvalid : ∀ entry ∈ projects, entry.project.validate = .ok ())
    (hlabels : (projects.map (·.label)).Nodup) :
    (validateSystem projects).errors ≠ [] ↔ PlainConflict projects ∨ topics.UnusedDiffers projects := by
  have htopics := Interface.report_errors_iff hlabels topics_findsDeclared topics_differ_iff
  have hservices := Interface.report_errors_iff hlabels services_findsDeclared services_differ_iff
  have hsame : (fun a b : TopicConfig => a.compared ≠ b.compared) = TopicsDiffer := by
    funext a b
    exact propext (topicsDiffer_iff a b).symm
  have hunused := services_no_unused hvalid
  rw [hsame] at htopics
  unfold validateSystem PlainConflict
  dsimp only
  rw [ne_eq, List.append_eq_nil_iff, not_and_or, ← ne_eq, ← ne_eq, htopics, hservices, or_iff_left hunused]
  simp only [or_assoc, or_left_comm, or_comm]

/-- The report is right about a system that is in plain conflict, or that declares no unused topic
    which differs and hides no difference of services; or where it is wrong twice. -/
theorem reports_conflicts_iff (projects : List NamedProject)
    (hvalid : ∀ entry ∈ projects, entry.project.validate = .ok ()) (hlabels : (projects.map (·.label)).Nodup) :
    ((validateSystem projects).errors ≠ [] ↔ SystemConflict projects) ↔
      (PlainConflict projects ∨ (topics.UnusedDiffers projects ↔ HiddenDiffers projects)) := by
  rw [validateSystem_errors_iff hvalid hlabels, systemConflict_iff]
  by_cases hplain : PlainConflict projects
  · simp [hplain]
  · simp [hplain]

def lookup (requestType : String) (requestVersion : UInt32) : ServiceConfig :=
  { id := text "lookup", name := text "lookup", requestType := text requestType, replyType := text "found"
    requestVersion }

/-- A server of requests of type "A v2" without a version, and a client of version 2 of type "A". -/
def versionInTheName : List NamedProject :=
  [{ label := text "server.json"
     project :=
      { services := [lookup "A v2" 0]
        components := [{ name := text "server", servers := [text "lookup"] }] } },
   { label := text "client.json"
     project :=
      { services := [lookup "A" 2]
        components := [{ name := text "client", clients := [text "lookup"] }] } }]

/-- Both sides are valid and use the service; its request types differ, and nothing is reported. -/
theorem a_version_in_the_type_name :
    (∀ entry ∈ versionInTheName, entry.project.validate = .ok ()) ∧ (versionInTheName.map (·.label)).Nodup ∧
      ¬ ((validateSystem versionInTheName).errors ≠ [] ↔ SystemConflict versionInTheName) := by
  have hvalid : ∀ entry ∈ versionInTheName, entry.project.validate = .ok () := by decide +kernel
  have hquiet : (validateSystem versionInTheName).errors = [] := by decide +kernel
  have hconflict : SystemConflict versionInTheName := by
    refine .inr (.inl ⟨_, .head _, _, .tail _ (.head _), lookup "A v2" 0, lookup "A" 2,
      .inr ⟨_, .head _, _, .head _, ?_⟩, .inl ⟨_, .head _, _, .head _, ?_⟩, rfl, .inl ?_⟩)
    · simp [services, ProjectConfig.findService, lookup]
    · simp [services, ProjectConfig.findService, lookup]
    · decide +kernel
  exact ⟨hvalid, by decide +kernel, fun h => h.mpr hconflict hquiet⟩

/-- Writer and reader of a topic; the writer declares the name over a second transport. -/
def declaredTwice : List NamedProject :=
  [{ label := text "writer.json"
     project :=
      { topics := [{ id := text "out", name := text "scan", messageType := text "Scan", transport := .ipc },
          { id := text "spare", name := text "scan", messageType := text "Scan", transport := .zmq }]
        components := [{ name := text "writer", writers := [text "out"] }] } },
   { label := text "reader.json"
     project :=
      { topics := [{ id := text "in", name := text "scan", messageType := text "Scan", transport := .ipc }]
        components := [{ name := text "reader", readers := [text "in"] }] } }]

-- valid, and no two used declarations differ; the spare one is reported
example : (∀ entry ∈ declaredTwice, entry.project.validate = .ok ()) ∧
    (validateSystem declaredTwice).errors =
      [text "topic scan is Scan (application/octet-stream) over ipc in writer.json but "
        ++ text "Scan (application/octet-stream) over zmq in writer.json"] := by
  decide +kernel

/-- A topic that is read and written by nobody. -/
def readByOne : List NamedProject :=
  [{ label := text "reader.json"
     project :=
      { topics := [{ id := text "in", name := text "scan", messageType := text "Scan" }]
        components := [{ name := text "reader", readers := [text "in"] }] } }]

theorem an_unwritten_topic_is_reported :
    (∀ entry ∈ readByOne, entry.project.validate = .ok ()) ∧
      ((validateSystem readByOne).errors ≠ [] ↔ SystemConflict readByOne) := by
  have hvalid : ∀ entry ∈ readByOne, entry.project.validate = .ok () := by decide +kernel
  refine ⟨hvalid, (reports_conflicts_iff readByOne hvalid (by decide +kernel)).mpr (.inl (.inl (.inr (.inl ?_))))⟩
  refine ⟨_, .head _, { id := text "in", name := text "scan", messageType := text "Scan" },
    ⟨_, .head _, _, .head _, ?_⟩, ?_⟩
  · simp [topics, ProjectConfig.findTopic]
  · intro entry he item h
    obtain ⟨component, hc, id, hid, -⟩ := h
    cases List.mem_singleton.mp he
    cases List.mem_singleton.mp hc
    cases hid

end PuppetMaster.Configuration
