/-
  PuppetMaster.Configuration.DuplicateIds — which projects are refused for an id that is
  already declared.

  - `refuses_duplicates_iff`: files without an import cycle are refused exactly when one id
    is declared twice as a topic or twice as a service, and topics and services stay apart,
    as long as no topic id is `service:` and a service id.
  - `one_topic_and_one_service_clash`: a project that is refused although no id is declared
    twice.
-/

import PuppetMaster.Configuration.ImportOrder

namespace PuppetMaster.Configuration.Loader

open PuppetMaster.Core PuppetMaster.Lib PuppetMaster.Lib.DepthFirst

variable {files : FileSystem} {options : JsonLoadOptions} {root : Bytes}

/-- Of two declarations, neither is in the way of the other. -/
def Apart (a b : Declaration) : Prop :=
  ∀ file file', ∃ origins, (declareId a.1 a.2 file .empty >>= declareId b.1 b.2 file') = .ok origins

theorem apart_iff {a b : Declaration} : Apart a b ↔ a.key ≠ b.key := by
  have hfirst : ∀ file, declareId a.1 a.2 file .empty = .ok (SortedMap.empty.insert a.key file) := fun _ => rfl
  have hfind : ∀ file, (SortedMap.empty.insert a.key file : SortedMap Bytes Bytes).find? b.key =
      if b.key = a.key then some file else none := fun file => by
    rw [SortedMap.find?_insert]
    rfl
  have hsecond : ∀ file file', (declareId a.1 a.2 file .empty >>= declareId b.1 b.2 file') =
      declareId b.1 b.2 file' (SortedMap.empty.insert a.key file) := fun file _ => by
    rw [hfirst file]
    rfl
  constructor
  · intro h heq
    obtain ⟨origins, hok⟩ := h [] []
    rw [hsecond, declareId, show originKey b.1 b.2 = b.key from rfl, hfind, if_pos heq.symm] at hok
    cases hok
  · intro h file file'
    refine ⟨(SortedMap.empty.insert a.key file).insert b.key file', ?_⟩
    rw [hsecond, declareId, show originKey b.1 b.2 = b.key from rfl, hfind, if_neg fun heq => h heq.symm]

namespace FileSet

/-- What decoding the files should give, from some depth on. -/
def RefusesDuplicates (set : FileSet files options root) (order : List Bytes) : Prop :=
  ∃ least result, (∀ depth, least ≤ depth → decodeFile files options depth root = result) ∧
    result ≠ .error .unfinished ∧
    ((∃ kind id file first, result = .error (.alreadyDeclared kind id file first)) ↔
      ¬ ((order.flatMap set.topics).map TopicConfig.id).Nodup ∨ ¬ ((order.flatMap set.services).map ServiceConfig.id).Nodup) ∧
    ∀ topic ∈ order.flatMap set.topics, ∀ service ∈ order.flatMap set.services,
      Apart (.topic, topic.id) (.service, service.id) ∧ Apart (.service, service.id) (.topic, topic.id)

variable {set : FileSet files options root} {outcome : Outcome Bytes}

/-- What is left after the declarations reports no declaration. -/
theorem finish_cases (document : Json) (state : Loading) :
    (∃ project, finish document state = .ok project) ∨ ∃ message, finish document state = .error (.invalid message) := by
  unfold finish
  cases decodeComponents document state.project with
  | ok components => exact .inl ⟨_, rfl⟩
  | error message => exact .inr ⟨message, rfl⟩

/-- Without a clash the load stops at an id that is declared twice, and only there. -/
theorem refuses_duplicates {visited : Visited Bytes} (hsearch : Search set.imports set.rootKey (.done visited))
    (hclash : ¬ Clashing (set.declarations visited.order)) :
    ∃ least result, (∀ depth, least ≤ depth → decodeFile files options depth root = result) ∧ result ≠ .error .unfinished ∧
      ((∃ kind id file first, result = .error (.alreadyDeclared kind id file first)) ↔
        ¬ (set.declarations visited.order).Nodup) := by
  obtain ⟨least, result, hresult, hrun⟩ := decodeFile_simulates set hsearch
  refine ⟨least, _, hrun, ?_⟩
  rcases hresult with ⟨hkeys, state, rfl, -⟩ | ⟨declaration, file, first, hrefused, rfl⟩
  · have hnodup := (nodup_keys_iff.mp hkeys).1
    show finish _ state ≠ _ ∧ ((∃ kind id file first, finish _ state = _) ↔ _)
    rcases finish_cases (set.content set.rootKey) state with ⟨project, hfinish⟩ | ⟨message, hfinish⟩
    · rw [hfinish]
      exact ⟨fun h => (by cases h), fun ⟨_, _, _, _, h⟩ => (by cases h), fun h => absurd hnodup h⟩
    · rw [hfinish]
      exact ⟨fun h => (by cases h), fun ⟨_, _, _, _, h⟩ => (by cases h), fun h => absurd hnodup h⟩
  · refine ⟨fun h => (by cases h), fun _ hnodup => ?_, fun _ => ⟨_, _, file, first, rfl⟩⟩
    exact hrefused.not_nodup (nodup_keys_iff.mpr ⟨hnodup, hclash⟩)

end FileSet

theorem refuses_duplicates_iff (set : FileSet files options root) (hacyclic : ¬ CycleReachable set.imports set.rootKey) :
    ∃ order, set.PostOrder order ∧ (set.RefusesDuplicates order ↔
      ∀ topic ∈ order.flatMap set.topics, ∀ service ∈ order.flatMap set.services, topic.id ≠ text "service:" ++ service.id) := by
  obtain ⟨outcome, hsearch⟩ := exists_search set.closed set.root_mem
  cases outcome with
  | cycle closing order => exact absurd ((search_cycle_iff hsearch).mp ⟨closing, order, rfl⟩) hacyclic
  | done visited =>
    refine ⟨visited.order, FileSet.postOrder_of_search hsearch, ?_⟩
    constructor
    · intro h topic htopic service hservice hid
      obtain ⟨-, -, -, -, -, hapart⟩ := h
      exact apart_iff.mp (hapart topic htopic service hservice).1 hid
    · intro h
      have hclash : ¬ Clashing (set.declarations visited.order) := by
        rintro ⟨id, htopic, hservice⟩
        obtain ⟨topic, hmem, hid⟩ := FileSet.mem_declarations_topic.mp htopic
        obtain ⟨service, hmem', heq⟩ := FileSet.mem_declarations_service.mp hservice
        exact h topic hmem service hmem' (heq ▸ hid)
      obtain ⟨least, result, hrun, hends, hrefuses⟩ := FileSet.refuses_duplicates hsearch hclash
      rw [FileSet.declarations_nodup_iff, not_and_or] at hrefuses
      refine ⟨least, result, hrun, hends, hrefuses, fun topic htopic service hservice => ⟨?_, ?_⟩⟩
      · exact apart_iff.mpr (h topic htopic service hservice)
      · exact apart_iff.mpr fun heq => h topic htopic service hservice heq.symm

theorem walk_pair : Walk (pairSet topicId serviceId 0).imports [projectPath] [projectPath] :=
  @Walk.cons _ _ projectPath [] [] [] .nil .nil

theorem acyclic_pair : ¬ CycleReachable (pairSet topicId serviceId 0).imports (pairSet topicId serviceId 0).rootKey :=
  walk_pair.acyclic

theorem walk_diamond (leftId : String) :
    Walk (diamondSet leftId).imports [projectPath] [basePath, leftPath, basePath, rightPath, projectPath] := by
  have himports_root : (diamondSet leftId).imports projectPath = [leftPath, rightPath] :=
    show diamondImports projectPath = _ by decide +kernel
  have himports_left : (diamondSet leftId).imports leftPath = [basePath] := show diamondImports leftPath = _ by decide +kernel
  have himports_right : (diamondSet leftId).imports rightPath = [basePath] := show diamondImports rightPath = _ by decide +kernel
  have himports_base : (diamondSet leftId).imports basePath = [] := show diamondImports basePath = _ by decide +kernel
  have hbase : Walk (diamondSet leftId).imports [basePath] [basePath] := by
    refine @Walk.cons _ _ basePath [] [] [] ?_ .nil
    rw [himports_base]
    exact .nil
  have hright : Walk (diamondSet leftId).imports [rightPath] [basePath, rightPath] := by
    refine @Walk.cons _ _ rightPath [] [basePath] [] ?_ .nil
    rw [himports_right]
    exact hbase
  have hboth : Walk (diamondSet leftId).imports [leftPath, rightPath] [basePath, leftPath, basePath, rightPath] := by
    refine @Walk.cons _ _ leftPath [rightPath] [basePath] _ ?_ hright
    rw [himports_left]
    exact hbase
  refine @Walk.cons _ _ projectPath [] [basePath, leftPath, basePath, rightPath] [] ?_ .nil
  rw [himports_root]
  exact hboth

theorem postOrder_diamond {leftId : String} {order : List Bytes} (h : (diamondSet leftId).PostOrder order) :
    order = [basePath, leftPath, rightPath, projectPath] := by
  obtain ⟨paths, hwalk, horder⟩ := h.walk
  have hpaths := hwalk.unique (walk_diamond leftId)
  rw [horder, hpaths]
  decide +kernel

/-- A diamond in which two files declare a topic `t`. -/
theorem refuses_duplicates_diamond :
    (diamondSet "t").RefusesDuplicates [basePath, leftPath, rightPath, projectPath]
      ∧ ¬ (([basePath, leftPath, rightPath, projectPath].flatMap (diamondSet "t").topics).map TopicConfig.id).Nodup := by
  obtain ⟨order, horder, hrefuses⟩ := refuses_duplicates_iff (diamondSet "t") (walk_diamond "t").acyclic
  rw [postOrder_diamond horder] at hrefuses
  exact ⟨hrefuses.mpr (by decide +kernel), by decide +kernel⟩

theorem one_topic_and_one_service_clash : ¬ CycleReachable (pairSet "service:x" "x" 0).imports projectPath ∧
    (pairSet "service:x" "x" 0).PostOrder [projectPath] ∧
    ¬ (pairSet "service:x" "x" 0).RefusesDuplicates [projectPath] := by
  have hsearch : Search (pairSet "service:x" "x" 0).imports projectPath (.done ⟨[projectPath], [projectPath]⟩) :=
    ⟨_, .nil, rfl⟩
  refine ⟨acyclic_pair, FileSet.postOrder_of_search hsearch, fun h => ?_⟩
  obtain ⟨least, result, hresult, -, hrefuses, -⟩ := h
  have hfailed := (hresult (least + 1) (Nat.le_succ _)).symm.trans (decodeFile_clash least)
  rcases hrefuses.mp ⟨_, _, _, _, hfailed⟩ with htwice | htwice
  · exact htwice (List.nodup_singleton _)
  · exact htwice (List.nodup_singleton _)

end PuppetMaster.Configuration.Loader
