/-
  PuppetMaster.Configuration.StartCommands — what `system commands` prints, split again at
  line breaks and tabs.

  The names and arguments of an accepted manifest have neither (`loadSystemManifest_checked`).
  Nothing checks executables, configs and directories: the listing splits into the commands
  it was printed from exactly when these have neither as well (`listing_splits_iff`).
-/

import PuppetMaster.Lib.Table
import PuppetMaster.Configuration.SystemManifest

namespace PuppetMaster.Configuration.Manifest

open PuppetMaster.Core PuppetMaster.Core.Path PuppetMaster.Lib

def readCommands (listing : Bytes) : List (List Bytes) := Table.read tab newline listing

/-- Without a tab and without a line break. -/
abbrev Clean (word : Bytes) : Prop := Table.Clean tab newline word

def SystemManifest.row (manifest : SystemManifest) (node : NodeManifest) : List Bytes :=
  node.name :: (manifest.commandFor node ++ [delayWord node])

theorem printCommands_eq (manifest : SystemManifest) :
    manifest.printCommands = Table.print tab newline (manifest.nodes.map manifest.row) := by
  rw [SystemManifest.printCommands, Table.print, List.flatMap_map]
  congr 1
  funext node
  rw [SystemManifest.printLine, SystemManifest.row, Table.intercalate_cons, List.flatMap_append]
  simp

/-! ## What is checked -/

structure Checked (manifest : SystemManifest) : Prop where
  names : ∀ node ∈ manifest.nodes, Clean node.name
  arguments : ∀ node ∈ manifest.nodes, ∀ argument ∈ node.arguments, Clean argument

theorem validateName_clean {name : Bytes} (h : (validateName "node name" name).isOk = true) : Clean name := by
  have hbytes : ∀ byte ∈ name, ¬ (byte ≤ 0x20) := by
    intro byte hbyte hle
    unfold validateName at h
    split at h
    · cases h
    split at h
    · cases h
    rw [if_pos (List.any_eq_true.mpr ⟨byte, hbyte, by simp [hle]⟩)] at h
    cases h
  exact ⟨fun hmem => hbytes tab hmem (by decide), fun hmem => hbytes newline hmem (by decide)⟩

theorem checkArguments_clean {arguments : List Bytes} {path : Bytes} (h : checkArguments arguments path = .ok ()) :
    ∀ argument ∈ arguments, Clean argument := by
  intro argument hargument
  have hnone := failIf_eq_ok.mp h
  have hbytes : ∀ byte ∈ argument, ¬ isBreak byte = true := fun byte hbyte hbreak =>
    hnone ⟨argument, hargument, List.any_eq_true.mpr ⟨byte, hbyte, hbreak⟩⟩
  exact ⟨fun hmem => hbytes tab hmem rfl, fun hmem => hbytes newline hmem rfl⟩

theorem decodeNode_clean {world : World} {manifest : SystemManifest} {base : Bytes} {value : Json} {path : Bytes}
    {names : List Bytes} {node : NodeManifest} (h : decodeNode world manifest base value path names = .ok node) :
    Clean node.name ∧ ∀ argument ∈ node.arguments, Clean argument := by
  unfold decodeNode at h
  obtain ⟨_, _, h⟩ := thrown_bind h
  obtain ⟨name, _, h⟩ := thrown_bind h
  obtain ⟨_, hname, h⟩ := thrown_bind h
  obtain ⟨executable, _, h⟩ := thrown_bind h
  obtain ⟨config, _, h⟩ := thrown_bind h
  obtain ⟨arguments, _, h⟩ := thrown_bind h
  obtain ⟨_, harguments, h⟩ := thrown_bind h
  obtain ⟨_, _, h⟩ := thrown_bind h
  obtain ⟨_, _, h⟩ := thrown_bind h
  obtain ⟨_, _, h⟩ := thrown_bind h
  obtain ⟨_, _, h⟩ := thrown_bind h
  obtain ⟨_, _, h⟩ := thrown_bind h
  obtain ⟨_, _, h⟩ := thrown_bind h
  obtain ⟨_, _, h⟩ := thrown_bind h
  obtain ⟨_, hvalid, _⟩ := thrown_bind hname
  cases h
  exact ⟨validateName_clean (by simpa using failIf_eq_ok.mp hvalid), checkArguments_clean harguments⟩

theorem decodeNodes_checked {world : World} {base : Bytes} {manifest after : SystemManifest} {entry : Json × Nat}
    (h : decodeNodes world base manifest entry = .ok after) :
    ∃ node, after = { manifest with nodes := manifest.nodes ++ [node] } ∧ Clean node.name
      ∧ ∀ argument ∈ node.arguments, Clean argument := by
  obtain ⟨node, hnode, h⟩ := thrown_bind h
  cases h
  exact ⟨node, rfl, decodeNode_clean hnode⟩

theorem foldlM_checked {world : World} {base : Bytes} (entries : List (Json × Nat)) {manifest final : SystemManifest}
    (hchecked : Checked manifest) (h : entries.foldlM (decodeNodes world base) manifest = .ok final) :
    Checked final ∧ final.nodes.length = manifest.nodes.length + entries.length := by
  induction entries generalizing manifest with
  | nil =>
    cases h
    exact ⟨hchecked, rfl⟩
  | cons entry entries ih =>
    rw [List.foldlM_cons] at h
    obtain ⟨after, hafter, h⟩ := thrown_bind h
    obtain ⟨node, rfl, hname, harguments⟩ := decodeNodes_checked hafter
    have hnode : ∀ other ∈ manifest.nodes ++ [node], other ∈ manifest.nodes ∨ other = node := fun other hother =>
      (List.mem_append.mp hother).imp_right List.mem_singleton.mp
    have hnext : Checked { manifest with nodes := manifest.nodes ++ [node] } :=
      ⟨fun other hother => (hnode other hother).elim (hchecked.names other) fun heq => heq ▸ hname,
       fun other hother => (hnode other hother).elim (hchecked.arguments other) fun heq => heq ▸ harguments⟩
    obtain ⟨hfinal, hlength⟩ := ih hnext h
    refine ⟨hfinal, ?_⟩
    rw [hlength, List.length_append, List.length_cons, List.length_cons, List.length_nil]
    omega

theorem nodeValues_ne_nil {root : Json} {values : List Json} (h : nodeValues root = .ok values) : values ≠ [] := by
  unfold nodeValues at h
  split at h
  · cases h
    exact List.cons_ne_nil _ _
  · cases h

theorem decode_checked {world : World} {root : Json} {file : Bytes} {manifest : SystemManifest}
    (h : decode world root file = .ok manifest) : Checked manifest ∧ manifest.nodes ≠ [] := by
  unfold decode at h
  obtain ⟨_, _, h⟩ := thrown_bind h
  obtain ⟨name, _, h⟩ := thrown_bind h
  obtain ⟨configPaths, _, h⟩ := thrown_bind h
  obtain ⟨binPaths, _, h⟩ := thrown_bind h
  obtain ⟨deployment, _, h⟩ := thrown_bind h
  obtain ⟨resolved, _, h⟩ := thrown_bind h
  obtain ⟨values, hvalues, h⟩ := thrown_bind h
  obtain ⟨hchecked, hlength⟩ := foldlM_checked values.zipIdx
    ⟨fun node hnode => absurd hnode List.not_mem_nil, fun node hnode => absurd hnode List.not_mem_nil⟩ h
  have hpos : 0 < values.length := List.length_pos_of_ne_nil (nodeValues_ne_nil hvalues)
  rw [List.length_nil, List.length_zipIdx] at hlength
  exact ⟨hchecked, List.ne_nil_of_length_pos (by omega)⟩

theorem loadSystemManifest_checked {world : World} {path : Bytes} {manifest : SystemManifest}
    (h : loadSystemManifest world path = .ok manifest) : Checked manifest ∧ manifest.nodes ≠ [] := by
  unfold loadSystemManifest at h
  split at h
  · cases h
  split at h
  · cases h
  split at h
  · cases h
  · next hdecode =>
    cases h
    obtain ⟨root, _, hroot⟩ := thrown_bind hdecode
    exact decode_checked hroot

/-! ## Words -/

theorem clean_text (word : String) (h : (text word).all (fun byte => byte != tab && byte != newline) = true) :
    Clean (text word) := by
  have hbytes := List.all_eq_true.mp h
  exact ⟨fun hmem => absurd (hbytes tab hmem) (by decide), fun hmem => absurd (hbytes newline hmem) (by decide)⟩

theorem clean_append {before behind : Bytes} (hbefore : Clean before) (hbehind : Clean behind) : Clean (before ++ behind) :=
  ⟨fun hmem => (List.mem_append.mp hmem).elim hbefore.1 hbehind.1,
   fun hmem => (List.mem_append.mp hmem).elim hbefore.2 hbehind.2⟩

theorem clean_toText (n : Nat) : Clean (toText n) := by
  have hdigits := List.all_eq_true.mp (toText_spec n).2.1
  exact ⟨fun hmem => absurd (hdigits tab hmem) (by decide), fun hmem => absurd (hdigits newline hmem) (by decide)⟩

/-- The words that every listing is written with. -/
theorem options_clean :
    Clean (text "#delay_ms=") ∧ Clean (text "-") ∧ Clean (text "--config-path") ∧ Clean (text "--deployment") := by
  have hall : ∀ word ∈ ["#delay_ms=", "-", "--config-path", "--deployment"],
      (text word).all (fun byte => byte != tab && byte != newline) = true := by decide +kernel
  simp only [List.forall_mem_cons] at hall
  exact ⟨clean_text _ hall.1, clean_text _ hall.2.1, clean_text _ hall.2.2.1, clean_text _ hall.2.2.2.1⟩

theorem delayWord_clean (node : NodeManifest) : Clean (delayWord node) := by
  obtain ⟨hdelay, hminus, -⟩ := options_clean
  refine clean_append hdelay ?_
  unfold signedText
  split
  · exact clean_append hminus (clean_toText _)
  · exact clean_toText _

theorem mem_configWords {directories : List Bytes} :
    (∀ word ∈ directories.flatMap fun directory => [text "--config-path", directory], Clean word)
      ↔ ∀ directory ∈ directories, Clean directory := by
  constructor
  · intro h directory hdirectory
    exact h directory (List.mem_flatMap.mpr ⟨directory, hdirectory, by simp⟩)
  · intro h word hword
    obtain ⟨directory, hdirectory, hmem⟩ := List.mem_flatMap.mp hword
    rcases List.mem_pair.mp hmem with rfl | rfl
    · exact options_clean.2.2.1
    · exact h word hdirectory

theorem mem_deploymentWords {deployment : Bytes} :
    (∀ word ∈ if deployment = [] then [] else [text "--deployment", deployment], Clean word) ↔ Clean deployment := by
  split
  · next hempty =>
    subst hempty
    exact ⟨fun _ => ⟨List.not_mem_nil, List.not_mem_nil⟩, fun _ word hword => absurd hword List.not_mem_nil⟩
  · constructor
    · intro h
      exact h deployment (by simp)
    · intro h word hword
      rcases List.mem_pair.mp hword with rfl | rfl
      · exact options_clean.2.2.2
      · exact h

/-- The words of a row that nothing has checked. -/
theorem row_clean_iff {manifest : SystemManifest} (hchecked : Checked manifest) {node : NodeManifest}
    (hnode : node ∈ manifest.nodes) :
    (∀ word ∈ manifest.row node, Clean word)
      ↔ (∀ directory ∈ manifest.configPaths, Clean directory) ∧ Clean manifest.deployment
        ∧ Clean node.executable ∧ Clean node.config := by
  have hname := hchecked.names node hnode
  have harguments := hchecked.arguments node hnode
  have hdelay := delayWord_clean node
  unfold SystemManifest.row SystemManifest.commandFor
  simp only [List.forall_mem_cons, List.forall_mem_append, mem_configWords, mem_deploymentWords]
  tauto

/-! ## One node -/

def oneNodeDocument (executable : String) : Json :=
  .object [(text "nodes", .array [.object [(text "config", .string (text "/c.json")),
    (text "executable", .string (text executable)), (text "name", .string (text "n"))]])]

/-- The manifest at `/system.json`, whose text is `source`, has one node; its config is there. -/
def oneNodeWorld (source executable : String) : World where
  read path := if path = text "/system.json" then some (text source) else none
  parse contents := if contents = text source then .ok (oneNodeDocument executable) else .error (text "syntax error")
  absolute path := .ok path
  isFile path := path = text "/c.json"
  getenv _ := none

def oneNodeManifest (executable : String) : SystemManifest where
  path := text "/system.json"
  nodes := [{ name := text "n", executable := text executable, config := text "/c.json", arguments := [] }]

def runSource : String :=
  "\x7b\"nodes\":[\x7b\"name\":\"n\",\"executable\":\"run\",\"config\":\"/c.json\"\x7d]\x7d"

theorem run_loads :
    loadSystemManifest (oneNodeWorld runSource "run") (text "/system.json") = .ok (oneNodeManifest "run") := by
  with_unfolding_all rfl

/-- JSON writes a tab as `\t`. -/
def tabSource : String :=
  "\x7b\"nodes\":[\x7b\"name\":\"n\",\"executable\":\"run\\tfast\",\"config\":\"/c.json\"\x7d]\x7d"

theorem tab_loads :
    loadSystemManifest (oneNodeWorld tabSource "run\tfast") (text "/system.json") = .ok (oneNodeManifest "run\tfast") := by
  with_unfolding_all rfl

/-! ## The listing -/

theorem listing_splits_iff {world : World} {path : Bytes} {manifest : SystemManifest}
    (h : loadSystemManifest world path = .ok manifest) :
    readCommands manifest.printCommands
        = manifest.nodes.map (fun node => node.name :: (manifest.commandFor node ++ [delayWord node]))
      ↔ (∀ directory ∈ manifest.configPaths, Clean directory) ∧ Clean manifest.deployment
        ∧ ∀ node ∈ manifest.nodes, Clean node.executable ∧ Clean node.config := by
  obtain ⟨hchecked, hnodes⟩ := loadSystemManifest_checked h
  have hrows : ∀ row ∈ manifest.nodes.map manifest.row, row ≠ [] := by
    intro row hrow
    obtain ⟨node, _, rfl⟩ := List.mem_map.mp hrow
    exact List.cons_ne_nil _ _
  have hwords : (∀ row ∈ manifest.nodes.map manifest.row, ∀ word ∈ row, Clean word)
      ↔ ∀ node ∈ manifest.nodes, (∀ directory ∈ manifest.configPaths, Clean directory) ∧ Clean manifest.deployment
        ∧ Clean node.executable ∧ Clean node.config := by
    rw [List.forall_mem_map]
    exact forall₂_congr fun node hnode => row_clean_iff hchecked hnode
  show Table.read tab newline manifest.printCommands = manifest.nodes.map manifest.row ↔ _
  rw [printCommands_eq, Table.read_print_iff (by decide) hrows, hwords]
  obtain ⟨first, hfirst⟩ := List.exists_mem_of_ne_nil _ hnodes
  constructor
  · intro hclean
    obtain ⟨hpaths, hdeployment, _⟩ := hclean first hfirst
    exact ⟨hpaths, hdeployment, fun node hnode => (hclean node hnode).2.2⟩
  · intro hclean node hnode
    exact ⟨hclean.1, hclean.2.1, hclean.2.2 node hnode⟩

theorem listing_splits_run :
    readCommands (oneNodeManifest "run").printCommands
      = (oneNodeManifest "run").nodes.map fun node =>
          node.name :: ((oneNodeManifest "run").commandFor node ++ [delayWord node]) := by
  refine (listing_splits_iff run_loads).mpr ⟨fun _ hmem => absurd hmem List.not_mem_nil, ⟨List.not_mem_nil, List.not_mem_nil⟩,
    fun node hnode => ?_⟩
  rw [List.mem_singleton.mp hnode]
  exact ⟨clean_text "run" (by decide +kernel), clean_text "/c.json" (by decide +kernel)⟩

theorem a_tab_splits_an_executable :
    ¬ ∀ (world : World) (path : Bytes) (manifest : SystemManifest), loadSystemManifest world path = .ok manifest →
      readCommands manifest.printCommands
        = manifest.nodes.map fun node => node.name :: (manifest.commandFor node ++ [delayWord node]) := by
  intro h
  have hsplit := h _ _ _ tab_loads
  exact absurd hsplit (by decide +kernel)

end PuppetMaster.Configuration.Manifest
