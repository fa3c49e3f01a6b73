import NodeTerm.Workspace.Readers
import NodeTerm.Workspace.RoundTrip

/-! A project split into its file and its index entry, and loaded again. -/
namespace NodeTerm.Workspace
open Node Base List

theorem forall₂_iff_of_forall₂ {α β : Type} {R S : α → β → Prop} {P : α → Prop} {l : List α}
    {l' : List β} (h : Forall₂ R l l') (hS : ∀ a ∈ l, ∀ b, R a b → (S a b ↔ P a)) :
    Forall₂ S l l' ↔ ∀ a ∈ l, P a := by
  induction h with
  | nil => simp
  | cons hab _ ih =>
    rw [forall₂_cons, forall_mem_cons, hS _ mem_cons_self _ hab, ih fun a ha => hS a (mem_cons_of_mem _ ha)]

theorem forall₂_map_right {α β : Type} {R : α → β → Prop} {f : α → β} (l : List α)
    (h : ∀ a, R a (f a)) : Forall₂ R l (l.map f) := by
  rw [forall₂_map_right_iff]
  exact forall₂_same.mpr fun a _ => h a

/-! The canvases of a project and of a file. -/

def canvases (p : Project) : List (List CanvasNodeState) :=
  p.nodes :: p.multiverseCanvases.map (·.nodes) ++ p.childCanvases.map (·.nodes)

def fileCanvases (f : ProjectFile) : List (List CanvasNodeState) :=
  f.nodes :: f.multiverseCanvases.map (·.nodes) ++ f.childCanvases.map (·.nodes)

/-- What the file may say of a node. -/
structure Hides (n saved : CanvasNodeState) : Prop where
  blank : Blank saved
  named : n.namedTerminalProfileId.isSome = true → saved.cwd = none

/-- A project comes back from its file with its machine-local values, on every canvas, and the file
has none of them: as an object and as it is written out. -/
structure RoundTrips (H : Host) (p : Project) (file : ProjectFile) (loaded : Project) : Prop where
  restored : Forall₂ (Forall₂ (Restores H.web)) (canvases p) (canvases loaded)
  hidden : Forall₂ (Forall₂ Hides) (canvases p) (fileCanvases file)
  written : Forall₂ (Forall₂ Hides) (canvases p) (fileCanvases (serializeProjectFile H file))

/-- What the index keeps of a project that has a file: the file and this machine's half. -/
def Saved.loadBase (id : String) : Saved → Option (ProjectFile × LoadBase)
  | .folder cwd localExec file => some (file, { id := id, cwd := some cwd, localExec := localExec })
  | .ssh server localExec cache =>
    some (cache, { id := id, ssh := some server, localExec := localExec })
  | .inline _ => none
  | .header => none

/-- The readers drop no canvas. -/
structure Kept (p : Project) : Prop where
  multiverse : (sanitizeMultiverseCanvases p.multiverseCanvases).length = p.multiverseCanvases.length
  child : (validChildCanvases p.childCanvases).length = p.childCanvases.length

/-- The node has no value that the file would show, and each of its valid values is in the record
that the index has for its id. -/
structure Covered (W : Web) (p : Project) (n : CanvasNodeState) : Prop where
  clearEnv : n.clearEnv = none
  assets : n.kind.isMedia = false → ∀ assets, n.mediaAssets = some assets → ∀ x ∈ assets, x.sourcePath = none
  values : Extends (revalidated W (lastEntry W (collectedNodes p) n.id)) (validPart W n)

/-! A node of the file, and the node loaded from it. -/

section Step
variable (H : Host)

/-- The file has the shared part of the node, but for its directory and content. -/
def Saves (n saved : CanvasNodeState) : Prop :=
  ∃ dir rest, saved = onFile n dir rest ∧ (n.namedTerminalProfileId.isSome = true → dir = none)

/-- The loaded node has the shared part of the node and what the record gives back. -/
def Loads (base : LoadBase) (n loaded : CanvasNodeState) : Prop :=
  ∃ dir rest rest', loaded = { applyEntry H.web (mine base.localExec n.id) (onFile n dir rest) with rest := rest' } ∧
      (n.namedTerminalProfileId.isSome = true → dir = none)

variable {H} {base : LoadBase} {n saved loaded : CanvasNodeState}

theorem saves_savedNode (cwd : Option String) (n : CanvasNodeState) :
    Saves n (savedNode H cwd n) := savedNode_eq H cwd n

theorem Saves.with_rest (h : Saves n saved) (rest : Fields) : Saves n { saved with rest := rest } := by
  obtain ⟨dir, rest', rfl, hdir⟩ := h
  exact ⟨dir, rest, rfl, hdir⟩

theorem Saves.strip (h : Saves n saved) : Saves n (stripNodeExec saved) := by
  obtain ⟨dir, rest, rfl, hdir⟩ := h
  exact ⟨dir, rest, strip_onFile, hdir⟩

theorem Saves.loads (h : Saves n saved) : Loads H base n (restoredNode H base saved) := by
  obtain ⟨dir, rest, rfl, hdir⟩ := h
  have hresolved : ∃ dir', resolvedNode H base (onFile n dir rest) = onFile n dir' rest ∧
      (dir = none → dir' = none) := by
    unfold resolvedNode
    cases nonEmpty base.cwd with
    | none => exact ⟨dir, rfl, id⟩
    | some =>
      dsimp only
      unfold resolveNode
      cases hcwd : nonEmpty (onFile n dir rest).cwd with
      | none => exact ⟨dir, rfl, id⟩
      | some =>
        have hsome : dir ≠ none := by
          rintro rfl
          cases hcwd
        dsimp only
        split
        · exact ⟨_, rfl, fun hnone => absurd hnone hsome⟩
        · split
          · exact ⟨_, rfl, fun hnone => absurd hnone hsome⟩
          · exact ⟨dir, rfl, id⟩
  obtain ⟨dir', hdir', hnone⟩ := hresolved
  unfold restoredNode
  rw [hdir']
  exact ⟨dir', rest, _, rfl, fun hnamed => hnone (hdir hnamed)⟩

theorem Loads.with_rest (h : Loads H base n loaded) (rest : Fields) :
    Loads H base n { loaded with rest := rest } := by
  obtain ⟨dir, rest₁, rest₂, rfl, hdir⟩ := h
  exact ⟨dir, rest₁, rest, rfl, hdir⟩

/-- The file shows nothing of the node but a cleared environment and stray source paths. -/
theorem Saves.hides_iff (h : Saves n saved) : Hides n saved ↔ n.clearEnv = none ∧
    (n.kind.isMedia = false → ∀ assets, n.mediaAssets = some assets → ∀ x ∈ assets, x.sourcePath = none) := by
  obtain ⟨dir, rest, rfl, hdir⟩ := h
  constructor
  · rintro ⟨⟨-, hclear, hassets⟩, -⟩
    refine ⟨hclear, ?_⟩
    intro hmedia assets hsome
    apply hassets assets
    change (if n.kind.isMedia = true then _ else n.mediaAssets) = some assets
    rw [if_neg (by simp [hmedia]), hsome]
  · rintro ⟨hclear, hassets⟩
    have hno : NoLocal none (sharedPart n) := sharedPart_noLocal n
    refine ⟨⟨⟨hno.shell, hno.terminalProfileId, hno.namedTerminalProfileId, hno.ssh, hno.launch,
      hno.service, hno.openWebUi, hno.nextcloud, hno.aws, hno.nsis, hno.vm, hno.file, hno.sources⟩,
      hclear, ?_⟩, hdir⟩
    intro assets hsome x hx
    change (if n.kind.isMedia = true then n.mediaAssets.map (·.map stripSourcePath)
      else n.mediaAssets) = some assets at hsome
    split at hsome
    · obtain ⟨raw, -, rfl⟩ := Option.map_eq_some_iff.mp hsome
      obtain ⟨y, -, rfl⟩ := mem_map.mp hx
      rfl
    · rename_i hmedia
      exact hassets (by simpa using hmedia) assets hsome x hx

theorem Loads.restores_iff (h : Loads H base n loaded) (hclear : n.clearEnv = none) : Restores H.web n loaded ↔
      Extends (revalidated H.web (mine base.localExec n.id)) (validPart H.web n) := by
  obtain ⟨dir, rest, rest', rfl, hdir⟩ := h
  exact restores_onFile hclear hdir

end Step

/-! The canvases of the file, and of the project loaded from it. -/

section Canvases
variable (H : Host) {base : LoadBase} {p : Project} {rev : Nat} {savedAt id : String}

theorem fileCanvases_projectToFile (hkept : Kept p) : fileCanvases (projectToFile H p rev savedAt id) =
      (canvases p).map (List.map (savedNode H p.cwd)) := by
  have hmv : (sanitizeMultiverseCanvases p.multiverseCanvases).map (·.nodes) =
      p.multiverseCanvases.map (·.nodes) := by
    rw [(sanitizeMultiverseCanvases_kept hkept.multiverse).1, map_map]
    rfl
  have hsaved : savedNodes H p.cwd = List.map (savedNode H p.cwd) :=
    funext fun nodes => savedNodes_eq H p.cwd nodes
  unfold fileCanvases canvases projectToFile
  dsimp only
  rw [map_append, map_cons, hsaved, ← hmv, map_map, map_map, map_map, map_map]
  rfl

theorem saves_canvases (hkept : Kept p) : Forall₂ (Forall₂ Saves) (canvases p)
      (fileCanvases (projectToFile H p rev savedAt id)) := by
  rw [fileCanvases_projectToFile H hkept]
  apply forall₂_map_right
  intro nodes
  apply forall₂_map_right
  exact saves_savedNode p.cwd

/-- What is written out shows of a node what the file object shows. -/
theorem saves_written (hkept : Kept p) : Forall₂ (Forall₂ Saves) (canvases p)
      (fileCanvases (serializeProjectFile H (projectToFile H p rev savedAt id))) := by
  have hmv : (sanitizeMultiverseCanvases p.multiverseCanvases).map (·.nodes) =
      p.multiverseCanvases.map (·.nodes) := by
    rw [(sanitizeMultiverseCanvases_kept hkept.multiverse).1, map_map]
    rfl
  have hagain : ∀ nodes, Forall₂ Saves nodes (sanitizeNodeTriggers H
      (sanitizeCalendarConfigs H (stripSharedNodeExec (savedNodes H p.cwd nodes)))) := by
    intro nodes
    unfold sanitizeNodeTriggers sanitizeCalendarConfigs stripSharedNodeExec
    rw [savedNodes_eq, map_map, map_map, map_map]
    apply forall₂_map_right
    exact fun n => ((saves_savedNode p.cwd n).strip.with_rest _).with_rest _
  unfold fileCanvases canvases serializeProjectFile projectToFile
  dsimp only
  rw [map_map, map_map, map_map, ← hmv]
  refine rel_append (.cons (hagain _) ?_) ?_
  · rw [forall₂_map_left_iff, forall₂_map_right_iff]
    exact forall₂_same.mpr fun canvas _ => hagain canvas.nodes
  · rw [forall₂_map_left_iff, forall₂_map_right_iff]
    refine forall₂_same.mpr fun canvas _ => ?_
    dsimp only [Function.comp, ChildCanvas.mapNodes]
    rw [savedNodes_eq]
    exact forall₂_map_right _ (saves_savedNode p.cwd)

theorem loads_loadedNodes (base : LoadBase) (cwd : Option String) (nodes : List CanvasNodeState) :
    Forall₂ (Loads H base) nodes (loadedNodes H base (savedNodes H cwd nodes)) := by
  unfold loadedNodes sanitizeBrowserPartitions sanitizeNodeTriggers sanitizeCalendarConfigs
  rw [restoredNodes_eq, savedNodes_eq, map_map, map_map, map_map, map_map]
  apply forall₂_map_right
  exact fun n => (((saves_savedNode cwd n).loads.with_rest _).with_rest _).with_rest _

theorem loads_canvases (hkept : Kept p) : Forall₂ (Forall₂ (Loads H base)) (canvases p)
      (canvases (fileToProject H (projectToFile H p rev savedAt id) base)) := by
  have hmv := (sanitizeMultiverseCanvases_kept hkept.multiverse).2
  have hchild := validChildCanvases_kept hkept.child
  unfold canvases fileToProject projectToFile
  dsimp only
  rw [sanitizeMultiverseCanvases_mapNodes, validChildCanvases_mapNodes, hmv, ← hchild]
  simp only [map_map]
  refine rel_append (.cons (loads_loadedNodes H base p.cwd p.nodes) ?_) ?_
  · rw [forall₂_map_left_iff, forall₂_map_right_iff]
    refine forall₂_same.mpr fun canvas _ => ?_
    dsimp only [Function.comp, MultiverseCanvas.mapNodes, MultiverseCanvas.trimmed]
    unfold sanitizeBrowserPartitions
    rw [restoredNodes_eq, savedNodes_eq, map_map, map_map]
    apply forall₂_map_right
    exact fun n => (saves_savedNode p.cwd n).loads.with_rest _
  · rw [forall₂_map_left_iff, forall₂_map_right_iff]
    exact forall₂_same.mpr fun canvas _ => loads_loadedNodes H base p.cwd canvas.nodes

theorem kept_of_length
    (h : (canvases p).length =
      (canvases (fileToProject H (projectToFile H p rev savedAt id) base)).length) : Kept p := by
  unfold canvases fileToProject projectToFile at h
  dsimp only at h
  rw [sanitizeMultiverseCanvases_mapNodes, validChildCanvases_mapNodes] at h
  simp only [length_append, length_cons, length_map] at h
  have hagain := length_sanitizeMultiverseCanvases (sanitizeMultiverseCanvases p.multiverseCanvases)
  have honce := length_sanitizeMultiverseCanvases p.multiverseCanvases
  have hchild := length_validChildCanvases p.childCanvases
  exact ⟨by omega, by omega⟩

theorem roundTrips_iff (hbase : base.localExec = localNodeExec H.web (collectedNodes p)) :
    RoundTrips H p (projectToFile H p rev savedAt id)
      (fileToProject H (projectToFile H p rev savedAt id) base) ↔
    Kept p ∧ ∀ nodes ∈ canvases p, ∀ n ∈ nodes, Covered H.web p n := by
  have hmine : ∀ n : CanvasNodeState, mine base.localExec n.id =
      lastEntry H.web (collectedNodes p) n.id := by
    intro n
    rw [hbase, mine_localNodeExec]
  have hhides (f : List (List CanvasNodeState))
      (h : Forall₂ (Forall₂ Saves) (canvases p) f) :
      Forall₂ (Forall₂ Hides) (canvases p) f ↔ ∀ nodes ∈ canvases p, ∀ n ∈ nodes,
        n.clearEnv = none ∧ (n.kind.isMedia = false → ∀ assets, n.mediaAssets = some assets →
          ∀ x ∈ assets, x.sourcePath = none) :=
    forall₂_iff_of_forall₂ h fun nodes _ saved hnodes =>
      forall₂_iff_of_forall₂ hnodes fun n _ saved hn => hn.hides_iff
  have hrestores (hkept : Kept p) (hclear : ∀ nodes ∈ canvases p, ∀ n ∈ nodes, n.clearEnv = none) :
      Forall₂ (Forall₂ (Restores H.web)) (canvases p)
        (canvases (fileToProject H (projectToFile H p rev savedAt id) base)) ↔
      ∀ nodes ∈ canvases p, ∀ n ∈ nodes,
        Extends (revalidated H.web (lastEntry H.web (collectedNodes p) n.id)) (validPart H.web n) := by
    apply forall₂_iff_of_forall₂ (loads_canvases H hkept)
    intro nodes hmem loaded hnodes
    apply forall₂_iff_of_forall₂ hnodes
    intro n hn loaded hloads
    rw [hloads.restores_iff (hclear nodes hmem n hn), hmine]
  constructor
  · rintro ⟨hrestored, hhidden, hwritten⟩
    have hkept : Kept p := kept_of_length H hrestored.length_eq
    have hshown := (hhides _ (saves_canvases H hkept)).mp hhidden
    have hvalues := (hrestores hkept fun nodes hmem n hn => (hshown nodes hmem n hn).1).mp hrestored
    exact ⟨hkept, fun nodes hmem n hn =>
      ⟨(hshown nodes hmem n hn).1, (hshown nodes hmem n hn).2, hvalues nodes hmem n hn⟩⟩
  · rintro ⟨hkept, hcovered⟩
    have hshown : ∀ nodes ∈ canvases p, ∀ n ∈ nodes, n.clearEnv = none ∧
        (n.kind.isMedia = false → ∀ assets, n.mediaAssets = some assets → ∀ x ∈ assets, x.sourcePath = none) :=
      fun nodes hmem n hn =>
        ⟨(hcovered nodes hmem n hn).clearEnv, (hcovered nodes hmem n hn).assets⟩
    constructor
    · exact (hrestores hkept fun nodes hmem n hn => (hshown nodes hmem n hn).1).mpr
        fun nodes hmem n hn => (hcovered nodes hmem n hn).values
    · exact (hhides _ (saves_canvases H hkept)).mpr hshown
    · exact (hhides _ (saves_written H hkept)).mpr hshown

end Canvases

/-! Projects with one node for each id. -/

section Unique
variable {W : Web} {p : Project} {n : CanvasNodeState}

/-- A valid value that is collected is put back as it was. -/
theorem extends_localExecEntry (W : Web) (n : CanvasNodeState) :
    Extends (revalidated W (localExecEntry W n)) (validPart W n) := by
  have htwice {α : Type} (f : α → Option α) [DecidableEq α] (raw : Option α) :
      Keeps ((raw.bind f).bind f) (raw.filter fun v => f v = some v) := by
    intro v hv
    obtain ⟨hraw, hvalid⟩ := Option.filter_eq_some_iff.mp hv
    have hfix : f v = some v := by simpa using hvalid
    rw [hraw, Option.bind_some, hfix, Option.bind_some, hfix]
  have hkind {α : Type} (c : Prop) [Decidable c] (f : α → Option α) [DecidableEq α]
      (raw : Option α) :
      Keeps ((if c then raw.bind f else none).bind f)
        (if c then raw.filter fun v => f v = some v else none) := by
    by_cases hc : c
    · rw [if_pos hc, if_pos hc]
      exact htwice f raw
    · rw [if_neg hc, if_neg hc]
      exact fun v hv => hv
  have hsame {α : Type} (raw : Option α) : Keeps raw raw := fun v hv => hv
  constructor
  case shell => exact hsame _
  case terminalProfileId => exact hsame _
  case namedTerminalProfileId => exact hsame _
  case namedTerminalProfileCwd => exact hsame _
  case sshExtraArgs => exact hsame _
  case pendingLaunch => exact hkind _ _ _
  case clearEnv => exact hsame _
  case serviceConnection => exact htwice _ _
  case openWebUiLocalBinding => exact hkind _ _ _
  case nextcloudManagedBinding => exact hkind _ _ _
  case awsIdentityBinding => exact htwice _ _
  case nsisLocalPaths => exact htwice _ _
  case virtualMachineLocalPaths =>
    intro v hv
    obtain ⟨hraw, hvalid⟩ := Option.filter_eq_some_iff.mp hv
    have hfix : safeVmPaths (some v) = some v := by simpa using hvalid
    change safeVmPaths (safeVmPaths n.virtualMachineLocalPaths) = some v
    rw [hraw, hfix, hfix]
  case mediaFilePath =>
    intro v hv
    change (if n.kind.hasLocalFile = true then n.filePath.filter safePathString else none) = some v at hv
    change (if n.kind.hasLocalFile = true then n.filePath.filter safePathString else none).filter
      safePathString = some v
    rw [hv]
    split at hv
    · simpa using (Option.filter_eq_some_iff.mp hv).2
    · cases hv
  case mediaSourcePaths =>
    intro assetId v hv
    change (if n.kind.isMedia = true then localMediaSourcePaths n else none).bind _ = some v at hv
    change ((localMediaSourcePaths n).bind safeMediaSourcePaths).bind (·.get? assetId) = some v
    split at hv
    · cases hpaths : localMediaSourcePaths n with
      | none =>
        rw [hpaths] at hv
        cases hv
      | some =>
        rw [hpaths] at hv
        rw [Option.bind_some, safe_localMediaSourcePaths hpaths]
        exact hv
    · cases hv

theorem lastEntry_of_mem {nodes : List CanvasNodeState} (hunique : (nodes.map (·.id)).Nodup)
    (hn : n ∈ nodes) : lastEntry W nodes n.id = localExecEntry W n := by
  have hone : nodes.filter (fun m => m.id == n.id) = [n] := by
    obtain ⟨before, after, rfl⟩ := append_of_mem hn
    rw [map_append, map_cons, nodup_middle, nodup_cons, ← map_append] at hunique
    have hnone : ∀ m ∈ before ++ after, (m.id == n.id) = false := by
      intro m hm
      rw [beq_eq_false_iff_ne]
      exact fun hid => hunique.1 (mem_map.mpr ⟨m, hm, hid⟩)
    rw [filter_append, filter_cons_of_pos (by simp),
      filter_eq_nil_iff.mpr (by simpa using fun m hm => hnone m (mem_append_left _ hm)),
      filter_eq_nil_iff.mpr (by simpa using fun m hm => hnone m (mem_append_right _ hm))]
    rfl
  unfold lastEntry
  rw [hone, map_singleton]
  by_cases hempty : localExecEntry W n = {} <;> simp [hempty]

theorem lastEntry_of_not_mem {nodes : List CanvasNodeState} {id : String}
    (hid : id ∉ nodes.map (·.id)) : lastEntry W nodes id = {} := by
  have hnone : nodes.filter (fun m => m.id == id) = [] := by
    rw [filter_eq_nil_iff]
    intro m hm hsame
    exact hid (mem_map.mpr ⟨m, hm, by simpa using hsame⟩)
  unfold lastEntry
  rw [hnone]
  rfl

/-- With one node for each id, what is on the root canvas and on the multiverse canvases is covered,
and on a child canvas only a node without valid values is. -/
theorem values_covered_iff (hunique : ((canvases p).flatten.map (·.id)).Nodup) : (∀ nodes ∈ canvases p, ∀ n ∈ nodes,
      Extends (revalidated W (lastEntry W (collectedNodes p) n.id)) (validPart W n)) ↔
    ∀ canvas ∈ p.childCanvases, ∀ n ∈ canvas.nodes, Extends (revalidated W {}) (validPart W n) := by
  have hflat : (canvases p).flatten = collectedNodes p ++ p.childCanvases.flatMap (·.nodes) := by
    simp [canvases, collectedNodes, flatMap_def]
  rw [hflat, map_append, nodup_append] at hunique
  obtain ⟨hcollected, -, hapart⟩ := hunique
  have hchild : ∀ canvas ∈ p.childCanvases, ∀ n ∈ canvas.nodes, lastEntry W (collectedNodes p) n.id = {} := by
    intro canvas hcanvas n hn
    apply lastEntry_of_not_mem
    intro hid
    refine hapart _ hid _ (mem_map.mpr ⟨n, ?_, rfl⟩) rfl
    exact mem_flatMap.mpr ⟨canvas, hcanvas, hn⟩
  constructor
  · intro h canvas hcanvas n hn
    rw [← hchild canvas hcanvas n hn]
    refine h canvas.nodes ?_ n hn
    exact mem_append_right _ (mem_map.mpr ⟨canvas, hcanvas, rfl⟩)
  · intro h nodes hnodes n hn
    have hmem : n ∈ collectedNodes p ++ p.childCanvases.flatMap (·.nodes) := by
      rw [← hflat]
      exact mem_flatten.mpr ⟨nodes, hnodes, hn⟩
    rcases mem_append.mp hmem with hin | hin
    · rw [lastEntry_of_mem hcollected hin]
      exact extends_localExecEntry W n
    · obtain ⟨canvas, hcanvas, hn'⟩ := mem_flatMap.mp hin
      rw [hchild canvas hcanvas n hn']
      exact h canvas hcanvas n hn'

end Unique

/-! The whole workspace. -/

/-- A host with POSIX paths that has nothing else to say. -/
def plainHost : Host :=
  { web := { parseUrl := fun _ => none, dateParses := fun _ => false }
    relative := fun root path =>
      if path = root then "" else String.ofList (path.toList.drop (root.length + 1))
    isAbsolute := fun path => path.toList.head? == some '/'
    join := fun root path => root ++ "/" ++ path
    separator := "/"
    sanitizeTrigger := fun _ rest => rest
    sanitizeCalendar := fun _ rest => rest
    sanitizePartition := fun _ _ rest => rest
    legacyFileId := id
    derivedProjectId := fun p seen => p.id ++ "-" ++ toString seen.length }

section Workspace
variable (H : Host) (revOf : String → Nat) (savedAt : String)

/-- The file of the project brings it back exactly when the readers keep its canvases and every node
is covered. -/
def LoadsBack (incoming : Project) (entry : String × Saved) : Prop :=
  ∀ file base, entry.2.loadBase entry.1 = some (file, base) →
    (RoundTrips H incoming file (fileToProject H file base) ↔
      Kept incoming ∧ ∀ nodes ∈ canvases incoming, ∀ n ∈ nodes, Covered H.web incoming n)

theorem loadsBack_splitProject (claimed : List String) (p : Project) (id : String) :
    LoadsBack H p (id, splitProject H revOf savedAt claimed { p with id := id }) := by
  intro file base hsaved
  unfold splitProject at hsaved
  dsimp only at hsaved
  split at hsaved
  · cases hsaved
  · split at hsaved
    · cases hsaved
      exact roundTrips_iff H rfl
    · split at hsaved
      · cases hsaved
      · cases hsaved
        exact roundTrips_iff H rfl
    · cases hsaved

theorem loadsBack_splitProjects (seenIds claimed : List String) (projects : List Project) :
    Forall₂ (LoadsBack H) (projects.filter fun p => !p.remote)
      (splitProjects H revOf savedAt seenIds claimed projects) := by
  induction projects generalizing seenIds claimed with
  | nil => exact .nil
  | cons incoming projects ih =>
    unfold splitProjects
    by_cases hremote : incoming.remote = true
    · rw [filter_cons_of_neg (by simp [hremote]), if_pos hremote]
      exact ih seenIds claimed
    · rw [filter_cons_of_pos (by simp [hremote]), if_neg hremote]
      exact .cons (loadsBack_splitProject H revOf savedAt claimed incoming _) (ih _ _)

end Workspace

/-- A project folder with a terminal on its root canvas, with a shell and a profile of its own. -/
def rootProject : Project :=
  { id := "p"
    name := "demo"
    cwd := some "/work"
    nodes :=
      [{ id := "t", kind := .terminal, title := "shell", shell := some "/bin/zsh"
         namedTerminalProfileId := some "zsh", cwd := some "/work/api" }] }

/-- A project folder whose only terminal is in an AWS universe, with a shell of its own. -/
def universeProject : Project :=
  { id := "p"
    name := "demo"
    cwd := some "/work"
    nodes := []
    childCanvases :=
      [{ id := "u", scope := .awsUniverse, parentCanvasId := "root", depth := 1, title := "AWS"
         order := .finite 0
         nodes := [{ id := "t", kind := .terminal, title := "shell", shell := some "/bin/zsh" }] }] }

end NodeTerm.Workspace
