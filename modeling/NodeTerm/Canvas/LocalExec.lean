import NodeTerm.Canvas.Apply
import NodeTerm.Node.SourcePaths

/-! Machine-local fields under the mutations of peers: what a node of ours keeps, what a node of a
peer lacks, and that the peers' own values of these fields make no difference. -/
namespace NodeTerm.Canvas
open Node Base List Option

variable {W : Web} {profile : Option String}

def applyAll (W : Web) (profile : Option String) (states : List CanvasNodeState)
    (ops : List CanvasOp) : List CanvasNodeState :=
  ops.foldl (applyCanvasMutation W profile) states

/-- Each machine-local value of any kind of node passes its validator unchanged. -/
structure ValidFree (W : Web) (n : CanvasNodeState) : Prop where
  nsis : ∀ v, n.nsisLocalPaths = some v → safeNsisLocalPaths v = some v
  vm : ∀ v, n.virtualMachineLocalPaths = some v → normalizeVirtualMachineLocalPaths (some v) = v ∧ v ≠ {}
  aws : ∀ v, n.awsIdentityBinding = some v → normalizeAwsIdentityBinding W v = some v
  ssh : n.ssh.bind (·.extraArgs) = none → n.ssh.bind (·.execTrusted) = none

/-- Each machine-local value that belongs to one kind is on a node of that kind, and valid. -/
structure ValidBound (n : CanvasNodeState) : Prop where
  launch : ∀ v, n.pendingLaunch = some v → n.kind = .terminal ∧ clonePendingLaunch v = some v
  openWebUi : ∀ v, n.openWebUiLocalBinding = some v → n.kind = .openWebuiHosting
  nextcloud : ∀ v, n.nextcloudManagedBinding = some v →
    n.kind = .nextcloudManaged ∧ validateNextcloudManagedBinding v = some v
  file : ∀ v, n.kind.hasLocalFile = true → n.filePath = some v → safePathString v = true

/-- The fields that any upsert leaves as they were. -/
structure KindFree (n n' : CanvasNodeState) : Prop where
  shell : n'.shell = n.shell
  terminalProfileId : n'.terminalProfileId = n.terminalProfileId
  namedTerminalProfileId : n'.namedTerminalProfileId = n.namedTerminalProfileId
  cwd : n.namedTerminalProfileId.isSome = true → n.cwd.isSome = true → n'.cwd = n.cwd
  nsis : n'.nsisLocalPaths = n.nsisLocalPaths
  vm : n'.virtualMachineLocalPaths = n.virtualMachineLocalPaths
  aws : n'.awsIdentityBinding = n.awsIdentityBinding

structure KindBound (n n' : CanvasNodeState) : Prop where
  kind : n'.kind = n.kind
  launch : n'.pendingLaunch = n.pendingLaunch
  openWebUi : n'.openWebUiLocalBinding = n.openWebUiLocalBinding
  nextcloud : n'.nextcloudManagedBinding = n.nextcloudManagedBinding
  file : n.kind.hasLocalFile = true → n'.filePath = n.filePath

variable {a b c prev node : CanvasNodeState}

theorem KindFree.trans (hab : KindFree a b) (hbc : KindFree b c) : KindFree a c where
  shell := hbc.shell.trans hab.shell
  terminalProfileId := hbc.terminalProfileId.trans hab.terminalProfileId
  namedTerminalProfileId := hbc.namedTerminalProfileId.trans hab.namedTerminalProfileId
  cwd hnamed hcwd := by
    have hb := hab.cwd hnamed hcwd
    rw [← hab.namedTerminalProfileId] at hnamed
    rw [← hb] at hcwd
    exact (hbc.cwd hnamed hcwd).trans hb
  nsis := hbc.nsis.trans hab.nsis
  vm := hbc.vm.trans hab.vm
  aws := hbc.aws.trans hab.aws

theorem KindBound.trans (hab : KindBound a b) (hbc : KindBound b c) : KindBound a c where
  kind := hbc.kind.trans hab.kind
  launch := hbc.launch.trans hab.launch
  openWebUi := hbc.openWebUi.trans hab.openWebUi
  nextcloud := hbc.nextcloud.trans hab.nextcloud
  file hlocal := by
    have hb := hab.file hlocal
    rw [← hab.kind] at hlocal
    exact (hbc.file hlocal).trans hb

theorem ValidBound.of_kindBound (h : ValidBound a) (hab : KindBound a b) : ValidBound b where
  launch v hv := by
    rw [hab.launch] at hv
    rw [hab.kind]
    exact h.launch v hv
  openWebUi v hv := by
    rw [hab.openWebUi] at hv
    rw [hab.kind]
    exact h.openWebUi v hv
  nextcloud v hv := by
    rw [hab.nextcloud] at hv
    rw [hab.kind]
    exact h.nextcloud v hv
  file v hlocal hv := by
    rw [hab.kind] at hlocal
    rw [hab.file hlocal] at hv
    exact h.file v hlocal hv

theorem carried_sharedPart (W : Web) (prev node : CanvasNodeState) :
    carryLocalNodeExec W prev (sanitizeInboundNode node) = carried W prev (sharedPart node) := by
  rw [carryLocalNodeExec_eq, sanitizeInboundNode, stripNodeExec_eq]

theorem carry_kindFree (h : ValidFree W prev) (node : CanvasNodeState) :
    KindFree prev (carried W prev (sharedPart node)) := by
  have hnsis : prev.nsisLocalPaths.bind safeNsisLocalPaths = prev.nsisLocalPaths := by
    cases hv : prev.nsisLocalPaths with
    | none => rfl
    | some v => exact h.nsis v hv
  have haws : prev.awsIdentityBinding.bind (normalizeAwsIdentityBinding W) =
      prev.awsIdentityBinding := by
    cases hv : prev.awsIdentityBinding with
    | none => rfl
    | some v => exact h.aws v hv
  unfold carried
  rw [restoreMediaPaths_eq]
  constructor
  · exact or_none
  · exact or_none
  · exact or_none
  · intro hnamed hcwd
    simp [hnamed, hcwd]
  · change (prev.nsisLocalPaths.bind safeNsisLocalPaths).or none = _
    rw [or_none, hnsis]
  · dsimp only
    cases hv : prev.virtualMachineLocalPaths with
    | none => rfl
    | some v =>
      obtain ⟨hnormal, hne⟩ := h.vm v hv
      rw [hnormal, if_neg hne]
  · change (prev.awsIdentityBinding.bind (normalizeAwsIdentityBinding W)).or none = _
    rw [or_none, haws]

theorem carried_ssh (W : Web) (prev node : CanvasNodeState) : (carried W prev (sharedPart node)).ssh =
      match prev.ssh.bind (·.extraArgs) with
      | some args => node.ssh.map fun conn =>
          { conn with extraArgs := some args, execTrusted := prev.ssh.bind (·.execTrusted) }
      | none => node.ssh.map SshConnection.stripExec := by
  unfold carried
  rw [restoreMediaPaths_eq]
  unfold sharedPart
  dsimp only
  cases prev.ssh.bind (·.extraArgs) with
  | none => rfl
  | some =>
    rw [Option.isSome_some, if_pos rfl, Option.map_map]
    rfl

theorem carry_validFree (h : ValidFree W prev) (node : CanvasNodeState) :
    ValidFree W (carried W prev (sharedPart node)) := by
  have hkept := carry_kindFree h node
  constructor
  · rw [hkept.nsis]
    exact h.nsis
  · rw [hkept.vm]
    exact h.vm
  · rw [hkept.aws]
    exact h.aws
  · rw [carried_ssh]
    cases prev.ssh.bind (·.extraArgs) <;> cases node.ssh <;> simp [SshConnection.stripExec]

theorem carry_kindBound (h : ValidBound prev)
    (hkind : node.kind = prev.kind) : KindBound prev (carried W prev (sharedPart node)) := by
  unfold carried
  rw [restoreMediaPaths_eq]
  constructor
  · exact hkind
  · change (carriedPendingLaunch prev (sharedPart node)).or none = _
    rw [or_none, carriedPendingLaunch]
    cases hv : prev.pendingLaunch with
    | none => simp
    | some v =>
      obtain ⟨hterminal, hclone⟩ := h.launch v hv
      have hnext : (sharedPart node).kind = .terminal := hkind.trans hterminal
      rw [if_pos hnext]
      exact hclone
  · change (carriedOpenWebUi prev).or none = _
    rw [or_none, carriedOpenWebUi]
    cases hv : prev.openWebUiLocalBinding with
    | none => simp
    | some v => rw [if_pos (h.openWebUi v hv)]
  · change (carriedNextcloud prev (sharedPart node)).or none = _
    rw [or_none, carriedNextcloud]
    cases hv : prev.nextcloudManagedBinding with
    | none => simp
    | some v =>
      obtain ⟨hmanaged, hvalid⟩ := h.nextcloud v hv
      rw [if_pos ⟨hmanaged, hkind.trans hmanaged⟩]
      exact hvalid
  · intro hlocal
    have hnode : node.kind.hasLocalFile = true := by rw [hkind]; exact hlocal
    change (if node.kind.hasLocalFile = true then
      ((prev.filePath.filter safePathString).filter safePathString).or
        (if node.kind.hasLocalFile = true then none else node.filePath) else _) = _
    rw [if_pos hnode, if_pos hnode, or_none]
    cases hv : prev.filePath with
    | none => rfl
    | some v =>
      have hsafe := h.file v hlocal hv
      simp [hsafe]

theorem carry_sshExec (h : ValidFree W prev) (hssh : node.ssh.isSome = true ∨ sshExec prev = (none, none)) :
    sshExec (carried W prev (sharedPart node)) = sshExec prev := by
  unfold sshExec at *
  rw [carried_ssh]
  cases hargs : prev.ssh.bind (·.extraArgs) with
  | none =>
    rw [h.ssh hargs]
    cases node.ssh with
    | none | some => rfl
  | some =>
    obtain ⟨conn, hconn⟩ : ∃ conn, node.ssh = some conn := by
      rcases hssh with hsome | hnone
      · exact isSome_iff_exists.mp hsome
      · rw [hargs] at hnone
        cases hnone
    rw [hconn]
    rfl

theorem carry_sourcePathOf (hmedia : node.kind.isMedia = true)
    {assetId : String} (hlists : lists node assetId ∨ sourcePathOf prev assetId = none) :
    sourcePathOf (carried W prev (sharedPart node)) assetId = sourcePathOf prev assetId := by
  have hassets : (carried W prev (sharedPart node)).mediaAssets =
      (localMediaSourcePaths prev).elim (node.mediaAssets.map fun assets => assets.map stripSourcePath)
        fun paths => node.mediaAssets.map fun assets =>
          assets.map fun x => restoreSourcePath paths (stripSourcePath x) := by
    unfold carried
    rw [restoreMediaPaths_eq]
    have hkind : (sharedPart node).kind = node.kind := rfl
    have hshared : (sharedPart node).mediaAssets =
        node.mediaAssets.map fun assets => assets.map stripSourcePath := by
      simp [sharedPart, hmedia]
    dsimp only
    rw [hkind, hmedia, hshared]
    cases hpaths : localMediaSourcePaths prev with
    | none => rfl
    | some =>
      simp only [Option.bind_some, safe_localMediaSourcePaths hpaths, Option.map_map]
      congr 1
      funext assets
      simp
  cases hpaths : localMediaSourcePaths prev with
  | none =>
    have hprev : sourcePathOf prev assetId = none := by simp [sourcePathOf, hpaths]
    rw [hpaths, elim_none] at hassets
    rw [hprev, sourcePathOf_eq, hassets]
    cases node.mediaAssets with
    | none => rfl
    | some =>
      rw [map_some, getD_some, ← map_take, collectSourcePaths, get?_foldl_collect (g := fun _ => none) (by simp)]
      · simp [SourcePaths.get?]
      · intro x hx
        obtain ⟨y, -, rfl⟩ := mem_map.mp hx
        rfl
  | some paths =>
    have hprev : sourcePathOf prev assetId = paths.get? assetId := by simp [sourcePathOf, hpaths]
    rw [hpaths, elim_some] at hassets
    rw [hprev] at hlists ⊢
    cases hnode : node.mediaAssets with
    | none =>
      rw [hnode] at hassets
      rcases hlists with hlists | hnone
      · simp [lists, hnode] at hlists
      · rw [sourcePathOf_eq, hassets, hnone]
        rfl
    | some =>
      rw [hnode] at hassets
      rw [sourcePathOf_restored (fun a p h => safeEntry_of_get? hpaths h) hassets]
      rcases hlists with hlists | hnone
      · simp only [lists, hnode, getD_some] at hlists
        rw [if_pos hlists]
      · simp [hnone]

/-- What one mutation can do at an id: nothing, remove the node, or put an upsert there. -/
theorem nodeAt_apply (states : List CanvasNodeState) (op : CanvasOp) (id : String) :
    nodeAt id (applyCanvasMutation W profile states op) = nodeAt id states ∨
    (op = .remove id ∧ nodeAt id (applyCanvasMutation W profile states op) = none) ∨
    ∃ node, op = .upsert node ∧ node.id = id ∧ nodeAt id (applyCanvasMutation W profile states op) =
        some (upserted W profile node (nodeAt id states)) := by
  cases op with
  | upsert node =>
    by_cases hs : swallowed states node
    · left
      exact congrArg (nodeAt id) (applyUpsert_swallowed W profile hs)
    · have hat := nodeAt_applyUpsert W profile hs id
      by_cases hid : id = node.id
      · subst hid
        rw [if_pos rfl] at hat
        exact .inr (.inr ⟨node, rfl, rfl, hat⟩)
      · rw [if_neg hid] at hat
        exact .inl hat
  | remove rid =>
    have hat := nodeAt_applyRemove W profile states rid id
    split at hat
    · rename_i h
      rw [h.1] at hat ⊢
      exact .inr (.inl ⟨rfl, hat⟩)
    · exact .inl hat
  | edgeUpsert | edgeRemove | linkUpsert | linkRemove => exact .inl rfl

section Runs
variable {P : CanvasNodeState → Prop} {id : String} {ops : List CanvasOp} {states : List CanvasNodeState}

theorem upserted_some {prev node : CanvasNodeState} (hP : P prev)
    (hcarry : P (carried W prev (sharedPart node))) : P (upserted W profile node (some prev)) := by
  unfold upserted
  dsimp only
  split
  · exact hP
  · rw [carried_sharedPart]
    exact hcarry

/-- The node stands at every point of the run. -/
def Stays (W : Web) (profile : Option String) (states : List CanvasNodeState) (ops : List CanvasOp)
    (id : String) : Prop :=
  ∀ seen, seen <+: ops → (nodeAt id (applyAll W profile states seen)).isSome = true

/-- A node that stands throughout keeps all that the upserts of it keep. -/
theorem run_kept {n : CanvasNodeState} (hn : nodeAt id states = some n) (hP : P n)
    (hstays : Stays W profile states ops id)
    (hcarry : ∀ prev node, P prev → .upsert node ∈ ops → node.id = id → P (carried W prev (sharedPart node))) :
    ∃ n', nodeAt id (applyAll W profile states ops) = some n' ∧ P n' := by
  induction ops generalizing states n with
  | nil => exact ⟨n, hn, hP⟩
  | cons op ops ih =>
    have hstands : (nodeAt id (applyCanvasMutation W profile states op)).isSome = true :=
      hstays [op] (prefix_iff_eq_append.mpr rfl)
    have hone : ∃ m, nodeAt id (applyCanvasMutation W profile states op) = some m ∧ P m := by
      rcases nodeAt_apply states op id with h | ⟨-, h⟩ | ⟨node, rfl, hid, h⟩
      · exact ⟨n, h.trans hn, hP⟩
      · rw [h] at hstands
        cases hstands
      · rw [hn] at h
        exact ⟨_, h, upserted_some hP (hcarry n node hP (mem_cons_self ..) hid)⟩
    obtain ⟨m, hm, hPm⟩ := hone
    refine ih hm hPm (fun seen hseen => hstays (op :: seen) ?_)
      fun prev node hprev hmem => hcarry prev node hprev (mem_cons_of_mem _ hmem)
    exact cons_prefix_cons.mpr ⟨rfl, hseen⟩

/-- A node that mutations brought in has all that a new node has and the upserts of it keep. -/
theorem run_introduced (hn : ∀ n, nodeAt id states = some n → P n)
    (hnew : ∀ node, .upsert node ∈ ops → node.id = id → P (upserted W profile node none))
    (hcarry : ∀ prev node, P prev → .upsert node ∈ ops → node.id = id → P (carried W prev (sharedPart node))) :
    ∀ n', nodeAt id (applyAll W profile states ops) = some n' → P n' := by
  induction ops generalizing states with
  | nil => exact hn
  | cons op ops ih =>
    refine ih ?_ (fun node hmem => hnew node (mem_cons_of_mem _ hmem))
      fun prev node hprev hmem => hcarry prev node hprev (mem_cons_of_mem _ hmem)
    intro n' hn'
    rcases nodeAt_apply states op id with h | ⟨-, h⟩ | ⟨node, rfl, hid, h⟩
    · exact hn n' (h.symm.trans hn')
    · rw [h] at hn'
      cases hn'
    · rw [h, Option.some.injEq] at hn'
      subst hn'
      cases hprev : nodeAt id states with
      | none => exact hnew node (mem_cons_self ..) hid
      | some prev =>
        have hPprev := hn prev hprev
        exact upserted_some hPprev (hcarry prev node hPprev (mem_cons_self ..) hid)

end Runs

end NodeTerm.Canvas
