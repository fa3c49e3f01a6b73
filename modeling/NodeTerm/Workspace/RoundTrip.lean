import NodeTerm.Node.SourcePaths
import NodeTerm.Workspace.File

/-! Saving a project and loading it back: which machine-local values come back on the nodes, and
what the shared file gives away. -/
namespace NodeTerm.Workspace
open Node Base List

/-! The machine-local values of a node as records. -/

/-- The values of a node that pass their own check as they are. -/
def validPart (W : Web) (n : CanvasNodeState) : LocalNodeExec :=
  { shell := n.shell.filter fun shell => (safeSessionProgram shell).isSome
    terminalProfileId := n.terminalProfileId
    namedTerminalProfileId := n.namedTerminalProfileId
    namedTerminalProfileCwd :=
      if n.namedTerminalProfileId.isSome then n.cwd.filter safePathString else none
    sshExtraArgs := n.ssh.bind storableExtraArgs
    pendingLaunch :=
      if n.kind = .terminal then n.pendingLaunch.filter fun v => clonePendingLaunch v = some v
      else none
    clearEnv := n.clearEnv.filter (· == true)
    serviceConnection := n.serviceConnection.filter fun v => safeServiceConnection W v = some v
    openWebUiLocalBinding :=
      if n.kind = .openWebuiHosting then
        n.openWebUiLocalBinding.filter fun v => safeOpenWebUiLocalBinding W v = some v
      else none
    nextcloudManagedBinding :=
      if n.kind = .nextcloudManaged then
        n.nextcloudManagedBinding.filter fun v => validateNextcloudManagedBinding v = some v
      else none
    awsIdentityBinding := n.awsIdentityBinding.filter fun v => normalizeAwsIdentityBinding W v = some v
    nsisLocalPaths := n.nsisLocalPaths.filter fun v => safeNsisLocalPaths v = some v
    virtualMachineLocalPaths := n.virtualMachineLocalPaths.filter fun v => safeVmPaths (some v) = some v
    mediaFilePath := if n.kind.hasLocalFile then n.filePath.filter safePathString else none
    mediaSourcePaths := if n.kind.isMedia then localMediaSourcePaths n else none }

/-- The values a node has. Arguments of ssh count when they are trusted. -/
def valuesOf (n : CanvasNodeState) : LocalNodeExec :=
  { shell := n.shell
    terminalProfileId := n.terminalProfileId
    namedTerminalProfileId := n.namedTerminalProfileId
    namedTerminalProfileCwd := n.cwd
    sshExtraArgs := n.ssh.bind fun conn =>
      if conn.execTrusted = some true then conn.extraArgs else none
    pendingLaunch := n.pendingLaunch
    clearEnv := n.clearEnv
    serviceConnection := n.serviceConnection
    openWebUiLocalBinding := n.openWebUiLocalBinding
    nextcloudManagedBinding := n.nextcloudManagedBinding
    awsIdentityBinding := n.awsIdentityBinding
    nsisLocalPaths := n.nsisLocalPaths
    virtualMachineLocalPaths := n.virtualMachineLocalPaths
    mediaFilePath := n.filePath
    mediaSourcePaths := localMediaSourcePaths n }

/-- What a record says after the checks that are made again when it is put back. -/
def revalidated (W : Web) (e : LocalNodeExec) : LocalNodeExec :=
  { e with
    pendingLaunch := e.pendingLaunch.bind clonePendingLaunch
    serviceConnection := e.serviceConnection.bind (safeServiceConnection W)
    openWebUiLocalBinding := e.openWebUiLocalBinding.bind (safeOpenWebUiLocalBinding W)
    nextcloudManagedBinding := e.nextcloudManagedBinding.bind validateNextcloudManagedBinding
    awsIdentityBinding := e.awsIdentityBinding.bind (normalizeAwsIdentityBinding W)
    nsisLocalPaths := e.nsisLocalPaths.bind safeNsisLocalPaths
    virtualMachineLocalPaths := safeVmPaths e.virtualMachineLocalPaths
    mediaFilePath := e.mediaFilePath.filter safePathString
    mediaSourcePaths := e.mediaSourcePaths.bind safeMediaSourcePaths }

/-- The value is there, and it is this one. -/
def Keeps {α : Type} (a b : Option α) : Prop := ∀ v, b = some v → a = some v

/-- Every value of `b` is the value of `a`; source paths are compared asset by asset. -/
structure Extends (a b : LocalNodeExec) : Prop where
  shell : Keeps a.shell b.shell
  terminalProfileId : Keeps a.terminalProfileId b.terminalProfileId
  namedTerminalProfileId : Keeps a.namedTerminalProfileId b.namedTerminalProfileId
  namedTerminalProfileCwd : Keeps a.namedTerminalProfileCwd b.namedTerminalProfileCwd
  sshExtraArgs : Keeps a.sshExtraArgs b.sshExtraArgs
  pendingLaunch : Keeps a.pendingLaunch b.pendingLaunch
  clearEnv : Keeps a.clearEnv b.clearEnv
  serviceConnection : Keeps a.serviceConnection b.serviceConnection
  openWebUiLocalBinding : Keeps a.openWebUiLocalBinding b.openWebUiLocalBinding
  nextcloudManagedBinding : Keeps a.nextcloudManagedBinding b.nextcloudManagedBinding
  awsIdentityBinding : Keeps a.awsIdentityBinding b.awsIdentityBinding
  nsisLocalPaths : Keeps a.nsisLocalPaths b.nsisLocalPaths
  virtualMachineLocalPaths : Keeps a.virtualMachineLocalPaths b.virtualMachineLocalPaths
  mediaFilePath : Keeps a.mediaFilePath b.mediaFilePath
  mediaSourcePaths : ∀ assetId, Keeps (a.mediaSourcePaths.bind (·.get? assetId))
    (b.mediaSourcePaths.bind (·.get? assetId))

def Restores (W : Web) (n n' : CanvasNodeState) : Prop := Extends (valuesOf n') (validPart W n)

/-- No machine-local value at all. -/
structure Blank (n : CanvasNodeState) : Prop where
  noLocal : NoLocal none n
  clearEnv : n.clearEnv = none
  assets : ∀ assets, n.mediaAssets = some assets → ∀ x ∈ assets, x.sourcePath = none

/-- Where `b` has a value, `a` has it exactly when `a'` has it. -/
def SameAt {α : Type} (b a a' : Option α) : Prop := ∀ v, b = some v → (a = some v ↔ a' = some v)

theorem SameAt.keeps_iff {α : Type} {b a a' : Option α} (h : SameAt b a a') : Keeps a b ↔ Keeps a' b := by
  constructor
  · exact fun hk v hv => (h v hv).mp (hk v hv)
  · exact fun hk v hv => (h v hv).mpr (hk v hv)

structure SameOn (b a a' : LocalNodeExec) : Prop where
  shell : SameAt b.shell a.shell a'.shell
  terminalProfileId : SameAt b.terminalProfileId a.terminalProfileId a'.terminalProfileId
  namedTerminalProfileId : SameAt b.namedTerminalProfileId a.namedTerminalProfileId a'.namedTerminalProfileId
  namedTerminalProfileCwd : SameAt b.namedTerminalProfileCwd a.namedTerminalProfileCwd a'.namedTerminalProfileCwd
  sshExtraArgs : SameAt b.sshExtraArgs a.sshExtraArgs a'.sshExtraArgs
  pendingLaunch : SameAt b.pendingLaunch a.pendingLaunch a'.pendingLaunch
  clearEnv : SameAt b.clearEnv a.clearEnv a'.clearEnv
  serviceConnection : SameAt b.serviceConnection a.serviceConnection a'.serviceConnection
  openWebUiLocalBinding : SameAt b.openWebUiLocalBinding a.openWebUiLocalBinding a'.openWebUiLocalBinding
  nextcloudManagedBinding : SameAt b.nextcloudManagedBinding a.nextcloudManagedBinding a'.nextcloudManagedBinding
  awsIdentityBinding : SameAt b.awsIdentityBinding a.awsIdentityBinding a'.awsIdentityBinding
  nsisLocalPaths : SameAt b.nsisLocalPaths a.nsisLocalPaths a'.nsisLocalPaths
  virtualMachineLocalPaths : SameAt b.virtualMachineLocalPaths a.virtualMachineLocalPaths a'.virtualMachineLocalPaths
  mediaFilePath : SameAt b.mediaFilePath a.mediaFilePath a'.mediaFilePath
  mediaSourcePaths : ∀ assetId, SameAt (b.mediaSourcePaths.bind (·.get? assetId))
    (a.mediaSourcePaths.bind (·.get? assetId)) (a'.mediaSourcePaths.bind (·.get? assetId))

theorem SameOn.extends_iff {b a a' : LocalNodeExec} (h : SameOn b a a') : Extends a b ↔ Extends a' b := by
  constructor
  · intro he
    exact ⟨h.shell.keeps_iff.mp he.shell, h.terminalProfileId.keeps_iff.mp he.terminalProfileId,
      h.namedTerminalProfileId.keeps_iff.mp he.namedTerminalProfileId,
      h.namedTerminalProfileCwd.keeps_iff.mp he.namedTerminalProfileCwd,
      h.sshExtraArgs.keeps_iff.mp he.sshExtraArgs, h.pendingLaunch.keeps_iff.mp he.pendingLaunch,
      h.clearEnv.keeps_iff.mp he.clearEnv, h.serviceConnection.keeps_iff.mp he.serviceConnection,
      h.openWebUiLocalBinding.keeps_iff.mp he.openWebUiLocalBinding,
      h.nextcloudManagedBinding.keeps_iff.mp he.nextcloudManagedBinding,
      h.awsIdentityBinding.keeps_iff.mp he.awsIdentityBinding,
      h.nsisLocalPaths.keeps_iff.mp he.nsisLocalPaths,
      h.virtualMachineLocalPaths.keeps_iff.mp he.virtualMachineLocalPaths,
      h.mediaFilePath.keeps_iff.mp he.mediaFilePath,
      fun assetId => (h.mediaSourcePaths assetId).keeps_iff.mp (he.mediaSourcePaths assetId)⟩
  · intro he
    exact ⟨h.shell.keeps_iff.mpr he.shell, h.terminalProfileId.keeps_iff.mpr he.terminalProfileId,
      h.namedTerminalProfileId.keeps_iff.mpr he.namedTerminalProfileId,
      h.namedTerminalProfileCwd.keeps_iff.mpr he.namedTerminalProfileCwd,
      h.sshExtraArgs.keeps_iff.mpr he.sshExtraArgs, h.pendingLaunch.keeps_iff.mpr he.pendingLaunch,
      h.clearEnv.keeps_iff.mpr he.clearEnv, h.serviceConnection.keeps_iff.mpr he.serviceConnection,
      h.openWebUiLocalBinding.keeps_iff.mpr he.openWebUiLocalBinding,
      h.nextcloudManagedBinding.keeps_iff.mpr he.nextcloudManagedBinding,
      h.awsIdentityBinding.keeps_iff.mpr he.awsIdentityBinding,
      h.nsisLocalPaths.keeps_iff.mpr he.nsisLocalPaths,
      h.virtualMachineLocalPaths.keeps_iff.mpr he.virtualMachineLocalPaths,
      h.mediaFilePath.keeps_iff.mpr he.mediaFilePath,
      fun assetId => (h.mediaSourcePaths assetId).keeps_iff.mpr (he.mediaSourcePaths assetId)⟩

/-! One node, saved and loaded. -/

section Node
variable (H : Host)

def savedNode (cwd : Option String) (n : CanvasNodeState) : CanvasNodeState :=
  let portable := match nonEmpty cwd with
    | some root => toPortableNode H root n
    | none => n
  let stripped := stripNodeExec portable
  let rest := H.sanitizeCalendar stripped.kind stripped.rest
  { stripped with rest := H.sanitizeTrigger stripped.kind rest }

theorem savedNodes_eq (cwd : Option String) (nodes : List CanvasNodeState) :
    savedNodes H cwd nodes = nodes.map (savedNode H cwd) := by
  unfold savedNodes sanitizeNodeTriggers sanitizeCalendarConfigs stripSharedNodeExec toPortableNodes
  cases h : nonEmpty cwd with
  | none | some =>
    simp only [map_map]
    apply map_congr_left
    intro n _
    simp [savedNode, h]

/-- A saved node is the shared part of the node, but for its content fields and its directory. -/
theorem savedNode_eq (cwd : Option String) (n : CanvasNodeState) :
    ∃ dir rest, savedNode H cwd n = { sharedPart n with cwd := dir, rest := rest } ∧
      (n.namedTerminalProfileId.isSome = true → dir = none) := by
  have hportable : ∃ dir, (match nonEmpty cwd with
      | some root => toPortableNode H root n
      | none => n) = { n with cwd := dir } := by
    cases nonEmpty cwd with
    | none => exact ⟨n.cwd, rfl⟩
    | some =>
      unfold toPortableNode
      cases nonEmpty n.cwd with
      | none => exact ⟨n.cwd, rfl⟩
      | some =>
        dsimp only
        split
        · exact ⟨n.cwd, rfl⟩
        · exact ⟨_, rfl⟩
  obtain ⟨dir, hdir⟩ := hportable
  unfold savedNode
  rw [hdir]
  dsimp only
  rw [stripNodeExec_eq]
  refine ⟨if n.namedTerminalProfileId.isSome then none else dir, _, rfl, ?_⟩
  intro hnamed
  exact if_pos hnamed

def resolvedNode (base : LoadBase) (n : CanvasNodeState) : CanvasNodeState :=
  match nonEmpty base.cwd with
  | some root => resolveNode H root n
  | none => n

def restoredNode (base : LoadBase) (n : CanvasNodeState) : CanvasNodeState :=
  applyEntry H.web (mine base.localExec (resolvedNode H base n).id) (resolvedNode H base n)

theorem restoredNodes_eq (base : LoadBase) (nodes : List CanvasNodeState) :
    restoredNodes H base nodes = nodes.map (restoredNode H base) := by
  unfold restoredNodes applyLocalNodeExec resolveNodes
  cases h : nonEmpty base.cwd with
  | none =>
    apply map_congr_left
    intro n _
    simp [restoredNode, resolvedNode, h]
  | some =>
    simp only [map_map]
    apply map_congr_left
    intro n _
    simp [restoredNode, resolvedNode, h]

end Node

/-! What comes back on a node. -/

section Restore
variable {W : Web} {e : LocalNodeExec} {n : CanvasNodeState} {dir : Option String} {rest : Fields}

/-- The node that a file holds for `n`. -/
abbrev onFile (n : CanvasNodeState) (dir : Option String) (rest : Fields) : CanvasNodeState :=
  { sharedPart n with cwd := dir, rest := rest }

theorem strip_onFile : stripNodeExec (onFile n dir rest) = onFile n dir rest := by
  rw [stripNodeExec_eq]
  simp only [sharedPart, Option.isSome_none, Bool.false_eq_true, if_false, Option.map_map,
    CanvasNodeState.mk.injEq, true_and, and_true]
  refine ⟨rfl, ?file, ?assets⟩
  case file => split <;> rfl
  case assets =>
    split
    · rw [Option.map_map]
      congr 1
      funext assets
      rw [Function.comp, map_map]
      rfl
    · rfl

/-- What the record puts on the node, field by field. -/
theorem applyEntry_onFile : applyEntry W e (onFile n dir rest) =
    { onFile n dir rest with
      shell := nonEmpty e.shell
      terminalProfileId := e.terminalProfileId
      namedTerminalProfileId := e.namedTerminalProfileId
      cwd := e.namedTerminalProfileCwd.or dir
      ssh :=
        match nonEmpty e.sshExtraArgs with
        | some args => n.ssh.map fun conn =>
          { conn with extraArgs := some args, execTrusted := some true }
        | none => n.ssh.map SshConnection.stripExec
      pendingLaunch := if n.kind = .terminal then e.pendingLaunch.bind clonePendingLaunch else none
      serviceConnection := e.serviceConnection.bind (safeServiceConnection W)
      openWebUiLocalBinding :=
        if n.kind = .openWebuiHosting then
          e.openWebUiLocalBinding.bind (safeOpenWebUiLocalBinding W) else none
      awsIdentityBinding := e.awsIdentityBinding.bind (normalizeAwsIdentityBinding W)
      nextcloudManagedBinding :=
        if n.kind = .nextcloudManaged then
          e.nextcloudManagedBinding.bind validateNextcloudManagedBinding else none
      nsisLocalPaths := e.nsisLocalPaths.bind safeNsisLocalPaths
      virtualMachineLocalPaths := safeVmPaths e.virtualMachineLocalPaths
      filePath :=
        if n.kind.hasLocalFile then e.mediaFilePath.filter safePathString else n.filePath
      mediaAssets :=
        match n.kind.isMedia, e.mediaSourcePaths.bind safeMediaSourcePaths with
        | true, some paths =>
          n.mediaAssets.map fun assets => assets.map fun x => restoreSourcePath paths (stripSourcePath x)
        | true, none => n.mediaAssets.map (·.map stripSourcePath)
        | false, _ => n.mediaAssets } := by
  unfold applyEntry
  dsimp only
  rw [strip_onFile, restoreMediaPaths_eq]
  simp only [sharedPart, Option.or_none, CanvasNodeState.mk.injEq, true_and, and_true]
  refine ⟨?ssh, ?file, ?assets⟩
  case ssh =>
    cases nonEmpty e.sshExtraArgs with
    | none => rfl
    | some =>
      dsimp only
      rw [Option.map_map]
      rfl
  case file =>
    split <;> simp
  case assets =>
    cases n.kind.isMedia <;> cases e.mediaSourcePaths.bind safeMediaSourcePaths
    · rfl
    · rfl
    · rfl
    · dsimp only
      rw [if_pos rfl, Option.map_map]
      congr 1
      funext assets
      simp

theorem nonEmpty_eq_some {s : Option String} {v : String} (hv : v ≠ "") : nonEmpty s = some v ↔ s = some v := by
  unfold nonEmpty
  rw [Option.filter_eq_some_iff]
  simp [hv]

theorem ne_empty_of_safeProgram {v : String} (h : (safeSessionProgram v).isSome = true) : v ≠ "" := by
  rintro rfl
  revert h
  decide

theorem safeEntry_of_revalidated {raw paths : SourcePaths}
    (h : safeMediaSourcePaths raw = some paths) {a p : String} (hget : paths.get? a = some p) :
    SafeEntry (a, p) := by
  have hmem := SourcePaths.mem_of_get? hget
  unfold safeMediaSourcePaths at h
  dsimp only at h
  split at h
  · cases h
  · rw [← Option.some.inj h] at hmem
    have hsafe := (mem_filter.mp hmem).2
    rw [Bool.and_eq_true_iff] at hsafe
    exact hsafe

theorem sourcePathOf_applied (hmedia : n.kind.isMedia = true) {rest' : Fields} {a : String} (hlists : lists n a) :
    sourcePathOf { applyEntry W e (onFile n dir rest) with rest := rest' } a =
      (e.mediaSourcePaths.bind safeMediaSourcePaths).bind (·.get? a) := by
  rw [applyEntry_onFile]
  cases hpaths : e.mediaSourcePaths.bind safeMediaSourcePaths with
  | none =>
    rw [sourcePathOf_eq, hmedia]
    dsimp only
    cases n.mediaAssets with
    | none => rfl
    | some =>
      rw [Option.map_some, Option.getD_some, ← map_take, collectSourcePaths,
        get?_foldl_collect (g := fun _ => none) (by simp)]
      · simp [SourcePaths.get?]
      · intro x hx
        obtain ⟨y, -, rfl⟩ := mem_map.mp hx
        rfl
  | some paths =>
    obtain ⟨raw, -, hraw⟩ := Option.bind_eq_some_iff.mp hpaths
    unfold lists at hlists
    cases hassets : n.mediaAssets with
    | none =>
      rw [hassets] at hlists
      simp at hlists
    | some assets =>
      rw [hassets, Option.getD_some] at hlists
      let restored : CanvasNodeState :=
        { applyEntry W e (onFile n dir rest) with
          mediaAssets := some (assets.map fun x => restoreSourcePath paths (stripSourcePath x)) }
      have hrestored : sourcePathOf restored a = if a ∈ (assets.take maxMediaSourcePaths).map (·.assetId)
          then paths.get? a else none :=
        sourcePathOf_restored (fun a p hget => safeEntry_of_revalidated hraw hget) rfl a
      rw [if_pos hlists] at hrestored
      rw [hmedia]
      exact hrestored

/-- With a record at hand, the valid values come back exactly when the record has them. -/
theorem restores_onFile (hclear : n.clearEnv = none)
    (hdir : n.namedTerminalProfileId.isSome = true → dir = none) {rest' : Fields} :
    Restores W n { applyEntry W e (onFile n dir rest) with rest := rest' } ↔
      Extends (revalidated W e) (validPart W n) := by
  unfold Restores
  apply SameOn.extends_iff
  have hsources : ∀ a, SameAt ((validPart W n).mediaSourcePaths.bind (·.get? a))
      ((valuesOf { applyEntry W e (onFile n dir rest) with rest := rest' }).mediaSourcePaths.bind
        (·.get? a)) ((revalidated W e).mediaSourcePaths.bind (·.get? a)) := by
    intro a v hv
    have hmedia : n.kind.isMedia = true := by
      by_contra hno
      unfold validPart at hv
      dsimp only at hv
      rw [if_neg hno] at hv
      cases hv
    have hlists : lists n a := by
      unfold validPart at hv
      dsimp only at hv
      rw [if_pos hmedia] at hv
      exact lists_of_sourcePathOf hv
    change sourcePathOf _ a = some v ↔ _
    rw [sourcePathOf_applied hmedia hlists]
    rfl
  rw [applyEntry_onFile] at *
  unfold valuesOf validPart revalidated
  constructor
  case shell =>
    intro v hv
    have hsafe := (Option.filter_eq_some_iff.mp hv).2
    exact nonEmpty_eq_some (ne_empty_of_safeProgram hsafe)
  case terminalProfileId => exact fun v _ => Iff.rfl
  case namedTerminalProfileId => exact fun v _ => Iff.rfl
  case namedTerminalProfileCwd =>
    intro v hv
    have hnamed : n.namedTerminalProfileId.isSome = true := by
      by_contra hno
      rw [if_neg hno] at hv
      cases hv
    rw [hdir hnamed, Option.or_none]
  case sshExtraArgs =>
    intro v hv
    obtain ⟨conn, hconn, hargs⟩ := Option.bind_eq_some_iff.mp hv
    have hne : v ≠ "" := by
      have hargs := (Option.filter_eq_some_iff.mp hargs).1
      simpa using (Option.filter_eq_some_iff.mp hargs).2
    change Option.bind (match nonEmpty e.sshExtraArgs with
      | some args => n.ssh.map fun conn =>
        { conn with extraArgs := some args, execTrusted := some true }
      | none => n.ssh.map SshConnection.stripExec) _ = some v ↔ e.sshExtraArgs = some v
    rw [hconn, ← nonEmpty_eq_some (s := e.sshExtraArgs) hne]
    cases nonEmpty e.sshExtraArgs with
    | none => simp [SshConnection.stripExec]
    | some => simp
  case pendingLaunch =>
    intro v hv
    have hkind : n.kind = .terminal := by
      by_contra hno
      rw [if_neg hno] at hv
      cases hv
    rw [if_pos hkind]
  case clearEnv =>
    intro v hv
    rw [hclear] at hv
    cases hv
  case serviceConnection => exact fun v _ => Iff.rfl
  case openWebUiLocalBinding =>
    intro v hv
    have hkind : n.kind = .openWebuiHosting := by
      by_contra hno
      rw [if_neg hno] at hv
      cases hv
    rw [if_pos hkind]
  case nextcloudManagedBinding =>
    intro v hv
    have hkind : n.kind = .nextcloudManaged := by
      by_contra hno
      rw [if_neg hno] at hv
      cases hv
    rw [if_pos hkind]
  case awsIdentityBinding => exact fun v _ => Iff.rfl
  case nsisLocalPaths => exact fun v _ => Iff.rfl
  case virtualMachineLocalPaths => exact fun v _ => Iff.rfl
  case mediaFilePath =>
    intro v hv
    have hlocal : n.kind.hasLocalFile = true := by
      by_contra hno
      rw [if_neg hno] at hv
      cases hv
    rw [if_pos hlocal]
  case mediaSourcePaths => exact hsources

end Restore

end NodeTerm.Workspace
