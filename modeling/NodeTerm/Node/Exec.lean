import NodeTerm.Node.Validate

/-! The trust boundary of the machine-local fields: what is stripped from a node that comes from
somebody else or goes to a shared file, and what is carried across a node that is replaced. -/
namespace NodeTerm.Node

open Option

def NodeKind.isMedia : NodeKind → Bool
  | .photo | .video | .gallery => true
  | _ => false

def NodeKind.hasLocalFile : NodeKind → Bool
  | .photo | .video => true
  | _ => false

/-- A record from asset id to source path: assigning a key keeps its place. -/
abbrev SourcePaths := List (String × String)

def SourcePaths.assign (paths : SourcePaths) (assetId path : String) : SourcePaths :=
  if paths.any fun e => e.1 == assetId then
    paths.map fun e => if e.1 == assetId then (assetId, path) else e
  else paths ++ [(assetId, path)]

def SourcePaths.get? (paths : SourcePaths) (assetId : String) : Option String :=
  (paths.find? fun e => e.1 == assetId).map Prod.snd

def safeMediaSourcePaths (raw : SourcePaths) : Option SourcePaths :=
  let out := (raw.take maxMediaSourcePaths).filter fun e =>
    safeMediaAssetId e.1 && safePathString e.2
  if out = [] then none else some out

/-- One turn of the loop of `localMediaSourcePaths`. -/
def collectSourcePath (out : SourcePaths) (asset : MediaAssetReference) : SourcePaths :=
  match asset.sourcePath with
  | some path =>
    if safeMediaAssetId asset.assetId && safePathString path then out.assign asset.assetId path
    else out
  | none => out

def collectSourcePaths (assets : List MediaAssetReference) : SourcePaths :=
  assets.foldl collectSourcePath []

def localMediaSourcePaths (node : CanvasNodeState) : Option SourcePaths :=
  match node.mediaAssets with
  | none => none
  | some assets =>
    let out := collectSourcePaths (assets.take maxMediaSourcePaths)
    if out = [] then none else some out

def stripSourcePath (asset : MediaAssetReference) : MediaAssetReference :=
  { asset with sourcePath := none }

def stripMediaPaths (node : CanvasNodeState) : CanvasNodeState :=
  let hasSourcePath := node.mediaAssets.any fun assets => assets.any fun a => a.sourcePath.isSome
  let hasFilePath := node.kind.hasLocalFile && node.filePath.isSome
  if !node.kind.isMedia || (!hasSourcePath && !hasFilePath) then node
  else
    { node with
      filePath := if hasFilePath then none else node.filePath
      mediaAssets :=
        if hasSourcePath then node.mediaAssets.map (·.map stripSourcePath) else node.mediaAssets }

/-- Put the source path of this machine back on each asset that has one. -/
def restoreSourcePath (paths : SourcePaths) (asset : MediaAssetReference) : MediaAssetReference :=
  match paths.get? asset.assetId with
  | some path => { asset with sourcePath := some path }
  | none => asset

def restoreMediaPaths (node : CanvasNodeState) (filePath : Option String)
    (sourcePaths : Option SourcePaths) : CanvasNodeState :=
  if !node.kind.isMedia then node
  else
    let mediaFilePath := filePath.filter safePathString
    let mediaSourcePaths := sourcePaths.bind safeMediaSourcePaths
    if mediaFilePath.isNone && mediaSourcePaths.isNone then node
    else
      { node with
        filePath :=
          if node.kind.hasLocalFile && mediaFilePath.isSome then mediaFilePath else node.filePath
        mediaAssets :=
          match mediaSourcePaths with
          | some paths => node.mediaAssets.map (·.map (restoreSourcePath paths))
          | none => node.mediaAssets }

def SshConnection.stripExec (conn : SshConnection) : SshConnection :=
  { conn with extraArgs := none, execTrusted := none }

def stripNodeExec (n : CanvasNodeState) : CanvasNodeState :=
  let out := stripMediaPaths n
  if out.shell.isNone && out.terminalProfileId.isNone && out.namedTerminalProfileId.isNone &&
      out.pendingLaunch.isNone && out.serviceConnection.isNone &&
      out.openWebUiLocalBinding.isNone && out.nextcloudManagedBinding.isNone &&
      out.awsIdentityBinding.isNone && out.nsisLocalPaths.isNone &&
      out.virtualMachineLocalPaths.isNone && (out.ssh.bind (·.extraArgs)).isNone &&
      (out.ssh.bind (·.execTrusted)).isNone then out
  else
    { out with
      shell := none
      terminalProfileId := none
      namedTerminalProfileId := none
      -- A directory that came with a named profile belongs to that profile.
      cwd := if out.namedTerminalProfileId.isSome then none else out.cwd
      pendingLaunch := none
      serviceConnection := none
      openWebUiLocalBinding := none
      nextcloudManagedBinding := none
      awsIdentityBinding := none
      nsisLocalPaths := none
      virtualMachineLocalPaths := none
      ssh := out.ssh.map SshConnection.stripExec }

def stripSharedNodeExec (nodes : List CanvasNodeState) : List CanvasNodeState :=
  nodes.map stripNodeExec

/-- A node that arrived over the wire. -/
def sanitizeInboundNode (node : CanvasNodeState) : CanvasNodeState := stripNodeExec node

/-- A node that is new here. The receiving host may snapshot its own default profile. -/
def acceptNewInboundNode (node : CanvasNodeState) (defaultTerminalProfileId : Option String) : CanvasNodeState :=
  let clean := sanitizeInboundNode node
  match nonEmpty defaultTerminalProfileId with
  | none => clean
  | some profile =>
    if clean.kind ≠ .terminal ∨ clean.ssh.isSome then clean
    else { clean with terminalProfileId := some profile }

/-- The launch of this machine's copy that a node of the new kind may keep. -/
def carriedPendingLaunch (prev next : CanvasNodeState) : Option PendingLaunch :=
  if next.kind = .terminal then prev.pendingLaunch.bind clonePendingLaunch else none

def carriedOpenWebUi (prev : CanvasNodeState) : Option OpenWebUiLocalBinding :=
  if prev.kind = .openWebuiHosting then prev.openWebUiLocalBinding else none

def carriedNextcloud (prev next : CanvasNodeState) : Option NextcloudManagedBinding :=
  if prev.kind = .nextcloudManaged ∧ next.kind = .nextcloudManaged then
    prev.nextcloudManagedBinding.bind validateNextcloudManagedBinding
  else none

/-- The body of `carryLocalNodeExec`: the fields of `next` that this machine's copy overrides. -/
def carried (W : Web) (prev next : CanvasNodeState) : CanvasNodeState :=
  let extraArgs := prev.ssh.bind (·.extraArgs)
  let vmPaths := normalizeVirtualMachineLocalPaths prev.virtualMachineLocalPaths
  restoreMediaPaths
    { next with
      shell := prev.shell.or next.shell
      terminalProfileId := prev.terminalProfileId.or next.terminalProfileId
      namedTerminalProfileId := prev.namedTerminalProfileId.or next.namedTerminalProfileId
      cwd := if prev.namedTerminalProfileId.isSome && prev.cwd.isSome then prev.cwd else next.cwd
      ssh :=
        if extraArgs.isSome then
          next.ssh.map fun conn =>
            { conn with extraArgs := extraArgs, execTrusted := prev.ssh.bind (·.execTrusted) }
        else next.ssh
      pendingLaunch := (carriedPendingLaunch prev next).or next.pendingLaunch
      nsisLocalPaths := (prev.nsisLocalPaths.bind safeNsisLocalPaths).or next.nsisLocalPaths
      virtualMachineLocalPaths := if vmPaths = {} then next.virtualMachineLocalPaths else some vmPaths
      openWebUiLocalBinding := (carriedOpenWebUi prev).or next.openWebUiLocalBinding
      nextcloudManagedBinding := (carriedNextcloud prev next).or next.nextcloudManagedBinding
      awsIdentityBinding :=
        (prev.awsIdentityBinding.bind (normalizeAwsIdentityBinding W)).or next.awsIdentityBinding }
    (prev.filePath.filter safePathString) (localMediaSourcePaths prev)

/-- Nothing of this machine's copy is worth carrying. -/
def nothingToCarry (W : Web) (prev next : CanvasNodeState) : Bool :=
  prev.shell.isNone && prev.terminalProfileId.isNone && prev.namedTerminalProfileId.isNone &&
    (prev.ssh.bind (·.extraArgs)).isNone && (carriedPendingLaunch prev next).isNone &&
    (prev.nsisLocalPaths.bind safeNsisLocalPaths).isNone &&
    (prev.awsIdentityBinding.bind (normalizeAwsIdentityBinding W)).isNone &&
    normalizeVirtualMachineLocalPaths prev.virtualMachineLocalPaths == {} &&
    (carriedOpenWebUi prev).isNone && (prev.filePath.filter safePathString).isNone &&
    (localMediaSourcePaths prev).isNone && (carriedNextcloud prev next).isNone

def carryLocalNodeExec (W : Web) (prev next : CanvasNodeState) : CanvasNodeState :=
  if nothingToCarry W prev next then next else carried W prev next

/-! The early returns of the source do not show in the values. -/

/-- A node as everybody may see it: every machine-local field of its kind is blank. -/
def sharedPart (n : CanvasNodeState) : CanvasNodeState :=
  { n with
    shell := none
    terminalProfileId := none
    namedTerminalProfileId := none
    cwd := if n.namedTerminalProfileId.isSome then none else n.cwd
    pendingLaunch := none
    serviceConnection := none
    openWebUiLocalBinding := none
    nextcloudManagedBinding := none
    awsIdentityBinding := none
    nsisLocalPaths := none
    virtualMachineLocalPaths := none
    ssh := n.ssh.map SshConnection.stripExec
    filePath := if n.kind.hasLocalFile then none else n.filePath
    mediaAssets :=
      if n.kind.isMedia then n.mediaAssets.map (·.map stripSourcePath) else n.mediaAssets }

theorem map_stripSourcePath_of_none {assets : List MediaAssetReference}
    (h : assets.any (fun a => a.sourcePath.isSome) = false) : assets.map stripSourcePath = assets := by
  rw [List.any_eq_false] at h
  conv_rhs => rw [← List.map_id assets]
  apply List.map_congr_left
  intro a ha
  have hnone : a.sourcePath = none := by simpa using h a ha
  cases a
  subst hnone
  rfl

theorem NodeKind.isMedia_of_hasLocalFile {kind : NodeKind} (h : kind.hasLocalFile = true) : kind.isMedia = true := by
  cases kind <;> first | rfl | cases h

theorem stripMediaPaths_eq (n : CanvasNodeState) : stripMediaPaths n =
      { n with
        filePath := if n.kind.hasLocalFile then none else n.filePath
        mediaAssets :=
          if n.kind.isMedia then n.mediaAssets.map (·.map stripSourcePath) else n.mediaAssets } := by
  have hfile : (if (n.kind.hasLocalFile && n.filePath.isSome) = true then none else n.filePath) =
      if n.kind.hasLocalFile = true then none else n.filePath := by
    cases n.kind.hasLocalFile <;> cases n.filePath <;> rfl
  have hassets : (n.mediaAssets.any fun assets => assets.any fun a => a.sourcePath.isSome) = false →
      n.mediaAssets.map (·.map stripSourcePath) = n.mediaAssets := by
    intro h
    cases hm : n.mediaAssets with
    | none => rfl
    | some =>
      rw [hm] at h
      rw [map_some, map_stripSourcePath_of_none h]
  unfold stripMediaPaths
  dsimp only
  cases hmedia : n.kind.isMedia with
  | false =>
    have hlocal : n.kind.hasLocalFile = false := by
      rw [Bool.eq_false_iff]
      intro hlocal
      rw [NodeKind.isMedia_of_hasLocalFile hlocal] at hmedia
      cases hmedia
    simp [hlocal]
  | true =>
    cases hpath : n.mediaAssets.any fun assets => assets.any fun a => a.sourcePath.isSome with
    | false =>
      rw [← hfile, if_pos rfl, hassets hpath]
      cases hf : n.kind.hasLocalFile && n.filePath.isSome <;> simp
    | true =>
      rw [← hfile]
      simp

theorem stripNodeExec_eq (n : CanvasNodeState) : stripNodeExec n = sharedPart n := by
  unfold stripNodeExec
  rw [stripMediaPaths_eq]
  dsimp only
  split
  · rename_i h
    simp only [Bool.and_eq_true, isNone_iff_eq_none] at h
    obtain ⟨⟨⟨⟨⟨⟨⟨⟨⟨⟨⟨h1, h2⟩, h3⟩, h4⟩, h5⟩, h6⟩, h7⟩, h8⟩, h9⟩, h10⟩, h11⟩, h12⟩ := h
    have hssh : n.ssh.map SshConnection.stripExec = n.ssh := by
      cases hs : n.ssh with
      | none => rfl
      | some conn =>
        simp only [hs, bind_some] at h11 h12
        cases conn
        subst h11 h12
        rfl
    simp [sharedPart, h1, h2, h3, h4, h5, h6, h7, h8, h9, h10, hssh]
  · rfl

theorem restoreMediaPaths_eq (node : CanvasNodeState) (filePath : Option String) (sourcePaths : Option SourcePaths) :
    restoreMediaPaths node filePath sourcePaths =
      { node with
        filePath :=
          if node.kind.hasLocalFile then (filePath.filter safePathString).or node.filePath
          else node.filePath
        mediaAssets :=
          match node.kind.isMedia, sourcePaths.bind safeMediaSourcePaths with
          | true, some paths => node.mediaAssets.map (·.map (restoreSourcePath paths))
          | _, _ => node.mediaAssets } := by
  unfold restoreMediaPaths
  cases hmedia : node.kind.isMedia with
  | false =>
    have hlocal : node.kind.hasLocalFile = false := by
      rw [Bool.eq_false_iff]
      intro hlocal
      rw [NodeKind.isMedia_of_hasLocalFile hlocal] at hmedia
      cases hmedia
    simp [hlocal]
  | true =>
    cases filePath.filter safePathString <;> cases sourcePaths.bind safeMediaSourcePaths <;>
      cases node.kind.hasLocalFile <;> rfl

theorem restoreMediaPaths_none (node : CanvasNodeState) : restoreMediaPaths node none none = node := by
  unfold restoreMediaPaths
  split <;> rfl

theorem carryLocalNodeExec_eq (W : Web) (prev next : CanvasNodeState) :
    carryLocalNodeExec W prev next = carried W prev next := by
  unfold carryLocalNodeExec
  split
  · rename_i h
    simp only [nothingToCarry, Bool.and_eq_true, isNone_iff_eq_none, beq_iff_eq] at h
    obtain ⟨⟨⟨⟨⟨⟨⟨⟨⟨⟨⟨h1, h2⟩, h3⟩, h4⟩, h5⟩, h6⟩, h7⟩, h8⟩, h9⟩, h10⟩, h11⟩, h12⟩ := h
    simp [carried, h1, h2, h3, h4, h5, h6, h7, h8, h9, h10, h11, h12, restoreMediaPaths_none]
  · rfl

@[simp] theorem restoreMediaPaths_id (node : CanvasNodeState) (filePath : Option String)
    (sourcePaths : Option SourcePaths) : (restoreMediaPaths node filePath sourcePaths).id = node.id := by
  rw [restoreMediaPaths_eq]

@[simp] theorem carryLocalNodeExec_id (W : Web) (prev next : CanvasNodeState) :
    (carryLocalNodeExec W prev next).id = next.id := by
  rw [carryLocalNodeExec_eq]
  simp [carried]

@[simp] theorem sanitizeInboundNode_id (node : CanvasNodeState) : (sanitizeInboundNode node).id = node.id := by
  rw [sanitizeInboundNode, stripNodeExec_eq]
  rfl

@[simp] theorem sanitizeInboundNode_kind (node : CanvasNodeState) : (sanitizeInboundNode node).kind = node.kind := by
  rw [sanitizeInboundNode, stripNodeExec_eq]
  rfl

@[simp] theorem acceptNewInboundNode_id (node : CanvasNodeState) (profile : Option String) :
    (acceptNewInboundNode node profile).id = node.id := by
  unfold acceptNewInboundNode
  dsimp only
  split
  · simp
  · split <;> simp

end NodeTerm.Node
