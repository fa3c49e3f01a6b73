import NodeTerm.Node.Exec

/-! The source paths of media assets: collecting them from a node, and what the collection of a
node says once they were put back. -/
namespace NodeTerm.Node

open List

/-- An entry that the validator keeps. -/
def SafeEntry (e : String × String) : Prop := safeMediaAssetId e.1 = true ∧ safePathString e.2 = true

theorem SourcePaths.get?_assign (paths : SourcePaths) (assetId path a : String) :
    (paths.assign assetId path).get? a = if a = assetId then some path else paths.get? a := by
  unfold SourcePaths.assign SourcePaths.get?
  split
  · rename_i hany
    induction paths with
    | nil => simp at hany
    | cons e rest ih =>
      by_cases he : e.1 = assetId
      · by_cases ha : a = assetId
        · simp [he, ha]
        · have hmap : ∀ l : SourcePaths, ((l.map fun e => if e.1 == assetId then (assetId, path) else e).find?
              fun e => e.1 == a) = l.find? fun e => e.1 == a := by
            intro l
            induction l with
            | nil => rfl
            | cons d l ihl =>
              by_cases hd : d.1 = assetId
              · have h1 : (assetId == a) = false := beq_eq_false_iff_ne.mpr (Ne.symm ha)
                have h2 : (d.1 == a) = false := by rw [hd]; exact h1
                simp only [map_cons, hd, beq_self_eq_true, if_true, find?_cons, h1]
                exact ihl
              · have h1 : (d.1 == assetId) = false := beq_eq_false_iff_ne.mpr hd
                simp only [map_cons, h1, Bool.false_eq_true, if_false, find?_cons, ihl]
          rw [hmap, if_neg ha]
      · have hrest : rest.any (fun e => e.1 == assetId) = true := by
          simpa [any_cons, he] using hany
        have hne : (e.1 == assetId) = false := beq_eq_false_iff_ne.mpr he
        simp only [map_cons, hne, Bool.false_eq_true, if_false, find?_cons]
        by_cases hea : e.1 = a
        · have hae : a ≠ assetId := fun h => he (hea.trans h)
          simp [hea, hae]
        · have hfalse : (e.1 == a) = false := beq_eq_false_iff_ne.mpr hea
          simp only [hfalse]
          exact ih hrest
  · rename_i hany
    have hnone : paths.find? (fun e => e.1 == assetId) = none := by
      rw [find?_eq_none]
      intro e he h
      exact hany (any_eq_true.mpr ⟨e, he, h⟩)
    rw [find?_append]
    by_cases ha : a = assetId
    · subst ha
      simp [hnone]
    · have h1 : (assetId == a) = false := beq_eq_false_iff_ne.mpr (Ne.symm ha)
      simp [h1, ha]

theorem SourcePaths.length_assign (paths : SourcePaths) (assetId path : String) :
    (paths.assign assetId path).length ≤ paths.length + 1 := by
  unfold SourcePaths.assign
  split <;> simp

variable {paths out : SourcePaths} {path a : String} {node : CanvasNodeState}

theorem SourcePaths.safe_assign (h : ∀ e ∈ paths, SafeEntry e)
    {assetId path : String} (hid : safeMediaAssetId assetId = true)
    (hpath : safePathString path = true) : ∀ e ∈ paths.assign assetId path, SafeEntry e := by
  intro e he
  unfold SourcePaths.assign at he
  split at he
  · obtain ⟨d, hd, rfl⟩ := mem_map.mp he
    split
    · exact ⟨hid, hpath⟩
    · exact h d hd
  · rcases mem_append.mp he with he | he
    · exact h e he
    · rw [mem_singleton.mp he]
      exact ⟨hid, hpath⟩

theorem collectSourcePath_safe (h : ∀ e ∈ out, SafeEntry e)
    (asset : MediaAssetReference) : ∀ e ∈ collectSourcePath out asset, SafeEntry e := by
  unfold collectSourcePath
  split
  · split
    · rename_i hsafe
      obtain ⟨hid, hpath⟩ := Bool.and_eq_true_iff.mp hsafe
      exact SourcePaths.safe_assign h hid hpath
    · exact h
  · exact h

theorem collectSourcePath_length (out : SourcePaths) (asset : MediaAssetReference) :
    (collectSourcePath out asset).length ≤ out.length + 1 := by
  unfold collectSourcePath
  split
  · split
    · exact out.length_assign _ _
    · omega
  · omega

theorem foldl_collect (assets : List MediaAssetReference) (h : ∀ e ∈ out, SafeEntry e) :
    (∀ e ∈ assets.foldl collectSourcePath out, SafeEntry e) ∧
      (assets.foldl collectSourcePath out).length ≤ out.length + assets.length := by
  induction assets generalizing out with
  | nil => exact ⟨h, Nat.le_refl _⟩
  | cons asset assets ih =>
    obtain ⟨hsafe, hlength⟩ := ih (collectSourcePath_safe h asset)
    have hone := collectSourcePath_length out asset
    refine ⟨hsafe, ?_⟩
    rw [foldl_cons, length_cons]
    omega

theorem SourcePaths.mem_of_get?
    (h : paths.get? a = some path) : (a, path) ∈ paths := by
  obtain ⟨e, he, rfl⟩ := Option.map_eq_some_iff.mp h
  have hkey := find?_some he
  have hmem := mem_of_find?_eq_some he
  rw [beq_iff_eq] at hkey
  rw [← hkey]
  exact hmem

theorem safeEntry_of_get?
    (h : localMediaSourcePaths node = some paths)
    (hget : paths.get? a = some path) : SafeEntry (a, path) := by
  unfold localMediaSourcePaths at h
  split at h
  · cases h
  · dsimp only at h
    split at h
    · cases h
    · cases h
      have hnil : ∀ e ∈ ([] : SourcePaths), SafeEntry e := by simp
      exact (foldl_collect _ hnil).1 _ (SourcePaths.mem_of_get? hget)

/-- What a node's collection holds passes the check that putting it back makes. -/
theorem safe_localMediaSourcePaths
    (h : localMediaSourcePaths node = some paths) : safeMediaSourcePaths paths = some paths := by
  unfold localMediaSourcePaths at h
  split at h
  · cases h
  · rename_i assets _
    dsimp only at h
    split at h
    · cases h
    · rename_i hne
      cases h
      have hnil : ∀ e ∈ ([] : SourcePaths), SafeEntry e := by simp
      obtain ⟨hsafe, hlength⟩ := foldl_collect (assets.take maxMediaSourcePaths) hnil
      change ∀ e ∈ collectSourcePaths _, SafeEntry e at hsafe
      change (collectSourcePaths _).length ≤ _ at hlength
      have hshort : (collectSourcePaths (assets.take maxMediaSourcePaths)).length ≤
          maxMediaSourcePaths := by
        have := length_take_le maxMediaSourcePaths assets
        simp only [length_nil] at hlength
        omega
      have htake := take_of_length_le hshort
      have hfilter : (collectSourcePaths (assets.take maxMediaSourcePaths)).filter
          (fun e => safeMediaAssetId e.1 && safePathString e.2) =
          collectSourcePaths (assets.take maxMediaSourcePaths) := by
        rw [filter_eq_self]
        intro e he
        obtain ⟨h1, h2⟩ := hsafe e he
        simp [h1, h2]
      simp only [safeMediaSourcePaths, htake, hfilter, if_neg hne]

def sourcePathOf (node : CanvasNodeState) (assetId : String) : Option String :=
  (localMediaSourcePaths node).bind fun paths => paths.get? assetId

theorem sourcePathOf_eq (node : CanvasNodeState) (assetId : String) : sourcePathOf node assetId =
      (collectSourcePaths ((node.mediaAssets.getD []).take maxMediaSourcePaths)).get? assetId := by
  unfold sourcePathOf localMediaSourcePaths
  cases node.mediaAssets with
  | none => rfl
  | some =>
    dsimp only [Option.getD_some]
    split
    · rename_i h
      rw [h]; rfl
    · rfl

/-- When the path of every asset is given by its id, the loop collects that path for the ids it
meets. -/
theorem get?_foldl_collect {g : String → Option String}
    (hg : ∀ a p, g a = some p → SafeEntry (a, p)) (assets : List MediaAssetReference)
    (hassets : ∀ x ∈ assets, x.sourcePath = g x.assetId) (out : SourcePaths) (a : String) :
    (assets.foldl collectSourcePath out).get? a =
      if a ∈ assets.map (·.assetId) then (g a).or (out.get? a) else out.get? a := by
  induction assets generalizing out with
  | nil => simp
  | cons x xs ih =>
    rw [foldl_cons, ih (fun y hy => hassets y (by simp [hy]))]
    have hone : (collectSourcePath out x).get? a =
        if a = x.assetId then (g a).or (out.get? a) else out.get? a := by
      have hx := hassets x (by simp)
      unfold collectSourcePath
      cases hp : x.sourcePath with
      | none =>
        rw [hp] at hx
        by_cases ha : a = x.assetId
        · simp [ha, ← hx]
        · simp [ha]
      | some path =>
        rw [hp] at hx
        obtain ⟨hid, hpath⟩ := hg x.assetId path hx.symm
        have hsafe : (safeMediaAssetId x.assetId && safePathString path) = true := by
          rw [Bool.and_eq_true_iff]
          exact ⟨hid, hpath⟩
        dsimp only
        rw [if_pos hsafe, SourcePaths.get?_assign]
        by_cases ha : a = x.assetId
        · simp [ha, ← hx]
        · simp [ha]
    rw [hone]
    by_cases hx : a = x.assetId
    · cases hga : g a <;> by_cases hmem : a ∈ xs.map (·.assetId) <;> simp_all
    · simp [hx]

/-- The assets that a node lists within the bound of the loop. -/
def lists (node : CanvasNodeState) (assetId : String) : Prop :=
  assetId ∈ ((node.mediaAssets.getD []).take maxMediaSourcePaths).map (·.assetId)

theorem get?_collect_of_ne {x : MediaAssetReference}
    (h : a ≠ x.assetId) : (collectSourcePath out x).get? a = out.get? a := by
  unfold collectSourcePath
  cases x.sourcePath with
  | none => rfl
  | some =>
    dsimp only
    split
    · rw [SourcePaths.get?_assign, if_neg h]
    · rfl

theorem lists_of_sourcePathOf {a p : String} (h : sourcePathOf node a = some p) : lists node a := by
  have hfold : ∀ (xs : List MediaAssetReference) (out : SourcePaths), a ∉ xs.map (·.assetId) →
      (xs.foldl collectSourcePath out).get? a = out.get? a := by
    intro xs
    induction xs with
    | nil => exact fun _ _ => rfl
    | cons x xs ih =>
      intro out hmem
      rw [map_cons, mem_cons, not_or] at hmem
      rw [foldl_cons, ih _ hmem.2, get?_collect_of_ne hmem.1]
  by_contra hno
  rw [sourcePathOf_eq, collectSourcePaths, hfold _ _ hno] at h
  cases h

/-- Putting the paths of `paths` back on bare assets: every listed asset has its path again. -/
theorem sourcePathOf_restored
    (hsafe : ∀ a p, paths.get? a = some p → SafeEntry (a, p))
    {assets : List MediaAssetReference} (hnode : node.mediaAssets = some (assets.map fun x =>
      restoreSourcePath paths (stripSourcePath x))) (a : String) :
    sourcePathOf node a =
      if a ∈ (assets.take maxMediaSourcePaths).map (·.assetId) then paths.get? a else none := by
  have hid : ∀ x, (restoreSourcePath paths (stripSourcePath x)).assetId = x.assetId := by
    intro x
    unfold restoreSourcePath stripSourcePath
    split <;> rfl
  have hpath : ∀ x, (restoreSourcePath paths (stripSourcePath x)).sourcePath = paths.get? x.assetId := by
    intro x
    unfold restoreSourcePath stripSourcePath
    dsimp only
    cases paths.get? x.assetId <;> rfl
  rw [sourcePathOf_eq, hnode, Option.getD_some, ← map_take, collectSourcePaths, get?_foldl_collect hsafe]
  · have hids : ((assets.take maxMediaSourcePaths).map fun x =>
        restoreSourcePath paths (stripSourcePath x)).map (·.assetId) =
        (assets.take maxMediaSourcePaths).map (·.assetId) := by
      rw [map_map]
      exact map_congr_left fun x _ => hid x
    rw [hids]
    have hempty : SourcePaths.get? [] a = none := rfl
    rw [hempty, Option.or_none]
  · intro x hx
    obtain ⟨y, -, rfl⟩ := mem_map.mp hx
    rw [hpath, hid]

end NodeTerm.Node

/-! What the shared part of a node lacks. -/
namespace NodeTerm.Node

variable {profile : Option String}

def sshExec (n : CanvasNodeState) : Option String × Option Bool :=
  (n.ssh.bind (·.extraArgs), n.ssh.bind (·.execTrusted))

/-- No machine-local value but the default profile of this host. -/
structure NoLocal (profile : Option String) (n : CanvasNodeState) : Prop where
  shell : n.shell = none
  terminalProfileId : n.terminalProfileId = none ∨ n.terminalProfileId = nonEmpty profile
  namedTerminalProfileId : n.namedTerminalProfileId = none
  ssh : sshExec n = (none, none)
  launch : n.pendingLaunch = none
  service : n.serviceConnection = none
  openWebUi : n.openWebUiLocalBinding = none
  nextcloud : n.nextcloudManagedBinding = none
  aws : n.awsIdentityBinding = none
  nsis : n.nsisLocalPaths = none
  vm : n.virtualMachineLocalPaths = none
  file : n.kind.hasLocalFile = true → n.filePath = none
  sources : n.kind.isMedia = true → ∀ assetId, sourcePathOf n assetId = none

theorem sshExec_sharedPart (n : CanvasNodeState) : sshExec (sharedPart n) = (none, none) := by
  unfold sshExec sharedPart
  dsimp only
  cases n.ssh <;> rfl

theorem sourcePathOf_sharedPart {n : CanvasNodeState} (hmedia : n.kind.isMedia = true)
    (assetId : String) : sourcePathOf (sharedPart n) assetId = none := by
  have hassets : (sharedPart n).mediaAssets = n.mediaAssets.map (·.map stripSourcePath) :=
    if_pos hmedia
  rw [sourcePathOf_eq, hassets]
  cases n.mediaAssets with
  | none => rfl
  | some =>
    rw [Option.map_some, Option.getD_some, ← List.map_take, collectSourcePaths,
      get?_foldl_collect (g := fun _ => none) (by simp)]
    · simp [SourcePaths.get?]
    · intro x hx
      obtain ⟨y, -, rfl⟩ := List.mem_map.mp hx
      rfl

theorem sharedPart_noLocal (n : CanvasNodeState) : NoLocal profile (sharedPart n) where
  shell := rfl
  terminalProfileId := .inl rfl
  namedTerminalProfileId := rfl
  ssh := sshExec_sharedPart n
  launch := rfl
  service := rfl
  openWebUi := rfl
  nextcloud := rfl
  aws := rfl
  nsis := rfl
  vm := rfl
  file hlocal := if_pos hlocal
  sources hmedia := sourcePathOf_sharedPart hmedia

end NodeTerm.Node
