import NodeTerm.Canvas.LocalExec

/-! Inbound mutations against machine-local fields: what a node of ours keeps in a whole run, what a
node that a peer brought in lacks, and that the peers' values of these fields make no difference. -/
namespace NodeTerm.Canvas
open Node Base List

variable {W : Web} {profile : Option String}

theorem accept_noLocal (n : CanvasNodeState) : NoLocal profile (acceptNewInboundNode n profile) := by
  have hclean : NoLocal profile (sharedPart n) := sharedPart_noLocal n
  unfold acceptNewInboundNode sanitizeInboundNode
  rw [stripNodeExec_eq]
  dsimp only
  cases hprofile : nonEmpty profile with
  | none => exact hclean
  | some =>
    dsimp only
    split
    · exact hclean
    · exact { hclean with terminalProfileId := .inr hprofile.symm }

theorem upserted_none_noLocal (node : CanvasNodeState) : NoLocal profile (upserted W profile node none) := by
  unfold upserted
  dsimp only
  split
  · exact { accept_noLocal node with }
  · exact accept_noLocal node

theorem upserted_none_kind (node : CanvasNodeState) : (upserted W profile node none).kind = node.kind := by
  have hkind : (acceptNewInboundNode node profile).kind = node.kind := by
    unfold acceptNewInboundNode
    dsimp only
    split
    · simp
    · split <;> simp
  unfold upserted
  dsimp only
  split <;> exact hkind

theorem carried_kind (prev node : CanvasNodeState) : (carried W prev (sharedPart node)).kind = node.kind := by
  unfold carried
  rw [restoreMediaPaths_eq]
  rfl

theorem carry_noLocal {prev node : CanvasNodeState} (h : NoLocal profile prev)
    (hkind : node.kind = prev.kind) : NoLocal profile (carried W prev (sharedPart node)) where
  shell := by
    unfold carried
    rw [restoreMediaPaths_eq, h.shell]
    rfl
  terminalProfileId := by
    unfold carried
    rw [restoreMediaPaths_eq]
    change prev.terminalProfileId.or none = none ∨ prev.terminalProfileId.or none = nonEmpty profile
    rw [Option.or_none]
    exact h.terminalProfileId
  namedTerminalProfileId := by
    unfold carried
    rw [restoreMediaPaths_eq, h.namedTerminalProfileId]
    rfl
  ssh := by
    have hargs : prev.ssh.bind (·.extraArgs) = none := congrArg Prod.fst h.ssh
    unfold sshExec
    rw [carried_ssh, hargs]
    cases node.ssh <;> rfl
  launch := by
    unfold carried carriedPendingLaunch
    rw [restoreMediaPaths_eq, h.launch]
    dsimp only
    split <;> rfl
  service := by
    unfold carried
    rw [restoreMediaPaths_eq]
    rfl
  openWebUi := by
    unfold carried carriedOpenWebUi
    rw [restoreMediaPaths_eq, h.openWebUi]
    simp [sharedPart]
  nextcloud := by
    unfold carried carriedNextcloud
    rw [restoreMediaPaths_eq, h.nextcloud]
    dsimp only
    split <;> rfl
  aws := by
    unfold carried
    rw [restoreMediaPaths_eq, h.aws]
    rfl
  nsis := by
    unfold carried
    rw [restoreMediaPaths_eq, h.nsis]
    rfl
  vm := by
    unfold carried
    rw [restoreMediaPaths_eq, h.vm]
    rfl
  file hlocal := by
    rw [carried_kind] at hlocal
    have hprev : prev.filePath = none := h.file (by rw [← hkind]; exact hlocal)
    unfold carried
    rw [restoreMediaPaths_eq, hprev]
    simp [sharedPart, hlocal]
  sources hmedia assetId := by
    rw [carried_kind] at hmedia
    have hprev : sourcePathOf prev assetId = none := h.sources (by rw [← hkind]; exact hmedia) assetId
    rw [carry_sourcePathOf hmedia (.inr hprev)]
    exact hprev

/-- Two mutations that differ at most in the machine-local fields of a payload. -/
inductive SameShared : CanvasOp → CanvasOp → Prop where
  | refl (op : CanvasOp) : SameShared op op
  | upsert {node node' : CanvasNodeState} (h : sharedPart node = sharedPart node') :
      SameShared (.upsert node) (.upsert node')

theorem applyUpsert_congr (states : List CanvasNodeState) {node node' : CanvasNodeState}
    (h : sharedPart node = sharedPart node') :
    applyUpsert W profile states node = applyUpsert W profile states node' := by
  have hid : node.id = node'.id := congrArg (·.id) h
  have hkind : node.kind = node'.kind := congrArg (·.kind) h
  have hevent : node.creationEventId = node'.creationEventId := congrArg (·.creationEventId) h
  have hclean : sanitizeInboundNode node = sanitizeInboundNode node' := by
    rw [sanitizeInboundNode, sanitizeInboundNode, stripNodeExec_eq, stripNodeExec_eq, h]
  unfold applyUpsert creationEventKnown acceptNewInboundNode
  rw [hid, hkind, hevent, hclean]

theorem apply_congr (states : List CanvasNodeState) {op op' : CanvasOp} (h : SameShared op op') :
    applyCanvasMutation W profile states op = applyCanvasMutation W profile states op' := by
  cases h with
  | refl => rfl
  | upsert h => exact applyUpsert_congr states h

theorem run_congr {ops ops' : List CanvasOp} (h : Forall₂ SameShared ops ops') (states : List CanvasNodeState) :
    applyAll W profile states ops = applyAll W profile states ops' := by
  induction h generalizing states with
  | nil => rfl
  | cons hop _ ih =>
    unfold applyAll at *
    rw [foldl_cons, foldl_cons, apply_congr states hop]
    exact ih _

section Runs
variable {id : String} {ops : List CanvasOp} {states : List CanvasNodeState} {n : CanvasNodeState}

def KindIs (kind : NodeKind) (id : String) (ops : List CanvasOp) : Prop :=
  ∀ node, .upsert node ∈ ops → node.id = id → node.kind = kind

section
variable (hn : nodeAt id states = some n)
include hn

theorem run_kindFree (hvalid : ValidFree W n) (hstays : Stays W profile states ops id) :
    ∃ n', nodeAt id (applyAll W profile states ops) = some n' ∧ KindFree n n' := by
  have hrun := run_kept (P := fun m => ValidFree W m ∧ KindFree n m) hn
    ⟨hvalid, by constructor <;> simp⟩ hstays
    fun prev node hprev _ _ =>
      ⟨carry_validFree hprev.1 node, hprev.2.trans (carry_kindFree hprev.1 node)⟩
  obtain ⟨n', hn', -, hfree⟩ := hrun
  exact ⟨n', hn', hfree⟩

theorem run_sshExec (hvalid : ValidFree W n) (hstays : Stays W profile states ops id)
    (hssh : sshExec n = (none, none) ∨ ∀ node, .upsert node ∈ ops → node.id = id → node.ssh.isSome = true) :
    ∃ n', nodeAt id (applyAll W profile states ops) = some n' ∧ sshExec n' = sshExec n := by
  have hrun := run_kept (P := fun m => ValidFree W m ∧ sshExec m = sshExec n) hn ⟨hvalid, rfl⟩ hstays
    fun prev node hprev hmem hid => by
      refine ⟨carry_validFree hprev.1 node, ?_⟩
      rw [carry_sshExec hprev.1 ?_]
      · exact hprev.2
      · rcases hssh with hnone | hpayload
        · exact .inr (hprev.2.trans hnone)
        · exact .inl (hpayload node hmem hid)
  obtain ⟨n', hn', -, hexec⟩ := hrun
  exact ⟨n', hn', hexec⟩

theorem run_kindBound (hvalid : ValidBound n)
    (hstays : Stays W profile states ops id) (hkind : KindIs n.kind id ops) :
    ∃ n', nodeAt id (applyAll W profile states ops) = some n' ∧ KindBound n n' := by
  have hrun := run_kept (P := fun m => ValidBound m ∧ KindBound n m) hn
    ⟨hvalid, by constructor <;> simp⟩ hstays
    fun prev node hprev hmem hid => by
      have hsame : node.kind = prev.kind := (hkind node hmem hid).trans hprev.2.kind.symm
      have hstep : KindBound prev (carried W prev (sharedPart node)) := carry_kindBound hprev.1 hsame
      exact ⟨hprev.1.of_kindBound hstep, hprev.2.trans hstep⟩
  obtain ⟨n', hn', -, hbound⟩ := hrun
  exact ⟨n', hn', hbound⟩

theorem run_sourcePathOf (hmedia : n.kind.isMedia = true)
    (hstays : Stays W profile states ops id) (hkind : KindIs n.kind id ops) {assetId : String}
    (hlists : ∀ node, .upsert node ∈ ops → node.id = id → lists node assetId) :
    ∃ n', nodeAt id (applyAll W profile states ops) = some n' ∧ sourcePathOf n' assetId = sourcePathOf n assetId := by
  apply run_kept (P := fun m => sourcePathOf m assetId = sourcePathOf n assetId) hn rfl hstays
  intro prev node hprev hmem hid
  have hnode : node.kind.isMedia = true := by
    rw [hkind node hmem hid]
    exact hmedia
  rw [carry_sourcePathOf hnode (.inl (hlists node hmem hid))]
  exact hprev

end

theorem run_noLocal (habsent : nodeAt id states = none) {kind : NodeKind} (hkind : KindIs kind id ops) :
    ∀ n', nodeAt id (applyAll W profile states ops) = some n' → NoLocal profile n' := by
  have hrun : ∀ n', nodeAt id (applyAll W profile states ops) = some n' → n'.kind = kind ∧ NoLocal profile n' := by
    apply run_introduced
    · intro m hm
      rw [habsent] at hm
      cases hm
    · intro node hmem hid
      exact ⟨(upserted_none_kind node).trans (hkind node hmem hid), upserted_none_noLocal node⟩
    · intro prev node hprev hmem hid
      have hnode := hkind node hmem hid
      exact ⟨(carried_kind prev node).trans hnode, carry_noLocal hprev.2 (hnode.trans hprev.1.symm)⟩
  exact fun n' hn' => (hrun n' hn').2

end Runs

/-- Peers cannot touch the machine-local fields. A node that stands throughout keeps the fields of any
kind, the arguments of a connection that the payloads do not drop, and, when no payload changes
its kind, the fields of its kind. A node that was not there has no machine-local value. The peers'
own values of these fields make no difference. -/
theorem local_exec_untouched (W : Web) (profile : Option String) (states : List CanvasNodeState)
    (ops : List CanvasOp) (id : String) :
    (∀ n, nodeAt id states = some n → Stays W profile states ops id →
      ∃ n', nodeAt id (applyAll W profile states ops) = some n' ∧ (ValidFree W n → KindFree n n') ∧
        (ValidFree W n → (sshExec n = (none, none) ∨
            ∀ node, .upsert node ∈ ops → node.id = id → node.ssh.isSome = true) →
          sshExec n' = sshExec n) ∧
        (KindIs n.kind id ops → (ValidBound n → KindBound n n') ∧ (n.kind.isMedia = true → ∀ assetId,
            (∀ node, .upsert node ∈ ops → node.id = id → lists node assetId) →
            sourcePathOf n' assetId = sourcePathOf n assetId))) ∧
    (∀ kind, nodeAt id states = none → KindIs kind id ops →
      ∀ n', nodeAt id (applyAll W profile states ops) = some n' → NoLocal profile n') ∧
    ∀ ops', Forall₂ SameShared ops ops' → applyAll W profile states ops = applyAll W profile states ops' := by
  refine ⟨?kept, fun kind habsent hkind => run_noLocal habsent hkind, fun ops' h => run_congr h states⟩
  intro n hn hstays
  obtain ⟨n', hn'⟩ := Option.isSome_iff_exists.mp (hstays ops (prefix_refl ops))
  have hsame : ∀ {Q : CanvasNodeState → Prop},
      (∃ m, nodeAt id (applyAll W profile states ops) = some m ∧ Q m) → Q n' := by
    rintro Q ⟨m, hm, hQ⟩
    rw [hn', Option.some.injEq] at hm
    rw [hm]
    exact hQ
  refine ⟨n', hn', ?free, ?ssh, ?bound⟩
  case free => exact fun hvalid => hsame (run_kindFree hn hvalid hstays)
  case ssh => exact fun hvalid hssh => hsame (run_sshExec hn hvalid hstays hssh)
  case bound =>
    intro hkind
    constructor
    · exact fun hvalid => hsame (run_kindBound hn hvalid hstays hkind)
    · exact fun hmedia assetId hlists => hsame (run_sourcePathOf hn hmedia hstays hkind hlists)

/-! A terminal of ours that a peer drags, and one that a peer turns into a note. -/

def noWeb : Web := ⟨fun _ => none, fun _ => false⟩

def heldTerminal : CanvasNodeState :=
  { id := "t", kind := .terminal, shell := some "/bin/zsh"
    ssh := some { host := "h", user := "u", extraArgs := some "-A", execTrusted := some true }
    pendingLaunch := some
      { after := ["s"], launchId := "3f2b8c1e-5d6a-4b7c-8d9e-0f1a2b3c4d5e"
        launch := .shellCommand "make" } }

def hostileDrag : List CanvasOp :=
  [.upsert
    { id := "t", kind := .terminal, title := "moved", shell := some "/tmp/x"
      ssh := some { host := "h", user := "u", extraArgs := some "-o ProxyCommand=x" } },
   .upsert { id := "p", kind := .terminal, shell := some "/tmp/x" }]

def plainDrag : List CanvasOp :=
  [.upsert
    { id := "t", kind := .terminal, title := "moved", ssh := some { host := "h", user := "u" } },
   .upsert { id := "p", kind := .terminal }]

theorem heldTerminal_validFree : ValidFree noWeb heldTerminal where
  nsis v hv := by cases hv
  vm v hv := by cases hv
  aws v hv := by cases hv
  ssh h := by cases h

theorem heldTerminal_validBound : ValidBound heldTerminal where
  launch v hv := by
    cases hv
    decide
  openWebUi v hv := by cases hv
  nextcloud v hv := by cases hv
  file v hlocal := by cases hlocal

theorem local_exec_untouched_drag : (∃ n', nodeAt "t" (applyAll noWeb none [heldTerminal] hostileDrag) = some n' ∧
      KindFree heldTerminal n' ∧ sshExec n' = sshExec heldTerminal ∧ KindBound heldTerminal n') ∧
    (∀ n', nodeAt "p" (applyAll noWeb none [heldTerminal] hostileDrag) = some n' → NoLocal none n') ∧
    applyAll noWeb none [heldTerminal] hostileDrag =
      applyAll noWeb none [heldTerminal] plainDrag := by
  have hstays : Stays noWeb none [heldTerminal] hostileDrag "t" := by
    intro seen hseen
    simp only [hostileDrag, prefix_cons_iff, prefix_nil] at hseen
    rcases hseen with rfl | ⟨t, rfl, rfl | ⟨t', rfl, rfl⟩⟩ <;> decide
  have hpayload : ∀ node, .upsert node ∈ hostileDrag →
      node.kind = .terminal ∧ (node.id = "t" → node.ssh.isSome = true) := by
    intro node hmem
    simp only [hostileDrag, mem_cons, not_mem_nil, CanvasOp.upsert.injEq] at hmem
    rcases hmem with rfl | rfl | h
    · decide
    · decide
    · exact h.elim
  have hkind : ∀ id, KindIs .terminal id hostileDrag := fun id node hmem _ => (hpayload node hmem).1
  obtain ⟨n', hn', hfree, hexec, hbound⟩ :=
    (local_exec_untouched noWeb none [heldTerminal] hostileDrag "t").1 heldTerminal rfl hstays
  obtain ⟨-, hnew, hcongr⟩ := local_exec_untouched noWeb none [heldTerminal] hostileDrag "p"
  refine ⟨⟨n', hn', hfree heldTerminal_validFree, ?ssh, ?bound⟩, hnew .terminal rfl (hkind "p"), ?same⟩
  case ssh => exact hexec heldTerminal_validFree (.inr fun node hmem => (hpayload node hmem).2)
  case bound => exact (hbound (hkind "t")).1 heldTerminal_validBound
  case same => exact hcongr plainDrag (.cons (.upsert rfl) (.cons (.upsert rfl) .nil))

theorem kind_change_drops_launch : ValidBound heldTerminal ∧
    ∃ n', nodeAt "t" (applyAll noWeb none [heldTerminal] [.upsert { id := "t", kind := .sticky }]) =
        some n' ∧
      n'.pendingLaunch ≠ heldTerminal.pendingLaunch :=
  ⟨heldTerminal_validBound, _, rfl, by decide⟩

end NodeTerm.Canvas
