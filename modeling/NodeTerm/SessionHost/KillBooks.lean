import NodeTerm.SessionHost.KillOperations

/-! What the maps of the host say of one another: names have generations of their own, what has been
removed or remembered does not come back, and what waits does so for a generation on its way out. -/
namespace NodeTerm.SessionHost
open Base Function List Option

namespace KillHost

structure Books (s : KillHost) : Prop where
  registered : ∀ name g, s.sessions name = some g → g ∈ s.knownGenerations ∧ (s.generation g).name = name
  gone : ∀ g, (s.generation g).ending = .fulfilled ∨ (∃ owned, (s.generation g).publication = .removed owned) →
    ∀ name, s.sessions name ≠ some g
  completed : ∀ r ∈ s.completed, r.operationId ∈ s.knownIds ∧
    ∀ e, r.expectedGeneration = some e → e ∈ s.knownGenerations ∧ s.sessions r.name ≠ some e
  waiting : ∀ r g, (r, g) ∈ s.waiting → r.operationId ∈ s.knownIds ∧ g ∈ s.knownGenerations ∧
    (s.generation g).live = false ∧
    ∀ e, r.expectedGeneration = some e → e ∈ s.knownGenerations ∧ (s.sessions r.name = some e → e = g)
  operations : ∀ n op, s.operation n = some op → n < s.operations ∧
    op.request.operationId ∈ s.knownIds ∧ op.request.expectedGeneration = some op.session ∧
    op.session ∈ s.knownGenerations ∧ (s.generation op.session).name = op.request.name
  owned : ∀ g n, (s.generation g).publication = .settling (some n) ∨
    (s.generation g).publication = .published (some n) ∨
    (s.generation g).publication = .removed (some n) →
    ∃ op, s.operation n = some op ∧ op.session = g
  signalled : ∀ r g, (r, g) ∈ s.signals → r.expectedGeneration = some g
  reservations : KeysNodup Reservation.name s.replacementReservations

section Steps
variable {s t : KillHost} {r : KillRequest} {g n : ℕ} {name : String}

/-- The steps that concern what is remembered and reserved. -/
structure Quiet (s t : KillHost) : Prop where
  sessions : t.sessions = s.sessions
  generation : t.generation = s.generation
  ending : t.ending = s.ending
  operation : t.operation = s.operation
  operations : t.operations = s.operations
  waiting : t.waiting = s.waiting
  knownGenerations : t.knownGenerations = s.knownGenerations
  knownIds : t.knownIds = s.knownIds
  signals : t.signals = s.signals
  completed : t.completed = s.completed
  reservations : KeysNodup Reservation.name s.replacementReservations →
    KeysNodup Reservation.name t.replacementReservations

theorem Quiet.refl (s : KillHost) : Quiet s s :=
  ⟨rfl, rfl, rfl, rfl, rfl, rfl, rfl, rfl, rfl, rfl, id⟩

theorem Quiet.trans {u : KillHost} (h : Quiet s t) (h' : Quiet t u) : Quiet s u where
  sessions := h'.sessions.trans h.sessions
  generation := h'.generation.trans h.generation
  ending := h'.ending.trans h.ending
  operation := h'.operation.trans h.operation
  operations := h'.operations.trans h.operations
  waiting := h'.waiting.trans h.waiting
  knownGenerations := h'.knownGenerations.trans h.knownGenerations
  knownIds := h'.knownIds.trans h.knownIds
  signals := h'.signals.trans h.signals
  completed := h'.completed.trans h.completed
  reservations := fun hnodup => h'.reservations (h.reservations hnodup)

theorem Books.quiet (h : Books s) (hquiet : Quiet s t) : Books t := by
  obtain ⟨h1, h2, h3, h4, h5, h6, h7, h8, h9, h10, hreservations⟩ := hquiet
  constructor
  case registered =>
    rw [h1, h2, h7]
    exact h.registered
  case gone =>
    rw [h1, h2]
    exact h.gone
  case completed =>
    rw [h1, h7, h8, h10]
    exact h.completed
  case waiting =>
    rw [h1, h2, h6, h7, h8]
    exact h.waiting
  case operations =>
    rw [h2, h4, h5, h7, h8]
    exact h.operations
  case owned =>
    rw [h2, h4]
    exact h.owned
  case signalled =>
    rw [h9]
    exact h.signalled
  case reservations => exact hreservations h.reservations

theorem quiet_pruneCompletedKills (s : KillHost) : Quiet s s.pruneCompletedKills := by
  unfold pruneCompletedKills
  exact ⟨rfl, rfl, rfl, rfl, rfl, rfl, rfl, rfl, rfl, rfl, fun h => h⟩

theorem quiet_dropExpired (s : KillHost) (name : String) : Quiet s (s.dropExpired name) := by
  unfold dropExpired
  split
  · split
    · exact ⟨rfl, rfl, rfl, rfl, rfl, rfl, rfl, rfl, rfl, rfl, fun h => h.filter _⟩
    · exact Quiet.refl s
  · exact Quiet.refl s

theorem quiet_setReplacementReservation (s : KillHost) (name token : String) :
    Quiet s (s.setReplacementReservation name token) :=
  ⟨rfl, rfl, rfl, rfl, rfl, rfl, rfl, rfl, rfl, rfl, fun h => h.put _⟩

theorem Books.rememberCompletedKill (h : Books s) (hid : r.operationId ∈ s.knownIds)
    (hgone : ∀ e, r.expectedGeneration = some e → e ∈ s.knownGenerations ∧ s.sessions r.name ≠ some e) :
    Books (s.rememberCompletedKill r) := by
  unfold KillHost.rememberCompletedKill
  dsimp only
  refine Books.quiet ?_ (quiet_pruneCompletedKills _)
  refine { h with completed := ?completed }
  case completed =>
    intro r' hr'
    rcases mem_concat.mp hr' with hr' | rfl
    · exact h.completed r' hr'
    · exact ⟨hid, hgone⟩

/-- A generation goes on towards its end under the name that it has. -/
theorem Books.setGeneration (h : Books s) {d : HostGeneration} (hname : d.name = (s.generation g).name)
    (hlive : (s.generation g).live = false → d.live = false)
    (hgone : d.ending = .fulfilled ∨ (∃ owned, d.publication = .removed owned) → ∀ name, s.sessions name ≠ some g)
    (howned : ∀ n, d.publication = .settling (some n) ∨ d.publication = .published (some n) ∨
      d.publication = .removed (some n) → ∃ op, s.operation n = some op ∧ op.session = g) :
    Books (s.setGeneration g d) := by
  have hnames : ∀ g', (update s.generation g d g').name = (s.generation g').name := by
    intro g'
    rw [update_apply]
    split
    · rename_i heq
      rw [heq, hname]
    · rfl
  constructor
  case registered =>
    intro name g' hg'
    obtain ⟨hknown, heq⟩ := h.registered name g' hg'
    exact ⟨hknown, (hnames g').trans heq⟩
  case gone =>
    intro g' hg' name
    change (update s.generation g d g').ending = _ ∨ (∃ owned, (update s.generation g d g').publication = _) at hg'
    rw [update_apply] at hg'
    split at hg'
    · rename_i heq
      rw [heq]
      exact hgone hg' name
    · exact h.gone g' hg' name
  case completed => exact h.completed
  case waiting =>
    intro r' g' hr'
    obtain ⟨hid, hknown, hdead, hexpects⟩ := h.waiting r' g' hr'
    refine ⟨hid, hknown, ?_, hexpects⟩
    change (update s.generation g d g').live = false
    rw [update_apply]
    split
    · rename_i heq
      rw [heq] at hdead
      exact hlive hdead
    · exact hdead
  case operations =>
    intro n op hop
    obtain ⟨hlt, hid, hexpects, hknown, heq⟩ := h.operations n op hop
    exact ⟨hlt, hid, hexpects, hknown, (hnames op.session).trans heq⟩
  case owned =>
    intro g' n hg'
    change (update s.generation g d g').publication = _ ∨ (update s.generation g d g').publication = _ ∨
      (update s.generation g d g').publication = _ at hg'
    rw [update_apply] at hg'
    split at hg'
    · rename_i heq
      rw [heq]
      exact howned n hg'
    · exact h.owned g' n hg'
  case signalled => exact h.signalled
  case reservations => exact h.reservations

theorem Books.beginKillRetirement (h : Books s) (g : ℕ) : Books (s.beginKillRetirement g) := by
  unfold KillHost.beginKillRetirement
  split
  · refine h.setGeneration (d := { s.generation g with retiring := true, ending := .pending }) rfl ?_ ?_ ?_
    · intro _
      simp [HostGeneration.live]
    · rintro (hending | hremoved)
      · cases hending
      · exact h.gone g (.inr hremoved)
    · exact h.owned g
  · exact h

/-- The operations and the claimed names change; the requests of the operations do not. -/
theorem Books.withOperation (h : Books s) {op : EndingOperation} (op' : EndingOperation) (hop : s.operation n = some op)
    (hsession : op'.session = op.session) (hrequest : op'.request = op.request)
    (ending : String → Option ℕ) (ids : List InProgressKill) :
    Books { s with
      ending := ending
      inProgressKillIds := ids
      operation := update s.operation n (some op') } := by
  refine { h with operations := ?operations, owned := ?owned }
  case operations =>
    intro m op'' hop''
    change update s.operation n (some op') m = some op'' at hop''
    rw [update_apply] at hop''
    split at hop''
    · rename_i heq
      obtain rfl := Option.some.inj hop''
      rw [heq, hsession, hrequest]
      exact h.operations n op hop
    · exact h.operations m op'' hop''
  case owned =>
    intro g' m hg'
    obtain ⟨op'', hop'', hsame⟩ := h.owned g' m hg'
    dsimp only
    rw [update_apply]
    split
    · rename_i heq
      rw [heq, hop] at hop''
      obtain rfl := Option.some.inj hop''
      exact ⟨op', rfl, hsession.trans hsame⟩
    · exact ⟨op'', hop'', hsame⟩

theorem Books.failOperation (h : Books s) (n : ℕ) (error : String) : Books (s.failOperation n error) := by
  unfold KillHost.failOperation
  split
  · exact h
  · rename_i op hop
    split
    · exact h
    · exact h.withOperation { op with outcome := op.outcome.or (some (.threw error)) } hop
        rfl rfl _ _

theorem Books.withEnding (h : Books s) (ending : String → Option ℕ) : Books { s with ending := ending } :=
  ⟨h.registered, h.gone, h.completed, h.waiting, h.operations, h.owned, h.signalled, h.reservations⟩

theorem Books.acknowledge (h : Books s) {op : EndingOperation} (hop : s.operation n = some op)
    (hsession : op.session = g) (hgone : ∀ name, s.sessions name ≠ some g) :
    Books (s.acknowledge g n) := by
  obtain ⟨_, hid, hexpects, hknown, _⟩ := h.operations n op hop
  unfold KillHost.acknowledge
  rw [hop]
  dsimp only
  have hdone := (h.withEnding (if s.ending (s.generation g).name = some n then
      update s.ending (s.generation g).name none else s.ending)).rememberCompletedKill
    (r := { op.request with name := (s.generation g).name }) hid (by
      intro e he
      change op.request.expectedGeneration = some e at he
      rw [hexpects] at he
      cases he
      subst hsession
      exact ⟨hknown, hgone _⟩)
  exact hdone.withOperation { op with outcome := op.outcome.or (some (.returned
    (if op.request.reserveReplacement then some op.request.operationId else none))) } hop rfl rfl _ _

theorem quiet_reserveOwned (s : KillHost) (g : ℕ) (owned : Option ℕ) : Quiet s (s.reserveOwned g owned) := by
  unfold reserveOwned
  split
  · exact Quiet.refl s
  · split
    · exact quiet_setReplacementReservation ..
    · exact Quiet.refl s

/-- A kill is called for the generation that its request expects and the name has. -/
theorem Books.signal (h : Books s) (hid : r.operationId ∈ s.knownIds)
    (hexpects : r.expectedGeneration = some g) (hcurrent : s.sessions r.name = some g)
    (killThrows : Bool) : Books (s.signal r g killThrows) := by
  obtain ⟨hknown, hname⟩ := h.registered r.name g hcurrent
  have hcalled : Books { s with
      operations := s.operations + 1
      operation := update s.operation s.operations (some { session := g, request := r })
      ending := update s.ending r.name (some s.operations)
      inProgressKillIds := put InProgressKill.operationId
        { operationId := r.operationId, name := r.name, operation := s.operations }
        s.inProgressKillIds
      signals := s.signals ++ [(r, g)] } := by
    refine { h with operations := ?operations, owned := ?owned, signalled := ?signalled }
    case operations =>
      intro m op hop
      change update s.operation s.operations _ m = some op at hop
      rw [update_apply] at hop
      split at hop
      · rename_i heq
        cases hop
        refine ⟨?_, hid, hexpects, hknown, hname⟩
        dsimp only
        omega
      · obtain ⟨hlt, hrest⟩ := h.operations m op hop
        exact ⟨Nat.lt_succ_of_lt hlt, hrest⟩
    case owned =>
      intro g' m hg'
      obtain ⟨op, hop, hsame⟩ := h.owned g' m hg'
      refine ⟨op, ?_, hsame⟩
      have hlt := (h.operations m op hop).1
      dsimp only
      rw [update_of_ne (Nat.ne_of_lt hlt)]
      exact hop
    case signalled =>
      intro r' g' hmem
      rcases mem_concat.mp hmem with hmem | hmem
      · exact h.signalled r' g' hmem
      · obtain ⟨rfl, rfl⟩ := Prod.mk.inj hmem
        exact hexpects
  unfold KillHost.signal
  dsimp only
  split
  · exact hcalled
  · split
    · exact hcalled.failOperation ..
    · exact hcalled.beginKillRetirement g

/-- The target of a request, when the name has it, is live: an absent or exited one is not it. -/
theorem Books.killCurrent (h : Books s) (hid : r.operationId ∈ s.knownIds)
    (hknown : ∀ e, r.expectedGeneration = some e → e ∈ s.knownGenerations)
    (hlive : ∀ e, r.expectedGeneration = some e → s.sessions r.name = some e →
      (s.generation e).live = true) (killThrows : Bool) :
    Books (s.killCurrent r killThrows).1 := by
  unfold KillHost.killCurrent
  split
  · rename_i hnone
    have habsent : ∀ e, r.expectedGeneration = some e → s.sessions r.name ≠ some e := by
      intro e he hcurrent
      have hexited := filter_eq_none_iff.mp hnone e hcurrent
      have hup := hlive e he hcurrent
      unfold HostGeneration.live at hup
      exact hexited (Bool.and_eq_true_iff.mp hup).1
    have hdropped := quiet_dropExpired s r.name
    dsimp only
    split
    · exact h.quiet hdropped
    · have hset : Quiet s (if r.reserveReplacement then
          (s.dropExpired r.name).setReplacementReservation r.name r.operationId
          else s.dropExpired r.name) := by
        split
        · exact hdropped.trans (quiet_setReplacementReservation ..)
        · exact hdropped
      apply (h.quiet hset).rememberCompletedKill
      · rw [hset.knownIds]
        exact hid
      · rw [hset.knownGenerations, hset.sessions]
        exact fun e he => ⟨hknown e he, habsent e he⟩
  · rename_i g hg
    have hcurrent := (filter_eq_some_iff.mp hg).1
    split
    · rename_i hexpects
      split
      · exact h
      · apply h.rememberCompletedKill hid
        intro e he
        rw [hexpects] at he
        cases he
    · rename_i expected hexpects
      split
      · rename_i hne
        split
        · exact h
        · apply h.rememberCompletedKill hid
          intro e he
          refine ⟨hknown e he, fun hsame => hne ?_⟩
          rw [hexpects] at he
          rw [Option.some.inj he]
          exact Option.some.inj (hsame.symm.trans hcurrent)
      · rename_i heq
        rw [not_not.mp heq] at hexpects
        exact h.signal hid hexpects hcurrent killThrows

theorem quiet_retryCompleted (s : KillHost) (r : KillRequest) (completed : CompletedKill) :
    Quiet s (s.retryCompleted r completed).1 := by
  unfold retryCompleted
  split
  · exact Quiet.refl s
  split
  · exact Quiet.refl s
  split
  · exact Quiet.refl s
  split
  · exact Quiet.refl s
  split
  · exact Quiet.refl s
  dsimp only
  split
  · exact quiet_dropExpired ..
  · exact (quiet_dropExpired ..).trans (quiet_setReplacementReservation ..)

section
variable (h : Books s)
include h

theorem Books.handleKill (hid : r.operationId ∈ s.knownIds)
    (hknown : ∀ e, r.expectedGeneration = some e → e ∈ s.knownGenerations) (killThrows : Bool) :
    Books (s.handleKill r killThrows).1 := by
  have hpruned := quiet_pruneCompletedKills s
  unfold KillHost.handleKill
  split
  · exact h
  dsimp only
  generalize s.pruneCompletedKills = t at hpruned
  split
  · exact h.quiet (hpruned.trans (quiet_retryCompleted ..))
  split
  · exact h.quiet hpruned
  split
  · exact h.quiet hpruned
  have ht := h.quiet hpruned
  rw [← hpruned.knownIds] at hid
  rw [← hpruned.knownGenerations] at hknown
  split
  · rename_i hnone
    apply ht.killCurrent hid hknown
    intro e _ hcurrent
    rw [hnone] at hcurrent
    cases hcurrent
  · rename_i g hg
    split
    · rename_i hup
      apply ht.killCurrent hid hknown
      intro e _ hcurrent
      rw [hg] at hcurrent
      cases hcurrent
      exact hup
    · rename_i hdown
      split
      · exact ht
      · refine ⟨ht.registered, ht.gone, ht.completed, ?_, ht.operations, ht.owned, ht.signalled, ht.reservations⟩
        intro r' g' hmem
        rcases mem_concat.mp hmem with hmem | hmem
        · exact ht.waiting r' g' hmem
        · obtain ⟨rfl, rfl⟩ := Prod.mk.inj hmem
          refine ⟨hid, (ht.registered _ _ hg).1, Bool.eq_false_iff.mpr hdown, fun e he => ⟨hknown e he, ?_⟩⟩
          intro hcurrent
          exact Option.some.inj (hcurrent.symm.trans hg)

theorem Books.resumeKill {killThrows : Bool} {p : KillHost × KillAnswer}
    (hstep : s.resumeKill r g killThrows = some p) : Books p.1 := by
  obtain ⟨hwaits, hstep⟩ := ite_none_right_eq_some.mp hstep
  obtain ⟨hid, _, _, hexpects⟩ := h.waiting r g hwaits
  have hleft : Books { s with waiting := s.waiting.erase (r, g) } :=
    ⟨h.registered, h.gone, h.completed, fun r' g' hmem => h.waiting r' g' (mem_of_mem_erase hmem),
      h.operations, h.owned, h.signalled, h.reservations⟩
  dsimp only at hstep
  split at hstep
  · rename_i hended
    cases hstep
    apply hleft.killCurrent hid
    · exact fun e he => (hexpects e he).1
    · intro e he hcurrent
      obtain rfl := (hexpects e he).2 hcurrent
      exact absurd hcurrent (h.gone e (.inl hended) r.name)
  · cases hstep
    exact hleft
  · cases hstep

theorem Books.known (ids : List String) (generations : List ℕ)
    (hids : ∀ x ∈ s.knownIds, x ∈ ids) (hgenerations : ∀ x ∈ s.knownGenerations, x ∈ generations) :
    Books { s with knownIds := ids, knownGenerations := generations } := by
  constructor
  case registered =>
    exact fun name g hg => ⟨hgenerations g (h.registered name g hg).1, (h.registered name g hg).2⟩
  case gone => exact h.gone
  case completed =>
    intro r hr
    obtain ⟨hid, hrest⟩ := h.completed r hr
    exact ⟨hids _ hid, fun e he => ⟨hgenerations e (hrest e he).1, (hrest e he).2⟩⟩
  case waiting =>
    intro r g hr
    obtain ⟨hid, hknown, hdown, hrest⟩ := h.waiting r g hr
    exact ⟨hids _ hid, hgenerations g hknown, hdown, fun e he => ⟨hgenerations e (hrest e he).1, (hrest e he).2⟩⟩
  case operations =>
    intro n op hop
    obtain ⟨hlt, hid, hexpects, hknown, hname⟩ := h.operations n op hop
    exact ⟨hlt, hids _ hid, hexpects, hgenerations _ hknown, hname⟩
  case owned => exact h.owned
  case signalled => exact h.signalled
  case reservations => exact h.reservations

theorem Books.dispatchKill (frame : KillFrame) (randomId : String) (killThrows : Bool) :
    Books (s.dispatchKill frame randomId killThrows).1 := by
  unfold KillHost.dispatchKill
  dsimp only
  split
  · exact h
  · have hread := h.known ((s.request frame randomId).operationId :: s.knownIds)
      ((s.request frame randomId).carried.toList ++ s.knownGenerations)
      (fun _ hx => mem_cons_of_mem _ hx) (fun _ hx => mem_append_right _ hx)
    apply hread.handleKill mem_cons_self
    intro e he
    unfold KillHost.request at he ⊢
    dsimp only at he ⊢
    rcases hcarried : carriedGeneration frame with _ | c
    · rw [hcarried, none_or] at he
      exact mem_append_right _ (h.registered _ _ he).1
    · rw [hcarried, some_or] at he
      exact mem_append_left _ (mem_toList.mpr he)

/-- A random generation is none that anything names. -/
theorem Books.create (hfresh : g ∉ s.knownGenerations) (name : String)
    (token : Option String) : Books (s.create name g token) := by
  have hold : ∀ e ∈ s.knownGenerations, update s.generation g
      { name := name, createdByReplacementToken := token } e = s.generation e := by
    intro e he
    exact update_of_ne (ne_of_mem_of_not_mem he hfresh) ..
  have hcurrent : ∀ name' e, e ∈ s.knownGenerations →
      update s.sessions name (some g) name' = some e → s.sessions name' = some e := by
    intro name' e he hsame
    rw [update_apply] at hsame
    split at hsame
    · cases hsame
      exact absurd he hfresh
    · exact hsame
  constructor
  case registered =>
    intro name' e he
    change update s.sessions name (some g) name' = some e at he
    rw [update_apply] at he
    split at he
    · rename_i heq
      cases he
      refine ⟨mem_cons_self, ?_⟩
      change (update s.generation g _ g).name = name'
      rw [update_self, heq]
    · obtain ⟨hknown, hname⟩ := h.registered name' e he
      refine ⟨mem_cons_of_mem _ hknown, ?_⟩
      exact (congrArg HostGeneration.name (hold e hknown)).trans hname
  case gone =>
    intro e he name' hsame
    change (update s.generation g _ e).ending = _ ∨ (∃ owned, (update s.generation g _ e).publication = _) at he
    rw [update_apply] at he
    split at he
    · rcases he with hending | ⟨owned, hremoved⟩
      · cases hending
      · cases hremoved
    · rename_i hne
      apply h.gone e he name'
      change update s.sessions name (some g) name' = some e at hsame
      rw [update_apply] at hsame
      split at hsame
      · exact absurd (Option.some.inj hsame).symm hne
      · exact hsame
  case completed =>
    intro r hr
    obtain ⟨hid, hrest⟩ := h.completed r hr
    refine ⟨hid, fun e he => ?_⟩
    obtain ⟨hknown, habsent⟩ := hrest e he
    exact ⟨mem_cons_of_mem _ hknown, fun hsame => habsent (hcurrent r.name e hknown hsame)⟩
  case waiting =>
    intro r e hr
    obtain ⟨hid, hknown, hdown, hrest⟩ := h.waiting r e hr
    refine ⟨hid, mem_cons_of_mem _ hknown, ?_, fun e' he' => ?_⟩
    · exact (congrArg HostGeneration.live (hold e hknown)).trans hdown
    · obtain ⟨hknown', hsame'⟩ := hrest e' he'
      exact ⟨mem_cons_of_mem _ hknown', fun hsame => hsame' (hcurrent r.name e' hknown' hsame)⟩
  case operations =>
    intro n op hop
    obtain ⟨hlt, hid, hexpects, hknown, hname⟩ := h.operations n op hop
    refine ⟨hlt, hid, hexpects, mem_cons_of_mem _ hknown, ?_⟩
    exact (congrArg HostGeneration.name (hold op.session hknown)).trans hname
  case owned =>
    intro e n he
    change (update s.generation g _ e).publication = _ ∨ (update s.generation g _ e).publication = _ ∨
      (update s.generation g _ e).publication = _ at he
    rw [update_apply] at he
    split at he
    · rcases he with he | he | he <;> cases he
    · exact h.owned e n he
  case signalled => exact h.signalled
  case reservations => exact h.reservations

theorem Books.handleAttach (hfresh : g ∉ s.knownGenerations) (name : String)
    (token : Option String) (existing : Option ℕ) (matchesReplay spawns : Bool) :
    Books (s.handleAttach name token existing matchesReplay spawns g).1 := by
  have hdropped := quiet_dropExpired s name
  unfold KillHost.handleAttach
  split
  · exact h
  split
  · split
    · exact h
    split
    · exact h
    split <;> exact h
  dsimp only
  generalize s.dropExpired name = t at hdropped
  have ht := h.quiet hdropped
  rw [← hdropped.knownGenerations] at hfresh
  split
  · split
    · exact ht
    · have hconsumed := ht.quiet (t := { t with
          replacementReservations := t.replacementReservations.filter fun e => e.name != name })
        ⟨rfl, rfl, rfl, rfl, rfl, rfl, rfl, rfl, rfl, rfl, fun hnodup => hnodup.filter _⟩
      split
      · exact hconsumed.create hfresh name _
      · exact hconsumed
  · split
    · exact ht
    split
    · exact ht.create hfresh name none
    · exact ht

theorem Books.exit (hstep : s.exit g = some t) : Books t := by
  obtain ⟨_, rfl⟩ := ite_some_none_eq_some.mp hstep
  refine h.setGeneration (d := { s.generation g with
    exited := true
    retiring := true
    ending := if (s.generation g).ending = .none then .pending else (s.generation g).ending })
    rfl ?_ ?_ (h.owned g)
  · intro _
    rfl
  · rintro (hended | hremoved)
    · dsimp only at hended
      split at hended
      · cases hended
      · exact h.gone g (.inl hended)
    · exact h.gone g (.inr hremoved)

/-- `retireSessionGeneration` takes the generation out of the map, or finds another one there. -/
theorem Books.remove {owned : Option ℕ} (hpublished : (s.generation g).publication = .published owned) :
    Books { s.setGeneration g { s.generation g with publication := .removed owned } with
      sessions := if s.sessions (s.generation g).name = some g then
        update s.sessions (s.generation g).name none else s.sessions } := by
  have hleft : ∀ name e, (if s.sessions (s.generation g).name = some g then
      update s.sessions (s.generation g).name none else s.sessions) name = some e →
      s.sessions name = some e ∧ e ≠ g := by
    intro name e he
    have hother : s.sessions name = some g → name = (s.generation g).name :=
      fun hsame => (h.registered name g hsame).2.symm
    split at he
    · rw [update_apply] at he
      split at he
      · cases he
      · rename_i hne
        exact ⟨he, fun heq => hne (hother (heq ▸ he))⟩
    · rename_i hno
      refine ⟨he, fun heq => hno ?_⟩
      rw [heq] at he
      rwa [← hother he]
  have hnames : ∀ e, (update s.generation g
      { s.generation g with publication := .removed owned } e).name = (s.generation e).name := by
    intro e
    rw [update_apply]
    split
    · rename_i heq
      rw [heq]
    · rfl
  have hown : ∀ n, owned = some n → ∃ op, s.operation n = some op ∧ op.session = g := by
    intro n hn
    exact h.owned g n (.inr (.inl (hn ▸ hpublished)))
  constructor
  case registered =>
    intro name e he
    obtain ⟨hknown, hname⟩ := h.registered name e (hleft name e he).1
    exact ⟨hknown, (hnames e).trans hname⟩
  case gone =>
    intro e he name hsame
    obtain ⟨hsame, hne⟩ := hleft name e hsame
    change (update s.generation g _ e).ending = _ ∨ (∃ owned, (update s.generation g _ e).publication = _) at he
    rw [update_of_ne hne] at he
    exact h.gone e he name hsame
  case completed =>
    intro r hr
    obtain ⟨hid, hrest⟩ := h.completed r hr
    exact ⟨hid, fun e he => ⟨(hrest e he).1, fun hsame => (hrest e he).2 (hleft _ _ hsame).1⟩⟩
  case waiting =>
    intro r e hr
    obtain ⟨hid, hknown, hdown, hrest⟩ := h.waiting r e hr
    refine ⟨hid, hknown, ?_, fun e' he' => ⟨(hrest e' he').1, fun hsame =>
      (hrest e' he').2 (hleft _ _ hsame).1⟩⟩
    change (update s.generation g _ e).live = false
    rw [update_apply]
    split
    · rename_i heq
      rw [heq] at hdown
      exact hdown
    · exact hdown
  case operations =>
    intro n op hop
    obtain ⟨hlt, hid, hexpects, hknown, hname⟩ := h.operations n op hop
    exact ⟨hlt, hid, hexpects, hknown, (hnames op.session).trans hname⟩
  case owned =>
    intro e n he
    change (update s.generation g _ e).publication = _ ∨ (update s.generation g _ e).publication = _ ∨
      (update s.generation g _ e).publication = _ at he
    rw [update_apply] at he
    split at he
    · rename_i heq
      rw [heq]
      rcases he with he | he | he
      · cases he
      · cases he
      · injection he with he
        exact hown n he
    · exact h.owned e n he
  case signalled => exact h.signalled
  case reservations => exact h.reservations

end

/-- The steps that register no generation and call no kill. -/
structure Still (s t : KillHost) : Prop where
  sessions : t.sessions = s.sessions
  signals : t.signals = s.signals

theorem Quiet.still (h : Quiet s t) : Still s t := ⟨h.sessions, h.signals⟩

theorem still_beginKillRetirement (s : KillHost) (g : ℕ) : Still s (s.beginKillRetirement g) := by
  unfold KillHost.beginKillRetirement
  split <;> exact ⟨rfl, rfl⟩

theorem still_failOperation (s : KillHost) (n : ℕ) (error : String) : Still s (s.failOperation n error) := by
  unfold KillHost.failOperation
  split
  · exact ⟨rfl, rfl⟩
  · split <;> exact ⟨rfl, rfl⟩

theorem rememberCompletedKill_eq (s : KillHost) (r : KillRequest) : ∃ entries, s.rememberCompletedKill r =
      { s with completed := s.completed ++ [r], completedKillIds := entries } := by
  unfold KillHost.rememberCompletedKill pruneCompletedKills
  exact ⟨_, rfl⟩

theorem acknowledge_eq (s : KillHost) (g n : ℕ) : (s.acknowledge g n).sessions = s.sessions ∧
    (s.acknowledge g n).signals = s.signals ∧ (s.acknowledge g n).generation = s.generation := by
  unfold KillHost.acknowledge
  split
  · exact ⟨rfl, rfl, rfl⟩
  · rename_i op _
    dsimp only
    obtain ⟨entries, heq⟩ := rememberCompletedKill_eq { s with
      ending := if s.ending (s.generation g).name = some n then
        update s.ending (s.generation g).name none else s.ending }
      { op.request with name := (s.generation g).name }
    rw [heq]
    exact ⟨rfl, rfl, rfl⟩

theorem Books.advance (h : Books s) (hstep : s.advance g = some t) : Books t := by
  unfold KillHost.advance at hstep
  dsimp only at hstep
  split at hstep
  · obtain ⟨_, rfl⟩ := ite_some_none_eq_some.mp hstep
    refine h.setGeneration (d := { s.generation g with publication := .settling (s.ownedKill g) })
      rfl id ?_ ?_
    · rintro (hended | ⟨owned, hremoved⟩)
      · exact h.gone g (.inl hended)
      · cases hremoved
    · rintro n (hsettling | hother | hother)
      · injection hsettling with howned
        unfold ownedKill at howned
        have hsession := (filter_eq_some_iff.mp howned).2
        obtain ⟨op, hop, hsame⟩ := (any_eq_true _ _).mp hsession
        exact ⟨op, hop, beq_iff_eq.mp hsame⟩
      · cases hother
      · cases hother
  · rename_i owned hsettling
    cases hstep
    have hquiet := quiet_reserveOwned s g owned
    have hreserved := h.quiet hquiet
    generalize s.reserveOwned g owned = u at hquiet hreserved
    rw [← hquiet.generation] at hsettling ⊢
    refine hreserved.setGeneration (d := { u.generation g with publication := .published owned }) rfl id ?_ ?_
    · rintro (hended | ⟨owned', hremoved⟩)
      · exact hreserved.gone g (.inl hended)
      · cases hremoved
    · rintro n (hother | hpublished | hother)
      · cases hother
      · injection hpublished with howned
        exact hreserved.owned g n (.inl (howned ▸ hsettling))
      · cases hother
  · rename_i owned hpublished
    cases hstep
    have hremoved := h.remove hpublished
    by_cases hcurrent : s.sessions (s.generation g).name = some g
    · rw [if_pos hcurrent] at hremoved ⊢
      exact hremoved
    · rw [if_neg hcurrent] at hremoved ⊢
      exact hremoved
  · rename_i owned hremoved
    cases hstep
    have hgone := h.gone g (.inr ⟨owned, hremoved⟩)
    have hsettled : ∀ u, Books u → u.sessions = s.sessions → u.generation = s.generation →
        Books (u.setGeneration g { s.generation g with
          publication := .acknowledged
          ending := .fulfilled }) := by
      intro u hbooks hsessions hgeneration
      rw [← hgeneration]
      refine hbooks.setGeneration (d := { u.generation g with
        publication := .acknowledged
        ending := .fulfilled }) rfl id ?_ ?_
      · intro _
        rw [hsessions]
        exact hgone
      · rintro n (hother | hother | hother) <;> cases hother
    cases owned with
    | none => exact hsettled s h rfl rfl
    | some n =>
      obtain ⟨op, hop, hsession⟩ := h.owned g n (.inr (.inr hremoved))
      obtain ⟨hsessions, _, hgeneration⟩ := acknowledge_eq s g n
      exact hsettled _ (h.acknowledge hop hsession hgone) hsessions hgeneration
  · cases hstep
  · cases hstep

theorem Books.publishFailed (h : Books s) (hstep : s.publishFailed g = some t) : Books t := by
  have hfailed : Books (s.setGeneration g { s.generation g with
      publication := .failed
      ending := .rejected }) := by
    refine h.setGeneration (d := { s.generation g with publication := .failed, ending := .rejected })
      rfl id ?_ ?_
    · rintro (hended | ⟨owned, hremoved⟩)
      · cases hended
      · cases hremoved
    · rintro n (hother | hother | hother) <;> cases hother
  unfold KillHost.publishFailed at hstep
  dsimp only at hstep
  split at hstep
  · cases hstep
    exact hfailed
  · cases hstep
    exact hfailed
  · cases hstep

theorem Books.terminated (h : Books s) {releases : Bool} (hstep : s.terminated n releases = some t) : Books t := by
  unfold KillHost.terminated at hstep
  split at hstep
  · cases hstep
  · rename_i op _
    obtain ⟨_, hstep⟩ := ite_none_left_eq_some.mp hstep
    split at hstep
    · cases hstep
      exact h
    · split at hstep
      · cases hstep
        exact h.beginKillRetirement op.session
      · cases hstep
        exact h.failOperation ..

theorem Books.step (h : Books s) {act : KillHostAct} (hstep : s.step act = some t) : Books t := by
  cases act with
  | kill frame randomId killThrows =>
    obtain ⟨_, rfl⟩ := ite_some_none_eq_some.mp hstep
    exact h.dispatchKill frame randomId killThrows
  | resume =>
    obtain ⟨p, hresumed, rfl⟩ := map_eq_some_iff.mp hstep
    exact h.resumeKill hresumed
  | attach name token existing matchesReplay spawns =>
    obtain ⟨hfresh, rfl⟩ := ite_some_none_eq_some.mp hstep
    exact h.handleAttach hfresh name token existing matchesReplay spawns
  | abandon g =>
    obtain ⟨_, rfl⟩ := ite_some_none_eq_some.mp hstep
    exact h.beginKillRetirement g
  | terminated => exact h.terminated hstep
  | failed n =>
    cases hstep
    exact h.failOperation n _
  | exit => exact h.exit hstep
  | advance => exact h.advance hstep
  | publishFailed => exact h.publishFailed hstep
  | tick =>
    cases hstep
    exact ⟨h.registered, h.gone, h.completed, h.waiting, h.operations, h.owned, h.signalled, h.reservations⟩

theorem books_init (win32 : Bool) : Books { win32 := win32 } where
  registered _ _ h := nomatch h
  gone _ _ _ h := nomatch h
  completed _ h := nomatch h
  waiting _ _ h := nomatch h
  operations _ _ h := nomatch h
  owned _ _ h := by rcases h with h | h | h <;> cases h
  signalled _ _ h := nomatch h
  reservations := nodup_nil

end Steps
end KillHost
end NodeTerm.SessionHost
