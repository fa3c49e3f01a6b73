import NodeTerm.SessionHost.KillBooks

/-! A kill reaches the generation it names, a retry reaches none, and a reserved name is created by
the holder of its token. -/
namespace NodeTerm.SessionHost
open Base Function List Option

def KillRequest.Retries (r earlier : KillRequest) : Prop :=
  r.operationId = earlier.operationId ∧ r.name = earlier.name ∧ r.carried = earlier.carried

namespace KillHost

/-- Handled and neither answered nor failed. -/
def InProgress (s : KillHost) (r : KillRequest) : Prop :=
  (∃ g, (r, g) ∈ s.waiting) ∨ ∃ n op, s.ending r.name = some n ∧ s.operation n = some op ∧ op.request = r

def rememberedKill (s : KillHost) (operationId : String) : Bool :=
  (lookup CompletedKill.operationId operationId s.pruneCompletedKills.completedKillIds).isSome ||
    (lookup InProgressKill.operationId operationId s.inProgressKillIds).isSome

/-- A frame that carries an operation id carries a generation too, or it finds no live session, or
its id is still remembered, or the name is ending. -/
def Identified (s : KillHost) : KillHostAct → Prop
  | .kill frame _ _ => ∀ operationId, carriedId frame = some operationId → carriedGeneration frame = none →
      (∀ g, s.sessions frame.name = some g → (s.generation g).live = false) ∨
      s.rememberedKill operationId = true ∨ s.ending frame.name ≠ none
  | _ => True

end KillHost

open KillHost in
/-- What holds of a step of the host. -/
structure KillSafe (s : KillHost) (act : KillHostAct) (t : KillHost) : Prop where
  target : ∀ r g, (r, g) ∈ t.signals → ∀ e, r.carried = some e → g = e
  remembered : ∀ r g, t.signals = s.signals ++ [(r, g)] → s.rememberedKill r.operationId = false
  retried : ∀ r g, t.signals = s.signals ++ [(r, g)] → ∀ earlier, r.Retries earlier →
    earlier ∉ s.completed ∧ ¬ s.InProgress earlier
  reservations : KeysNodup Reservation.name t.replacementReservations
  leased : ∀ name g, t.sessions name = some g → s.sessions name ≠ some g →
    ∀ reservation ∈ s.replacementReservations, reservation.name = name →
    s.now < reservation.expiresAt →
    ∃ existing matchesReplay spawns, act = .attach name (some reservation.token) existing matchesReplay spawns g

namespace KillHost

section Steps
variable {s t : KillHost} {r : KillRequest} {g n : ℕ} {name : String}

/-! What a kill does to the map and which kill it calls. -/

theorem signal_eq (s : KillHost) (r : KillRequest) (g : ℕ) (killThrows : Bool) :
    (s.signal r g killThrows).sessions = s.sessions ∧ (s.signal r g killThrows).signals = s.signals ++ [(r, g)] := by
  unfold KillHost.signal
  dsimp only
  split
  · exact ⟨rfl, rfl⟩
  · split
    · obtain ⟨hsessions, hsignals⟩ := still_failOperation { s with
        operations := s.operations + 1
        operation := update s.operation s.operations (some { session := g, request := r })
        ending := update s.ending r.name (some s.operations)
        inProgressKillIds := put InProgressKill.operationId
          { operationId := r.operationId, name := r.name, operation := s.operations }
          s.inProgressKillIds
        signals := s.signals ++ [(r, g)] } s.operations "kill failed"
      exact ⟨hsessions, hsignals⟩
    · obtain ⟨hsessions, hsignals⟩ := still_beginKillRetirement { s with
        operations := s.operations + 1
        operation := update s.operation s.operations (some { session := g, request := r })
        ending := update s.ending r.name (some s.operations)
        inProgressKillIds := put InProgressKill.operationId
          { operationId := r.operationId, name := r.name, operation := s.operations }
          s.inProgressKillIds
        signals := s.signals ++ [(r, g)] } g
      exact ⟨hsessions, hsignals⟩

/-- No kill, or that of the generation expected. -/
structure Calls (s : KillHost) (r : KillRequest) (t : KillHost) : Prop where
  sessions : t.sessions = s.sessions
  signals : t.signals = s.signals ∨ ∃ g, t.signals = s.signals ++ [(r, g)] ∧
    s.sessions r.name = some g ∧ r.expectedGeneration = some g

theorem Still.calls (h : Still s t) (r : KillRequest) : Calls s r t := ⟨h.sessions, .inl h.signals⟩

theorem killCurrent_calls (s : KillHost) (r : KillRequest) (killThrows : Bool) :
    Calls s r (s.killCurrent r killThrows).1 := by
  have hremembered : ∀ u, Still s u → Still s (u.rememberCompletedKill r) := by
    intro u hu
    obtain ⟨entries, heq⟩ := rememberCompletedKill_eq u r
    rw [heq]
    exact ⟨hu.sessions, hu.signals⟩
  unfold KillHost.killCurrent
  split
  · have hdropped := quiet_dropExpired s r.name
    dsimp only
    split
    · exact hdropped.still.calls r
    · apply Still.calls
      apply hremembered
      split
      · exact (hdropped.trans (quiet_setReplacementReservation ..)).still
      · exact hdropped.still
  · rename_i g hg
    split
    · split
      · exact ⟨rfl, .inl rfl⟩
      · exact (hremembered s ⟨rfl, rfl⟩).calls r
    · rename_i expected hexpects
      split
      · split
        · exact ⟨rfl, .inl rfl⟩
        · exact (hremembered s ⟨rfl, rfl⟩).calls r
      · rename_i heq
        obtain ⟨hsessions, hsignals⟩ := signal_eq s r g killThrows
        exact ⟨hsessions, .inr ⟨g, hsignals, (filter_eq_some_iff.mp hg).1, not_not.mp heq ▸ hexpects⟩⟩

/-- A kill is called when its id is not remembered, the name is not ending and its session is live. -/
theorem handleKill_calls (s : KillHost) (r : KillRequest) (killThrows : Bool) :
    Calls s r (s.handleKill r killThrows).1 ∧ ((s.handleKill r killThrows).1.signals ≠ s.signals →
        s.rememberedKill r.operationId = false ∧ s.ending r.name = none ∧
        ∀ g, s.sessions r.name = some g → (s.generation g).live = true) := by
  have hpruned := quiet_pruneCompletedKills s
  unfold KillHost.handleKill rememberedKill
  split
  · exact ⟨⟨rfl, .inl rfl⟩, absurd rfl⟩
  dsimp only
  have hinProgress : s.pruneCompletedKills.inProgressKillIds = s.inProgressKillIds := by
    unfold pruneCompletedKills
    rfl
  generalize s.pruneCompletedKills = t at hpruned hinProgress
  split
  · rename_i completed _
    have hquiet := hpruned.trans (quiet_retryCompleted t r completed)
    exact ⟨hquiet.still.calls r, absurd hquiet.signals⟩
  rename_i hcompleted
  split
  · exact ⟨hpruned.still.calls r, absurd hpruned.signals⟩
  rename_i hkills
  split
  · exact ⟨hpruned.still.calls r, absurd hpruned.signals⟩
  rename_i hending
  have hcalls : Calls s r (t.killCurrent r killThrows).1 := by
    obtain ⟨hsessions, hsignals⟩ := killCurrent_calls t r killThrows
    rw [hpruned.sessions, hpruned.signals] at hsignals
    exact ⟨hsessions.trans hpruned.sessions, hsignals⟩
  have hforgotten : ((lookup CompletedKill.operationId r.operationId t.completedKillIds).isSome ||
      (lookup InProgressKill.operationId r.operationId s.inProgressKillIds).isSome) = false := by
    rw [hcompleted, ← hinProgress, hkills]
    rfl
  have hfree : s.ending r.name = none := by
    rw [← hpruned.ending]
    exact not_not.mp hending
  split
  · rename_i hnone
    refine ⟨hcalls, fun _ => ⟨hforgotten, hfree, fun g hg => ?_⟩⟩
    rw [← hpruned.sessions, hnone] at hg
    cases hg
  · rename_i g hg
    split
    · rename_i hlive
      refine ⟨hcalls, fun _ => ⟨hforgotten, hfree, fun g' hg' => ?_⟩⟩
      rw [← hpruned.sessions, hg] at hg'
      rw [← hpruned.generation, ← Option.some.inj hg']
      exact hlive
    · split
      · exact ⟨hpruned.still.calls r, absurd hpruned.signals⟩
      · exact ⟨⟨hpruned.sessions, .inl hpruned.signals⟩, absurd hpruned.signals⟩

theorem dispatchKill_calls (s : KillHost) (frame : KillFrame) (randomId : String) (killThrows : Bool) :
    Calls s (s.request frame randomId) (s.dispatchKill frame randomId killThrows).1 ∧
      ((s.dispatchKill frame randomId killThrows).1.signals ≠ s.signals →
        s.rememberedKill (s.request frame randomId).operationId = false ∧
        s.ending frame.name = none ∧
        ∀ g, s.sessions frame.name = some g → (s.generation g).live = true) := by
  unfold KillHost.dispatchKill
  dsimp only
  split
  · exact ⟨⟨rfl, .inl rfl⟩, absurd rfl⟩
  · obtain ⟨⟨hsessions, hsignals⟩, hcalled⟩ := handleKill_calls { s with
      knownIds := (s.request frame randomId).operationId :: s.knownIds
      knownGenerations := (s.request frame randomId).carried.toList ++ s.knownGenerations }
      (s.request frame randomId) killThrows
    exact ⟨⟨hsessions, hsignals⟩, hcalled⟩

theorem advance_still (hstep : s.advance g = some t) : t.signals = s.signals ∧
    ∀ name e, t.sessions name = some e → s.sessions name = some e := by
  unfold KillHost.advance at hstep
  dsimp only at hstep
  split at hstep
  · obtain ⟨_, rfl⟩ := ite_some_none_eq_some.mp hstep
    exact ⟨rfl, fun _ _ h => h⟩
  · rename_i owned _
    cases hstep
    have hquiet := quiet_reserveOwned s g owned
    exact ⟨hquiet.signals, fun name e he => hquiet.sessions ▸ he⟩
  · cases hstep
    split
    · refine ⟨rfl, fun name e he => ?_⟩
      change update s.sessions _ none name = some e at he
      rw [update_apply] at he
      split at he
      · cases he
      · exact he
    · exact ⟨rfl, fun _ _ h => h⟩
  · rename_i owned _
    cases hstep
    cases owned with
    | none => exact ⟨rfl, fun _ _ h => h⟩
    | some n =>
      obtain ⟨hsessions, hsignals, _⟩ := acknowledge_eq s g n
      exact ⟨hsignals, fun name e he => hsessions ▸ he⟩
  · cases hstep
  · cases hstep

theorem handleAttach_signals (s : KillHost) (name : String) (token : Option String)
    (existing : Option ℕ) (matchesReplay spawns : Bool) (g : ℕ) :
    (s.handleAttach name token existing matchesReplay spawns g).1.signals = s.signals := by
  have hdropped := quiet_dropExpired s name
  unfold KillHost.handleAttach
  split
  · rfl
  split
  · split
    · rfl
    split
    · rfl
    split <;> rfl
  dsimp only
  split
  · split
    · exact hdropped.signals
    split <;> exact hdropped.signals
  · split
    · exact hdropped.signals
    split <;> exact hdropped.signals

theorem Books.resume_signals (h : Books s) {killThrows : Bool} {p : KillHost × KillAnswer}
    (hstep : s.resumeKill r g killThrows = some p) :
    p.1.signals = s.signals ∧ p.1.sessions = s.sessions := by
  obtain ⟨hwaits, hstep⟩ := ite_none_right_eq_some.mp hstep
  obtain ⟨_, _, _, hexpects⟩ := h.waiting r g hwaits
  dsimp only at hstep
  split at hstep
  · rename_i hended
    cases hstep
    obtain ⟨hsessions, hsignals⟩ :=
      killCurrent_calls { s with waiting := s.waiting.erase (r, g) } r killThrows
    refine ⟨hsignals.resolve_right ?_, hsessions⟩
    rintro ⟨e, _, hcurrent, he⟩
    obtain rfl := (hexpects e he).2 hcurrent
    exact h.gone e (.inl hended) r.name hcurrent
  · cases hstep
    exact ⟨rfl, rfl⟩
  · cases hstep

theorem terminated_still {releases : Bool} (hstep : s.terminated n releases = some t) : Still s t := by
  unfold KillHost.terminated at hstep
  split at hstep
  · cases hstep
  · obtain ⟨_, hstep⟩ := ite_none_left_eq_some.mp hstep
    split at hstep
    · cases hstep
      exact ⟨rfl, rfl⟩
    · split at hstep
      · cases hstep
        exact still_beginKillRetirement ..
      · cases hstep
        exact still_failOperation ..

theorem publishFailed_still (hstep : s.publishFailed g = some t) : Still s t := by
  unfold KillHost.publishFailed at hstep
  dsimp only at hstep
  split at hstep
  · cases hstep
    exact ⟨rfl, rfl⟩
  · cases hstep
    exact ⟨rfl, rfl⟩
  · cases hstep

variable {act : KillHostAct}

/-- What a step registers and calls: only an attach registers, only an arriving kill calls. -/
theorem Books.step_effects (h : Books s) (hstep : s.step act = some t) :
    (t.signals = s.signals ∨ ∃ frame randomId killThrows, act = .kill frame randomId killThrows) ∧
    ((∀ name e, t.sessions name = some e → s.sessions name = some e) ∨ ∃ name token existing matchesReplay spawns g,
        act = .attach name token existing matchesReplay spawns g) := by
  cases act with
  | kill frame randomId killThrows =>
    obtain ⟨_, rfl⟩ := ite_some_none_eq_some.mp hstep
    refine ⟨.inr ⟨_, _, _, rfl⟩, .inl fun name e he => ?_⟩
    rwa [(dispatchKill_calls s frame randomId killThrows).1.sessions] at he
  | resume =>
    obtain ⟨p, hresumed, rfl⟩ := map_eq_some_iff.mp hstep
    obtain ⟨hsignals, hsessions⟩ := h.resume_signals hresumed
    exact ⟨.inl hsignals, .inl fun name e he => hsessions ▸ he⟩
  | attach =>
    obtain ⟨_, rfl⟩ := ite_some_none_eq_some.mp hstep
    exact ⟨.inl (handleAttach_signals ..), .inr ⟨_, _, _, _, _, _, rfl⟩⟩
  | abandon g =>
    obtain ⟨_, rfl⟩ := ite_some_none_eq_some.mp hstep
    have hstill := still_beginKillRetirement s g
    exact ⟨.inl hstill.signals, .inl fun name e he => hstill.sessions ▸ he⟩
  | terminated =>
    have hstill := terminated_still hstep
    exact ⟨.inl hstill.signals, .inl fun name e he => hstill.sessions ▸ he⟩
  | failed n =>
    cases hstep
    have hstill := still_failOperation s n
      "session-host could not confirm terminal process termination"
    exact ⟨.inl hstill.signals, .inl fun name e he => hstill.sessions ▸ he⟩
  | exit =>
    obtain ⟨_, rfl⟩ := ite_some_none_eq_some.mp hstep
    exact ⟨.inl rfl, .inl fun _ _ he => he⟩
  | advance =>
    obtain ⟨hsignals, hsessions⟩ := advance_still hstep
    exact ⟨.inl hsignals, .inl hsessions⟩
  | publishFailed =>
    have hstill := publishFailed_still hstep
    exact ⟨.inl hstill.signals, .inl fun name e he => hstill.sessions ▸ he⟩
  | tick =>
    cases hstep
    exact ⟨.inl rfl, .inl fun _ _ he => he⟩

theorem Books.called (h : Books s) (hstep : s.step act = some t)
    (hsignals : t.signals = s.signals ++ [(r, g)]) : ∃ frame randomId killThrows,
      act = .kill frame randomId killThrows ∧ r = s.request frame randomId ∧ randomId ∉ s.knownIds ∧
      s.rememberedKill r.operationId = false ∧ s.ending r.name = none ∧
      s.sessions r.name = some g ∧ (s.generation g).live = true ∧ r.expectedGeneration = some g := by
  have hnew : t.signals ≠ s.signals := by
    rw [hsignals]
    intro heq
    exact cons_ne_nil _ _ (append_right_eq_self.mp heq)
  obtain ⟨frame, randomId, killThrows, rfl⟩ := (h.step_effects hstep).1.resolve_left hnew
  obtain ⟨hfresh, rfl⟩ := ite_some_none_eq_some.mp hstep
  obtain ⟨⟨_, hcalls⟩, hready⟩ := dispatchKill_calls s frame randomId killThrows
  obtain ⟨e, hcalled, hcurrent, hexpects⟩ := hcalls.resolve_left hnew
  obtain ⟨hforgotten, hfree, hlive⟩ := hready hnew
  rw [hcalled] at hsignals
  obtain ⟨rfl, rfl⟩ := Prod.mk.inj (singleton_inj.mp (append_cancel_left hsignals))
  exact ⟨frame, randomId, killThrows, rfl, rfl, hfresh, hforgotten, hfree, hcurrent, hlive e hcurrent, hexpects⟩

theorem Books.retried (h : Books s) (hok : s.Identified act)
    (hstep : s.step act = some t) (hsignals : t.signals = s.signals ++ [(r, g)])
    {earlier : KillRequest} (hretries : r.Retries earlier) :
    earlier ∉ s.completed ∧ ¬ s.InProgress earlier := by
  obtain ⟨frame, randomId, killThrows, rfl, hr, hfresh, hforgotten, hfree, hcurrent, hlive, hexpects⟩ :=
    h.called hstep hsignals
  obtain ⟨hid, hname, hcarried⟩ := hretries
  have harrived := hcurrent
  have hunclaimed := hfree
  rw [hname] at hfree hcurrent
  have hending : ¬ ∃ n op, s.ending earlier.name = some n ∧ s.operation n = some op ∧ op.request = earlier := by
    rintro ⟨n, _, hn, _⟩
    rw [hfree] at hn
    cases hn
  cases hc : r.carried with
  | some e =>
    -- The earlier request named the same generation: it is out of the map, or on its way out.
    have hsame : earlier.expectedGeneration = some g := by
      rw [r.expects e hc] at hexpects
      rw [hcarried] at hc
      rw [earlier.expects e hc, hexpects]
    refine ⟨fun hmem => ((h.completed earlier hmem).2 g hsame).2 hcurrent, ?_⟩
    rintro (⟨g', hwaits⟩ | hother)
    · obtain ⟨_, _, hdown, hrest⟩ := h.waiting earlier g' hwaits
      obtain rfl := (hrest g hsame).2 hcurrent
      rw [hlive] at hdown
      cases hdown
    · exact hending hother
  | none =>
    have hrandom : r.operationId ∉ s.knownIds := by
      subst hr
      rcases hgiven : carriedId frame with _ | operationId
      · unfold KillHost.request
        dsimp only
        rw [hgiven, getD_none]
        exact hfresh
      · exfalso
        rcases hok operationId hgiven hc with hdown | hremembered | hbusy
        · have hup := hdown g harrived
          rw [hlive] at hup
          cases hup
        · have hsame : (s.request frame randomId).operationId = operationId := by
            unfold KillHost.request
            dsimp only
            rw [hgiven, getD_some]
          rw [hsame, hremembered] at hforgotten
          cases hforgotten
        · exact hbusy hunclaimed
    rw [hid] at hrandom
    refine ⟨fun hmem => hrandom (h.completed earlier hmem).1, ?_⟩
    rintro (⟨g', hwaits⟩ | hother)
    · exact hrandom (h.waiting earlier g' hwaits).1
    · exact hending hother

theorem Books.leased (h : Books s) (hstep : s.step act = some t)
    (hcreated : t.sessions name = some g) (hnew : s.sessions name ≠ some g) {reservation : Reservation}
    (hmem : reservation ∈ s.replacementReservations) (hname : reservation.name = name)
    (hlasts : s.now < reservation.expiresAt) : ∃ existing matchesReplay spawns,
      act = .attach name (some reservation.token) existing matchesReplay spawns g := by
  rcases (h.step_effects hstep).2 with hkept | ⟨name', token, existing, matchesReplay, spawns, g', rfl⟩
  · exact absurd (hkept name g hcreated) hnew
  · obtain ⟨_, rfl⟩ := ite_some_none_eq_some.mp hstep
    have hdropped := (quiet_dropExpired s name').sessions
    unfold KillHost.handleAttach at hcreated
    split at hcreated
    · exact absurd hcreated hnew
    split at hcreated
    · exfalso
      split at hcreated
      · exact hnew hcreated
      split at hcreated
      · exact hnew hcreated
      split at hcreated <;> exact hnew hcreated
    have hregistered : update (s.dropExpired name').sessions name' (some g') name = some g →
        name' = name ∧ g' = g := by
      intro hregistered
      rw [update_apply, hdropped] at hregistered
      split at hregistered
      · rename_i heq
        exact ⟨heq.symm, Option.some.inj hregistered⟩
      · exact absurd hregistered hnew
    have hactive : name' = name → s.activeReplacementReservation name' = some reservation := by
      rintro rfl
      unfold activeReplacementReservation
      rw [← hname, h.reservations.lookup_of_mem hmem]
      exact filter_eq_some_iff.mpr ⟨rfl, decide_eq_true hlasts⟩
    dsimp only at hcreated
    split at hcreated
    · rename_i found hfound
      split at hcreated
      · rw [hdropped] at hcreated
        exact absurd hcreated hnew
      · rename_i htoken
        split at hcreated
        · obtain ⟨rfl, rfl⟩ := hregistered hcreated
          rw [hactive rfl] at hfound
          cases hfound
          rw [not_not.mp htoken]
          exact ⟨existing, matchesReplay, spawns, rfl⟩
        · rw [hdropped] at hcreated
          exact absurd hcreated hnew
    · rename_i hnone
      split at hcreated
      · rw [hdropped] at hcreated
        exact absurd hcreated hnew
      · split at hcreated
        · obtain ⟨rfl, rfl⟩ := hregistered hcreated
          rw [hactive rfl] at hnone
          cases hnone
        · rw [hdropped] at hcreated
          exact absurd hcreated hnew

theorem Books.killSafe (h : Books s) (hok : s.Identified act) (hstep : s.step act = some t) : KillSafe s act t where
  target r g hmem e he := by
    have hexpects := (h.step hstep).signalled r g hmem
    rw [r.expects e he] at hexpects
    exact (Option.some.inj hexpects).symm
  remembered r g hsignals := by
    obtain ⟨_, _, _, _, _, _, hforgotten, _⟩ := h.called hstep hsignals
    exact hforgotten
  retried r g hsignals earlier hretries := h.retried hok hstep hsignals hretries
  reservations := (h.step hstep).reservations
  leased name g hcreated hnew reservation hmem hname hlasts :=
    h.leased hstep hcreated hnew hmem hname hlasts

end Steps

/-- Every step that meets the condition, of every run. -/
theorem killSafe_of_identified (win32 : Bool) {as : List KillHostAct} {s t : KillHost}
    {act : KillHostAct} (hrun : run? step { win32 := win32 } as = some s) (hok : s.Identified act)
    (hstep : s.step act = some t) : KillSafe s act t := by
  have h : Books s :=
    run?_invariant (fun _ _ _ _ h hstep => h.step hstep) (books_init win32) (along_true step _ as) hrun
  exact h.killSafe hok hstep

def killFrame (expectedGeneration : Option ℕ) (reserveReplacement : Bool) : KillFrame :=
  ⟨2, "shell", some "operation-1", expectedGeneration, reserveReplacement⟩

/-- A shell is killed for a replacement; a retry, an attach without the token and one with it. -/
def recycleRun : List KillHostAct :=
  [.attach "shell" none none true true 1, .kill (killFrame (some 1) true) "random-1" false, .exit 1,
    .advance 1, .kill (killFrame (some 1) true) "random-2" false, .advance 1, .advance 1, .advance 1,
    .kill (killFrame (some 1) true) "random-3" false, .attach "shell" none none true true 2]

theorem killSafe_of_identified_recycle : ∃ s t, run? step {} recycleRun = some s ∧
    s.step (.attach "shell" (some "operation-1") none true true 2) = some t ∧
    KillSafe s (.attach "shell" (some "operation-1") none true true 2) t ∧
    t.signals.map Prod.snd = [1] ∧ s.sessions "shell" = none ∧ t.sessions "shell" = some 2 := by
  have hrun : (run? step {} recycleRun).isSome = true := by decide +kernel
  obtain ⟨s, hs⟩ := isSome_iff_exists.mp hrun
  have hnext : ((run? step {} recycleRun).bind fun s =>
      (s.step (.attach "shell" (some "operation-1") none true true 2)).map fun t =>
        (t.signals.map Prod.snd, s.sessions "shell", t.sessions "shell")) =
      some ([1], none, some 2) := by
    decide +kernel
  rw [hs, bind_some] at hnext
  obtain ⟨t, ht, hseen⟩ := map_eq_some_iff.mp hnext
  obtain ⟨hsignals, hrest⟩ := Prod.mk.inj hseen
  obtain ⟨hbefore, hafter⟩ := Prod.mk.inj hrest
  exact ⟨s, t, hs, ht, killSafe_of_identified false hs trivial ht, hsignals, hbefore, hafter⟩

/-- The request that names no generation, as it is handled when the name has this one. -/
def absentKill (current : Option ℕ) : KillRequest where
  operationId := "operation-1"
  name := "shell"
  carried := none
  expectedGeneration := current
  reserveReplacement := false
  expects _ h := nomatch h

/-- The absent shell is confirmed gone, the operation is forgotten, and the name has a new shell. -/
def forgottenRun : List KillHostAct :=
  [.kill (killFrame none false) "random-1" false, .tick 600001, .attach "shell" none none true true 1]

theorem retry_kills_later_shell : ∃ s t g r earlier, run? step {} forgottenRun = some s ∧
    s.step (.kill (killFrame none false) "random-2" false) = some t ∧
    t.signals = s.signals ++ [(r, g)] ∧ r.Retries earlier ∧ earlier ∈ s.completed := by
  have hseen : ((run? step {} forgottenRun).bind fun s =>
      (s.step (.kill (killFrame none false) "random-2" false)).map fun t =>
        (s.signals, s.completed, t.signals)) =
      some ([], [absentKill none], [(absentKill (some 1), 1)]) := by
    decide +kernel
  obtain ⟨s, hs, hnext⟩ := bind_eq_some_iff.mp hseen
  obtain ⟨t, ht, hvalues⟩ := map_eq_some_iff.mp hnext
  obtain ⟨hbefore, hrest⟩ := Prod.mk.inj hvalues
  obtain ⟨hcompleted, hafter⟩ := Prod.mk.inj hrest
  refine ⟨s, t, 1, absentKill (some 1), absentKill none, hs, ht, ?_, ⟨rfl, rfl, rfl⟩, ?_⟩
  · rw [hbefore, hafter]
    rfl
  · rw [hcompleted]
    exact mem_singleton_self _

end KillHost
end NodeTerm.SessionHost
