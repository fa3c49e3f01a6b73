import NodeTerm.Base.Transition
import NodeTerm.Base.Keyed
import Mathlib.Algebra.Order.Ring.Rat
import Mathlib.Data.List.MinMax

/-! Who of the terminals holds a WebGL context. The coordinator grants within a budget; swaps that come in a gesture
wait in a queue, which is drained a few at a time. -/
namespace NodeTerm.Glyphgrid.WebglBudget
open Base List

inductive Timer
  /-- Of a client that came into view. -/
  | debounce
  /-- Of a client that lost its context. -/
  | reacquire

/-- The object that a call of `registerWebglClient` makes; `registration` counts the calls. -/
structure Client (κ : Type) where
  id : κ
  registration : ℕ
  deriving DecidableEq

structure Fields where
  visible : Bool := false
  granted : Bool := false
  acquireTimer : Option Timer := none
  hiddenAt : ℕ := 0
  lossStreak : ℕ := 0
  releaseOwed : Bool := false

/-- What becomes of a context, with what matters of the state it happens in. -/
inductive Effect (κ : Type)
  /-- An `acquire` that succeeded. -/
  | acquired (c : Client κ) (enabled gestureActive : Bool)
  | released (c : Client κ)
  /-- A `release` for another client's sake. -/
  | reclaimed (c : Client κ) (visible : Bool)
  | lost (c : Client κ)

/-- The contexts of the coordinator, and the books it keeps of them. -/
structure State (κ : Type) where
  fields : Client κ → Fields := fun _ => {}
  clients : List (Client κ) := []
  registrations : ℕ := 0
  owed : List (Client κ) := []
  drainTimer : Bool := false
  enabled : Bool := true
  zoomCrisp : Bool := false
  lastZoom : ℚ := 1
  /-- `none` for the infinite ratio of a display that is not known. -/
  devicePixelRatio : Option ℚ := none
  gestureActive : Bool := false
  visibilityClock : ℕ := 0
  /-- The calls of `acquire` so far. -/
  attempts : ℕ := 0
  /-- The latest effect comes first. -/
  log : List (Effect κ) := []

def WEBGL_SWAPS_PER_DRAIN : ℕ := 2
def WEBGL_LOSS_STREAK_MAX : ℕ := 3

/-- The double next to a decimal constant between one and two. -/
def double (decimal : ℚ) : ℚ := (decimal * 2 ^ 52 + 1 / 2).floor / 2 ^ 52

def WEBGL_CRISP_ABOVE_ZOOM : ℚ := double (175 / 100)
def WEBGL_GPU_RESUME_BELOW_ZOOM : ℚ := double (16 / 10)
def WEBGL_LOW_DPI_CRISP_ABOVE_ZOOM : ℚ := double (102 / 100)
def WEBGL_LOW_DPI_GPU_RESUME_BELOW_ZOOM : ℚ := double (101 / 100)
def LOW_DPI_BELOW : ℚ := 2

variable {κ : Type} [DecidableEq κ]

/-- The contexts held after a log, each from its `acquire` to its release or loss. -/
def held : List (Effect κ) → List (Client κ)
  | [] => []
  | .acquired c _ _ :: log => c :: held log
  | .released c :: log => (held log).filter fun d => d ≠ c
  | .reclaimed c _ :: log => (held log).filter fun d => d ≠ c
  | .lost c :: log => (held log).filter fun d => d ≠ c

/-- No context is acquired while the switch is off or a gesture runs, and only a hidden holder makes room. -/
def Effect.Lawful : Effect κ → Prop
  | .acquired _ enabled gestureActive => enabled = true ∧ gestureActive = false
  | .reclaimed _ visible => visible = false
  | _ => True

/-! ### The coordinator -/

namespace State
variable (budget : ℕ) (acquire : ℕ → Bool) (s : State κ) (c : Client κ)

/-- `clients.get`. -/
def get (id : κ) : Option (Client κ) := lookup Client.id id s.clients

def update (f : Fields → Fields) : State κ := { s with fields := Function.update s.fields c (f (s.fields c)) }

/-- `owed.add`. -/
def owe : State κ := { s with owed := if c ∈ s.owed then s.owed else s.owed ++ [c] }

/-- The books of a context that is gone. -/
def letGo (effect : Effect κ) : State κ :=
  { s.update c fun f => { f with granted := false } with log := effect :: s.log }

def grantCount : ℕ := s.clients.countP fun c => (s.fields c).granted

def cancelAcquire : State κ := s.update c fun f => { f with acquireTimer := none }

def reclaim (effect : Effect κ) : State κ := if (s.fields c).granted then s.letGo c effect else s

def lruHiddenHolder : Option (Client κ) :=
  (s.clients.filter fun c => (s.fields c).granted && !(s.fields c).visible).argmin fun c => (s.fields c).hiddenAt

/-- `acquire` tells of each call whether it succeeds. -/
def doGrant : State κ :=
  let s' : State κ := { s with attempts := s.attempts + 1 }
  if acquire s.attempts then
    { s'.update c fun f => { f with granted := true } with
      log := .acquired c s.enabled s.gestureActive :: s.log }
  else s'

def tryGrant (s : State κ) (c : Client κ) : State κ :=
  let s := s.cancelAcquire c
  if (s.get c.id).isNone || !(s.fields c).visible || (s.fields c).granted then s
  else if !s.enabled then s
  else if s.zoomCrisp then s
  else if s.gestureActive then (s.update c fun f => { f with releaseOwed := false }).owe c
  else if s.grantCount < budget then s.doGrant acquire c
  else
    match s.lruHiddenHolder with
    | none => s
    | some victim => (s.reclaim victim (.reclaimed victim (s.fields victim).visible)).doGrant acquire c

/-- One client of the queue, and whether a renderer was swapped for it. -/
def drainOne (s : State κ) (c : Client κ) : State κ × Bool :=
  let s : State κ := { s with owed := s.owed.filter fun d => d ≠ c }
  if (s.get c.id).isNone then (s, false)
  else if (s.fields c).releaseOwed then
    let s := s.update c fun f => { f with releaseOwed := false }
    if (s.fields c).granted && (s.zoomCrisp || !(s.fields c).visible || !s.enabled) then
      (s.reclaim c (.released c), true)
    else (s, false)
  else if !(s.fields c).granted && (s.fields c).visible then
    let s := s.tryGrant budget acquire c
    (s, (s.fields c).granted)
  else (s, false)

/-- The loop of `drain` over what was in the queue when it began. -/
def drainAll : List (Client κ) → ℕ → State κ → State κ
  | [], _, s => s
  | c :: cs, ops, s =>
    if WEBGL_SWAPS_PER_DRAIN ≤ ops then s
    else
      let r := s.drainOne budget acquire c
      drainAll cs (if r.2 then ops + 1 else ops) r.1

def drain : State κ :=
  if s.gestureActive then { s with drainTimer := false }
  else if s.drainTimer then s
  else { drainAll budget acquire s.owed 0 s with drainTimer := true }

def setWebglEnabled (on : Bool) : State κ :=
  if s.enabled = on then s
  else
    let s' : State κ := { s with enabled := on }
    if on then s.clients.foldl (fun s c => if (s.fields c).visible then s.tryGrant budget acquire c else s) s'
    else s.clients.foldl (fun s c => (s.cancelAcquire c).reclaim c (.released c)) s'

def isLowDpi (ratio : Option ℚ) : Bool := ratio.any fun r => r < LOW_DPI_BELOW

/-- What a zoom past the threshold asks of a client on screen. -/
def crispOne (s : State κ) (c : Client κ) : State κ :=
  let s := s.cancelAcquire c
  if (s.fields c).granted && (s.fields c).visible then (s.update c fun f => { f with releaseOwed := true }).owe c
  else s

/-- What a zoom back under the threshold asks of it. -/
def resumeOne (s : State κ) (c : Client κ) : State κ :=
  let s := if (s.fields c).granted && (s.fields c).releaseOwed && (s.fields c).visible then
      s.update c fun f => { f with releaseOwed := false }
    else s
  if (s.fields c).visible && !(s.fields c).granted then (s.update c fun f => { f with releaseOwed := false }).owe c
  else s

def applyZoomCrisp (zoom : ℚ) (displayChanged : Bool) : State κ :=
  let lowDpi := isLowDpi s.devicePixelRatio
  let crispAbove := if lowDpi then WEBGL_LOW_DPI_CRISP_ABOVE_ZOOM else WEBGL_CRISP_ABOVE_ZOOM
  let resumeBelow := if lowDpi then WEBGL_LOW_DPI_GPU_RESUME_BELOW_ZOOM else WEBGL_GPU_RESUME_BELOW_ZOOM
  let next : Bool := if s.zoomCrisp && !displayChanged then resumeBelow < zoom else crispAbove < zoom
  if next = s.zoomCrisp then s
  else
    let s' : State κ := { s with zoomCrisp := next }
    if next then (s.clients.foldl crispOne s').drain budget acquire
    else if !s.enabled then s'
    else (s.clients.foldl resumeOne s').drain budget acquire

/-- `none` stands for a number that is not finite, here and for the ratio. -/
def setWebglZoom : Option ℚ → State κ
  | none => s
  | some zoom => { s with lastZoom := zoom }.applyZoomCrisp budget acquire zoom false

def setWebglDevicePixelRatio : Option ℚ → State κ
  | none => s
  | some dpr =>
    if dpr ≤ 0 || some dpr = s.devicePixelRatio then s
    else
      { s with devicePixelRatio := some dpr }.applyZoomCrisp budget acquire s.lastZoom
        (isLowDpi (some dpr) != isLowDpi s.devicePixelRatio)

def setWebglGesture (active : Bool) : State κ :=
  if s.gestureActive = active then s
  else if active then { s with gestureActive := active }
  else { s with gestureActive := active }.drain budget acquire

def releaseAllHiddenGrants : State κ :=
  (s.clients.foldl (fun s c =>
    if !(s.fields c).granted || (s.fields c).visible then s
    else (s.update c fun f => { f with releaseOwed := true }).owe c) s).drain budget acquire

def setVisible (visible : Bool) : State κ :=
  if (s.fields c).visible = visible then s
  else
    let s := s.update c fun f => { f with visible := visible, lossStreak := 0 }
    if visible then
      let s := s.update c fun f => { f with releaseOwed := false }
      if (s.fields c).granted then
        if s.zoomCrisp then ((s.update c fun f => { f with releaseOwed := true }).owe c).drain budget acquire else s
      else s.update c fun f => { f with acquireTimer := f.acquireTimer.or (some .debounce) }
    else
      let s' : State κ := { s with visibilityClock := s.visibilityClock + 1 }
      let s := (s'.update c fun f => { f with hiddenAt := s'.visibilityClock }).cancelAcquire c
      if s.zoomCrisp then s.update c fun f => { f with releaseOwed := false } else s

def registerWebglClient (id : κ) : State κ :=
  let s := match s.get id with
    | none => s
    | some existing => (s.cancelAcquire existing).reclaim existing (.released existing)
  let client : Client κ := ⟨id, s.registrations⟩
  { s.update client fun _ => {} with
    clients := put Client.id client s.clients, registrations := s.registrations + 1 }

def contextLost : State κ :=
  let s := s.letGo c (.lost c)
  let s := s.update c fun f => { f with lossStreak := f.lossStreak + 1 }
  if (s.fields c).visible && (s.fields c).lossStreak ≤ WEBGL_LOSS_STREAK_MAX then
    s.update c fun f => { f with acquireTimer := f.acquireTimer.or (some .reacquire) }
  else s

def dispose : State κ :=
  let s := s.cancelAcquire c
  let s : State κ := { s with owed := s.owed.filter fun d => d ≠ c }
  let s := s.reclaim c (.released c)
  { s with clients := s.clients.filter fun d => d.id ≠ c.id }

end State

inductive Action (κ : Type)
  | registerWebglClient (id : κ)
  | setVisible (c : Client κ) (visible : Bool)
  | contextLost (c : Client κ)
  | dispose (c : Client κ)
  | setWebglEnabled (on : Bool)
  | setWebglZoom (zoom : Option ℚ)
  | setWebglDevicePixelRatio (dpr : Option ℚ)
  | setWebglGesture (active : Bool)
  | releaseAllHiddenGrants
  | acquireTimerFires (c : Client κ)
  | drainTimerFires

/-- The calls and the timers, in any order. A superseded handle does nothing, even if its context is lost. -/
def step (budget : ℕ) (acquire : ℕ → Bool) (s : State κ) : Action κ → Option (State κ)
  | .registerWebglClient id => some (s.registerWebglClient id)
  | .setVisible c visible => some (if s.get c.id = some c then s.setVisible budget acquire c visible else s)
  | .contextLost c => some (if s.get c.id = some c then s.contextLost c else { s with log := .lost c :: s.log })
  | .dispose c => some (if s.get c.id = some c then s.dispose c else s)
  | .setWebglEnabled on => some (s.setWebglEnabled budget acquire on)
  | .setWebglZoom zoom => some (s.setWebglZoom budget acquire zoom)
  | .setWebglDevicePixelRatio dpr => some (s.setWebglDevicePixelRatio budget acquire dpr)
  | .setWebglGesture active => some (s.setWebglGesture budget acquire active)
  | .releaseAllHiddenGrants => some (s.releaseAllHiddenGrants budget acquire)
  | .acquireTimerFires c =>
    match (s.fields c).acquireTimer with
    | none => none
    | some .debounce => some ((s.cancelAcquire c).tryGrant budget acquire c)
    | some .reacquire =>
      some ((((s.cancelAcquire c).update c fun f => { f with releaseOwed := false }).owe c).drain budget acquire)
  | .drainTimerFires =>
    if s.drainTimer then
      some (if s.owed.isEmpty then { s with drainTimer := false } else { s with drainTimer := false }.drain budget acquire)
    else none

/-- A call that registers a client does not take the place of one that waits in the queue to be granted a context. -/
def Settled (s : State κ) : Action κ → Prop
  | .registerWebglClient id =>
    ∀ c ∈ s.owed, s.get id = some c → (s.fields c).visible = true → (s.fields c).releaseOwed = true
  | _ => True

/-! ### The books are right -/

/-- What holds between the calls, with the clients of the registry: the contexts held are those of the clients granted
one, and a superseded client waits for none. -/
structure Sound (budget : ℕ) (clients : List (Client κ)) (s : State κ) : Prop where
  registered : s.clients = clients
  ids : KeysNodup Client.id clients
  earlier : ∀ c ∈ clients, c.registration < s.registrations
  granted : ∀ c, c ∈ held s.log ↔ c ∈ clients ∧ (s.fields c).granted = true
  once : (held s.log).Nodup
  room : (held s.log).length ≤ budget
  lawful : ∀ e ∈ s.log, e.Lawful
  queue : s.owed.Nodup
  untimed : ∀ c, c ∉ clients → (s.fields c).acquireTimer = none
  superseded : ∀ c ∈ s.owed, c ∉ clients → (s.fields c).visible = true → (s.fields c).releaseOwed = true

namespace Sound
variable {budget : ℕ} {acquire : ℕ → Bool} {clients : List (Client κ)} {s : State κ} {c : Client κ}

section
variable (hs : Sound budget clients s)
include hs

theorem update {f : Fields → Fields} (hgranted : (f (s.fields c)).granted = (s.fields c).granted)
    (hc : c ∈ clients ∨ c ∉ s.owed ∧ (f (s.fields c)).acquireTimer = (s.fields c).acquireTimer) :
    Sound budget clients (s.update c f) := by
  have hat : ∀ d, d ≠ c → (s.update c f).fields d = s.fields d := fun d hd => Function.update_of_ne hd _ _
  have hself : (s.update c f).fields c = f (s.fields c) := Function.update_self _ _ _
  refine { hs with granted := ?_, untimed := ?_, superseded := ?_ }
  · intro d
    by_cases hd : d = c
    · rw [hd, hself, hgranted]
      exact hs.granted c
    · rw [hat d hd]
      exact hs.granted d
  · intro d hout
    by_cases hd : d = c
    · subst hd
      rw [hself, (hc.resolve_left hout).2]
      exact hs.untimed d hout
    · rw [hat d hd]
      exact hs.untimed d hout
  · intro d hd hout
    have hne : d ≠ c := by
      intro heq
      subst heq
      exact (hc.resolve_left hout).1 hd
    rw [hat d hne]
    exact hs.superseded d hd hout

theorem owe (hc : c ∈ clients) : Sound budget clients (s.owe c) := by
  have howed : ∀ d ∈ (s.owe c).owed, d ∈ s.owed ∨ d = c := by
    intro d hd
    simp only [State.owe] at hd
    split at hd
    · exact .inl hd
    · simpa using hd
  refine { hs with queue := ?_, superseded := ?_ }
  · simp only [State.owe]
    split
    · exact hs.queue
    · next hnew => exact nodup_append_comm.mpr (nodup_cons.mpr ⟨hnew, hs.queue⟩)
  · intro d hd hout
    rcases howed d hd with hd | rfl
    · exact hs.superseded d hd hout
    · exact absurd hc hout

theorem unowe : Sound budget clients { s with owed := s.owed.filter fun d => d ≠ c } :=
  { hs with
    queue := hs.queue.filter _
    superseded := fun d hd => hs.superseded d (mem_of_mem_filter hd) }

theorem letGo {e : Effect κ} (heffect : held (e :: s.log) = (held s.log).filter fun d => d ≠ c) (hlawful : e.Lawful) :
    Sound budget clients (s.letGo c e) := by
  have hfields : ∀ d, d ≠ c → (s.letGo c e).fields d = s.fields d := fun d hd => Function.update_of_ne hd _ _
  have hself : (s.letGo c e).fields c = { s.fields c with granted := false } := Function.update_self _ _ _
  have hheld : held (s.letGo c e).log = (held s.log).filter fun d => d ≠ c := heffect
  refine { hs with granted := ?_, once := ?_, room := ?_, lawful := ?_, untimed := ?_, superseded := ?_ }
  · intro d
    rw [hheld, mem_filter, hs.granted d]
    by_cases hd : d = c
    · simp [hd, hself]
    · simp [hd, hfields d hd]
  · rw [hheld]
    exact hs.once.filter _
  · rw [hheld]
    exact (length_filter_le _ _).trans hs.room
  · exact forall_mem_cons.mpr ⟨hlawful, hs.lawful⟩
  · intro d hout
    by_cases hd : d = c
    · rw [hd, hself]
      exact hs.untimed c (hd ▸ hout)
    · rw [hfields d hd]
      exact hs.untimed d hout
  · intro d hd hout
    by_cases hdc : d = c
    · rw [hdc, hself]
      exact hs.superseded c (hdc ▸ hd) (hdc ▸ hout)
    · rw [hfields d hdc]
      exact hs.superseded d hd hout

theorem reclaim {e : Effect κ}
    (heffect : held (e :: s.log) = (held s.log).filter fun d => d ≠ c) (hlawful : e.Lawful) :
    Sound budget clients (s.reclaim c e) := by
  unfold State.reclaim
  split
  · exact hs.letGo heffect hlawful
  · exact hs

theorem cancelAcquire (hc : c ∈ clients) : Sound budget clients (s.cancelAcquire c) :=
  hs.update rfl (.inl hc)

/-- The clients granted a context are as many as the contexts held. -/
theorem grantCount_eq : s.grantCount = (held s.log).length := by
  have hmem : ∀ d, d ∈ held s.log ↔ d ∈ clients.filter fun d => (s.fields d).granted := by
    intro d
    rw [hs.granted, mem_filter]
  have hnodup : (clients.filter fun d => (s.fields d).granted).Nodup := (List.Nodup.of_map _ hs.ids).filter _
  have hperm := (perm_ext_iff_of_nodup hs.once hnodup).mpr hmem
  unfold State.grantCount
  rw [hs.registered, countP_eq_length_filter, hperm.length_eq]

theorem doGrant (hc : c ∈ clients) (hgranted : (s.fields c).granted = false)
    (hroom : (held s.log).length < budget) (hon : s.enabled = true) (hrest : s.gestureActive = false) :
    Sound budget clients (s.doGrant acquire c) := by
  unfold State.doGrant
  split
  · have hnew : c ∉ held s.log := by
      intro hheld
      simp [((hs.granted c).mp hheld).2] at hgranted
    refine { hs with granted := ?_, once := ?_, room := hroom, lawful := ?_, untimed := ?_, superseded := ?_ }
    · intro d
      by_cases hd : d = c
      · simp [held, State.update, hd, hc]
      · simpa [held, State.update, hd] using hs.granted d
    · exact nodup_cons.mpr ⟨hnew, hs.once⟩
    · exact forall_mem_cons.mpr ⟨⟨hon, hrest⟩, hs.lawful⟩
    · intro d hout
      have hd : d ≠ c := fun heq => hout (heq ▸ hc)
      simpa [State.update, hd] using hs.untimed d hout
    · intro d howed hout
      have hd : d ≠ c := fun heq => hout (heq ▸ hc)
      simpa [State.update, hd] using hs.superseded d howed hout
  · exact { hs with }

end

omit [DecidableEq κ] in
theorem of_lruHiddenHolder {victim : Client κ} (h : s.lruHiddenHolder = some victim) :
    victim ∈ s.clients ∧ (s.fields victim).granted = true ∧ (s.fields victim).visible = false := by
  have hmem := mem_filter.mp (argmin_mem (Option.mem_def.mpr h))
  simpa using hmem

theorem tryGrant (hs : Sound budget clients s) (hc : c ∈ clients) :
    Sound budget clients (s.tryGrant budget acquire c) := by
  have hs' := hs.cancelAcquire hc
  unfold State.tryGrant
  generalize s.cancelAcquire c = t at hs'
  dsimp only
  split
  · exact hs'
  next hidle =>
  split
  · exact hs'
  next hon =>
  split
  · exact hs'
  split
  · exact (hs'.update rfl (.inl hc)).owe hc
  next hrest =>
  have hnot : (t.fields c).granted = false := by
    cases hg : (t.fields c).granted with
    | false => rfl
    | true => simp [hg] at hidle
  have hon : t.enabled = true := by simpa using hon
  have hrest : t.gestureActive = false := by simpa using hrest
  split
  · next hroom =>
    rw [hs'.grantCount_eq] at hroom
    exact hs'.doGrant hc hnot hroom hon hrest
  · split
    · exact hs'
    · next victim hvictim =>
      obtain ⟨hin, hgranted, hhidden⟩ := of_lruHiddenHolder hvictim
      have hheld : victim ∈ held t.log := (hs'.granted victim).mpr ⟨hs'.registered ▸ hin, hgranted⟩
      have hless : ((held t.log).filter fun d => d ≠ victim).length < (held t.log).length :=
        length_filter_lt_length_iff_exists.mpr ⟨victim, hheld, by simp⟩
      have hfreed := hs'.letGo (c := victim) (e := .reclaimed victim (t.fields victim).visible) rfl hhidden
      have hreclaim : t.reclaim victim (.reclaimed victim (t.fields victim).visible) =
          t.letGo victim (.reclaimed victim (t.fields victim).visible) := if_pos hgranted
      rw [hreclaim]
      have hne : c ≠ victim := by
        intro heq
        rw [heq, hgranted] at hnot
        cases hnot
      have hstill : ((t.letGo victim (.reclaimed victim (t.fields victim).visible)).fields c).granted = false :=
        (congrArg Fields.granted (Function.update_of_ne hne _ _)).trans hnot
      have hroom := hs'.room
      exact hfreed.doGrant hc hstill (Nat.lt_of_lt_of_le hless hroom) hon hrest

/-- A client leaves the queue, and a grant that it waits for goes to a registered one. -/
theorem drainOne (hs : Sound budget clients s) (hin : c ∈ s.owed) :
    Sound budget clients (s.drainOne budget acquire c).1 := by
  have hs' := hs.unowe (c := c)
  have hout : c ∉ (s.owed.filter fun d => d ≠ c) := by simp
  have hnever := hs.superseded c hin
  unfold State.drainOne
  generalize ht : ({ s with owed := s.owed.filter fun d => d ≠ c } : State κ) = t at hs'
  have hfields : t.fields = s.fields := by rw [← ht]
  have howed : c ∉ t.owed := by
    rw [← ht]
    exact hout
  dsimp only
  split
  · exact hs'
  split
  · have hforgiven := hs'.update (c := c) (f := fun f => { f with releaseOwed := false }) rfl (.inr ⟨howed, rfl⟩)
    split
    · exact hforgiven.reclaim rfl trivial
    · exact hforgiven
  next howes =>
  split
  · next hwaits =>
    have hc : c ∈ clients := by
      by_contra hc
      rw [hfields] at howes hwaits
      simp only [Bool.and_eq_true] at hwaits
      exact howes (hnever hc hwaits.2)
    exact hs'.tryGrant hc
  · exact hs'

/-- At rest no grant joins the queue. -/
theorem resting_tryGrant {queue : List (Client κ)} (hrest : s.owed = queue ∧ s.gestureActive = false) :
    (s.tryGrant budget acquire c).owed = queue ∧ (s.tryGrant budget acquire c).gestureActive = false := by
  have hgrant : ∀ t : State κ, t.owed = queue ∧ t.gestureActive = false →
      (t.doGrant acquire c).owed = queue ∧ (t.doGrant acquire c).gestureActive = false := by
    intro t ht
    unfold State.doGrant
    split <;> exact ht
  have hreclaim : ∀ (t : State κ) (d : Client κ) (e : Effect κ), t.owed = queue ∧ t.gestureActive = false →
      (t.reclaim d e).owed = queue ∧ (t.reclaim d e).gestureActive = false := by
    intro t d e ht
    unfold State.reclaim
    split <;> exact ht
  have ht : (s.cancelAcquire c).owed = queue ∧ (s.cancelAcquire c).gestureActive = false := hrest
  unfold State.tryGrant
  generalize s.cancelAcquire c = t at ht
  dsimp only
  split
  · exact ht
  split
  · exact ht
  split
  · exact ht
  split
  · next hgesture => simp [ht.2] at hgesture
  split
  · exact hgrant t ht
  split
  · exact ht
  · exact hgrant _ (hreclaim t _ _ ht)

theorem resting_drainOne (hrest : s.gestureActive = false) :
    (s.drainOne budget acquire c).1.owed = s.owed.filter (fun d => d ≠ c) ∧
      (s.drainOne budget acquire c).1.gestureActive = false := by
  have ht : ({ s with owed := s.owed.filter fun d => d ≠ c } : State κ).owed = s.owed.filter (fun d => d ≠ c) ∧
      ({ s with owed := s.owed.filter fun d => d ≠ c } : State κ).gestureActive = false := ⟨rfl, hrest⟩
  unfold State.drainOne
  generalize ({ s with owed := s.owed.filter fun d => d ≠ c } : State κ) = t at ht
  dsimp only
  split
  · exact ht
  split
  · split
    · unfold State.reclaim
      split <;> exact ht
    · exact ht
  split
  · exact resting_tryGrant ht
  · exact ht

theorem drainAll (hs : Sound budget clients s) (hrest : s.gestureActive = false) {cs : List (Client κ)}
    (hcs : cs.Nodup) (hin : ∀ d ∈ cs, d ∈ s.owed) (ops : ℕ) :
    Sound budget clients (State.drainAll budget acquire cs ops s) := by
  induction cs generalizing s ops with
  | nil => exact hs
  | cons c cs ih =>
    rw [State.drainAll]
    split
    · exact hs
    · obtain ⟨hnew, hcs⟩ := nodup_cons.mp hcs
      obtain ⟨howed, hstill⟩ : (s.drainOne budget acquire c).1.owed = _ ∧ _ := resting_drainOne hrest
      apply ih (hs.drainOne (hin c mem_cons_self)) hstill hcs
      intro d hd
      rw [howed]
      have hne : d ≠ c := fun heq => hnew (heq ▸ hd)
      simpa [hne] using hin d (mem_cons_of_mem c hd)

theorem drain (hs : Sound budget clients s) : Sound budget clients (s.drain budget acquire) := by
  unfold State.drain
  split
  · exact { hs with }
  split
  · exact hs
  · next hgesture _ =>
    have hall : Sound budget clients (State.drainAll budget acquire s.owed 0 s) :=
      hs.drainAll (by simpa using hgesture) hs.queue (fun _ hd => hd) 0
    exact { hall with }

/-- A loop over the registry, one client at a time. -/
theorem foldl {op : State κ → Client κ → State κ}
    (hop : ∀ t c, c ∈ clients → Sound budget clients t → Sound budget clients (op t c))
    (hs : Sound budget clients s) : Sound budget clients (s.clients.foldl op s) := by
  have hall : ∀ cs : List (Client κ), (∀ c ∈ cs, c ∈ clients) → ∀ t, Sound budget clients t →
      Sound budget clients (cs.foldl op t) := by
    intro cs
    induction cs with
    | nil => exact fun _ t ht => ht
    | cons c cs ih =>
      intro hin t ht
      have hrest := fun d hd => hin d (mem_cons_of_mem c hd)
      exact ih hrest _ (hop t c (hin c mem_cons_self) ht)
  exact hall s.clients (fun c hc => hs.registered ▸ hc) s hs

section
variable (hs : Sound budget clients s)
include hs

theorem setWebglEnabled (on : Bool) : Sound budget clients (s.setWebglEnabled budget acquire on) := by
  have hflag : Sound budget clients { s with enabled := on } := { hs with }
  unfold State.setWebglEnabled
  split
  · exact hs
  dsimp only
  split
  · refine foldl (s := { s with enabled := on }) (fun t c hc ht => ?_) hflag
    split
    · exact ht.tryGrant hc
    · exact ht
  · exact foldl (s := { s with enabled := on }) (fun t c hc ht => (ht.cancelAcquire hc).reclaim rfl trivial) hflag

theorem crispOne (hc : c ∈ clients) : Sound budget clients (s.crispOne c) := by
  have hs' := hs.cancelAcquire hc
  unfold State.crispOne
  dsimp only
  split
  · exact (hs'.update rfl (.inl hc)).owe hc
  · exact hs'

theorem resumeOne (hc : c ∈ clients) : Sound budget clients (s.resumeOne c) := by
  have hforgiven : ∀ t : State κ, Sound budget clients t →
      Sound budget clients (t.update c fun f => { f with releaseOwed := false }) := fun t ht => ht.update rfl (.inl hc)
  have hqueued : ∀ t : State κ, Sound budget clients t → Sound budget clients
      (if (t.fields c).visible && !(t.fields c).granted then (t.update c fun f => { f with releaseOwed := false }).owe c
        else t) := by
    intro t ht
    split
    · exact (hforgiven t ht).owe hc
    · exact ht
  unfold State.resumeOne
  dsimp only
  split
  · exact hqueued _ (hforgiven s hs)
  · exact hqueued s hs

theorem applyZoomCrisp (zoom : ℚ) (displayChanged : Bool) :
    Sound budget clients (s.applyZoomCrisp budget acquire zoom displayChanged) := by
  have hflag : ∀ b, Sound budget clients { s with zoomCrisp := b } := fun b => { hs with }
  unfold State.applyZoomCrisp
  dsimp only
  generalize (if s.zoomCrisp && !displayChanged then _ else _ : Bool) = next
  split
  · exact hs
  split
  · exact (foldl (s := { s with zoomCrisp := next }) (fun t c hc ht => ht.crispOne hc) (hflag next)).drain
  split
  · exact hflag next
  · exact (foldl (s := { s with zoomCrisp := next }) (fun t c hc ht => ht.resumeOne hc) (hflag next)).drain

theorem releaseAllHiddenGrants : Sound budget clients (s.releaseAllHiddenGrants budget acquire) := by
  refine (foldl (fun t c hc ht => ?_) hs).drain
  split
  · exact ht
  · exact (ht.update rfl (.inl hc)).owe hc

theorem setVisible (hc : c ∈ clients) (visible : Bool) :
    Sound budget clients (s.setVisible budget acquire c visible) := by
  have hupdate : ∀ (t : State κ) (f : Fields → Fields), (∀ g, (f g).granted = g.granted) →
      Sound budget clients t → Sound budget clients (t.update c f) := fun t f hf ht => ht.update (hf _) (.inl hc)
  unfold State.setVisible
  split
  · exact hs
  have hseen := hupdate s (fun f => { f with visible := visible, lossStreak := 0 }) (fun _ => rfl) hs
  generalize s.update c _ = t at hseen
  dsimp only
  split
  · have hkept := hupdate t (fun f => { f with releaseOwed := false }) (fun _ => rfl) hseen
    split
    · split
      · exact ((hupdate _ (fun f => { f with releaseOwed := true }) (fun _ => rfl) hkept).owe hc).drain
      · exact hkept
    · exact hupdate _ _ (fun _ => rfl) hkept
  · have hclock : Sound budget clients { t with visibilityClock := t.visibilityClock + 1 } := { hseen with }
    have hhidden := (hupdate _ (fun f => { f with hiddenAt := t.visibilityClock + 1 }) (fun _ => rfl) hclock).cancelAcquire hc
    split
    · exact hupdate _ _ (fun _ => rfl) hhidden
    · exact hhidden

theorem contextLost (hc : c ∈ clients) : Sound budget clients (s.contextLost c) := by
  have hlost := hs.letGo (c := c) (e := .lost c) rfl trivial
  have hstreak := hlost.update (c := c) (f := fun f => { f with lossStreak := f.lossStreak + 1 }) rfl (.inl hc)
  unfold State.contextLost
  dsimp only
  split
  · exact hstreak.update rfl (.inl hc)
  · exact hstreak

/-- A new client comes into the registry. -/
theorem enroll {enrolled : List (Client κ)} (hids : KeysNodup Client.id enrolled)
    (hc : c.registration = s.registrations) (hmem : ∀ d, d ∈ enrolled ↔ d = c ∨ d ∈ clients) :
    Sound budget enrolled
      { s.update c fun _ => {} with clients := enrolled, registrations := s.registrations + 1 } := by
  have hat : ∀ d, d ≠ c → (s.update c fun _ => {}).fields d = s.fields d := fun d hd => Function.update_of_ne hd _ _
  have hself : (s.update c fun _ => {}).fields c = {} := Function.update_self _ _ _
  have hnew : c ∉ clients := by
    intro hin
    have hearlier := hs.earlier c hin
    omega
  have hout : ∀ d, d ∉ enrolled → d ≠ c ∧ d ∉ clients := by
    intro d hd
    rw [hmem] at hd
    exact not_or.mp hd
  refine { hs with registered := rfl, ids := hids, earlier := ?_, granted := ?_, untimed := ?_, superseded := ?_ }
  · intro d hd
    rcases (hmem d).mp hd with rfl | hd
    · exact Nat.lt_succ_of_le hc.le
    · exact Nat.lt_succ_of_lt (hs.earlier d hd)
  · intro d
    change d ∈ held s.log ↔ d ∈ enrolled ∧ ((s.update c fun _ => {}).fields d).granted = true
    rw [hs.granted d, hmem]
    by_cases hd : d = c
    · simp [hd, hself, hnew]
    · simp [hd, hat d hd]
  · intro d hd
    obtain ⟨hne, hd⟩ := hout d hd
    exact (congrArg Fields.acquireTimer (hat d hne)).trans (hs.untimed d hd)
  · intro d howed hd
    obtain ⟨hne, hd⟩ := hout d hd
    change ((s.update c fun _ => {}).fields d).visible = true → ((s.update c fun _ => {}).fields d).releaseOwed = true
    rw [hat d hne]
    exact hs.superseded d howed hd

/-- A client stops: no timer of it runs, and it holds no context. -/
theorem stop (hc : c ∈ clients) :
    ∃ t, t = (s.cancelAcquire c).reclaim c (.released c) ∧ Sound budget clients t ∧ t.owed = s.owed ∧
      t.registrations = s.registrations ∧ t.fields c = { s.fields c with acquireTimer := none, granted := false } := by
  have hcancelled : (s.cancelAcquire c).fields c = { s.fields c with acquireTimer := none } := Function.update_self _ _ _
  have hsound := (hs.cancelAcquire hc).reclaim (c := c) (e := .released c) rfl trivial
  refine ⟨_, rfl, hsound, ?_⟩
  unfold State.reclaim
  split
  · have hself : ((s.cancelAcquire c).letGo c (.released c)).fields c =
        { (s.cancelAcquire c).fields c with granted := false } := Function.update_self _ _ _
    exact ⟨rfl, rfl, by rw [hself, hcancelled]⟩
  · next hnot =>
    rw [hcancelled] at hnot
    refine ⟨rfl, rfl, hcancelled.trans ?_⟩
    cases hg : (s.fields c).granted with
    | true => simp [hg] at hnot
    | false => rw [← hg]

/-- A client that has stopped leaves the registry. -/
theorem leave (hc : c ∈ clients) (hgranted : (s.fields c).granted = false) (htimer : (s.fields c).acquireTimer = none)
    (howed : c ∈ s.owed → (s.fields c).visible = true → (s.fields c).releaseOwed = true) :
    Sound budget (clients.filter fun d => d.id ≠ c.id) { s with clients := clients.filter fun d => d.id ≠ c.id } := by
  have hout : ∀ d, d ∉ clients.filter (fun d => d.id ≠ c.id) → d ∈ clients → d = c := by
    intro d hd hin
    have hid : d.id = c.id := by
      by_contra hne
      exact hd (mem_filter.mpr ⟨hin, by simpa using hne⟩)
    have hat := hs.ids.lookup_of_mem hin
    rw [hid, hs.ids.lookup_of_mem hc, Option.some.injEq] at hat
    exact hat.symm
  refine { hs with registered := rfl, ids := hs.ids.filter _, earlier := ?_, granted := ?_, untimed := ?_, superseded := ?_ }
  · exact fun d hd => hs.earlier d (mem_of_mem_filter hd)
  · intro d
    rw [hs.granted d]
    refine ⟨fun ⟨hd, hholds⟩ => ⟨?_, hholds⟩, fun ⟨hd, hholds⟩ => ⟨mem_of_mem_filter hd, hholds⟩⟩
    by_contra hnot
    rw [hout d hnot hd, hgranted] at hholds
    cases hholds
  · intro d hnot
    by_cases hd : d ∈ clients
    · exact hout d hnot hd ▸ htimer
    · exact hs.untimed d hd
  · intro d hin hnot
    by_cases hd : d ∈ clients
    · have heq := hout d hnot hd
      subst heq
      exact howed hin
    · exact hs.superseded d hin hd

theorem dispose (hc : s.get c.id = some c) : ∃ remaining, Sound budget remaining (s.dispose c) := by
  have hin : c ∈ clients := hs.registered ▸ mem_of_lookup hc
  obtain ⟨t, ht, hsound, howed, -, hfields⟩ := (hs.unowe (c := c)).stop hin
  have hgone : c ∉ t.owed := by
    rw [howed]
    simp
  have hleft := hsound.leave hin (by rw [hfields]) (by rw [hfields]) fun hwaits => absurd hwaits hgone
  have heq : s.dispose c = { t with clients := t.clients.filter fun d => d.id ≠ c.id } := by
    rw [ht]
    rfl
  rw [heq, hsound.registered]
  exact ⟨_, hleft⟩

theorem registerWebglClient {id : κ} (hok : Settled s (.registerWebglClient id)) :
    ∃ enrolled, Sound budget enrolled (s.registerWebglClient id) := by
  have hget : s.get id = lookup Client.id id clients := by rw [State.get, hs.registered]
  unfold State.registerWebglClient
  cases hexisting : lookup Client.id id clients with
  | none =>
    rw [hget, hexisting]
    have hfree : ∀ d ∈ clients, d.id ≠ id := lookup_eq_none.mp hexisting
    have henrolled := hs.enroll (c := ⟨id, s.registrations⟩) (hs.ids.put ⟨id, s.registrations⟩) rfl fun d => by
      rw [hs.ids.mem_put]
      exact or_congr_right (and_iff_left_of_imp (hfree d))
    dsimp only
    rw [hs.registered]
    exact ⟨_, henrolled⟩
  | some e =>
    have hin := mem_of_lookup hexisting
    have hid : e.id = id := key_of_lookup hexisting
    obtain ⟨t, ht, hsound, howed, hcount, hfields⟩ := hs.stop hin
    have hleft := hsound.leave hin (by rw [hfields]) (by rw [hfields]) fun hwaits => by
      rw [howed] at hwaits
      rw [hfields]
      exact hok e hwaits (hget.trans hexisting)
    have henrolled := hleft.enroll (c := ⟨id, t.registrations⟩) (hs.ids.put ⟨id, t.registrations⟩) rfl fun d => by
      rw [hs.ids.mem_put, mem_filter]
      simp [hid]
    rw [hget, hexisting]
    have heq : (s.cancelAcquire e).reclaim e (.released e) = t := ht.symm
    simp only [heq]
    rw [hsound.registered]
    exact ⟨_, henrolled⟩

end

theorem initial (budget : ℕ) : Sound budget [] ({} : State κ) := by
  constructor
  case registered => rfl
  case ids => exact nodup_nil
  case granted => simp [held]
  case once => exact nodup_nil
  case room => exact Nat.zero_le budget
  case queue => exact nodup_nil
  all_goals simp

end Sound

theorem sound_step {budget : ℕ} {acquire : ℕ → Bool} {s s' : State κ} {a : Action κ} (hok : Settled s a)
    (hs : ∃ clients, Sound budget clients s) (h : step budget acquire s a = some s') :
    ∃ clients, Sound budget clients s' := by
  obtain ⟨clients, hs⟩ := hs
  have hregistered : ∀ {c : Client κ}, s.get c.id = some c → c ∈ clients :=
    fun hc => hs.registered ▸ mem_of_lookup hc
  have htimed : ∀ {c : Client κ} {t : Timer}, (s.fields c).acquireTimer = some t → c ∈ clients := by
    intro c t hc
    by_contra hout
    simp [hs.untimed c hout] at hc
  cases a with
  | registerWebglClient =>
    cases h
    exact hs.registerWebglClient hok
  | setVisible c visible =>
    cases h
    split
    · next hc => exact ⟨clients, hs.setVisible (hregistered hc) visible⟩
    · exact ⟨clients, hs⟩
  | contextLost c =>
    cases h
    split
    · next hc => exact ⟨clients, hs.contextLost (hregistered hc)⟩
    · next hc =>
      have hnot : c ∉ held s.log := by
        intro hheld
        refine hc ?_
        rw [State.get, hs.registered]
        exact hs.ids.lookup_of_mem ((hs.granted c).mp hheld).1
      have hsame : held (.lost c :: s.log) = held s.log := by
        refine filter_eq_self.mpr fun d hd => ?_
        have hne : d ≠ c := fun heq => hnot (heq ▸ hd)
        simpa using hne
      refine ⟨clients, { hs with granted := ?_, once := ?_, room := ?_, lawful := ?_ }⟩
      · exact fun d => by rw [hsame, hs.granted d]
      · exact hsame ▸ hs.once
      · exact hsame ▸ hs.room
      · exact forall_mem_cons.mpr ⟨trivial, hs.lawful⟩
  | dispose =>
    cases h
    split
    · next hc => exact hs.dispose hc
    · exact ⟨clients, hs⟩
  | setWebglEnabled on =>
    cases h
    exact ⟨clients, hs.setWebglEnabled on⟩
  | setWebglZoom zoom =>
    cases h
    cases zoom with
    | none => exact ⟨clients, hs⟩
    | some zoom =>
      have hflag : Sound budget clients { s with lastZoom := zoom } := { hs with }
      exact ⟨clients, hflag.applyZoomCrisp zoom false⟩
  | setWebglDevicePixelRatio dpr =>
    cases h
    cases dpr with
    | none => exact ⟨clients, hs⟩
    | some dpr =>
      have hflag : Sound budget clients { s with devicePixelRatio := some dpr } := { hs with }
      unfold State.setWebglDevicePixelRatio
      dsimp only
      split
      · exact ⟨clients, hs⟩
      · exact ⟨clients, hflag.applyZoomCrisp _ _⟩
  | setWebglGesture active =>
    cases h
    have hflag : Sound budget clients { s with gestureActive := active } := { hs with }
    unfold State.setWebglGesture
    split
    · exact ⟨clients, hs⟩
    split
    · exact ⟨clients, hflag⟩
    · exact ⟨clients, hflag.drain⟩
  | releaseAllHiddenGrants =>
    cases h
    exact ⟨clients, hs.releaseAllHiddenGrants⟩
  | acquireTimerFires =>
    simp only [step] at h
    split at h
    · cases h
    · next hc =>
      cases h
      exact ⟨clients, (hs.cancelAcquire (htimed hc)).tryGrant (htimed hc)⟩
    · next hc =>
      cases h
      exact ⟨clients, (((hs.cancelAcquire (htimed hc)).update rfl (.inl (htimed hc))).owe (htimed hc)).drain⟩
  | drainTimerFires =>
    simp only [step, Option.ite_none_right_eq_some, Option.some.injEq] at h
    obtain ⟨-, rfl⟩ := h
    have hflag : Sound budget clients { s with drainTimer := false } := { hs with }
    split
    · exact ⟨clients, hflag⟩
    · exact ⟨clients, hflag.drain⟩

/-- The contexts held are within the budget, each of the client that is registered under its id; none was acquired with
the switch off or in a gesture, and no visible holder made room for another client. -/
structure Accounted (budget : ℕ) (s : State κ) : Prop where
  bounded : (held s.log).length ≤ budget
  registered : ∀ c ∈ held s.log, s.get c.id = some c
  lawful : ∀ e ∈ s.log, e.Lawful

/-- In a run that never registers a client in the place of one that waits for its grant, the contexts are accounted
for. -/
theorem contexts_accounted {budget : ℕ} {acquire : ℕ → Bool} {s : State κ} {actions : List (Action κ)}
    (hok : Along (step budget acquire) Settled {} actions) (hr : run? (step budget acquire) {} actions = some s) :
    Accounted budget s := by
  have hstep : ∀ (t : State κ) a t', Settled t a → (∃ clients, Sound budget clients t) →
      step budget acquire t a = some t' → ∃ clients, Sound budget clients t' := fun _ _ _ => sound_step
  obtain ⟨clients, hs⟩ := run?_invariant hstep ⟨[], Sound.initial budget⟩ hok hr
  constructor
  case bounded => exact hs.room
  case registered =>
    intro c hc
    rw [State.get, hs.registered]
    exact hs.ids.lookup_of_mem ((hs.granted c).mp hc).1
  case lawful => exact hs.lawful

/-- A client registered anew while it holds a context. -/
def remount : List (Action ℕ) :=
  [.registerWebglClient 0, .setVisible ⟨0, 0⟩ true, .acquireTimerFires ⟨0, 0⟩, .registerWebglClient 0]

theorem contexts_accounted_remount : ∃ s, run? (step 1 fun _ => true) {} remount = some s ∧ Accounted 1 s := by
  have hok : Along (step 1 fun _ => true) Settled {} remount := by
    refine ⟨?_, trivial, trivial, ?_, trivial⟩ <;> exact fun c hc => by cases hc
  exact ⟨_, rfl, contexts_accounted hok rfl⟩

/-- The first client is parked in a gesture and superseded; at rest the queue still grants it a context, and the budget
of one is overdrawn by the second. -/
def supersede : List (Action ℕ) :=
  [.registerWebglClient 0, .setVisible ⟨0, 0⟩ true, .setWebglGesture true, .acquireTimerFires ⟨0, 0⟩,
    .registerWebglClient 0, .setWebglGesture false, .setVisible ⟨0, 1⟩ true, .acquireTimerFires ⟨0, 1⟩]

theorem contexts_leaked : ∃ s, run? (step 1 fun _ => true) {} supersede = some s ∧
    held s.log = [⟨0, 1⟩, ⟨0, 0⟩] ∧ ¬Accounted 1 s := by
  refine ⟨_, rfl, rfl, fun h => ?_⟩
  have hroom := h.bounded
  revert hroom
  decide

end NodeTerm.Glyphgrid.WebglBudget
