import NodeTerm.Trigger.ArmStore

/-! Consent across a restart: what the loaded store holds armed, against what the user last consented to. -/
namespace NodeTerm.Trigger
open Base List Option

section Lookups
variable {arms : Arms} {p : JsString}

theorem nodesOf_put (nodes : PerNode) (q : JsString) :
    nodesOf (put Prod.fst (p, nodes) arms) q = if q = p then nodes else nodesOf arms q := by
  unfold nodesOf
  rw [lookup_put]
  by_cases hq : q = p <;> simp [hq]

theorem nodesOf_withNodes (nodes : PerNode) (q : JsString) :
    nodesOf (withNodes arms p nodes) q = if q = p then nodes else nodesOf arms q := by
  unfold withNodes
  by_cases hnodes : nodes = []
  · rw [if_pos hnodes, nodesOf, lookup_filter_key (fun key => decide (key ≠ p))]
    by_cases hq : q = p
    · simp [hq, hnodes]
    · simp [hq, nodesOf]
  · rw [if_neg hnodes, nodesOf_put]

theorem nodesOf_filter (arms : Arms) (live : List JsString) (q : JsString) :
    nodesOf (arms.filter fun e => live.contains e.1) q = if q ∈ live then nodesOf arms q else [] := by
  unfold nodesOf
  rw [lookup_filter_key live.contains]
  by_cases hq : q ∈ live <;> simp [hq]

end Lookups

/-! ### What holds of the store -/

structure Kept (s : ArmStore) : Prop where
  projects : KeysNodup Prod.fst s.arms
  nodes : ∀ p, KeysNodup Prod.fst (nodesOf s.arms p)
  times : ∀ p n r, armedRecord s.arms p n = some r → 0 < r.armedAt ∧ r.armedAt ≤ maxSafeInteger
  file : s.file.getD [] = s.arms

theorem kept_start : Kept {} := by
  constructor
  case projects => exact nodup_nil
  case nodes => exact fun _ => nodup_nil
  case times => exact fun p n r h => nomatch h
  case file => rfl

section Calls
variable {s : ArmStore} {dateParses : JsString → Bool}

theorem KeysNodup.withNodes {arms : Arms} (h : KeysNodup Prod.fst arms) (p : JsString) (nodes : PerNode) :
    KeysNodup Prod.fst (withNodes arms p nodes) := by
  unfold NodeTerm.Trigger.withNodes
  split
  · exact h.filter _
  · exact h.put _

theorem Kept.of_arms {arms : Arms} (hprojects : KeysNodup Prod.fst arms)
    (hnodes : ∀ p, KeysNodup Prod.fst (nodesOf arms p))
    (htimes : ∀ p n r, armedRecord arms p n = some r → 0 < r.armedAt ∧ r.armedAt ≤ maxSafeInteger) :
    Kept (ArmStore.persist { s with arms := arms }) :=
  ⟨hprojects, hnodes, htimes, rfl⟩

variable {p n : JsString} {given : JsString → JsString → Option TriggerSpec}

theorem armedRecord_arm (record : TriggerArmRecord) (p' n' : JsString) :
    armedRecord (put Prod.fst (p, put Prod.fst (n, record) (nodesOf s.arms p)) s.arms) p' n' =
      if p = p' ∧ n = n' then some record else armedRecord s.arms p' n' := by
  rw [armedRecord, nodesOf_put]
  by_cases hp : p' = p
  · subst hp
    rw [if_pos rfl, lookup_put]
    by_cases hn : n' = n
    · simp [hn]
    · simp [hn, Ne.symm hn, armedRecord]
  · have hp' : ¬ p = p' := fun heq => hp heq.symm
    simp [hp, hp', armedRecord]

theorem Kept.armed {record : TriggerArmRecord} (h : Kept s)
    (htime : 0 < record.armedAt ∧ record.armedAt ≤ maxSafeInteger) :
    Kept (ArmStore.persist { s with
      arms := put Prod.fst (p, put Prod.fst (n, record) (nodesOf s.arms p)) s.arms }) := by
  refine Kept.of_arms (h.projects.put _) (fun p' => ?_) (fun p' n' r hr => ?_)
  · rw [nodesOf_put]
    split
    · exact (h.nodes p).put _
    · exact h.nodes p'
  · rw [armedRecord_arm] at hr
    split at hr
    · cases hr
      exact htime
    · exact h.times p' n' r hr

theorem armedRecord_withNodes_filter (keep : JsString → Bool) (p' n' : JsString) :
    armedRecord (withNodes s.arms p ((nodesOf s.arms p).filter fun e => keep e.1)) p' n' =
      if p = p' ∧ keep n' = false then none else armedRecord s.arms p' n' := by
  rw [armedRecord, nodesOf_withNodes]
  by_cases hp : p' = p
  · subst hp
    rw [if_pos rfl, lookup_filter_key keep]
    cases hkeep : keep n' with
    | true => simp [armedRecord]
    | false => simp
  · have hp' : ¬ p = p' := fun heq => hp heq.symm
    simp [hp, hp', armedRecord]

theorem Kept.filtered (h : Kept s) (keep : JsString → Bool) : Kept (ArmStore.persist { s with
      arms := withNodes s.arms p ((nodesOf s.arms p).filter fun e => keep e.1) }) := by
  refine Kept.of_arms (KeysNodup.withNodes h.projects ..) (fun p' => ?_) (fun p' n' r hr => ?_)
  · rw [nodesOf_withNodes]
    split
    · exact (h.nodes p).filter _
    · exact h.nodes p'
  · rw [armedRecord_withNodes_filter] at hr
    split at hr
    · cases hr
    · exact h.times p' n' r hr

theorem Kept.pruned (h : Kept s) (live : List JsString) :
    Kept (ArmStore.persist { s with arms := s.arms.filter fun e => live.contains e.1 }) := by
  have hnodesOf := nodesOf_filter s.arms live
  refine Kept.of_arms (h.projects.filter _) (fun p' => ?_) (fun p' n' r hr => ?_)
  · rw [hnodesOf]
    split
    · exact h.nodes p'
    · exact nodup_nil
  · rw [armedRecord, hnodesOf] at hr
    split at hr
    · exact h.times p' n' r hr
    · cases hr

/-! ### What a call makes of the records -/

/-- The store after the call, against the store before it, with the consents before it. -/
structure Honoured (s : ArmStore) (given : JsString → JsString → Option TriggerSpec) : Prop where
  kept : Kept s
  agrees : ∀ p n, validKey p → validKey n →
    (armedRecord s.arms p n).map (·.spec) = (given p n).map canonicalTriggerSpec

theorem Honoured.arm (h : Honoured s given)
    (p n : JsString) (spec : RawSpec) {now : ℤ} (hnow : 0 < now ∧ now ≤ maxSafeInteger) :
    Honoured (s.arm dateParses p n spec now).2
      fun p' n' => consentAfter dateParses p' n' (given p' n') (.arm p n spec now) := by
  unfold ArmStore.arm
  cases hkeys : !validKey p || !validKey n with
  | true =>
    refine ⟨h.kept, fun p' n' hp hn => ?_⟩
    have hother : ¬ (p = p' ∧ n = n') := by
      rintro ⟨rfl, rfl⟩
      simp [hp, hn] at hkeys
    rw [consentAfter, if_neg hother]
    exact h.agrees p' n' hp hn
  | false =>
    cases hsafe : sanitizeTriggerSpec dateParses spec with
    | none =>
      refine ⟨h.kept, fun p' n' hp hn => ?_⟩
      have hsame : consentAfter dateParses p' n' (given p' n') (.arm p n spec now) = given p' n' := by
        rw [consentAfter, hsafe, none_or]
        exact ite_self _
      rw [hsame]
      exact h.agrees p' n' hp hn
    | some safe =>
      refine ⟨h.kept.armed hnow, fun p' n' hp hn => ?_⟩
      have hrecord := armedRecord_arm (s := s) (p := p) (n := n) ⟨now, canonicalTriggerSpec safe⟩ p' n'
      rw [consentAfter, hsafe, some_or]
      change (armedRecord (put Prod.fst (p, put Prod.fst (n, ⟨now, canonicalTriggerSpec safe⟩)
        (nodesOf s.arms p)) s.arms) p' n').map (·.spec) = _
      rw [hrecord]
      by_cases hsame : p = p' ∧ n = n'
      · rw [if_pos hsame, if_pos hsame]
        rfl
      · rw [if_neg hsame, if_neg hsame]
        exact h.agrees p' n' hp hn

theorem Honoured.disarm (h : Honoured s given) (p n : JsString) :
    Honoured (s.disarm p n) fun p' n' => consentAfter dateParses p' n' (given p' n') (.disarm p n) := by
  unfold ArmStore.disarm
  by_cases hfound : (lookup Prod.fst n (nodesOf s.arms p)).isNone = true
  · rw [if_pos hfound]
    refine ⟨h.kept, fun p' n' hp hn => ?_⟩
    rw [consentAfter]
    by_cases hsame : p = p' ∧ n = n'
    · obtain ⟨rfl, rfl⟩ := hsame
      have hnone : armedRecord s.arms p n = none := by
        rw [armedRecord, isNone_iff_eq_none.mp hfound]
        rfl
      rw [if_pos ⟨rfl, rfl⟩]
      simp [hnone]
    · rw [if_neg hsame]
      exact h.agrees p' n' hp hn
  · rw [if_neg hfound]
    refine ⟨h.kept.filtered fun key => decide (key ≠ n), fun p' n' hp hn => ?_⟩
    have hrecord := armedRecord_withNodes_filter (s := s) (p := p) (fun key => decide (key ≠ n)) p' n'
    change (armedRecord (withNodes s.arms p ((nodesOf s.arms p).filter fun e => decide (e.1 ≠ n))) p' n').map
      (·.spec) = _
    rw [hrecord, consentAfter]
    by_cases hsame : p = p' ∧ n = n'
    · rw [if_pos hsame, if_pos ⟨hsame.1, by simp [hsame.2]⟩]
      rfl
    · have hkeep : ¬ (p = p' ∧ decide (n' ≠ n) = false) := fun hboth =>
        hsame ⟨hboth.1, (not_not.mp (of_decide_eq_false hboth.2)).symm⟩
      rw [if_neg hsame, if_neg hkeep]
      exact h.agrees p' n' hp hn

theorem Honoured.pruneProjects (h : Honoured s given) (live : List JsString) :
    Honoured (s.pruneProjects live) fun p' n' => consentAfter dateParses p' n' (given p' n') (.pruneProjects live) := by
  have hrecord : ∀ p' n', armedRecord (s.arms.filter fun e => live.contains e.1) p' n' =
      if p' ∈ live then armedRecord s.arms p' n' else none := by
    intro p' n'
    rw [armedRecord, nodesOf_filter]
    split <;> rfl
  have hagrees : ∀ p' n', validKey p' → validKey n' →
      (armedRecord (s.arms.filter fun e => live.contains e.1) p' n').map (·.spec) =
        (consentAfter dateParses p' n' (given p' n') (.pruneProjects live)).map canonicalTriggerSpec := by
    intro p' n' hp hn
    rw [hrecord, consentAfter]
    by_cases hlive : p' ∈ live
    · rw [if_pos hlive, if_pos hlive]
      exact h.agrees p' n' hp hn
    · rw [if_neg hlive, if_neg hlive]
      rfl
  unfold ArmStore.pruneProjects
  by_cases hsame : (s.arms.filter fun e => live.contains e.1) = s.arms
  · rw [if_pos hsame]
    rw [hsame] at hagrees
    exact ⟨h.kept, hagrees⟩
  · rw [if_neg hsame]
    exact ⟨h.kept.pruned live, hagrees⟩

theorem Honoured.pruneNodes (h : Honoured s given) (p : JsString) (live : List JsString) :
    Honoured (s.pruneNodes p live) fun p' n' => consentAfter dateParses p' n' (given p' n') (.pruneNodes p live) := by
  have hconsent : ∀ p' n', consentAfter dateParses p' n' (given p' n') (.pruneNodes p live) =
      if p = p' ∧ live.contains n' = false then none else given p' n' := by
    intro p' n'
    simp [consentAfter]
  unfold ArmStore.pruneNodes
  by_cases hsame : ((nodesOf s.arms p).filter fun e => live.contains e.1) = nodesOf s.arms p
  · rw [if_pos hsame]
    refine ⟨h.kept, fun p' n' hp hn => ?_⟩
    rw [hconsent]
    by_cases hgone : p = p' ∧ live.contains n' = false
    · obtain ⟨rfl, hout⟩ := hgone
      have hnone : armedRecord s.arms p n' = none := by
        have hlookup : lookup Prod.fst n' ((nodesOf s.arms p).filter fun e => live.contains e.1) = _ :=
          lookup_filter_key live.contains (nodesOf s.arms p) n'
        rw [hsame, hout] at hlookup
        rw [armedRecord, hlookup]
        rfl
      rw [if_pos ⟨rfl, hout⟩, hnone]
      rfl
    · rw [if_neg hgone]
      exact h.agrees p' n' hp hn
  · rw [if_neg hsame]
    refine ⟨h.kept.filtered live.contains, fun p' n' hp hn => ?_⟩
    have hrecord := armedRecord_withNodes_filter (s := s) (p := p) live.contains p' n'
    change (armedRecord (withNodes s.arms p ((nodesOf s.arms p).filter fun e => live.contains e.1)) p' n').map
      (·.spec) = _
    rw [hrecord, hconsent]
    by_cases hgone : p = p' ∧ live.contains n' = false
    · rw [if_pos hgone, if_pos hgone]
      rfl
    · rw [if_neg hgone, if_neg hgone]
      exact h.agrees p' n' hp hn

theorem Honoured.step {s' : ArmStore} {call : ArmCall}
    (h : Honoured s given) (hstep : s.step dateParses call = some s') :
    Honoured s' fun p n => consentAfter dateParses p n (given p n) call := by
  cases call with
  | arm p n spec =>
    obtain ⟨hnow, rfl⟩ := ite_some_none_eq_some.mp hstep
    exact h.arm p n spec hnow
  | disarm p n =>
    cases hstep
    exact h.disarm p n
  | pruneProjects live =>
    cases hstep
    exact h.pruneProjects live
  | pruneNodes p live =>
    cases hstep
    exact h.pruneNodes p live

end Calls

variable {dateParses : JsString → Bool}

theorem honoured_run {s s' : ArmStore} {calls : List ArmCall}
    {given : JsString → JsString → Option TriggerSpec} (h : Honoured s given)
    (hrun : run? (ArmStore.step dateParses) s calls = some s') :
    Honoured s' fun p n => calls.foldl (consentAfter dateParses p n) (given p n) := by
  induction calls generalizing s given with
  | nil =>
    cases hrun
    exact h
  | cons call calls ih =>
    obtain ⟨t, hstep, hrest⟩ := bind_eq_some_iff.mp hrun
    exact ih (h.step hstep) hrest

/-! ### After a restart -/

section Restart
variable {s : ArmStore} {dateParses : JsString → Bool} {p n : JsString}

theorem lookup_loadNodes {nodes : PerNode} (h : KeysNodup Prod.fst nodes) (hn : validKey n = true) :
    (lookup Prod.fst n (loadNodes nodes)).map (·.2) = ((lookup Prod.fst n nodes).map (·.2)).filter validRecord := by
  unfold loadNodes
  rw [h.lookup_filterMap fun x y hxy => by
    obtain ⟨-, hsome⟩ := ite_none_right_eq_some.mp hxy
    rw [Option.some.inj hsome]]
  cases hlookup : lookup Prod.fst n nodes with
  | none => rfl
  | some e =>
    obtain rfl := key_of_lookup hlookup
    cases hvalid : validRecord e.2 with
    | true => simp [hn, hvalid, Option.filter]
    | false => simp [hvalid, Option.filter]

theorem nodesOf_loadArms (h : Kept s) (hp : validKey p = true) :
    nodesOf (loadArms s.file) p = loadNodes (nodesOf s.arms p) := by
  unfold nodesOf loadArms
  rw [h.file, h.projects.lookup_filterMap fun x y hxy => by
    obtain ⟨-, hsome⟩ := ite_none_left_eq_some.mp hxy
    rw [← Option.some.inj hsome]]
  cases hlookup : lookup Prod.fst p s.arms with
  | none => rfl
  | some e =>
    obtain rfl := key_of_lookup hlookup
    by_cases hnone : loadNodes e.2 = []
    · simp [hnone]
    · simp [hp, hnone]

theorem armedRecord_loadArms (h : Kept s) (hp : validKey p = true) (hn : validKey n = true) :
    armedRecord (loadArms s.file) p n = (armedRecord s.arms p n).filter validRecord := by
  rw [armedRecord, nodesOf_loadArms h hp, lookup_loadNodes (h.nodes p) hn]
  rfl

theorem validRecord_iff {r : TriggerArmRecord} {safe : TriggerSpec} (hspec : r.spec = canonicalTriggerSpec safe)
    (htime : 0 < r.armedAt ∧ r.armedAt ≤ maxSafeInteger) :
    validRecord r = true ↔ (canonicalTriggerSpec safe).length ≤ specStringMax := by
  have hpos : 0 < r.spec.length := by
    have hlast : 0 < (text "\x7d").length := by decide
    rw [hspec, canonicalTriggerSpec, length_append]
    omega
  rw [hspec] at hpos
  rw [validRecord, hspec]
  simp [htime, hpos]

/-- What is armed after a restart. -/
theorem isArmed_loaded {given : JsString → JsString → Option TriggerSpec} (h : Honoured s given)
    (hp : validKey p = true) (hn : validKey n = true) (current : RawSpec) :
    isArmed dateParses (loadArms s.file) p n current = true ↔
      ∃ safe, sanitizeTriggerSpec dateParses current = some safe ∧ given p n = some safe ∧
        (canonicalTriggerSpec safe).length ≤ specStringMax := by
  have hagrees := h.agrees p n hp hn
  rw [isArmed, armedRecord_loadArms h.kept hp hn, Option.any_eq_true]
  constructor
  · rintro ⟨record, hrecord, hcurrent⟩
    obtain ⟨hheld, hvalid⟩ := filter_eq_some_iff.mp hrecord
    obtain ⟨safe, hsafe, heq⟩ := (any_eq_true _ _).mp hcurrent
    have hspec := of_decide_eq_true heq
    rw [hheld, map_some, hspec] at hagrees
    obtain ⟨safe', hgiven, hcanonical⟩ := map_eq_some_iff.mp hagrees.symm
    obtain rfl := canonicalTriggerSpec_inj hcanonical
    exact ⟨safe', hsafe, hgiven, (validRecord_iff hspec (h.kept.times p n record hheld)).mp hvalid⟩
  · rintro ⟨safe, hsafe, hgiven, hlength⟩
    rw [hgiven, map_some] at hagrees
    obtain ⟨record, hheld, hspec⟩ := map_eq_some_iff.mp hagrees
    have hvalid := (validRecord_iff hspec (h.kept.times p n record hheld)).mpr hlength
    exact ⟨record, filter_eq_some_iff.mpr ⟨hheld, hvalid⟩, (any_eq_true _ _).mpr ⟨safe, hsafe, decide_eq_true hspec⟩⟩

end Restart

/-- Every consent is for a spec that arrived in a call and was accepted. -/
theorem consent_arrived {calls : List ArmCall} {p n : JsString} {safe : TriggerSpec}
    (h : consent dateParses calls p n = some safe) : ∃ raw, sanitizeTriggerSpec dateParses raw = some safe := by
  have hstep : ∀ (c : Option TriggerSpec) (call : ArmCall),
      (∀ safe, c = some safe → ∃ raw, sanitizeTriggerSpec dateParses raw = some safe) →
      ∀ safe, consentAfter dateParses p n c call = some safe →
        ∃ raw, sanitizeTriggerSpec dateParses raw = some safe := by
    intro c call hc safe hsafe
    cases call with
    | arm p' n' raw =>
      rw [consentAfter] at hsafe
      split at hsafe
      · rcases or_eq_some_iff.mp hsafe with hraw | ⟨-, hold⟩
        · exact ⟨raw, hraw⟩
        · exact hc safe hold
      · exact hc safe hsafe
    | disarm | pruneNodes =>
      rw [consentAfter] at hsafe
      split at hsafe
      · cases hsafe
      · exact hc safe hsafe
    | pruneProjects =>
      rw [consentAfter] at hsafe
      split at hsafe
      · exact hc safe hsafe
      · cases hsafe
  have hnone : ∀ safe, (none : Option TriggerSpec) = some safe →
      ∃ raw, sanitizeTriggerSpec dateParses raw = some safe := fun safe hnone => nomatch hnone
  exact foldl_invariant hstep hnone safe h

theorem honoured_start : Honoured {} fun _ _ => none :=
  ⟨kept_start, fun _ _ _ _ => rfl⟩

/-- The loaded store holds armed exactly what was last consented to, for every spec asked about, where the
text of that consent fits the size that a load accepts. -/
theorem consent_survives (dateParses : JsString → Bool) (calls : List ArmCall) (s : ArmStore)
    (hrun : run? (ArmStore.step dateParses) {} calls = some s) (p n : JsString) (hp : validKey p = true)
    (hn : validKey n = true) :
    (∀ current, isArmed dateParses (loadArms s.file) p n current = true ↔
      ∃ safe, sanitizeTriggerSpec dateParses current = some safe ∧ consent dateParses calls p n = some safe) ↔
    ∀ safe, consent dateParses calls p n = some safe → (canonicalTriggerSpec safe).length ≤ specStringMax := by
  have hrunning := honoured_run honoured_start hrun
  constructor
  · intro hall safe hgiven
    obtain ⟨raw, hraw⟩ := consent_arrived hgiven
    have harmed := (hall raw).mpr ⟨safe, hraw, hgiven⟩
    obtain ⟨safe', hraw', -, hlength⟩ := (isArmed_loaded hrunning hp hn raw).mp harmed
    rw [hraw, Option.some.injEq] at hraw'
    exact hraw' ▸ hlength
  · intro hfits current
    rw [isArmed_loaded hrunning hp hn current]
    constructor
    · rintro ⟨safe, hcurrent, hgiven, -⟩
      exact ⟨safe, hcurrent, hgiven⟩
    · rintro ⟨safe, hcurrent, hgiven⟩
      exact ⟨safe, hcurrent, hgiven, hfits safe hgiven⟩

def hourly (payload : JsString) : RawSpec where
  schedule := some { kind := some (text "interval"), everyMinutes := some 60 }
  payload := some payload
  target := some (text "node-1")
  note := none

theorem consent_survives_hourly : ∃ s,
    run? (ArmStore.step fun _ => true) {} [.arm (text "project-1") (text "t1") (hourly (text "ls")) 1] = some s ∧
    ∀ current, isArmed (fun _ => true) (loadArms s.file) (text "project-1") (text "t1") current = true ↔
      ∃ safe, sanitizeTriggerSpec (fun _ => true) current = some safe ∧
        consent (fun _ => true) [.arm (text "project-1") (text "t1") (hourly (text "ls")) 1]
          (text "project-1") (text "t1") = some safe := by
  refine ⟨_, rfl, (consent_survives _ _ _ rfl _ _ (by decide +kernel) (by decide +kernel)).mpr ?_⟩
  intro safe hsafe
  have heq : consent (fun _ => true) [.arm (text "project-1") (text "t1") (hourly (text "ls")) 1]
      (text "project-1") (text "t1") = some ⟨.interval 60, text "ls", text "node-1", none⟩ := by
    decide +kernel
  rw [heq, Option.some.injEq] at hsafe
  subst hsafe
  decide +kernel

theorem sanitize_hourly {payload : JsString}
    (h : (payload = [] || payloadMax < payload.length || payload.any isForbidden) = false) :
    sanitizeTriggerSpec dateParses (hourly payload) = some ⟨.interval 60, payload, text "node-1", none⟩ := by
  have hkinds : text "interval" ≠ text "cron" := by decide
  have hbounds : ¬ (60 < intervalMinMinutes ∨ intervalMaxMinutes < 60) := by decide
  have hschedule : sanitizeSchedule dateParses { kind := some (text "interval"), everyMinutes := some 60 } =
      some (.interval 60) := by
    simp [sanitizeSchedule, hkinds, hbounds]
  have htarget : isSafeNodeId (text "node-1") = true := by decide +kernel
  simp only [sanitizeTriggerSpec, hourly, bind_some, hschedule, h, htarget]
  rfl

/-! A payload of quotes: each takes two units of the text. -/

def quotes (n : ℕ) : JsString := replicate n 0x22

theorem sanitize_quotes {n : ℕ} (hpos : 0 < n) (hmax : n ≤ payloadMax) :
    sanitizeTriggerSpec dateParses (hourly (quotes n)) =
      some ⟨.interval 60, quotes n, text "node-1", none⟩ := by
  have hforbidden : (quotes n).any isForbidden = false := by
    rw [quotes, any_replicate]
    simp [show isForbidden 0x22 = false by decide]
  have hlength : ¬ payloadMax < (quotes n).length := by
    rw [quotes, length_replicate]
    exact Nat.not_lt.mpr hmax
  have hsome : quotes n ≠ [] := by
    intro hnil
    have hzero := congrArg List.length hnil
    rw [quotes, length_replicate, length_nil] at hzero
    omega
  refine sanitize_hourly ?_
  rw [hforbidden, decide_eq_false hlength, decide_eq_false hsome]
  rfl

theorem length_canonical_quotes (n : ℕ) :
    2 * n < (canonicalTriggerSpec ⟨.interval 60, quotes n, text "node-1", none⟩).length := by
  have hquote : (Json.quote (quotes n)).length = 2 * n + 2 := by
    rw [Json.quote, quotes, Json.escapeFrom_replicate_quote]
    simp [Nat.mul_comm]
  simp only [canonicalTriggerSpec, length_append, hquote]
  omega

/-- The consent to it is lost by a restart. -/
theorem quotes_lost : ¬ ∀ (dateParses : JsString → Bool) (calls : List ArmCall) (s : ArmStore),
    run? (ArmStore.step dateParses) {} calls = some s → ∀ p n, validKey p = true → validKey n = true →
    ∀ current, isArmed dateParses (loadArms s.file) p n current = true ↔
      ∃ safe, sanitizeTriggerSpec dateParses current = some safe ∧ consent dateParses calls p n = some safe := by
  intro h
  have hp : validKey (text "project-1") = true := by decide +kernel
  have hn : validKey (text "t1") = true := by decide +kernel
  have hmax : specStringMax ≤ 2 * payloadMax := by decide
  obtain ⟨k, hk⟩ : ∃ k, k = payloadMax := ⟨_, rfl⟩
  have hsanitize : sanitizeTriggerSpec (fun _ => true) (hourly (quotes k)) =
      some ⟨.interval 60, quotes k, text "node-1", none⟩ :=
    sanitize_quotes (hk ▸ by decide) (Nat.le_of_eq hk)
  have hrun : run? (ArmStore.step fun _ => true) {} [.arm (text "project-1") (text "t1") (hourly (quotes k)) 1] =
      some (ArmStore.arm (fun _ => true) (text "project-1") (text "t1") (hourly (quotes k)) 1 {}).2 := rfl
  have hgiven : consent (fun _ => true) [.arm (text "project-1") (text "t1") (hourly (quotes k)) 1]
      (text "project-1") (text "t1") = some ⟨.interval 60, quotes k, text "node-1", none⟩ := by
    simp [consent, consentAfter, hsanitize]
  have harmed := (h _ _ _ hrun _ _ hp hn (hourly (quotes k))).mpr ⟨_, hsanitize, hgiven⟩
  obtain ⟨safe, hsafe, -, hlength⟩ := (isArmed_loaded (honoured_run honoured_start hrun) hp hn _).mp harmed
  rw [hsanitize, Option.some.injEq] at hsafe
  subst hsafe
  have hlong := length_canonical_quotes k
  omega

end NodeTerm.Trigger
