/-
# The status and the player gauge

`Reconcile` writes the status in place, over the one it has read. What it writes
is always consistent (`status_consistent`). It is a function of the current spec
and of what the run is answered exactly when nothing is left over in the status
before (`statusFollows_iff`), and the player gauge agrees with it exactly when a
run that does not set the gauge finds it as it should be (`along_gaugeAgrees_iff`).

Key definitions: `Consistent`, `StatusFollows`, `NothingLeft`, `GaugeAgrees`.
Key theorems: `status_consistent`, `along_statusKept_iff`, `along_gaugeAgrees_iff`.
-/
import QuakeKube.Operator.Published

namespace QuakeKube
namespace Operator

open Go Conditions Run

variable {K : Core} {S : SetStatusCondition} {P : PrintTable}

/-! ### What is reported -/

@[simp] theorem typeReady_ne_typePaused : typeReady ≠ typePaused := by simp [typeReady, typePaused, txt_inj]
@[simp] theorem typePaused_ne_typeReady : typePaused ≠ typeReady := typeReady_ne_typePaused.symm
@[simp] theorem typeTemplateResolved_ne_typeReady : typeTemplateResolved ≠ typeReady := by
  simp [typeReady, typeTemplateResolved, txt_inj]
@[simp] theorem typeTemplateResolved_ne_typePaused : typeTemplateResolved ≠ typePaused := by
  simp [typePaused, typeTemplateResolved, txt_inj]

namespace StoredServer

variable (s : StoredServer K) (now : ℤ) (p : Phase) (n : Option Int64)

@[simp] theorem report_ready : (s.published S now p n).conditions.report typeReady =
    some (p.report s.generation) := by
  simp [published, observed, SetStatusCondition.report_set]

@[simp] theorem report_paused : (s.published S now p n).conditions.report typePaused = some s.pausedReport := by
  simp [published, observed, SetStatusCondition.report_set]

theorem report_templateResolved : (s.published S now p n).conditions.report typeTemplateResolved =
    s.templateReport.or (s.status.conditions.report typeTemplateResolved) := by
  simp only [published, observed, SetStatusCondition.report_set, Phase.report_type, pausedReport_type,
    if_neg typeTemplateResolved_ne_typeReady, if_neg typeTemplateResolved_ne_typePaused, resolved, templateReport]
  cases s.spec.templateRef <;> simp [SetStatusCondition.report_set]

theorem report_other {t : Text} (hr : t ≠ typeReady) (hp : t ≠ typePaused) (ht : t ≠ typeTemplateResolved) :
    (s.published S now p n).conditions.report t = s.status.conditions.report t := by
  simp only [published, observed, SetStatusCondition.report_set, Phase.report_type, pausedReport_type,
    if_neg hr, if_neg hp, resolved, templateReport]
  cases s.spec.templateRef <;> simp [SetStatusCondition.report_set, ht]

theorem report_setUnresolved (err t : Text) : (s.setUnresolved S now err).status.conditions.report t =
    if t = typeTemplateResolved then
      some ⟨typeTemplateResolved, .ConditionFalse, txt "ResolutionFailed", err, s.generation⟩
    else s.status.conditions.report t := by
  simp [setUnresolved, setCondition, SetStatusCondition.report_set]

end StoredServer

/-! ### Consistency -/

/-- A condition of that type is True. -/
def QuakeServerStatus.IsTrue (st : QuakeServerStatus) (condType : Text) : Prop :=
  ∃ c ∈ st.conditions.list, c.type = condType ∧ c.status = .ConditionTrue

theorem QuakeServerStatus.isTrue_iff {st : QuakeServerStatus} {t : Text} :
    st.IsTrue t ↔ ∃ r, st.conditions.report t = some r ∧ r.status = .ConditionTrue :=
  ConditionList.exists_mem_iff (p := fun r => r.status = .ConditionTrue)

/-- `ready` and the Ready condition say the same, nobody plays on a server that is
not ready, and a paused server is not ready. -/
structure Consistent (st : QuakeServerStatus) : Prop where
  ready : st.ready = true ↔ st.IsTrue typeReady
  players : st.ready = false → st.players = 0
  paused : st.IsTrue typePaused → st.ready = false ∧ st.players = 0

theorem consistent_zero : Consistent .zero := by
  refine ⟨?_, fun _ => rfl, fun _ => ⟨rfl, rfl⟩⟩
  simp [QuakeServerStatus.zero, QuakeServerStatus.IsTrue, ConditionList.empty]

theorem Phase.players_of_not_ready {p : Phase} (h : p.isReady = false) (n : Option Int64) (k : Int64) :
    p.players n k = 0 := by
  cases p with
  | ready => cases h
  | _ => rfl

theorem Phase.isReady_of_paused {d : DeploymentReply} {p : Phase} (h : d.phase true = some p) :
    p.isReady = false := by
  cases d with
  | failed => cases h
  | notFound => cases h; rfl
  | found => cases h; rfl

/-- Both statuses that are written are consistent if the one before was. -/
theorem consistent_keeps : Keeps K S Consistent where
  unresolved s now err h := by
    have hrep := s.report_setUnresolved (S := S) now err
    refine ⟨?_, h.players, fun hp => h.paused ?_⟩
    · have hr := h.ready
      rw [QuakeServerStatus.isTrue_iff] at hr ⊢
      rw [hrep, if_neg typeTemplateResolved_ne_typeReady.symm]
      exact hr
    · rw [QuakeServerStatus.isTrue_iff] at hp ⊢
      rwa [hrep, if_neg typeTemplateResolved_ne_typePaused.symm] at hp
  published s now d p n hd h := by
    have hplayers : p.isReady = false → p.players n s.status.players = 0 :=
      fun hp => Phase.players_of_not_ready hp _ _
    refine ⟨?_, hplayers, fun hp => ?_⟩
    · rw [QuakeServerStatus.isTrue_iff, s.report_ready]
      simp only [Option.some.injEq, exists_eq_left', Phase.report_status]
      cases hp : p.isReady <;> simp [StoredServer.published, StoredServer.observed, hp]
    · rw [QuakeServerStatus.isTrue_iff, s.report_paused] at hp
      simp only [Option.some.injEq, exists_eq_left', StoredServer.pausedReport_status] at hp
      have hpaused : s.isPaused = true := by
        by_contra hne
        simp [hne] at hp
      have hready := Phase.isReady_of_paused (hpaused ▸ hd)
      exact ⟨hready, hplayers hready⟩

/-- **Every status the controller writes is consistent.** -/
theorem status_consistent {o : QuakeServer K} {name : Text} {generation : Int64}
    {annotations : Text → Option Text} {w : World K}
    (h : Reach (step S P) always (· = World.created o name generation annotations) w) :
    ∀ st ∈ w.written, Consistent st :=
  (consistent_keeps.reach consistent_zero h).written

/-- The second run of a new server writes a status. -/
theorem status_consistent_arena : ∃ w, run (step .upsert .ascii7) (arena none none)
    [.reconcile (.good (some 5)), .reconcile (.good (some 5))] = some w ∧
      w.written.map (·.players) = [5] ∧ ∀ st ∈ w.written, Consistent st := by
  have hrun : ∃ w, run (step .upsert .ascii7) (arena none none)
      [.reconcile (.good (some 5)), .reconcile (.good (some 5))] = some w ∧
        w.written.map (·.players) = [5] := by
    with_unfolding_all exact ⟨_, rfl, rfl⟩
  obtain ⟨w, hw, hplayers⟩ := hrun
  exact ⟨w, hw, hplayers, status_consistent (.of_run (.start rfl) (along_always _ _) hw)⟩

/-! ### A function of the current spec -/

/-- The endpoint of the current spec: empty unless the gateway is enabled and has a host name. -/
def StoredServer.currentEndpoint (s : StoredServer K) : Text :=
  match s.spec.gateway with
  | none => []
  | some g => if g.enabled = true ∧ g.hostname ≠ [] then txt "https://" ++ g.hostname else []

/-- The same status, apart from the transition times and, where the player query
of a server that is ready has failed, the players. -/
structure Alike (playerCount : Option Int64) (st st' : QuakeServerStatus) : Prop where
  ready : st.ready = st'.ready
  endpoint : st.endpoint = st'.endpoint
  gamePort : st.gamePort = st'.gamePort
  players : st.ready = false ∨ playerCount ≠ none → st.players = st'.players
  templateRef : st.templateRef = st'.templateRef
  conditions : ∀ t, st.conditions.report t = st'.conditions.report t

/-- **The status is that of the current spec**, and the one the same run would have
written over an empty status: so any two histories that end in this run end in
the same status. -/
structure StatusFollows (S : SetStatusCondition) (e : Replies) (s : StoredServer K) : Prop where
  templateRef : s.status.templateRef = (s.spec.templateRef.map (·.name)).getD []
  resolved : s.status.IsTrue typeTemplateResolved → s.spec.templateRef ≠ none
  endpoint : s.status.endpoint = s.currentEndpoint
  alike : ∀ p, e.getDeployment.phase s.isPaused = some p →
    Alike e.playerCount s.status ((s.withStatus .zero).published S e.now p e.playerCount)

/-- Nothing in the stored status is left over from an earlier spec, and a gateway
with a host name is enabled. -/
structure NothingLeft (s : StoredServer K) : Prop where
  template : s.spec.templateRef = none → s.status.templateRef = [] ∧
    ∀ c ∈ s.status.conditions.list, c.type ≠ typeTemplateResolved
  endpoint : s.hostname = [] → s.status.endpoint = []
  enabled : ∀ g ∈ s.spec.gateway, g.hostname ≠ [] → g.enabled = true

/-- The controller sets conditions of three types. -/
def KnownTypes (st : QuakeServerStatus) : Prop :=
  ∀ t, t ≠ typeReady → t ≠ typePaused → t ≠ typeTemplateResolved → st.conditions.report t = none

theorem knownTypes_keeps : Keeps K S KnownTypes where
  unresolved s now err h t hr hp ht := by
    rw [s.report_setUnresolved, if_neg ht]
    exact h t hr hp ht
  published s now d p n _ h t hr hp ht := by
    rw [s.report_other now p n hr hp ht]
    exact h t hr hp ht

section Published

variable {s : StoredServer K} {now : ℤ} {p : Phase} {n : Option Int64}

theorem templateRef_published_iff : (s.published S now p n).templateRef =
    (s.spec.templateRef.map (·.name)).getD [] ↔ (s.spec.templateRef = none → s.status.templateRef = []) := by
  unfold StoredServer.published StoredServer.observed
  cases s.spec.templateRef <;> simp

theorem endpoint_published_iff : (s.published S now p n).endpoint = s.currentEndpoint ↔
    (s.hostname = [] → s.status.endpoint = []) ∧
      ∀ g ∈ s.spec.gateway, g.hostname ≠ [] → g.enabled = true := by
  unfold StoredServer.published StoredServer.currentEndpoint StoredServer.hostname
  cases s.spec.gateway with
  | none => simp
  | some g =>
    by_cases hh : g.hostname = []
    · simp [hh]
    · cases hen : g.enabled <;> simp [hh, hen]

theorem templateReport_eq_none_iff : s.templateReport = none ↔ s.spec.templateRef = none := by
  simp [StoredServer.templateReport]

theorem report_published_iff (hk : KnownTypes s.status) :
    (∀ t, (s.published S now p n).conditions.report t =
      ((s.withStatus .zero).published S now p n).conditions.report t) ↔
    (s.spec.templateRef = none → s.status.conditions.report typeTemplateResolved = none) := by
  constructor
  · intro h href
    have ht := h typeTemplateResolved
    rw [StoredServer.report_templateResolved, StoredServer.report_templateResolved] at ht
    change s.templateReport.or _ = s.templateReport.or none at ht
    rwa [templateReport_eq_none_iff.mpr href, Option.none_or, Option.none_or] at ht
  · intro h t
    by_cases hr : t = typeReady
    · rw [hr, StoredServer.report_ready, StoredServer.report_ready]
      rfl
    by_cases hp : t = typePaused
    · rw [hp, StoredServer.report_paused, StoredServer.report_paused]
      rfl
    by_cases ht : t = typeTemplateResolved
    · rw [ht, StoredServer.report_templateResolved, StoredServer.report_templateResolved]
      change s.templateReport.or _ = s.templateReport.or none
      cases href : s.templateReport with
      | none => rw [h (templateReport_eq_none_iff.mp href)]
      | some r => rfl
    · rw [StoredServer.report_other _ _ _ _ hr hp ht, StoredServer.report_other _ _ _ _ hr hp ht, hk t hr hp ht]
      rfl

/-- **What is published is the status of the current spec** if and only if nothing
was left over. -/
theorem statusFollows_iff {e : Replies} (hk : KnownTypes s.status)
    (hp : e.getDeployment.phase s.isPaused = some p) :
    StatusFollows S e (s.withStatus (s.published S e.now p e.playerCount)) ↔ NothingLeft s := by
  constructor
  · intro h
    have hendpoint := endpoint_published_iff.mp h.endpoint
    have hreport := (report_published_iff hk).mp (h.alike p hp).conditions
    refine ⟨fun href => ⟨templateRef_published_iff.mp h.templateRef href, ?_⟩, hendpoint.1, hendpoint.2⟩
    exact ConditionList.report_eq_none_iff.mp (hreport href)
  · intro h
    have htemplate : (s.published S e.now p e.playerCount).templateRef =
        (s.spec.templateRef.map (·.name)).getD [] :=
      templateRef_published_iff.mpr fun href => (h.template href).1
    have hreport : s.spec.templateRef = none → s.status.conditions.report typeTemplateResolved = none :=
      fun href => ConditionList.report_eq_none_iff.mpr (h.template href).2
    refine ⟨htemplate, ?_, endpoint_published_iff.mpr ⟨h.endpoint, h.enabled⟩, ?_⟩
    · intro htrue (href : s.spec.templateRef = none)
      obtain ⟨r, hr, -⟩ := QuakeServerStatus.isTrue_iff.mp htrue
      have hnone : (s.published S e.now p e.playerCount).conditions.report typeTemplateResolved = none := by
        rw [StoredServer.report_templateResolved, templateReport_eq_none_iff.mpr href, hreport href]
        rfl
      exact absurd (hnone.symm.trans hr) nofun
    · intro p' hp'
      cases Option.some.inj (hp.symm.trans hp')
      refine ⟨rfl, ?_, rfl, ?_, htemplate, (report_published_iff hk).mpr hreport⟩
      · change (if s.hostname ≠ [] then _ else s.status.endpoint) = if s.hostname ≠ [] then _ else []
        split
        · rfl
        · next hh => exact h.endpoint (not_not.mp hh)
      · change p.isReady = false ∨ _ → p.players e.playerCount _ = p.players e.playerCount _
        rintro (hready | hn)
        · rw [Phase.players_of_not_ready hready, Phase.players_of_not_ready hready]
        · obtain ⟨k, hk⟩ := Option.ne_none_iff_exists'.mp hn
          rw [hk]
          cases p <;> rfl

end Published

/-- A run of `Reconcile` that succeeds leaves the status of the current spec. -/
def StatusKept (S : SetStatusCondition) (P : PrintTable) : World K → Action K → Prop :=
  OnSuccess S P fun e _ w' => ∀ s ∈ w'.versions.head?, StatusFollows S e s

/-- Where a run is going to succeed, the stored status has nothing left over. -/
def NoStatusLeft (S : SetStatusCondition) (P : PrintTable) : World K → Action K → Prop :=
  OnSuccess S P fun _ w _ => ∀ s ∈ w.versions.head?, NothingLeft s

/-- **Along every run of the system** from an empty status, the status follows the
spec if and only if no run of `Reconcile` that succeeds has found anything left over. -/
theorem along_statusKept_iff (o : QuakeServer K) (name : Text) (generation : Int64)
    (annotations : Text → Option Text) (as : List (Action K)) :
    Along (step S P) (StatusKept S P) (World.created o name generation annotations) as ↔
      Along (step S P) (NoStatusLeft S P) (World.created o name generation annotations) as := by
  refine along_onSuccess_congr (fun _ _ _ hw h => knownTypes_keeps.step hw h)
    (fun e w w' ready hw h => ?_) (statuses_created fun _ _ _ _ => rfl) as
  obtain ⟨s, older, config, p, hv, -, hp, -, rfl⟩ := reconcile_reconciled h
  have hs : KnownTypes s.status := hw.versions s (hv ▸ List.mem_cons_self)
  simp only [List.head?_cons, Option.mem_some_iff, forall_eq', hv, statusFollows_iff hs hp]

/-- Create a server with a template, let it be reconciled, and take the template away. -/
def templateTaken : List (Action .unit) :=
  [.reconcile (.good none), .reconcile (.good none), .edit (arenaSpec none none) 2]

/-- **The name of a template that is no longer referenced stays.** -/
theorem template_left : ¬ Along (step .upsert .ascii7) (StatusKept .upsert .ascii7)
    (arena (some ⟨['t'], []⟩) none) (templateTaken ++ [.reconcile (.good none)]) := by
  intro h
  have hrun : ∃ w, run (step .upsert .ascii7) (arena (some ⟨['t'], []⟩) none) templateTaken = some w ∧
      ∃ w' s, reconcile .upsert .ascii7 (.good none) w = (w', .reconciled true) ∧
        w'.versions.head? = some s ∧ s.spec.templateRef = none ∧ s.status.templateRef = ['t'] := by
    with_unfolding_all exact ⟨_, rfl, _, _, rfl, rfl, rfl, rfl⟩
  obtain ⟨w, hw, w', s, hr, hs, hspec, href⟩ := hrun
  have htemplate := ((h.at_run hw).1 w' true hr s hs).templateRef
  rw [hspec, href] at htemplate
  cases htemplate

/-! ### The player gauge -/

/-- **The gauge, where there is a series, is the published number of players** when
the status has been updated, and there is none when the server has been deleted. -/
def GaugeAgrees (S : SetStatusCondition) (P : PrintTable) (w : World K) (a : Action K) : Prop :=
  OnSuccess S P (fun _ _ w' => ∀ s ∈ w'.versions.head?, ∀ n ∈ w'.playersActive, n = s.status.players) w a ∧
    ∀ e w', a = .reconcile e → reconcile S P e w = (w', .deleted) → w'.playersActive = none

/-- Where a run does not set the gauge, the gauge is what the run publishes: nobody
when the server is paused or its Deployment is missing, the players that are
stored when the query has failed. -/
def GaugeFits (e : Replies) (s : StoredServer K) (n : Int64) : Prop :=
  match e.getDeployment.phase s.isPaused with
  | some .missing | some .paused => n = 0
  | some .ready => e.playerCount = none → n = s.status.players
  | some (.waiting _ _) | none => True

/-- A run that is going to succeed finds the gauge as it should be. -/
def NoGaugeLeft (S : SetStatusCondition) (P : PrintTable) : World K → Action K → Prop :=
  OnSuccess S P fun e w _ => ∀ s ∈ w.versions.head?, ∀ n ∈ w.playersActive, GaugeFits e s n

theorem gaugeFits_iff {e : Replies} {s : StoredServer K} {p : Phase} {gauge : Option Int64}
    (hp : e.getDeployment.phase s.isPaused = some p) :
    (∀ n ∈ (p.gauge e.playerCount).or gauge, n = p.players e.playerCount s.status.players) ↔
      ∀ n ∈ gauge, GaugeFits e s n := by
  unfold GaugeFits
  rw [hp]
  cases p with
  | missing => simp [Phase.gauge, Phase.players]
  | paused => simp [Phase.gauge, Phase.players]
  | ready => cases e.playerCount <;> simp [Phase.gauge, Phase.players]
  | waiting r k => simp [Phase.gauge, Phase.players]

/-- **Along every run of the system** the gauge agrees with the status if and only
if a run that leaves the gauge alone always finds it as it should be. -/
theorem along_gaugeAgrees_iff (w : World K) (as : List (Action K)) :
    Along (step S P) (GaugeAgrees S P) w as ↔ Along (step S P) (NoGaugeLeft S P) w as := by
  have hdeleted : GaugeAgrees S P (K := K) = OnSuccess S P fun _ _ w' =>
      ∀ s ∈ w'.versions.head?, ∀ n ∈ w'.playersActive, n = s.status.players := by
    funext w a
    exact propext (and_iff_left fun _ _ _ h => reconcile_deleted h)
  rw [hdeleted]
  refine along_onSuccess_congr (I := fun _ => True) (fun _ _ _ _ _ => trivial)
    (fun e w w' ready _ h => ?_) trivial as
  obtain ⟨s, older, config, p, hv, -, hp, -, rfl⟩ := reconcile_reconciled h
  simp only [List.head?_cons, Option.mem_some_iff, forall_eq', hv]
  exact gaugeFits_iff hp

/-- Create a server, let five players in, and pause it. -/
def pausedWithPlayers : List (Action .unit) :=
  [.reconcile (.good none), .reconcile (.good (some 5)), .annotate fun _ => some (txt "true")]

/-- **The players of a server that has been paused stay in the gauge.** -/
theorem gauge_left : ¬ Along (step .upsert .ascii7) (GaugeAgrees .upsert .ascii7)
    (arena none none) (pausedWithPlayers ++ [.reconcile (.good (some 5))]) := by
  intro h
  have hrun : ∃ w, run (step .upsert .ascii7) (arena none none) pausedWithPlayers = some w ∧
      ∃ w' s, reconcile .upsert .ascii7 (.good (some 5)) w = (w', .reconciled false) ∧
        w'.versions.head? = some s ∧ s.status.players = 0 ∧ w'.playersActive = some 5 := by
    with_unfolding_all exact ⟨_, rfl, _, _, rfl, rfl, rfl, rfl⟩
  obtain ⟨w, hw, w', s, hr, hs, hplayers, hgauge⟩ := hrun
  have hagrees := ((h.at_run hw).1).1 w' false hr s hs 5 hgauge
  rw [hplayers] at hagrees
  cases hagrees

end Operator
end QuakeKube
