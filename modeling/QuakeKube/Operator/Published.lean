/-
# What a run of the controller leaves

A server whose Deployment has been read is in one of four phases, and the status
`updateStatus` writes is what the phase, the spec and the status before make of
it (`published`). A run that succeeds has read the stored version, and what it
leaves is known (`reconcile_reconciled`). What is kept by that status and by the
one of a template that is not resolved holds of every status there ever is
(`Keeps.step`).

Key definitions: `Phase`, `StoredServer.published`, `OnSuccess`, `Statuses`, `Keeps`.
Key theorems: `reconcile_reconciled`, `along_onSuccess_congr`, `Keeps.step`.
-/
import QuakeKube.Operator.Reconcile

namespace QuakeKube
namespace Operator

open Go Conditions

variable {K : Core} {S : SetStatusCondition} {P : PrintTable}

/-! ### Phases -/

inductive Phase
  | missing | paused | ready
  | waiting (readyReplicas replicas : Int32)
deriving DecidableEq

def DeploymentReply.phase (paused : Bool) : DeploymentReply → Option Phase
  | .failed => none
  | .notFound => some .missing
  | .found readyReplicas replicas =>
    some (if paused then .paused else if 0 < readyReplicas then .ready else .waiting readyReplicas replicas)

namespace Phase

def isReady : Phase → Bool
  | .ready => true
  | _ => false

/-- The player count that is published, from the query's and the one before. -/
def players (playerCount : Option Int64) (before : Int64) : Phase → Int64
  | .ready => playerCount.getD before
  | _ => 0

/-- What the gauge is set to. -/
def gauge (playerCount : Option Int64) : Phase → Option Int64
  | .ready => playerCount
  | .waiting _ _ => some 0
  | .missing | .paused => none

def report (generation : Int64) : Phase → Report
  | .missing => ⟨typeReady, .ConditionFalse, txt "DeploymentNotFound", txt "Deployment does not exist", generation⟩
  | .paused => ⟨typeReady, .ConditionFalse, txt "ServerPaused",
      txt "Server is paused and not accepting connections", generation⟩
  | .ready => ⟨typeReady, .ConditionTrue, txt "ServerReady",
      txt "Server is running and accepting connections", generation⟩
  | .waiting readyReplicas replicas => ⟨typeReady, .ConditionFalse, txt "ServerNotReady",
      txt "Waiting for replicas: " ++ intText readyReplicas.toInt ++ txt "/" ++ intText replicas.toInt ++
        txt " ready", generation⟩

@[simp] theorem report_type (p : Phase) (g : Int64) : (p.report g).type = typeReady := by
  cases p <;> rfl

theorem report_status (p : Phase) (g : Int64) :
    (p.report g).status = if p.isReady then .ConditionTrue else .ConditionFalse := by
  cases p <;> rfl

end Phase

/-! ### The published status -/

namespace StoredServer

variable (S) (s : StoredServer K) (now : ℤ)

/-- The same version with another status. -/
def withStatus (st : QuakeServerStatus) : StoredServer K := { s with status := st }

def pausedReport : Report :=
  if s.isPaused then
    ⟨typePaused, .ConditionTrue, txt "ServerPaused", txt "Server is paused via annotation", s.generation⟩
  else ⟨typePaused, .ConditionFalse, txt "ServerRunning", txt "Server is not paused", s.generation⟩

@[simp] theorem pausedReport_type : s.pausedReport.type = typePaused := by
  unfold pausedReport
  split <;> rfl

theorem pausedReport_status :
    s.pausedReport.status = if s.isPaused then .ConditionTrue else .ConditionFalse := by
  unfold pausedReport
  split <;> rfl

/-- The report on the template, where there is a reference. -/
def templateReport : Option Report := s.spec.templateRef.map fun ref =>
  ⟨typeTemplateResolved, .ConditionTrue, txt "TemplateFound", txt "Using template " ++ ref.name, s.generation⟩

/-- The host name of the gateway, empty when there is none. -/
def hostname : Text := (s.spec.gateway.map (·.hostname)).getD []

/-- The conditions with the report on the template. -/
def resolved : ConditionList :=
  match s.templateReport with
  | none => s.status.conditions
  | some r => S.set s.status.conditions r now

/-- What `updateStatus` has made of the status before it looks at the gateway. -/
def observed (p : Phase) (playerCount : Option Int64) : QuakeServerStatus where
  ready := p.isReady
  endpoint := s.status.endpoint
  gamePort := s.status.gamePort
  players := p.players playerCount s.status.players
  templateRef := (s.spec.templateRef.map (·.name)).getD s.status.templateRef
  conditions := S.set (S.set (s.resolved S now) s.pausedReport now) (p.report s.generation) now

/-- The status `updateStatus` writes. -/
def published (p : Phase) (playerCount : Option Int64) : QuakeServerStatus :=
  { s.observed S now p playerCount with
    endpoint := if s.hostname ≠ [] then txt "https://" ++ s.hostname else s.status.endpoint
    gamePort := gamePort }

theorem setTemplate_eq : s.setTemplate S now = s.withStatus { s.status with
    templateRef := (s.spec.templateRef.map (·.name)).getD s.status.templateRef
    conditions := s.resolved S now } := by
  unfold setTemplate resolved templateReport
  cases h : s.spec.templateRef <;> simp [setCondition, withStatus]

theorem setPaused_eq : s.setPaused S now = s.withStatus { s.status with
    conditions := S.set s.status.conditions s.pausedReport now } := by
  unfold setPaused pausedReport
  split <;> rfl

theorem setReady_eq (d : DeploymentReply) (n : Option Int64) : s.setReady S now d n =
    (d.phase s.isPaused).map fun p => (s.withStatus { s.status with
      ready := p.isReady
      players := p.players n s.status.players
      conditions := S.set s.status.conditions (p.report s.generation) now }, p.gauge n, p.isReady) := by
  cases d with
  | failed => rfl
  | notFound => rfl
  | found readyReplicas replicas =>
    have hpaused (st : QuakeServerStatus) : ({ s with status := st } : StoredServer K).isPaused =
      s.isPaused := rfl
    unfold setReady DeploymentReply.phase
    by_cases hp : s.isPaused = true
    · simp only [hpaused, hp, if_true]
      rfl
    · by_cases hr : 0 < readyReplicas
      · simp only [hpaused, hp, hr, decide_true, if_true]
        cases n <;> rfl
      · simp only [hpaused, hp, hr, decide_false]
        rfl

theorem setEndpoint_eq : s.setEndpoint = s.withStatus { s.status with
    endpoint := if s.hostname ≠ [] then txt "https://" ++ s.hostname else s.status.endpoint
    gamePort := gamePort } := by
  unfold setEndpoint hostname
  cases s.spec.gateway with
  | none => rfl
  | some g => by_cases hg : g.hostname = [] <;> simp [hg, withStatus]

/-- **The status a run observes**, from the phase of the server. -/
theorem setReady_setPaused_setTemplate (d : DeploymentReply) (n : Option Int64) :
    ((s.setTemplate S now).setPaused S now).setReady S now d n =
      (d.phase s.isPaused).map fun p => (s.withStatus (s.observed S now p n), p.gauge n, p.isReady) := by
  rw [setTemplate_eq, setPaused_eq, setReady_eq]
  rfl

theorem setEndpoint_observed (p : Phase) (n : Option Int64) :
    (s.withStatus (s.observed S now p n)).setEndpoint = s.withStatus (s.published S now p n) := by
  rw [setEndpoint_eq]
  rfl

end StoredServer

/-! ### Calls -/

section Reconciled

variable {e : Replies} {s : StoredServer K} {w w' : World K} {ready : Bool}
  {next : World K → World K × Result}

theorem call_eq {a : Answer} {write : World K → World K} {r : Result}
    (h : call a write w next = (w', r)) (hr : r ≠ .failed) : a = .ok ∧ next (write w) = (w', r) := by
  cases a with
  | ok => exact ⟨rfl, h⟩
  | refused => exact absurd (congrArg Prod.snd h).symm hr
  | lost => exact absurd (congrArg Prod.snd h).symm hr

theorem ifCurrent_ok {a : Answer} (h : e.ifCurrent w a = .ok) : e.behind = some 0 ∧ w.gone = false := by
  unfold Replies.ifCurrent at h
  split at h
  · assumption
  · cases h

/-- Every call that is made before the status is written is answered with ok. -/
structure Replies.Served (e : Replies) : Prop where
  configMap : e.configMap = .ok
  service : e.service = .ok
  deployment : e.deployment = .ok
  httpRoute : e.httpRoute = .ok
  udpRoute : e.udpRoute = .ok

/-! What holds of every failure and of what comes next holds of a call, when the
write keeps what is needed for both. A call that is answered with ok does not fail. -/

section Rules

variable {Q : World K → Prop} {C : World K × Result → Prop}

theorem call_rule {a : Answer} {write : World K → World K} (hfail : a ≠ .ok → ∀ w, Q w → C (w, .failed))
    (hnext : ∀ w, Q w → C (next w)) (hwrite : Q w → Q (write w)) (hw : Q w) : C (call a write w next) := by
  cases a with
  | ok => exact hnext _ (hwrite hw)
  | refused => exact hfail nofun _ hw
  | lost => exact hfail nofun _ (hwrite hw)

theorem reconcileRoutes_rule (hfail : ¬ e.Served → ∀ w, Q w → C (w, .failed)) (hnext : ∀ w, Q w → C (next w))
    (hwrite : ∀ w http udp, Q w → Q { w with httpRoute := http, udpRoute := udp }) (hw : Q w) :
    C (reconcileRoutes e s w next) := by
  have hudp : ∀ w, Q w → C (reconcileUDPRoute e s w next) := by
    intro w hw
    unfold reconcileUDPRoute
    split
    · exact hnext w hw
    · exact call_rule (fun ha => hfail fun h => ha h.udpRoute) hnext (hwrite w w.httpRoute _) hw
  unfold reconcileRoutes
  split
  · unfold reconcileHTTPRoute
    split
    · exact hudp w hw
    · split
      · exact hudp w hw
      · exact call_rule (fun ha => hfail fun h => ha h.httpRoute) hudp (hwrite w _ w.udpRoute) hw
  · exact hnext w hw

/-- The calls between the reading of the server and its status. -/
theorem reconcileObjects_rule {config : ServerConfigSpec} (hfail : ¬ e.Served → ∀ w, Q w → C (w, .failed))
    (hnext : ∀ w, Q w → C (next w))
    (hwrite : ∀ w configMap service deployment http udp, Q w →
      Q { w with configMap, service, deployment, httpRoute := http, udpRoute := udp }) (hw : Q w) :
    C (reconcileConfigMap P e config w fun w => reconcileService e s w fun w =>
      reconcileDeployment e s w fun w => reconcileRoutes e s w next) := by
  refine call_rule (fun ha => hfail fun h => ha h.configMap) (fun w hw => ?_) (hwrite _ _ _ _ _ _) hw
  refine call_rule (fun ha => hfail fun h => ha h.service) (fun w hw => ?_) (hwrite _ _ _ _ _ _) hw
  refine call_rule (fun ha => hfail fun h => ha h.deployment) (fun w hw => ?_) (hwrite _ _ _ _ _ _) hw
  exact reconcileRoutes_rule hfail hnext (fun w => hwrite w w.configMap w.service w.deployment) hw

/-- A run ends in failure, or as its last part does. -/
theorem call_ne {a : Answer} {write : World K → World K} {r : Result} (hr : r ≠ .failed)
    (hnext : ∀ w, (next w).2 ≠ r) : (call a write w next).2 ≠ r :=
  call_rule (Q := fun _ => True) (C := fun x => x.2 ≠ r) (fun _ _ _ => hr.symm) (fun w _ => hnext w) id
    trivial

theorem updateServer_ne {r : Result} (hr : r ≠ .failed) (hnext : ∀ w, (next w).2 ≠ r) :
    (updateServer e s w next).2 ≠ r := by
  unfold updateServer
  split
  · exact hr.symm
  · exact call_ne hr hnext

theorem reconcileServer_ne_deleted : (reconcileServer S P e s w).2 ≠ .deleted := by
  have hstatus : ∀ s w, (updateStatus S e s w : World K × Result).2 ≠ .deleted := by
    intro s w
    unfold updateStatus
    split
    · exact nofun
    · exact call_ne nofun fun _ => nofun
  unfold reconcileServer
  split
  · exact call_ne nofun fun _ => nofun
  · exact reconcileObjects_rule (Q := fun _ => True) (C := fun x => x.2 ≠ .deleted) (fun _ _ _ => nofun)
      (fun w _ => hstatus _ w) (fun _ _ _ _ _ _ => id) trivial

end Rules

/-! ### Runs that succeed -/

/-- The HTTPRoute the spec asks for. -/
def StoredServer.wantedHTTPRoute (s : StoredServer K) : Option HTTPRoute :=
  (s.spec.gateway.filter fun g => g.enabled && g.hostname ≠ []).map s.httpRoute

/-- The UDPRoute the spec asks for. -/
def StoredServer.wantedUDPRoute (s : StoredServer K) : Option UDPRoute :=
  ((s.spec.gateway.filter (·.enabled)).bind (·.gatewayRef)).map s.udpRoute

theorem reconcileHTTPRoute_reconciled {g : GatewaySpec} (hg : s.spec.gateway = some g) (hen : g.enabled = true)
    (h : reconcileHTTPRoute e s w next = (w', .reconciled ready)) :
    next { w with httpRoute := s.wantedHTTPRoute.or w.httpRoute } = (w', .reconciled ready) := by
  unfold reconcileHTTPRoute at h
  simp only [hg] at h
  by_cases hh : g.hostname = []
  · rw [if_pos hh] at h
    have hnone : s.wantedHTTPRoute = none := by simp [StoredServer.wantedHTTPRoute, hg, hh]
    rw [hnone]
    exact h
  · rw [if_neg hh] at h
    have hsome : s.wantedHTTPRoute = some (s.httpRoute g) := by
      simp [StoredServer.wantedHTTPRoute, hg, hh, hen]
    rw [hsome]
    exact (call_eq h nofun).2

theorem reconcileUDPRoute_reconciled {g : GatewaySpec} (hg : s.spec.gateway = some g) (hen : g.enabled = true)
    (h : reconcileUDPRoute e s w next = (w', .reconciled ready)) :
    next { w with udpRoute := s.wantedUDPRoute.or w.udpRoute } = (w', .reconciled ready) := by
  have hbind : s.wantedUDPRoute = (s.spec.gateway.bind (·.gatewayRef)).map s.udpRoute := by
    simp [StoredServer.wantedUDPRoute, hg, Option.filter, hen]
  unfold reconcileUDPRoute at h
  rw [hbind]
  cases href : s.spec.gateway.bind (·.gatewayRef) with
  | none =>
    simp only [href] at h
    exact h
  | some ref =>
    simp only [href] at h
    exact (call_eq h nofun).2

/-- The routes that are wanted are there, and those that are not stay. -/
theorem reconcileRoutes_reconciled (h : reconcileRoutes e s w next = (w', .reconciled ready)) :
    next { w with
      httpRoute := s.wantedHTTPRoute.or w.httpRoute
      udpRoute := s.wantedUDPRoute.or w.udpRoute } = (w', .reconciled ready) := by
  unfold reconcileRoutes at h
  split at h
  · next hany =>
    obtain ⟨g, hg, hen⟩ := (Option.any_eq_true ..).mp hany
    have hhttp := reconcileHTTPRoute_reconciled hg hen h
    exact reconcileUDPRoute_reconciled hg hen hhttp
  · next hany =>
    have hfilter : ∀ q : GatewaySpec → Bool, (s.spec.gateway.filter fun g => g.enabled && q g) = none := by
      intro q
      rw [Option.filter_eq_none_iff]
      intro g hg hq
      exact hany ((Option.any_eq_true ..).mpr ⟨g, hg, (Bool.and_eq_true_iff.mp hq).1⟩)
    have hudp : s.spec.gateway.filter (·.enabled) = none := by simpa using hfilter fun _ => true
    rw [StoredServer.wantedHTTPRoute, StoredServer.wantedUDPRoute, hfilter, hudp]
    exact h

theorem updateStatus_reconciled (h : updateStatus S e (s.setTemplate S e.now) w = (w', .reconciled ready)) :
    ∃ p, e.getDeployment.phase s.isPaused = some p ∧ ready = p.isReady ∧
      (e.behind = some 0 ∧ w.gone = false) ∧
      w' = { w with
        versions := s.withStatus (s.published S e.now p e.playerCount) :: w.versions
        playersActive := (p.gauge e.playerCount).or w.playersActive
        written := s.published S e.now p e.playerCount :: w.written } := by
  unfold updateStatus at h
  rw [s.setReady_setPaused_setTemplate] at h
  cases hp : e.getDeployment.phase s.isPaused with
  | none =>
    rw [hp] at h
    cases h
  | some p =>
    rw [hp] at h
    obtain ⟨hok, h⟩ := call_eq h nofun
    rw [s.setEndpoint_observed] at h
    cases h
    exact ⟨p, rfl, rfl, ifCurrent_ok hok, rfl⟩

/-- **What a run that succeeds has read and what it leaves.** -/
theorem reconcile_reconciled (h : reconcile S P e w = (w', .reconciled ready)) :
    ∃ s older config p, w.versions = s :: older ∧ resolveConfig e.template s.spec = .ok config ∧
      e.getDeployment.phase s.isPaused = some p ∧ ready = p.isReady ∧
      w' = { w with
        versions := s.withStatus (s.published S e.now p e.playerCount) :: s :: older
        configMap := some (generateConfigYAML P (some config))
        service := some s.service
        deployment := some s.replicas
        httpRoute := s.wantedHTTPRoute.or w.httpRoute
        udpRoute := s.wantedUDPRoute.or w.udpRoute
        playersActive := (p.gauge e.playerCount).or w.playersActive
        written := s.published S e.now p e.playerCount :: w.written } := by
  unfold reconcile at h
  split at h
  · cases h
  · next n hn =>
    split at h
    · cases h
    · next s hs =>
      split at h
      · exact absurd (congrArg Prod.snd h) (updateServer_ne nofun fun _ => nofun)
      · split at h
        · exact absurd (congrArg Prod.snd h) (updateServer_ne nofun fun _ => nofun)
        · unfold reconcileServer at h
          split at h
          · cases (call_eq h nofun).2
          · next config hc =>
            obtain ⟨-, h⟩ := call_eq h nofun
            obtain ⟨-, h⟩ := call_eq h nofun
            obtain ⟨-, h⟩ := call_eq h nofun
            obtain ⟨p, hp, hr, ⟨hb, -⟩, rfl⟩ := updateStatus_reconciled (reconcileRoutes_reconciled h)
            -- only the stored version can be written
            cases hn.symm.trans hb
            obtain ⟨older, hv⟩ : ∃ older, w.versions = s :: older := by
              cases hw : w.versions with
              | nil => simp [hw] at hs
              | cons t older => exact ⟨older, by simpa [hw] using hs⟩
            refine ⟨s, older, config, p, hv, hc, hp, hr, ?_⟩
            rw [s.setTemplate_eq, hv]
            rfl

/-- A run that has deleted the server has deleted its series. -/
theorem reconcile_deleted (h : reconcile S P e w = (w', .deleted)) : w'.playersActive = none := by
  unfold reconcile at h
  split at h
  · cases h
  · split at h
    · cases h
    · split at h
      · unfold reconcileDelete updateServer at h
        split at h
        · cases h
        · obtain ⟨-, h⟩ := call_eq h nofun
          cases h
          rfl
      · split at h
        · exact absurd (congrArg Prod.snd h) (updateServer_ne nofun fun _ => nofun)
        · exact absurd (congrArg Prod.snd h) reconcileServer_ne_deleted

/-- What holds of every run of `Reconcile` that succeeds, of what it was answered,
of the state before it and of the one after. -/
def OnSuccess (S : SetStatusCondition) (P : PrintTable) (Q : Replies → World K → World K → Prop) (w : World K) :
    Action K → Prop
  | .reconcile e => ∀ w' ready, reconcile S P e w = (w', .reconciled ready) → Q e w w'
  | _ => True

/-- Two properties that agree on the runs that succeed hold along the same runs of the system. -/
theorem along_onSuccess_congr {I : World K → Prop} {Q R : Replies → World K → World K → Prop}
    (hstep : ∀ w (a : Action K) w', I w → step S P w a = some w' → I w')
    (h : ∀ e w w' ready, I w → reconcile S P e w = (w', .reconciled ready) → (Q e w w' ↔ R e w w'))
    (hw : I w) (as : List (Action K)) :
    Run.Along (step S P) (OnSuccess S P Q) w as ↔ Run.Along (step S P) (OnSuccess S P R) w as := by
  refine Run.along_congr hstep (fun w a hI => ?_) hw as
  cases a with
  | reconcile e =>
    exact forall_congr' fun w' => forall_congr' fun ready => forall_congr' fun hr => h e w w' ready hI hr
  | edit => exact Iff.rfl
  | annotate => exact Iff.rfl
  | delete => exact Iff.rfl
  | restart => exact Iff.rfl

end Reconciled

/-! ### Every status there is -/

/-- A property of the statuses stored and written so far. -/
structure Statuses (I : QuakeServerStatus → Prop) (w : World K) : Prop where
  versions : ∀ s ∈ w.versions, I s.status
  written : ∀ st ∈ w.written, I st

/-- What both statuses that are written keep. -/
structure Keeps (K : Core) (S : SetStatusCondition) (I : QuakeServerStatus → Prop) : Prop where
  unresolved : ∀ (s : StoredServer K) (now : ℤ) (err : Text), I s.status → I (s.setUnresolved S now err).status
  published : ∀ (s : StoredServer K) (now : ℤ) (d : DeploymentReply) (p : Phase) (n : Option Int64),
    d.phase s.isPaused = some p → I s.status → I (s.published S now p n)

section Keeps

variable {I : QuakeServerStatus → Prop} {e : Replies} {s : StoredServer K} {w w' : World K}
  {next : World K → World K × Result}

theorem Statuses.store (hw : Statuses I w) (hs : I s.status) : Statuses I (w.store s) :=
  ⟨List.forall_mem_cons.mpr ⟨hs, hw.versions⟩, hw.written⟩

theorem Statuses.statusUpdate (hw : Statuses I w) (hs : I s.status)
    (hnext : ∀ w, Statuses I w → Statuses I (next w).1) : Statuses I (statusUpdate e s w next).1 :=
  call_rule (C := fun x => Statuses I x.1) (fun _ _ h => h) hnext (fun h => h.store hs)
    ⟨hw.versions, List.forall_mem_cons.mpr ⟨hs, hw.written⟩⟩

theorem Statuses.updateServer (hw : Statuses I w) (hs : I s.status)
    (hnext : ∀ w, Statuses I w → Statuses I (next w).1) : Statuses I (updateServer e s w next).1 := by
  unfold Operator.updateServer
  split
  · exact hw
  · next o _ =>
    have hstore := hw.store (s := { s with toQuakeServer := o, generation := e.generation }) hs
    exact call_rule (C := fun x => Statuses I x.1) (fun _ _ h => h) hnext
      (fun _ => ⟨hstore.versions, hstore.written⟩) hw

theorem Keeps.updateStatus (hI : Keeps K S I) (hw : Statuses I w) (hs : I s.status) :
    Statuses I (updateStatus S e (s.setTemplate S e.now) w).1 := by
  unfold Operator.updateStatus
  rw [s.setReady_setPaused_setTemplate]
  cases hd : e.getDeployment.phase s.isPaused with
  | none => exact hw
  | some p =>
    have hp := hI.published s e.now _ p e.playerCount hd hs
    simp only [Option.map_some, s.setEndpoint_observed]
    exact Statuses.statusUpdate ⟨hw.versions, hw.written⟩ hp fun _ h => h

theorem Keeps.reconcileServer (hI : Keeps K S I) (hw : Statuses I w) (hs : I s.status) :
    Statuses I (reconcileServer S P e s w).1 := by
  unfold Operator.reconcileServer
  split
  · exact hw.statusUpdate (hI.unresolved s e.now _ hs) fun _ h => h
  · exact reconcileObjects_rule (C := fun x => Statuses I x.1) (fun _ _ h => h)
      (fun w hw => hI.updateStatus hw hs) (fun _ _ _ _ _ _ h => ⟨h.versions, h.written⟩) hw

theorem Keeps.reconcile (hI : Keeps K S I) (hw : Statuses I w) : Statuses I (reconcile S P e w).1 := by
  unfold Operator.reconcile
  split
  · exact hw
  · split
    · exact hw
    · next s hs =>
      have hst := hw.versions s (List.mem_of_getElem? hs)
      split
      · exact hw.updateServer hst fun _ h => ⟨h.versions, h.written⟩
      · split
        · exact hw.updateServer hst fun _ h => h
        · exact hI.reconcileServer hw hst

theorem Statuses.change {f : StoredServer K → StoredServer K} (hw : Statuses I w)
    (h : w.change f = some w') (hf : ∀ s, (f s).status = s.status) : Statuses I w' := by
  unfold World.change at h
  split at h
  · next s _ _ hv =>
    cases h
    exact hw.store (hf s ▸ hw.versions s (hv ▸ List.mem_cons_self))
  · cases h

/-- **What the controller keeps holds of every status**, whatever is done. -/
theorem Keeps.step (hI : Keeps K S I) {a : Action K} (hw : Statuses I w) (h : step S P w a = some w') :
    Statuses I w' := by
  cases a with
  | edit spec generation => exact hw.change h fun _ => rfl
  | annotate annotations => exact hw.change h fun _ => rfl
  | delete =>
    obtain ⟨w1, h1, rfl⟩ := Option.map_eq_some_iff.mp h
    have h1 := hw.change h1 fun _ => rfl
    exact ⟨h1.versions, h1.written⟩
  | reconcile e =>
    cases h
    exact hI.reconcile hw
  | restart =>
    cases h
    exact ⟨hw.versions, hw.written⟩

variable {o : QuakeServer K} {name : Text} {generation : Int64} {annotations : Text → Option Text}

theorem statuses_created (h0 : I .zero) : Statuses I (World.created o name generation annotations) :=
  ⟨by simpa [World.created] using h0, by simp [World.created]⟩

/-- **What is kept holds of every status there ever is**, from the empty one on. -/
theorem Keeps.reach (hI : Keeps K S I) (h0 : I .zero)
    (h : Run.Reach (Operator.step S P) Run.always (· = World.created o name generation annotations) w) :
    Statuses I w := by
  refine h.invariant ?_ fun _ _ _ hw _ hs => hI.step hw hs
  rintro _ rfl
  exact statuses_created h0

end Keeps

end Operator
end QuakeKube
