/-
# From a template to the ConfigMaps

`QuakeServerReconciler.Reconcile` as its worker runs it: against caches that
follow the store, one call after another, while users write servers and
templates, and anyone ConfigMaps. Events of a server queue it, those of a
ConfigMap its owner, and those of a template every server that is cached with a
reference to it (`findServersForTemplate`).

When the controller is idle, every server that is not being deleted has the
ConfigMap of its current template and inline configuration
(`configMap_current`).

Key definitions: `Phase`, `marks`, `next`, `quakeServerController`, `Current`.
Key theorem: `configMap_current`.
-/
import QuakeKube.Operator.Objects

namespace QuakeKube
namespace Operator

open Go Conditions Controller

variable {K : Core}

namespace Propagation

/-! ### The run of a request -/

/-- Where the run of the server `n` is. -/
inductive Phase (K : Core) (n : Text)
  | started
  | fetched (s : NamedServer K n)
  | resolved (s : NamedServer K n) (config : ServerConfigSpec)
  /-- In `CreateOrUpdate`, after the ConfigMap was read. -/
  | read (s : NamedServer K n) (config : ServerConfigSpec) (existing : Option ConfigMap)
  | configMapReconciled (s : NamedServer K n)

/-- Which servers the handlers queue for an object of an event. -/
def marks (cache : Objects K) : Stored K → Text → Bool
  | ⟨.server m, _⟩, n => m = n
  | ⟨.template t, _⟩, n => cache.refers t n
  | ⟨.configMap _, o⟩, n => o.any fun cm => ownerServer cm.ownerReferences = some n

def configMapName (name : Text) : Text := name ++ txt "-config"

/-- `data` of a server's ConfigMap. -/
def configData (P : PrintTable) (config : ServerConfigSpec) : List (Text × Text) :=
  [(txt "config.yaml", generateConfigYAML P (some config))]

variable (S : SetStatusCondition) (P : PrintTable) {n : Text} (e : Reply)

/-- What `Reconcile` may do with a version of the server. -/
def version (s : NamedServer K n) (o : QuakeServer K) (e : Reply) : NamedServer K n :=
  { s with toQuakeServer := o, generation := e.generation, resourceVersion := e.resourceVersion }

/-- `r.Update` of the server; an object that is being deleted goes with its last finalizer. -/
def updateServer (store : Objects K) (s : NamedServer K n) (requeue : Bool) :
    Move (Key.Object K) (Phase K n) :=
  match (update s.toQuakeServer).bind ServerDoc.decode with
  | none => ⟨none, none, true⟩
  | some o =>
    if e.unchanged then ⟨none, none, requeue⟩
    else writeCall (ifCurrent ((store (.server n)).map (·.resourceVersion)) s.resourceVersion e.update)
      (some ⟨.server n, if s.deleting && o.finalizers.isEmpty then none else some (version s o e)⟩) none requeue

/-- `r.Status().Update`; a status that is stored already is not written again. -/
def statusUpdate (store : Objects K) (s : NamedServer K n) (status : QuakeServerStatus) (requeue : Bool) :
    Move (Key.Object K) (Phase K n) :=
  match store (.server n) with
  | none => ⟨none, none, true⟩
  | some current =>
    let written := { current with status := status, resourceVersion := e.resourceVersion }
    writeCall (ifCurrent (some current.resourceVersion) s.resourceVersion e.statusUpdate)
      (if current.status = status then none else some ⟨.server n, some written⟩) none requeue

/-- `CreateOrUpdate` with the changes `reconcileConfigMap` makes, after the read. -/
def createOrUpdate (store : Objects K) (s : NamedServer K n) (config : ServerConfigSpec)
    (existing : Option ConfigMap) : Move (Key.Object K) (Phase K n) :=
  let key := Key.configMap (configMapName s.name)
  let old := existing.getD ⟨0, [], []⟩
  match setControllerReference s old.ownerReferences with
  | none => ⟨none, none, true⟩
  | some owners =>
    let new := { old with ownerReferences := owners, data := configData P config }
    let written := { new with resourceVersion := e.resourceVersion }
    let stored := (store (.configMap (configMapName s.name))).map (·.resourceVersion)
    match existing with
    | none => writeCall (if stored.isNone then e.configMap else .refused) (some ⟨key, some written⟩)
        (some (.configMapReconciled s)) false
    | some cm =>
      if new = cm then ⟨none, some (.configMapReconciled s), false⟩
      else writeCall (ifCurrent stored cm.resourceVersion e.configMap) (some ⟨key, some written⟩)
        (some (.configMapReconciled s)) false

/-- `Reconcile` for the request `n`, from one read or write to the next. The other
objects of a server leave this store alone; a call for one of them that fails is
`Action.fail`. -/
def next (cache store : Objects K) : Phase K n → Move (Key.Object K) (Phase K n)
  | .started => ⟨none, (cache (.server n)).map .fetched, false⟩
  | .fetched s =>
    if s.deleting then updateServer e store { s with toQuakeServer := removeFinalizer s.toQuakeServer } false
    else if quakeServerFinalizer ∉ s.finalizers then
      updateServer e store { s with toQuakeServer := addFinalizer s.toQuakeServer } true
    else match resolveConfig cache.getTemplate s.spec with
      | .error err => statusUpdate e store s (s.setUnresolved S e.now err).status true
      | .ok config => ⟨none, some (.resolved s config), false⟩
  | .resolved s config => ⟨none, some (.read s config (cache (.configMap (configMapName s.name)))), false⟩
  | .read s config existing => createOrUpdate P e store s config existing
  | .configMapReconciled s =>
    match ((s.setTemplate S e.now).setPaused S e.now).setReady S e.now e.getDeployment e.playerCount with
    | none => ⟨none, none, true⟩
    | some (t, _, _) => statusUpdate e store s t.setEndpoint.status false

/-- The controller of the servers. -/
def controller (K : Core) : Program (Key.Object K) (Phase K) Reply where
  marks := marks
  start _ := .started
  next _ p cache store e := some (next S P e cache.get store p)

/-! ### What a run writes -/

/-- The objects a run of the server `n` writes. -/
def Writes (n : Text) (k : Key) : Prop := k = .server n ∨ k = .configMap (configMapName n)

theorem writes_updateServer (store : Objects K) (s : NamedServer K n) (requeue : Bool) :
    ∀ w ∈ (updateServer e store s requeue).write, Writes n w.key := by
  unfold updateServer
  split
  · exact fun w hw => nomatch hw
  · split
    · exact fun w hw => nomatch hw
    · exact writes_writeCall fun w hw => by cases hw; exact .inl rfl

theorem writes_statusUpdate (store : Objects K) (s : NamedServer K n) (status : QuakeServerStatus)
    (requeue : Bool) : ∀ w ∈ (statusUpdate e store s status requeue).write, Writes n w.key := by
  unfold statusUpdate
  split
  · exact fun w hw => nomatch hw
  · refine writes_writeCall fun w hw => ?_
    split at hw <;> cases hw
    exact .inl rfl

/-- `CreateOrUpdate` fails before it writes, or finds the ConfigMap as it should be,
or writes it so. -/
theorem createOrUpdate_cases (store : Objects K) (s : NamedServer K n) (config : ServerConfigSpec)
    (existing : Option ConfigMap) :
    createOrUpdate P e store s config existing = ⟨none, none, true⟩ ∨
    (∃ cm, existing = some cm ∧ ownerServer cm.ownerReferences = some n ∧ cm.data = configData P config ∧
      createOrUpdate P e store s config existing = ⟨none, some (.configMapReconciled s), false⟩) ∨
    ∃ cm : ConfigMap, ownerServer cm.ownerReferences = some n ∧ cm.data = configData P config ∧
      ∃ a, createOrUpdate P e store s config existing =
        writeCall a (some ⟨.configMap (configMapName s.name), some cm⟩)
        (some (.configMapReconciled s)) false := by
  cases ho : setControllerReference s (existing.getD ⟨0, [], []⟩).ownerReferences with
  | none => exact .inl (by simp only [createOrUpdate, ho])
  | some owners =>
    have owned := ownerServer_set ho
    cases existing with
    | none =>
      refine .inr (.inr ⟨⟨e.resourceVersion, owners, configData P config⟩, owned, rfl, ?_⟩)
      simp only [createOrUpdate, ho]
      exact ⟨_, rfl⟩
    | some cm =>
      rw [Option.getD_some] at ho
      by_cases heq : { cm with ownerReferences := owners, data := configData P config } = cm
      · refine .inr (.inl ⟨cm, rfl, ?_, ?_, ?_⟩)
        · rwa [← heq]
        · rw [← heq]
        · simp only [createOrUpdate, Option.getD_some, ho, if_pos heq]
      · refine .inr (.inr ⟨⟨e.resourceVersion, owners, configData P config⟩, owned, rfl, ?_⟩)
        simp only [createOrUpdate, Option.getD_some, ho, if_neg heq]
        exact ⟨_, rfl⟩

theorem writes_createOrUpdate (store : Objects K) (s : NamedServer K n) (config : ServerConfigSpec)
    (existing : Option ConfigMap) :
    ∀ w ∈ (createOrUpdate P e store s config existing).write, Writes n w.key := by
  obtain h | ⟨cm, -, -, -, h⟩ | ⟨cm, -, -, a, h⟩ := createOrUpdate_cases P e store s config existing
  · rw [h]
    exact fun w hw => nomatch hw
  · rw [h]
    exact fun w hw => nomatch hw
  · rw [h]
    refine writes_writeCall fun w hw => ?_
    cases hw
    exact .inr (by rw [s.named])

/-- A run writes its server and the ConfigMap of its server, nothing else. -/
theorem writes_next (cache store : Objects K) (p : Phase K n) :
    ∀ w ∈ (next S P e cache store p).write, Writes n w.key := by
  cases p with
  | started => exact fun w hw => nomatch hw
  | fetched s =>
    simp only [next]
    split
    · exact writes_updateServer e _ _ _
    · split
      · exact writes_updateServer e _ _ _
      · split
        · exact writes_statusUpdate e _ _ _ _
        · exact fun w hw => nomatch hw
  | resolved s config => exact fun w hw => nomatch hw
  | read s config existing => exact writes_createOrUpdate P e store s config existing
  | configMapReconciled s =>
    simp only [next]
    split
    · exact fun w hw => nomatch hw
    · exact writes_statusUpdate e _ _ _ _

theorem writes_controller (n : Text) (p : Phase K n) (cache : Cache (Key.Object K)) (store : Objects K)
    (e : Reply) (m : Move (Key.Object K) (Phase K n))
    (h : (controller S P K).next n p cache store e = some m) : ∀ w ∈ m.write, Writes n w.key := by
  cases h
  exact writes_next S P e cache.get store p

/-! ### What a run makes sure of -/

/-- The ConfigMap of the server `n` holds this configuration and is the server's own. -/
def Holds (P : PrintTable) (V : Objects K) (n : Text) (config : ServerConfigSpec) : Prop :=
  ∃ cm, V (.configMap (configMapName n)) = some cm ∧ ownerServer cm.ownerReferences = some n ∧
    cm.data = configData P config

/-- The server has been read, and its configuration is this. -/
structure Resolved (V : Objects K) (n : Text) (s : NamedServer K n) (config : ServerConfigSpec) : Prop where
  read : V (.server n) = some s
  resolved : resolveConfig V.getTemplate s.spec = .ok config

/-- The server's ConfigMap is that of its current template and inline configuration. -/
def Current (P : PrintTable) (n : Text) (V : Objects K) : Prop :=
  ∀ s, V (.server n) = some s → s.deleting = false →
    ∃ config, resolveConfig V.getTemplate s.spec = .ok config ∧ Holds P V n config

def Good (P : PrintTable) (n : Text) : Phase K n → Objects K → Prop
  | .started, _ => True
  | .fetched s, V => V (.server n) = some s
  | .resolved s config, V => Resolved V n s config
  | .read s config existing, V => Resolved V n s config ∧
      ∀ cm ∈ existing, ownerServer cm.ownerReferences = some n → V (.configMap (configMapName n)) = some cm
  | .configMapReconciled s, V => ∃ config, Resolved V n s config ∧ Holds P V n config

/-! ### Changes of the cache that do not queue the server -/

/-- A change that the handlers do not queue the server `n` for. -/
structure Quiet (V : Objects K) (v : Stored K) (n : Text) : Prop where
  old : marks (V.set v) ⟨v.key, V v.key⟩ n = false
  new : marks (V.set v) v n = false

variable {V : Objects K} {v : Stored K}

theorem Quiet.server (h : Quiet V v n) : V.set v (.server n) = V (.server n) := by
  refine View.set_of_ne ?_
  rintro hk
  have := h.new
  obtain ⟨key, o⟩ := v
  cases hk
  simp [marks] at this

/-- Only the template that is referred to is read. -/
theorem resolveConfig_congr {get get' : Text → Except GetError QuakeServerTemplateSpec} {s : QuakeServerSpec K}
    (h : ∀ t, s.templateName = some t → get t = get' t) : resolveConfig get s = resolveConfig get' s := by
  unfold resolveConfig
  cases hr : s.templateRef with
  | none => rfl
  | some ref => simp only [h ref.name (by rw [QuakeServerSpec.templateName, hr]; rfl)]

/-- The template of a cached server has not changed. -/
theorem Quiet.resolveConfig (h : Quiet V v n) {s : NamedServer K n} (hs : V (.server n) = some s) :
    resolveConfig (Objects.getTemplate (V.set v)) s.spec = resolveConfig V.getTemplate s.spec := by
  refine resolveConfig_congr fun t ht => ?_
  have : V.set v (.template t) = V (.template t) := by
    refine View.set_of_ne ?_
    intro hk
    have hm := h.old
    have hserver := h.server
    obtain ⟨key, o⟩ := v
    cases hk
    simp [marks, Objects.refers, hserver, hs, ht] at hm
  rw [Objects.getTemplate, this]
  rfl

theorem Quiet.configMap (h : Quiet V v n) {cm : ConfigMap} (hc : V (.configMap (configMapName n)) = some cm)
    (ho : ownerServer cm.ownerReferences = some n) :
    V.set v (.configMap (configMapName n)) = some cm := by
  rw [← hc]
  refine View.set_of_ne ?_
  intro hk
  have := h.old
  obtain ⟨key, o⟩ := v
  cases hk
  simp [marks, hc, ho] at this

theorem Quiet.resolved (h : Quiet V v n) {s : NamedServer K n} {config : ServerConfigSpec}
    (hr : Resolved V n s config) : Resolved (V.set v) n s config :=
  ⟨h.server.trans hr.read, (h.resolveConfig hr.read).trans hr.resolved⟩

theorem Quiet.holds (h : Quiet V v n) {config : ServerConfigSpec} (hh : Holds P V n config) :
    Holds P (V.set v) n config := by
  obtain ⟨cm, hc, ho, hd⟩ := hh
  exact ⟨cm, h.configMap hc ho, ho, hd⟩

theorem Quiet.marks (h : Quiet V v n) {w : Stored K} (hw : marks V w n = true) :
    marks (V.set v) w n = true := by
  obtain ⟨key, o⟩ := w
  cases key with
  | server m => exact hw
  | template t => simpa [Propagation.marks, Objects.refers, h.server] using hw
  | configMap c => exact hw

theorem Quiet.good (h : Quiet V v n) {p : Phase K n} (hp : Good P n p V) : Good P n p (V.set v) := by
  cases p with
  | started => trivial
  | fetched s => exact h.server.trans hp
  | resolved s config => exact h.resolved hp
  | read s config existing => exact ⟨h.resolved hp.1, fun cm hm ho => h.configMap (hp.2 cm hm ho) ho⟩
  | configMapReconciled s =>
    obtain ⟨config, hr, hh⟩ := hp
    exact ⟨config, h.resolved hr, h.holds P hh⟩

theorem Quiet.current (h : Quiet V v n) (hc : Current P n V) : Current P n (V.set v) := by
  intro s hs hd
  have hs : V (.server n) = some s := h.server.symm.trans hs
  obtain ⟨config, hr, hh⟩ := hc s hs hd
  exact ⟨config, (h.resolveConfig hs).trans hr, h.holds P hh⟩

/-! ### Moves -/

variable (store : Objects K) {s : NamedServer K n}

theorem leads_updateServer {requeue : Bool} (h : requeue = true ∨ Current P n V) :
    Leads marks (Good P) (Current P) n V (updateServer e store s requeue) := by
  have end_ : ∀ w : Option (Stored K), Leads marks (Good P) (Current P) n V ⟨w, none, requeue⟩ :=
    fun w => h.imp id .inr
  unfold updateServer
  split
  · exact .inl rfl
  · split
    · exact end_ none
    · exact leads_writeCall (end_ _)

theorem leads_statusUpdate {status : QuakeServerStatus} {requeue : Bool} (h : requeue = true ∨ Current P n V) :
    Leads marks (Good P) (Current P) n V (statusUpdate e store s status requeue) := by
  unfold statusUpdate
  split
  · exact .inl rfl
  · exact leads_writeCall (h.imp id .inr)

/-- Either nothing was to be done, or the event of what is written queues the server. -/
theorem leads_createOrUpdate {config : ServerConfigSpec} {existing : Option ConfigMap}
    (h : Good P n (.read s config existing) V) :
    Leads marks (Good P) (Current P) n V (createOrUpdate P e store s config existing) := by
  obtain ⟨hr, hc⟩ := h
  obtain h | ⟨cm, rfl, ho, hd, h⟩ | ⟨cm, ho, -, a, h⟩ := createOrUpdate_cases P e store s config existing
  · rw [h]
    exact .inl rfl
  · rw [h]
    exact .inr (.inr ⟨config, hr, cm, hc cm rfl ho, ho, hd⟩)
  · rw [h]
    exact leads_writeCall (.inr (.inl ⟨_, rfl, fun V' => by simp [marks, ho]⟩))

/-- What the run has read of the cache and not heard of since is still there. -/
theorem leads_next {p : Phase K n} (h : Good P n p V) :
    Leads marks (Good P) (Current P) n V (next S P e V store p) := by
  cases p with
  | started =>
    cases hs : V (.server n) with
    | none =>
      refine .inr (.inr ?_)
      simp only [next, hs, Option.map_none]
      intro s hs'
      simp [hs] at hs'
    | some s =>
      refine .inr (.inr ?_)
      simp only [next, hs, Option.map_some]
      exact hs
  | fetched s =>
    have hs : V (.server n) = some s := h
    simp only [next]
    by_cases hd : s.deleting = true
    · rw [if_pos hd]
      refine leads_updateServer P e store (.inr fun s' hs' hd' => ?_)
      rw [hs] at hs'
      cases hs'
      simp [hd] at hd'
    · rw [if_neg hd]
      split
      · exact leads_updateServer P e store (.inl rfl)
      · split
        · exact leads_statusUpdate P e store (.inl rfl)
        · rename_i config hr
          exact .inr (.inr ⟨hs, hr⟩)
  | resolved s config =>
    refine .inr (.inr ⟨h, fun cm hm _ => ?_⟩)
    rw [← s.named]
    exact hm
  | read s config existing => exact leads_createOrUpdate P e store h
  | configMapReconciled s =>
    obtain ⟨config, hr, hh⟩ := h
    simp only [next]
    split
    · exact .inl rfl
    · refine leads_statusUpdate P e store (.inr fun s' hs' _ => ?_)
      rw [hr.read] at hs'
      cases hs'
      exact ⟨config, hr.resolved, hh⟩

/-- The controller's code keeps what `Lib.Controller` asks of it. -/
def sound : (controller S P K).Sound where
  Good := Good P
  Settled := Current P
  settled_nothing _ _ h := nomatch h
  marks_of_quiet _ _ _ h1 h2 _ := (Quiet.mk h1 h2).marks
  good_of_quiet _ _ _ h1 h2 _ := (Quiet.mk h1 h2).good P
  settled_of_quiet _ _ _ h1 h2 := (Quiet.mk h1 h2).current P
  good_start _ _ := trivial
  good_next {_ _ _ store e _} h hm := by
    cases hm
    exact leads_next S P e store h

/-- **No change is lost on its way to the ConfigMaps.** With all events delivered
and no server queued or running, a server that is not being deleted has the
ConfigMap of the template it refers to, if any, and its inline configuration. -/
theorem configMap_current {st : State (Key.Object K) (Phase K)} (h : Reached (controller S P K) st)
    (hi : st.Idle) {n : Text} {s : NamedServer K n} (hs : st.store (.server n) = some s)
    (hd : s.deleting = false) :
    ∃ config cm, resolveConfig (Objects.getTemplate st.store) s.spec = .ok config ∧
      st.store (.configMap (configMapName s.name)) = some cm ∧
      cm.data = [(txt "config.yaml", generateConfigYAML P (some config))] := by
  obtain ⟨config, hr, cm, hc, -, hdata⟩ := settled_of_idle (sound S P) h hi n s hs hd
  rw [← s.named] at hc
  exact ⟨config, cm, hr, hc, hdata⟩

/-! ### A run that comes to rest -/

open Run

/-- All calls succeed, and there is no Deployment yet. -/
def arenaReply (resourceVersion : ℕ) : Reply := ⟨.ok, false, 1, .ok, .notFound, none, .ok, resourceVersion, 0⟩

def arenaKeys : List Key := [.template Arena.ffa, .server Arena.name, .configMap (configMapName Arena.name)]

/-- A run for the server, and the events of some keys before it. -/
def reconcileAfter (keys : List Key) (resourceVersion : ℕ) :
    List (Controller.Action (Key.Object .unit) Text Reply) :=
  keys.flatMap (fun k => [.deliver k, .handle k]) ++ .start Arena.name ::
    List.replicate 5 (.move Arena.name (arenaReply resourceVersion))

/-- The first run writes the ConfigMap and the status, the second one finds them. -/
def arenaRun : List (Controller.Action (Key.Object .unit) Text Reply) :=
  reconcileAfter [.template Arena.ffa, .server Arena.name] 3 ++
    reconcileAfter [.configMap (configMapName Arena.name), .server Arena.name] 4

abbrev Runs (st : State (Key.Object .unit) (Phase .unit)) : Prop :=
  run (Controller.step (controller .upsert .ascii7 .unit)) (.initial Arena.objects) arenaRun = some st

/-- There are no events of other keys. -/
theorem arena_events {st : State (Key.Object .unit) (Phase .unit)} (h : Runs st) {k : Key}
    (hk : k ∉ arenaKeys) :
    st.coming k = [] ∧ st.notices k = [] := by
  simp only [arenaKeys, List.mem_cons, List.not_mem_nil, or_false, not_or] at hk
  obtain ⟨ht, hs, hc⟩ := hk
  obtain ⟨h1, h2⟩ := events_of_run (k := k) (writes_controller .upsert .ascii7) h (by
    simp [arenaRun, reconcileAfter, Controller.Action.Touches, Writes, hs, hc, Ne.symm ht, Ne.symm hs,
      Ne.symm hc])
  refine ⟨h1.trans ?_, h2⟩
  simp [State.initial, Arena.objects_eq_none hs ht]

theorem arena_rests : ∃ st, Runs st ∧ st.Idle ∧
    ∃ s, st.store (.server Arena.name) = some s ∧ s.deleting = false := by
  obtain ⟨st, hst, events, requests, server⟩ : ∃ st, Runs st ∧
      (∀ k ∈ arenaKeys, st.coming k = [] ∧ st.notices k = []) ∧
      (∀ n, st.queued n = false ∧ st.running n = none) ∧
      ∃ s, st.store (.server Arena.name) = some s ∧ s.deleting = false := by
    refine ⟨_, by with_unfolding_all rfl, ?_, ?_, _, by with_unfolding_all rfl, by with_unfolding_all rfl⟩
    · simp only [arenaKeys, List.forall_mem_cons]
      with_unfolding_all exact ⟨⟨rfl, rfl⟩, ⟨rfl, rfl⟩, ⟨rfl, rfl⟩, nofun⟩
    · intro n
      by_cases h : n = Arena.name
      · subst h
        with_unfolding_all exact ⟨rfl, rfl⟩
      · have owner : ownerServer (upsertOwnerRef (Arena.server Arena.name).ownerReference []) =
          some Arena.name := by
          with_unfolding_all rfl
        simp [State.initial, h, Ne.symm h, controller, marks, Objects.refers, Cache.set, View.set, owner]
  exact ⟨st, hst, .of_keys events (fun _ hk => arena_events hst hk) requests, server⟩

theorem configMap_current_arena : ∃ st s config cm, Runs st ∧ st.store (.server Arena.name) = some s ∧
    resolveConfig (Objects.getTemplate st.store) s.spec = .ok config ∧
    st.store (.configMap (configMapName s.name)) = some cm ∧
    cm.data = [(txt "config.yaml", generateConfigYAML .ascii7 (some config))] := by
  obtain ⟨st, hst, hi, s, hs, hd⟩ := arena_rests
  have reached : Reached (controller .upsert .ascii7 .unit) st :=
    .of_run (.start ⟨Arena.objects, rfl⟩) (along_always _ _) hst
  obtain ⟨config, cm, h⟩ := configMap_current .upsert .ascii7 reached hi hs hd
  exact ⟨st, s, config, cm, hst, hs, h⟩

end Propagation
end Operator
end QuakeKube
