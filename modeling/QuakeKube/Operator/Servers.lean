/-
# Many servers in one namespace

A run over one server (`Operator.step`) knows of that server's objects alone. Here one controller
has any number of servers, each with its own versions and its own runs, in whatever order they
come, and all objects are in the one namespace of `Cluster`. Their names keep them apart: what the
namespace holds under a server's names is what the run over that server says, and a run over a
server leaves the objects of every other as they are.

A server's name can be used again when the server is gone; what it has left is gone by then, too.

Key definitions: `Servers.step`, `Cluster.objectsOf`, `Holds`, `Simulates`, `HoldsAll`.
Key theorems: `Simulates.step`, `HoldsAll.step`, `servers_simulated`.
-/
import QuakeKube.Operator.Pods
import QuakeKube.Operator.Published

namespace QuakeKube
namespace Operator

open Go Conditions Run

variable {K : Core}

/-! ### The servers of a controller -/

abbrev Servers (K : Core) := Text → Option (World K)

inductive Servers.Action (K : Core)
  | create (o : QuakeServer K) (name : Text) (generation : Int64) (annotations : Text → Option Text)
  | act (name : Text) (a : Operator.Action K)

variable (S : SetStatusCondition) (P : PrintTable)

def Servers.step (ws : Servers K) : Action K → Option (Servers K)
  | .create o name generation annotations =>
    if (ws name).all (·.gone) then
      some (Function.update ws name (some (World.created o name generation annotations)))
    else none
  | .act name a => (ws name).bind fun w => (Operator.step S P w a).map fun w' =>
      Function.update ws name (some w')

/-! ### The objects of one server -/

/-- What is in the namespace under a server's names. -/
structure ServerObjects (K : Core) where
  configMap : Option Text
  service : Option ServiceObject
  deployment : Option (Deployment K)
  httpRoute : Option HTTPRoute
  udpRoute : Option UDPRoute

def Cluster.objectsOf (c : Cluster K) (n : Text) : ServerObjects K where
  configMap := c.configMaps (n ++ txt "-config")
  service := c.services n
  deployment := c.deployments n
  httpRoute := c.httpRoutes (n ++ txt "-http")
  udpRoute := c.udpRoutes (n ++ txt "-udp")

/-- The namespace holds of a server what the run over it says. -/
structure Holds (c : Cluster K) (n : Text) (w : World K) : Prop where
  names : ∀ s ∈ w.versions, s.name = n
  configMap : (c.objectsOf n).configMap = w.configMap
  service : (c.objectsOf n).service.map (fun x => ⟨x.name, x.ports.map (·.port)⟩) = w.service
  deployment : (c.objectsOf n).deployment.map (·.replicas) = w.deployment
  httpRoute : (c.objectsOf n).httpRoute = w.httpRoute
  udpRoute : (c.objectsOf n).udpRoute = w.udpRoute

variable {S P} {c c' c₀ : Cluster K} {n m : Text} {w w' : World K} {s : StoredServer K} {e : Replies}

theorem Holds.congr (h : Holds c n w) (ho : c'.objectsOf n = c.objectsOf n) : Holds c' n w :=
  ⟨h.names, ho ▸ h.configMap, ho ▸ h.service, ho ▸ h.deployment, ho ▸ h.httpRoute, ho ▸ h.udpRoute⟩

section Update

variable {β : Type} {f : Text → β} {v : β}

/-- An entry of a table whose keys are names with an ending. -/
theorem update_append (ending : Text) :
    Function.update f (m ++ ending) v (n ++ ending) = if n = m then v else f (n ++ ending) := by
  simp only [Function.update_apply, List.append_left_inj]

end Update

/-! ### A run over one server in the namespace -/

/-- From `c` the namespace can come to hold of the server what `w` says, with the other servers'
objects untouched. -/
def Simulates (P : PrintTable) (c : Cluster K) (n : Text) (w : World K) : Prop :=
  ∃ c', Reach (Cluster.step P) always (· = c) c' ∧ Holds c' n w ∧ ∀ m, m ≠ n → c'.objectsOf m = c.objectsOf m

theorem Holds.simulates (h : Holds c n w) : Simulates P c n w := ⟨c, .start rfl, h, fun _ _ => rfl⟩

/-- One more call, which writes an object of the server. -/
theorem Simulates.write (h : Simulates P c n w) (a : Cluster.Action K) (ha : ∀ c : Cluster K, ∃ c',
      c.step P a = some c' ∧ (Holds c n w → Holds c' n w') ∧ ∀ m, m ≠ n → c'.objectsOf m = c.objectsOf m) :
    Simulates P c n w' := by
  obtain ⟨c', hreach, hc', hm⟩ := h
  obtain ⟨c'', hstep, hholds, hother⟩ := ha c'
  exact ⟨c'', .next a hreach trivial hstep, hholds hc', fun m hne => (hother m hne).trans (hm m hne)⟩

/-- What changes of the server beside its objects. -/
theorem Simulates.keep (h : Simulates P c n w) (hholds : ∀ c, Holds c n w → Holds c n w') :
    Simulates P c n w' := by
  obtain ⟨c', hreach, hc', hm⟩ := h
  exact ⟨c', hreach, hholds c' hc', hm⟩

theorem Simulates.names (h : Simulates P c n w) : ∀ s ∈ w.versions, s.name = n := by
  obtain ⟨_, -, hc', -⟩ := h
  exact hc'.names

section Calls

variable (hs : s.name = n)
include hs

theorem Simulates.configMap {template : Text → Except GetError QuakeServerTemplateSpec}
    {config : ServerConfigSpec}
    (hconfig : resolveConfig template s.spec = .ok config) (h : Simulates P c n w) :
    Simulates P c n { w with configMap := some (generateConfigYAML P (some config)) } := by
  subst hs
  refine h.write (.configMap s template) fun c => ⟨_, by simp only [Cluster.step, hconfig]; rfl, fun hc => ?_,
    fun m hm => ?_⟩
  · exact { hc with configMap := (update_append _).trans (if_pos rfl) }
  · simp only [Cluster.objectsOf, StoredServer.configMapName, update_append, if_neg hm]

theorem Simulates.service (h : Simulates P c n w) : Simulates P c n { w with service := some s.service } := by
  subst hs
  refine h.write (.service s) fun c => ⟨_, rfl, fun hc => ?_, fun m hm => ?_⟩
  · refine { hc with service := ?_ }
    simp only [Cluster.objectsOf, StoredServer.serviceName, Function.update_self, Option.map_some]
    rfl
  · simp only [Cluster.objectsOf, StoredServer.serviceName, Function.update_of_ne hm]

theorem Simulates.deployment (h : Simulates P c n w) :
    Simulates P c n { w with deployment := some s.replicas } := by
  subst hs
  refine h.write (.deployment s) fun c => ⟨_, rfl, fun hc => ?_, fun m hm => ?_⟩
  · refine { hc with deployment := ?_ }
    simp only [Cluster.objectsOf, StoredServer.deploymentName, Function.update_self, Option.map_some]
    rfl
  · simp only [Cluster.objectsOf, StoredServer.deploymentName, Function.update_of_ne hm]

theorem Simulates.httpRoute (g : GatewaySpec) (h : Simulates P c n w) :
    Simulates P c n { w with httpRoute := some (s.httpRoute g) } := by
  subst hs
  refine h.write (.httpRoute s g) fun c => ⟨_, rfl, fun hc => ?_, fun m hm => ?_⟩
  · exact { hc with httpRoute := (update_append _).trans (if_pos rfl) }
  · simp only [Cluster.objectsOf, StoredServer.httpRouteName, update_append, if_neg hm]

theorem Simulates.udpRoute (ref : GatewayReference) (h : Simulates P c n w) :
    Simulates P c n { w with udpRoute := some (s.udpRoute ref) } := by
  subst hs
  refine h.write (.udpRoute s ref) fun c => ⟨_, rfl, fun hc => ?_, fun m hm => ?_⟩
  · exact { hc with udpRoute := (update_append _).trans (if_pos rfl) }
  · simp only [Cluster.objectsOf, StoredServer.udpRouteName, update_append, if_neg hm]

/-- A version of the server is stored. -/
theorem Simulates.store (h : Simulates P c n w) : Simulates P c n (w.store s) :=
  h.keep fun _ hc => ⟨List.forall_mem_cons.mpr ⟨hs, hc.names⟩, hc.configMap, hc.service, hc.deployment,
    hc.httpRoute, hc.udpRoute⟩

variable {next : World K → World K × Result}

theorem Simulates.statusUpdate (h : Simulates P c n w)
    (hnext : ∀ w, Simulates P c n w → Simulates P c n (next w).1) :
    Simulates P c n (statusUpdate e s w next).1 :=
  call_rule (C := fun x => Simulates P c n x.1) (fun _ _ h => h) hnext (fun h => h.store hs)
    (h.keep fun _ hc => { hc with })

theorem Simulates.updateServer (h : Simulates P c n w)
    (hnext : ∀ w, Simulates P c n w → Simulates P c n (next w).1) :
    Simulates P c n (updateServer e s w next).1 := by
  unfold Operator.updateServer
  split
  · exact h
  · rename_i o _
    refine call_rule (C := fun x => Simulates P c n x.1) (fun _ _ h => h) hnext (fun h => ?_) h
    exact (Simulates.store (s := { s with toQuakeServer := o, generation := e.generation }) hs h).keep
      fun _ hc => { hc with }

theorem Simulates.routes (h : Simulates P c n w)
    (hnext : ∀ w, Simulates P c n w → Simulates P c n (next w).1) :
    Simulates P c n (reconcileRoutes e s w next).1 := by
  have hudp : ∀ w, Simulates P c n w → Simulates P c n (reconcileUDPRoute e s w next).1 := by
    intro w h
    unfold reconcileUDPRoute
    split
    · exact hnext w h
    · exact call_rule (C := fun x => Simulates P c n x.1) (fun _ _ h => h) hnext (.udpRoute hs _) h
  unfold reconcileRoutes
  split
  · unfold reconcileHTTPRoute
    split
    · exact hudp w h
    · split
      · exact hudp w h
      · exact call_rule (C := fun x => Simulates P c n x.1) (fun _ _ h => h) hudp (.httpRoute hs _) h
  · exact hnext w h

theorem Simulates.updateStatus (h : Simulates P c n w) :
    Simulates P c n (updateStatus S e (s.setTemplate S e.now) w).1 := by
  unfold Operator.updateStatus
  rw [s.setReady_setPaused_setTemplate]
  cases e.getDeployment.phase s.isPaused with
  | none => exact h
  | some p =>
    simp only [Option.map_some, s.setEndpoint_observed]
    refine Simulates.statusUpdate ?_ ?_ fun _ h => ?_
    · exact hs
    · exact h.keep fun _ hc => { hc with }
    · exact h

theorem Simulates.reconcileServer (h : Simulates P c n w) :
    Simulates P c n (reconcileServer S P e s w).1 := by
  unfold Operator.reconcileServer
  split
  · refine Simulates.statusUpdate ?_ h fun _ h => ?_
    · exact hs
    · exact h
  · rename_i config hconfig
    have ht : (s.setTemplate S e.now).name = n := by
      rw [s.setTemplate_eq]
      exact hs
    -- the calls one after the other, each from what the one before it has left
    refine call_rule (C := fun x => Simulates P c n x.1) (fun _ _ h => h) (fun w h => ?_)
      (.configMap hs hconfig) h
    refine call_rule (C := fun x => Simulates P c n x.1) (fun _ _ h => h) (fun w h => ?_) (.service ht) h
    refine call_rule (C := fun x => Simulates P c n x.1) (fun _ _ h => h) (fun w h => ?_) (.deployment ht) h
    exact h.routes ht fun w h => h.updateStatus hs

end Calls

theorem Simulates.reconcile (h : Simulates P c n w) : Simulates P c n (reconcile S P e w).1 := by
  unfold Operator.reconcile
  split
  · exact h
  · split
    · exact h
    · rename_i s hs
      have hname := h.names s (List.mem_of_getElem? hs)
      split
      · refine Simulates.updateServer ?_ h fun _ h => ?_
        · exact hname
        · exact h.keep fun _ hc => { hc with }
      · split
        · refine Simulates.updateServer ?_ h fun _ h => ?_
          · exact hname
          · exact h
        · exact h.reconcileServer hname

theorem Simulates.change {f : StoredServer K → StoredServer K} (h : Simulates P c n w)
    (hw : w.change f = some w') (hf : ∀ s, (f s).name = s.name) : Simulates P c n w' := by
  unfold World.change at hw
  split at hw
  · rename_i s _ _ hv
    cases hw
    exact h.store ((hf s).trans (h.names s (hv ▸ List.mem_cons_self)))
  · cases hw

/-- **A step of the run over one server** is some calls in the namespace that leave the other
servers' objects alone. -/
theorem Simulates.step {a : Operator.Action K} (h : Simulates P c n w)
    (hw : Operator.step S P w a = some w') :
    Simulates P c n w' := by
  cases a with
  | edit spec generation => exact h.change hw fun _ => rfl
  | annotate annotations => exact h.change hw fun _ => rfl
  | delete =>
    obtain ⟨w1, h1, rfl⟩ := Option.map_eq_some_iff.mp hw
    exact (h.change h1 fun _ => rfl).keep fun _ hc => { hc with }
  | reconcile e =>
    cases hw
    exact h.reconcile
  | restart =>
    cases hw
    exact h.keep fun _ hc => { hc with }

/-! ### All servers -/

variable {o : QuakeServer K} {generation : Int64} {annotations : Text → Option Text} {ws : Servers K}

/-- A server that is new finds nothing under its names, once what was left there is removed. -/
theorem simulates_created : Simulates P c n (World.created o n generation annotations) := by
  refine ⟨_, .next (.removeConfigMap (n ++ txt "-config")) (.next (.removeService n)
    (.next (.removeDeployment n)
    (.next (.removeHTTPRoute (n ++ txt "-http")) (.next (.removeUDPRoute (n ++ txt "-udp")) (.start rfl)
    trivial rfl) trivial rfl) trivial rfl) trivial rfl) trivial rfl, ?_, fun m hm => ?_⟩
  · refine ⟨by simp [World.created], ?_, ?_, ?_, ?_, ?_⟩ <;>
      simp only [Cluster.objectsOf, Function.update_self] <;> rfl
  · simp only [Cluster.objectsOf, update_append, Function.update_of_ne hm, if_neg hm]

/-- The namespace holds of each server what the run over it says. -/
def HoldsAll (ws : Servers K) (c : Cluster K) : Prop := ∀ n w, ws n = some w → Holds c n w

/-- The server an action is about. -/
def Servers.Action.server : Servers.Action K → Text
  | .create _ name _ _ => name
  | .act name _ => name

/-- One server's part of the namespace changes, and the others' is held as before. -/
theorem HoldsAll.update (h : HoldsAll ws c) (hw : Simulates P c n w) :
    ∃ c', Reach (Cluster.step P) always (· = c) c' ∧ HoldsAll (Function.update ws n (some w)) c' ∧
      ∀ m, m ≠ n → c'.objectsOf m = c.objectsOf m := by
  obtain ⟨c', hreach, hn, hother⟩ := hw
  refine ⟨c', hreach, fun m v hv => ?_, hother⟩
  by_cases hm : m = n
  · subst hm
    rw [Function.update_self] at hv
    exact Option.some.inj hv ▸ hn
  · rw [Function.update_of_ne hm] at hv
    exact (h m v hv).congr (hother m hm)

/-- **An action on one server** is a run of the namespace that leaves the objects of all others. -/
theorem HoldsAll.step {ws' : Servers K} {a : Servers.Action K} (h : HoldsAll ws c)
    (hs : ws.step S P a = some ws') :
    ∃ c', Reach (Cluster.step P) always (· = c) c' ∧ HoldsAll ws' c' ∧
      ∀ m, m ≠ a.server → c'.objectsOf m = c.objectsOf m := by
  cases a with
  | create o name generation annotations =>
    rw [Servers.step, Option.ite_none_right_eq_some] at hs
    obtain rfl := Option.some.inj hs.2
    exact h.update simulates_created
  | act name a =>
    obtain ⟨w, hw, hs⟩ := Option.bind_eq_some_iff.mp hs
    obtain ⟨w', hact, rfl⟩ := Option.map_eq_some_iff.mp hs
    exact h.update ((h name w hw).simulates.step hact)

/-- **Whatever is done to any number of servers, in whatever order, is what one run of the
namespace does**: there is a namespace that holds of each server what the run over it says. From
every such namespace the next action on a server goes on, and leaves the objects of all others. -/
theorem servers_simulated (h : Reach (Servers.step S P) always (· = fun _ => none) ws) :
    (∃ c : Cluster K, Reach (Cluster.step P) always (· = .empty) c ∧ HoldsAll ws c) ∧
    ∀ (c : Cluster K) (a : Servers.Action K) (ws' : Servers K), HoldsAll ws c → ws.step S P a = some ws' →
      ∃ c', Reach (Cluster.step P) always (· = c) c' ∧ HoldsAll ws' c' ∧
        ∀ m, m ≠ a.server → c'.objectsOf m = c.objectsOf m := by
  refine ⟨h.simulated (fun _ h0 => ⟨.empty, rfl, fun n w hw => by simp [h0] at hw⟩)
    fun _ _ _ _ hc _ hs => ?_, fun _ _ _ hc hs => hc.step hs⟩
  obtain ⟨c', hreach, hholds, -⟩ := HoldsAll.step hc hs
  exact ⟨c', hreach, hholds⟩

/-- Two servers are created and one of them is reconciled. -/
def oneOfTwo : List (Servers.Action .unit) :=
  [.create ⟨[], arenaSpec none none⟩ (txt "duel") 1 fun _ => none,
    .create ⟨[], arenaSpec none none⟩ (txt "arena") 1 fun _ => none,
    .act (txt "arena") (.reconcile (.good none))]

/-- It is reconciled again, which makes its Service. -/
theorem servers_simulated_oneOfTwo : ∃ (ws ws' : Servers .unit) (c c' : Cluster .unit),
    run (Servers.step .upsert .ascii7) (fun _ => none) oneOfTwo = some ws ∧
      ws.step .upsert .ascii7 (.act (txt "arena") (.reconcile (.good none))) = some ws' ∧
      ((ws' (txt "arena")).bind (·.service)).isSome = true ∧ HoldsAll ws c ∧ HoldsAll ws' c' ∧
      c'.objectsOf (txt "duel") = c.objectsOf (txt "duel") := by
  have hrun : ((run (Servers.step .upsert .ascii7) (fun _ => none) oneOfTwo).bind fun ws =>
      (ws.step .upsert .ascii7 (.act (txt "arena") (.reconcile (.good none)))).map
        fun ws' => ((ws' (txt "arena")).bind (·.service)).isSome) = some true := by with_unfolding_all rfl
  obtain ⟨ws, hws, hstep⟩ := Option.bind_eq_some_iff.mp hrun
  obtain ⟨ws', hws', hservice⟩ := Option.map_eq_some_iff.mp hstep
  obtain ⟨⟨c, -, hc⟩, hgo⟩ := servers_simulated (.of_run (.start rfl) (along_always _ _) hws)
  obtain ⟨c', -, hc', hothers⟩ := hgo c _ ws' hc hws'
  have hne : txt "duel" ≠ txt "arena" := by with_unfolding_all decide
  exact ⟨ws, ws', c, c', hws, hws', hservice, hc, hc', hothers _ hne⟩

end Operator
end QuakeKube
