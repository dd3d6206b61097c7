/-
# One server under the controller

A `QuakeServer` from its creation to its deletion, as the API server stores it,
with the objects `QuakeServerReconciler.Reconcile` keeps for it and its series of
the player gauge. Users edit, annotate and delete the server; the controller
reconciles it. A run of `Reconcile` is one step: it reads a version of the server
that may be out of date, and what is written of such a version is refused, so
that a write of the users between the read and the end of a run is one that came
before the whole run. Everything the API server and the game server answer on the
way is in its `Replies`.

Key definitions: `World`, `Replies`, `updateStatus`, `reconcile`, `step`.
-/
import QuakeKube.Lib.Conditions
import QuakeKube.Lib.Run
import QuakeKube.Operator.ConfigYaml
import QuakeKube.Operator.Merge

namespace QuakeKube
namespace Operator

open Go Conditions

variable {K : Core}

/-! ### What is stored -/

structure QuakeServerStatus where
  ready : Bool
  endpoint : Text
  gamePort : Int32
  players : Int64
  templateRef : Text
  conditions : ConditionList
deriving DecidableEq

def QuakeServerStatus.zero : QuakeServerStatus := ⟨false, [], 0, 0, [], .empty⟩

/-- A version of the server, with the metadata the controller reads. -/
structure StoredServer (K : Core) extends QuakeServer K where
  name : Text
  generation : Int64
  annotations : Text → Option Text
  /-- It has a deletion timestamp. -/
  deleting : Bool
  status : QuakeServerStatus

structure Service where
  name : Text
  ports : List Int32
deriving DecidableEq

structure ParentReference where
  name : Text
  ns : Text
deriving DecidableEq

structure BackendRef where
  name : Text
  port : Int32
deriving DecidableEq

structure HTTPRoute where
  name : Text
  parentRefs : List ParentReference
  hostnames : List Text
  backendRefs : List BackendRef
deriving DecidableEq

structure UDPRoute where
  name : Text
  parentRefs : List ParentReference
  backendRefs : List BackendRef
deriving DecidableEq

/-- What there is of one server. -/
structure World (K : Core) where
  /-- The versions stored so far, the latest first. -/
  versions : List (StoredServer K)
  /-- The server is no longer stored. -/
  gone : Bool
  /-- `config.yaml` of the ConfigMap. -/
  configMap : Option Text
  service : Option Service
  /-- The replicas of the Deployment. -/
  deployment : Option Int32
  httpRoute : Option HTTPRoute
  udpRoute : Option UDPRoute
  /-- The server's series of `quakeserver_players_active`. -/
  playersActive : Option Int64
  /-- Every status the controller has written, refused or not. -/
  written : List QuakeServerStatus

/-- A server has been created and not been reconciled. -/
def World.created (o : QuakeServer K) (name : Text) (generation : Int64) (annotations : Text → Option Text) :
    World K where
  versions := [⟨o, name, generation, annotations, false, .zero⟩]
  gone := false
  configMap := none
  service := none
  deployment := none
  httpRoute := none
  udpRoute := none
  playersActive := none
  written := []

/-! ### What a run is answered -/

/-- How a writing call ends. One that reports an error may have been carried out. -/
inductive Answer
  | ok | refused | lost
deriving DecidableEq

/-- What `r.Get` says of the Deployment. -/
inductive DeploymentReply
  | found (readyReplicas replicas : Int32)
  | notFound
  | failed
deriving DecidableEq

/-- What one run of `Reconcile` is answered. -/
structure Replies where
  /-- How many versions behind the cache is; none when the read fails. -/
  behind : Option ℕ
  template : Text → Except GetError QuakeServerTemplateSpec
  /-- `r.Update`, with the generation it gives. -/
  update : Answer
  generation : Int64
  configMap : Answer
  service : Answer
  deployment : Answer
  httpRoute : Answer
  udpRoute : Answer
  getDeployment : DeploymentReply
  /-- `queryPlayerCount`. -/
  playerCount : Option Int64
  /-- `r.Status().Update`. -/
  statusUpdate : Answer
  now : ℤ

inductive Result
  | failed
  /-- The server was not found. -/
  | missing
  /-- `reconcileDelete` has come to its end. -/
  | deleted
  /-- The finalizer has been added. -/
  | requeued
  | reconciled (serverReady : Bool)
deriving DecidableEq

/-! ### Changes of the server that was read -/

def pauseAnnotation : Text := txt "quakekube.io/paused"
def httpPort : Int32 := 8080
def gamePort : Int32 := 27960
def contentPort : Int32 := 9090

/-- The types of the conditions the controller sets. -/
def typeTemplateResolved : Text := txt "TemplateResolved"
def typePaused : Text := txt "Paused"
def typeReady : Text := txt "Ready"

namespace StoredServer

def isPaused (s : StoredServer K) : Bool := s.annotations pauseAnnotation = some (txt "true")

def httpRouteName (s : StoredServer K) : Text := s.name ++ txt "-http"
def udpRouteName (s : StoredServer K) : Text := s.name ++ txt "-udp"
def serviceName (s : StoredServer K) : Text := s.name

variable (S : SetStatusCondition) (now : ℤ)

def setCondition (condType : Text) (status : ConditionStatus) (reason message : Text) (s : StoredServer K) :
    StoredServer K :=
  { s with status.conditions :=
      S.set s.status.conditions ⟨condType, status, reason, message, s.generation⟩ now }

/-- The template's name and condition, where there is a reference. -/
def setTemplate (s : StoredServer K) : StoredServer K :=
  match s.spec.templateRef with
  | none => s
  | some ref => { s with status.templateRef := ref.name }.setCondition S now typeTemplateResolved .ConditionTrue
      (txt "TemplateFound") (txt "Using template " ++ ref.name)

/-- The template could not be resolved. -/
def setUnresolved (err : Text) (s : StoredServer K) : StoredServer K :=
  s.setCondition S now typeTemplateResolved .ConditionFalse (txt "ResolutionFailed") err

def setPaused (s : StoredServer K) : StoredServer K :=
  if s.isPaused then
    s.setCondition S now typePaused .ConditionTrue (txt "ServerPaused") (txt "Server is paused via annotation")
  else s.setCondition S now typePaused .ConditionFalse (txt "ServerRunning") (txt "Server is not paused")

/-- What `updateStatus` makes of the Deployment: the server, what the gauge is
set to, and whether the server is ready; none when the Deployment is not read. -/
def setReady (deployment : DeploymentReply) (playerCount : Option Int64) (s : StoredServer K) :
    Option (StoredServer K × Option Int64 × Bool) :=
  match deployment with
  | .failed => none
  | .notFound =>
    some ({ s with status.ready := false, status.players := 0 }.setCondition S now typeReady .ConditionFalse
      (txt "DeploymentNotFound") (txt "Deployment does not exist"), none, false)
  | .found readyReplicas replicas =>
    let ready := decide (0 < readyReplicas)
    let s := { s with status.ready := ready }
    if s.isPaused then
      some ({ s with status.ready := false, status.players := 0 }.setCondition S now typeReady .ConditionFalse
        (txt "ServerPaused") (txt "Server is paused and not accepting connections"), none, false)
    else if ready then
      let s := s.setCondition S now typeReady .ConditionTrue
        (txt "ServerReady") (txt "Server is running and accepting connections")
      match playerCount with
      -- the previous player count is kept
      | none => some (s, none, true)
      | some n => some ({ s with status.players := n }, some n, true)
    else
      some ({ s with status.players := 0 }.setCondition S now typeReady .ConditionFalse (txt "ServerNotReady")
        (txt "Waiting for replicas: " ++ intText readyReplicas.toInt ++ txt "/" ++ intText replicas.toInt ++
          txt " ready"), some 0, false)

def setEndpoint (s : StoredServer K) : StoredServer K :=
  match s.spec.gateway with
  | none => { s with status.gamePort := gamePort }
  | some g =>
    if g.hostname ≠ [] then
      { s with status.endpoint := txt "https://" ++ g.hostname, status.gamePort := gamePort }
    else { s with status.gamePort := gamePort }

end StoredServer

/-! ### The objects of a server -/

/-- The gateway a route attaches to; an empty namespace is `default`. -/
def GatewayReference.parentRef (ref : GatewayReference) : ParentReference :=
  ⟨ref.name, if ref.ns = [] then txt "default" else ref.ns⟩

/-- What `reconcileHTTPRoute` writes. -/
def StoredServer.httpRoute (s : StoredServer K) (g : GatewaySpec) : HTTPRoute where
  name := s.httpRouteName
  parentRefs := match g.gatewayRef with
    | none => []
    | some ref => [ref.parentRef]
  hostnames := [g.hostname]
  backendRefs := [⟨s.serviceName, httpPort⟩]

/-- What `reconcileUDPRoute` writes. -/
def StoredServer.udpRoute (s : StoredServer K) (ref : GatewayReference) : UDPRoute where
  name := s.udpRouteName
  parentRefs := [ref.parentRef]
  backendRefs := [⟨s.serviceName, gamePort⟩]

/-- What `reconcileService` writes. -/
def StoredServer.service (s : StoredServer K) : Service :=
  ⟨s.serviceName, [httpPort, gamePort, contentPort]⟩

/-- The replicas `reconcileDeployment` asks for. -/
def StoredServer.replicas (s : StoredServer K) : Int32 := if s.isPaused then 0 else 1

/-! ### A run of `Reconcile` -/

/-- A writing call; the run goes on where it is answered with ok. -/
def call (a : Answer) (write : World K → World K) (w : World K) (next : World K → World K × Result) :
    World K × Result :=
  match a with
  | .ok => next (write w)
  | .refused => (w, .failed)
  | .lost => (write w, .failed)

/-- The answer to a write of the version that was read: one that is out of date is refused. -/
def Replies.ifCurrent (e : Replies) (w : World K) (a : Answer) : Answer :=
  if e.behind = some 0 ∧ w.gone = false then a else .refused

def World.store (s : StoredServer K) (w : World K) : World K := { w with versions := s :: w.versions }

/-- `r.Status().Update`. -/
def statusUpdate (e : Replies) (s : StoredServer K) (w : World K) (next : World K → World K × Result) :
    World K × Result :=
  call (e.ifCurrent w e.statusUpdate) (World.store s) { w with written := s.status :: w.written } next

/-- `r.Update`: what is then stored passes the webhooks. -/
def updateServer (e : Replies) (s : StoredServer K) (w : World K) (next : World K → World K × Result) :
    World K × Result :=
  match (update s.toQuakeServer).bind ServerDoc.decode with
  | none => (w, .failed)
  | some o =>
    -- an object that is being deleted goes with its last finalizer
    call (e.ifCurrent w e.update) (fun w =>
      { w.store { s with toQuakeServer := o, generation := e.generation } with
      gone := s.deleting && o.finalizers.isEmpty }) w next

def reconcileDelete (e : Replies) (s : StoredServer K) (w : World K) : World K × Result :=
  updateServer e { s with toQuakeServer := removeFinalizer s.toQuakeServer } w fun w =>
    ({ w with playersActive := none }, .deleted)

def reconcileConfigMap (P : PrintTable) (e : Replies) (config : ServerConfigSpec) (w : World K)
    (next : World K → World K × Result) : World K × Result :=
  call e.configMap (fun w => { w with configMap := some (generateConfigYAML P (some config)) }) w next

def reconcileService (e : Replies) (s : StoredServer K) (w : World K) (next : World K → World K × Result) :
    World K × Result :=
  call e.service (fun w => { w with service := some s.service }) w next

def reconcileDeployment (e : Replies) (s : StoredServer K) (w : World K) (next : World K → World K × Result) :
    World K × Result :=
  call e.deployment (fun w => { w with deployment := some s.replicas }) w next

def reconcileHTTPRoute (e : Replies) (s : StoredServer K) (w : World K) (next : World K → World K × Result) :
    World K × Result :=
  match s.spec.gateway with
  | none => next w
  | some g =>
    if g.hostname = [] then next w
    else call e.httpRoute (fun w => { w with httpRoute := some (s.httpRoute g) }) w next

def reconcileUDPRoute (e : Replies) (s : StoredServer K) (w : World K) (next : World K → World K × Result) :
    World K × Result :=
  match s.spec.gateway.bind (·.gatewayRef) with
  | none => next w
  | some ref => call e.udpRoute (fun w => { w with udpRoute := some (s.udpRoute ref) }) w next

/-- The routes, when the gateway is enabled. -/
def reconcileRoutes (e : Replies) (s : StoredServer K) (w : World K) (next : World K → World K × Result) :
    World K × Result :=
  if s.spec.gateway.any (·.enabled) then
    reconcileHTTPRoute e s w fun w => reconcileUDPRoute e s w next
  else next w

variable (S : SetStatusCondition) (P : PrintTable)

def updateStatus (e : Replies) (s : StoredServer K) (w : World K) : World K × Result :=
  match (s.setPaused S e.now).setReady S e.now e.getDeployment e.playerCount with
  | none => (w, .failed)
  | some (s, gauge, serverReady) =>
    statusUpdate e s.setEndpoint { w with playersActive := gauge.or w.playersActive } fun w =>
      (w, .reconciled serverReady)

/-- `Reconcile` from where the server has been read and is not being deleted. -/
def reconcileServer (e : Replies) (s : StoredServer K) (w : World K) : World K × Result :=
  match resolveConfig e.template s.spec with
  | .error err => statusUpdate e (s.setUnresolved S e.now err) w fun w => (w, .failed)
  | .ok config =>
    let s := s.setTemplate S e.now
    reconcileConfigMap P e config w fun w =>
    reconcileService e s w fun w =>
    reconcileDeployment e s w fun w =>
    reconcileRoutes e s w fun w =>
    updateStatus S e s w

def reconcile (e : Replies) (w : World K) : World K × Result :=
  match e.behind with
  | none => (w, .failed)
  | some n => match w.versions[n]? with
    | none => (w, .missing)
    | some s =>
      if s.deleting then reconcileDelete e s w
      else if quakeServerFinalizer ∉ s.finalizers then
        updateServer e { s with toQuakeServer := addFinalizer s.toQuakeServer } w fun w => (w, .requeued)
      else reconcileServer S P e s w

/-! ### Steps -/

inductive Action (K : Core)
  | edit (spec : QuakeServerSpec K) (generation : Int64)
  | annotate (annotations : Text → Option Text)
  | delete
  | reconcile (e : Replies)
  /-- The operator starts anew, with an empty registry of metrics. -/
  | restart

/-- A user's change of the stored server. -/
def World.change (w : World K) (f : StoredServer K → StoredServer K) : Option (World K) :=
  match w.gone, w.versions with
  | false, s :: _ => some (w.store (f s))
  | _, _ => none

def step (w : World K) : Action K → Option (World K)
  | .edit spec generation => w.change fun s => { s with spec := spec, generation := generation }
  | .annotate annotations => w.change fun s => { s with annotations := annotations }
  | .delete => (w.change fun s => { s with deleting := true }).map fun w' =>
      { w' with gone := w'.versions.head?.any (·.finalizers.isEmpty) }
  | .reconcile e => some (reconcile S P e w).1
  | .restart => some { w with playersActive := none }

/-! ### A server that is well -/

/-- Every call is answered with ok, and the server is up. -/
def Replies.good (playerCount : Option Int64) : Replies where
  behind := some 0
  template _ := .ok ⟨none⟩
  update := .ok
  generation := 1
  configMap := .ok
  service := .ok
  deployment := .ok
  httpRoute := .ok
  udpRoute := .ok
  getDeployment := .found 1 1
  playerCount := playerCount
  statusUpdate := .ok
  now := 0

def arenaSpec (templateRef : Option TemplateReference) (gateway : Option GatewaySpec) : QuakeServerSpec .unit :=
  ⟨true, templateRef, none, gateway, none, none, none⟩

def arena (templateRef : Option TemplateReference) (gateway : Option GatewaySpec) : World .unit :=
  World.created ⟨[], arenaSpec templateRef gateway⟩ (txt "arena") 1 fun _ => none

/-- The first run adds the finalizer. -/
example : (reconcile .upsert .ascii7 (.good none) (arena none none)).2 = .requeued := by
  with_unfolding_all rfl

end Operator
end QuakeKube
