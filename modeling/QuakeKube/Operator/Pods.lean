/-
# The pods of the servers

What `QuakeServerReconciler` writes for a server besides its ConfigMap and its routes,
with all that has to fit together: the labels and the selectors, the ports of the
Service and those that `q3` listens at with the containers' arguments, the volumes and
the paths in these arguments. All servers have their objects in one namespace, where a
Service finds its pods by their labels.

Key definitions: `StoredServer.podSpec`, `StoredServer.deploymentObject`,
`StoredServer.serviceObject`, `Container.listensAt`, `Cluster`, `Cluster.step`,
`Cluster.backends`, `Cluster.file`.
Key theorems: `selects_iff`, `wired_step`, `Wired.backends`, `traffic`, `pod_provided`.
-/
import QuakeKube.Operator.Reconcile

namespace QuakeKube
namespace Operator

open Go Conditions

variable {K : Core}

/-! ### Kubernetes' objects -/

inductive Protocol
  | TCP
  | UDP
deriving DecidableEq

abbrev Labels := List (Text × Text)

/-- A setting of Kubernetes': the one of the spec, or the default. -/
inductive Setting (V D : Type)
  | custom (v : V)
  | default (d : D)

structure SecurityContext where
  runAsNonRoot : Bool
  allowPrivilegeEscalation : Bool
  readOnlyRootFilesystem : Bool
  drop : List Text

structure PodSecurityContext where
  runAsNonRoot : Bool
  runAsUser : Int64
  runAsGroup : Int64
  fsGroup : Int64

structure ResourceRequirements where
  requests : List (Text × Text)
  limits : List (Text × Text)

structure ContainerPort where
  name : Text
  containerPort : Int32
  protocol : Protocol
deriving DecidableEq

/-- A TCP probe. -/
structure Probe where
  port : Int32
  initialDelaySeconds : Int32
  periodSeconds : Int32

structure VolumeMount where
  name : Text
  mountPath : Text
  readOnly : Bool

structure Container (K : Core) where
  name : Text
  image : Text
  imagePullPolicy : Text
  command : List Text
  args : List Text
  ports : List ContainerPort
  securityContext : Setting K.securityContext.Val SecurityContext
  readinessProbe : Probe
  livenessProbe : Probe
  volumeMounts : List VolumeMount
  resources : Setting K.resources.Val ResourceRequirements

inductive VolumeSource
  | configMap (name : Text)
  | emptyDir

structure Volume where
  name : Text
  source : VolumeSource

structure PodSpec (K : Core) where
  containers : List (Container K)
  volumes : List Volume
  securityContext : Setting K.podSecurityContext.Val PodSecurityContext

structure Deployment (K : Core) where
  name : Text
  labels : Labels
  replicas : Int32
  matchLabels : Labels
  templateLabels : Labels
  templateSpec : PodSpec K

structure ServicePort where
  name : Text
  port : Int32
  targetPort : Int32
  protocol : Protocol
deriving DecidableEq

structure ServiceObject where
  name : Text
  labels : Labels
  selector : Labels
  ports : List ServicePort

/-! ### What is written for a server -/

def defaultImage : Text := txt "ghcr.io/grahamplata/quake-kube:latest"
def configMountPath : Text := txt "/config"
def assetsMountPath : Text := txt "/assets"

/-- The settings of the pods where the spec has none. -/
def buildContainerSecurityContext (custom : Option K.securityContext.Val) :
    Setting K.securityContext.Val SecurityContext :=
  match custom with
  | some v => .custom v
  | none => .default ⟨true, false, true, [txt "ALL"]⟩

def buildPodSecurityContext (custom : Option K.podSecurityContext.Val) :
    Setting K.podSecurityContext.Val PodSecurityContext :=
  match custom with
  | some v => .custom v
  | none => .default ⟨true, 1000, 1000, 1000⟩

namespace StoredServer

variable (s : StoredServer K)

def configMapName : Text := s.name ++ txt "-config"
def deploymentName : Text := s.name

end StoredServer

def labelsFor (name : Text) : Labels :=
  [(txt "app.kubernetes.io/name", txt "quake-server"), (txt "app.kubernetes.io/instance", name),
    (txt "app.kubernetes.io/managed-by", txt "quake-operator")]

def selectorLabelsFor (name : Text) : Labels :=
  [(txt "app.kubernetes.io/name", txt "quake-server"), (txt "app.kubernetes.io/instance", name)]

namespace StoredServer

variable (s : StoredServer K)

def labelsForServer : Labels := labelsFor s.name

def selectorLabelsForServer : Labels := selectorLabelsFor s.name

def serverArgs : List Text :=
  [txt "server", txt "--config=/config/config.yaml", txt "--assets-dir=" ++ assetsMountPath,
    txt "--content-server=http://127.0.0.1:" ++ intText contentPort.toInt] ++
    if s.spec.agreeEula then [txt "--agree-eula"] else []

def serverContainer : Container K where
  name := txt "server"
  image := defaultImage
  imagePullPolicy := txt "IfNotPresent"
  command := [txt "q3"]
  args := s.serverArgs
  ports := [⟨txt "http", httpPort, .TCP⟩, ⟨txt "game", gamePort, .UDP⟩]
  securityContext := buildContainerSecurityContext s.spec.securityContext
  readinessProbe := ⟨httpPort, 15, 5⟩
  livenessProbe := ⟨httpPort, 30, 10⟩
  volumeMounts := [⟨txt "config", configMountPath, true⟩, ⟨txt "assets", assetsMountPath, false⟩]
  resources := match s.spec.resources with
    | some r => .custom r
    | none => .default ⟨[(txt "cpu", txt "100m"), (txt "memory", txt "128Mi")],
      [(txt "cpu", txt "500m"), (txt "memory", txt "512Mi")]⟩

def contentContainer : Container K where
  name := txt "content-server"
  image := defaultImage
  imagePullPolicy := txt "IfNotPresent"
  command := [txt "q3"]
  args := [txt "content", txt "--addr=:" ++ intText contentPort.toInt, txt "--assets-dir=" ++ assetsMountPath]
  ports := [⟨txt "content", contentPort, .TCP⟩]
  securityContext := buildContainerSecurityContext s.spec.securityContext
  readinessProbe := ⟨contentPort, 5, 5⟩
  livenessProbe := ⟨contentPort, 10, 10⟩
  volumeMounts := [⟨txt "assets", assetsMountPath, false⟩]
  resources := .default ⟨[(txt "cpu", txt "50m"), (txt "memory", txt "64Mi")],
    [(txt "cpu", txt "200m"), (txt "memory", txt "256Mi")]⟩

/-- What `buildPodSpec` makes. -/
def podSpec : PodSpec K where
  containers := [s.serverContainer, s.contentContainer]
  volumes := [⟨txt "config", .configMap s.configMapName⟩, ⟨txt "assets", .emptyDir⟩]
  securityContext := buildPodSecurityContext s.spec.podSecurityContext

/-- What `reconcileDeployment` writes. -/
def deploymentObject : Deployment K where
  name := s.deploymentName
  labels := s.labelsForServer
  replicas := s.replicas
  matchLabels := s.selectorLabelsForServer
  templateLabels := s.labelsForServer
  templateSpec := s.podSpec

/-- What `reconcileService` writes. -/
def serviceObject : ServiceObject where
  name := s.serviceName
  labels := s.labelsForServer
  selector := s.selectorLabelsForServer
  ports := [⟨txt "http", httpPort, httpPort, .TCP⟩, ⟨txt "game", gamePort, gamePort, .UDP⟩,
    ⟨txt "content", contentPort, contentPort, .TCP⟩]

/-- Where `queryPlayerCount` asks: at the address of the Service. -/
def playerCountAddr : BackendRef := ⟨s.serviceName, gamePort⟩

end StoredServer

/-! ### The program in the containers -/

/-- The value of a flag, written `--name=value`, on a command line. -/
def flagValue (name default : Text) (args : List Text) : Text :=
  ((args.filterMap fun arg => arg.dropPrefix? (txt "--" ++ name ++ txt "=")).getLast?).getD default

/-- The port of an address, as a text. -/
def portOf (addr : Text) : Text := (addr.reverse.takeWhile (· ≠ ':')).reverse

/-- The user has agreed to the EULA; without that `q3 server` ends at once. -/
def acceptEula (args : List Text) : Bool := args.contains (txt "--agree-eula")

def configFile (args : List Text) : Text := flagValue (txt "config") [] args
def contentServer (args : List Text) : Text :=
  flagValue (txt "content-server") (txt "http://content.quakejs.com") args
def assetsDir (args : List Text) : Text := flagValue (txt "assets-dir") (txt "assets") args
def clientAddr (args : List Text) : Text := flagValue (txt "client-addr") (txt "0.0.0.0:8080") args
def serverAddr (args : List Text) : Text := flagValue (txt "server-addr") (txt "0.0.0.0:27960") args
def contentAddr (args : List Text) : Text := flagValue (txt "addr") (txt ":9090") args

/-- What `q3` does with the arguments: the website and the proxy at the client's address and the
game server at its own, or the content server. -/
def Container.listensAt (ctr : Container K) (port : Int32) (protocol : Protocol) : Bool :=
  if ctr.args.head? = some (txt "server") then
    acceptEula ctr.args && portOf (match protocol with
      | .TCP => clientAddr ctr.args
      | .UDP => serverAddr ctr.args) = intText port.toInt
  else
    ctr.args.head? = some (txt "content") && protocol = .TCP &&
      portOf (contentAddr ctr.args) = intText port.toInt

/-! ### The namespace -/

structure Pod (K : Core) where
  /-- The Deployment that it was made from. -/
  deployment : Text
  labels : Labels
  spec : PodSpec K

structure Cluster (K : Core) where
  /-- `config.yaml` of each ConfigMap. -/
  configMaps : Text → Option Text
  services : Text → Option ServiceObject
  deployments : Text → Option (Deployment K)
  httpRoutes : Text → Option HTTPRoute
  udpRoutes : Text → Option UDPRoute
  pods : List (Pod K)

def Cluster.empty : Cluster K :=
  ⟨fun _ => none, fun _ => none, fun _ => none, fun _ => none, fun _ => none, []⟩

/-- What is done to a namespace: the calls of the runs for any version of any server, the
pods that are made from a Deployment, and what is removed. -/
inductive Cluster.Action (K : Core)
  | configMap (s : StoredServer K) (template : Text → Except GetError QuakeServerTemplateSpec)
  | service (s : StoredServer K)
  | deployment (s : StoredServer K)
  | httpRoute (s : StoredServer K) (g : GatewaySpec)
  | udpRoute (s : StoredServer K) (ref : GatewayReference)
  | createPod (name : Text)
  | removePod (i : ℕ)
  | removeConfigMap (name : Text)
  | removeService (name : Text)
  | removeDeployment (name : Text)
  | removeHTTPRoute (name : Text)
  | removeUDPRoute (name : Text)

namespace Cluster

variable (P : PrintTable)

def step (c : Cluster K) : Action K → Option (Cluster K)
  | .configMap s template => match resolveConfig template s.spec with
    | .error _ => none
    | .ok config => some { c with
        configMaps := Function.update c.configMaps s.configMapName
          (some (generateConfigYAML P (some config))) }
  | .service s => some { c with services := Function.update c.services s.serviceName (some s.serviceObject) }
  | .deployment s =>
    some { c with deployments := Function.update c.deployments s.deploymentName (some s.deploymentObject) }
  | .httpRoute s g =>
    some { c with httpRoutes := Function.update c.httpRoutes s.httpRouteName (some (s.httpRoute g)) }
  | .udpRoute s ref =>
    some { c with udpRoutes := Function.update c.udpRoutes s.udpRouteName (some (s.udpRoute ref)) }
  | .createPod name => (c.deployments name).map fun d =>
      { c with pods := c.pods ++ [⟨name, d.templateLabels, d.templateSpec⟩] }
  | .removePod i => some { c with pods := c.pods.eraseIdx i }
  | .removeConfigMap name => some { c with configMaps := Function.update c.configMaps name none }
  | .removeService name => some { c with services := Function.update c.services name none }
  | .removeDeployment name => some { c with deployments := Function.update c.deployments name none }
  | .removeHTTPRoute name => some { c with httpRoutes := Function.update c.httpRoutes name none }
  | .removeUDPRoute name => some { c with udpRoutes := Function.update c.udpRoutes name none }

/-! ### Where a request gets to -/

/-- The labels are among others. -/
def selects (selector labels : Labels) : Bool := selector.all (· ∈ labels)

/-- The containers of a pod that listen at a port, by their names. -/
def listening (p : Pod K) (port : Int32) (protocol : Protocol) : List Text :=
  (p.spec.containers.filter (·.listensAt port protocol)).map (·.name)

/-- What a request to a port of a Service reaches. -/
def backends (c : Cluster K) (b : BackendRef) : List (Pod K × Text) :=
  match c.services b.name with
  | none => []
  | some svc => (svc.ports.filter (·.port = b.port)).flatMap fun sp =>
    (c.pods.filter fun p => selects svc.selector p.labels).flatMap fun p =>
      (listening p sp.targetPort sp.protocol).map fun name => (p, name)

/-- The volume that a path of a container is in, and its path there. -/
def mounted (ctr : Container K) (path : Text) : Option (Text × Text) :=
  ctr.volumeMounts.findSome? fun m =>
    if (m.mountPath ++ txt "/").isPrefixOf path then
      some (m.name, path.drop (m.mountPath.length + 1))
    else none

/-- What a container reads at a path of a ConfigMap's volume. -/
def file (c : Cluster K) (p : Pod K) (ctr : Container K) (path : Text) : Option Text :=
  (mounted ctr path).bind fun (volume, rest) => (p.spec.volumes.find? (·.name = volume)).bind fun v =>
    match v.source with
    | .configMap name => if rest = txt "config.yaml" then c.configMaps name else none
    | .emptyDir => none

end Cluster

/-! ### What is in the namespace -/

section Table

variable {β : Type} {f : Text → Option β} {Q : Text → β → Prop} {k₀ : Text}

theorem forall_update (h : ∀ k x, f k = some x → Q k x) {x₀ : β} (h₀ : Q k₀ x₀) :
    ∀ k x, Function.update f k₀ (some x₀) k = some x → Q k x := by
  intro k x hx
  by_cases hk : k = k₀
  · subst hk
    rw [Function.update_self] at hx
    exact Option.some.inj hx ▸ h₀
  · rw [Function.update_of_ne hk] at hx
    exact h k x hx

theorem forall_remove (h : ∀ k x, f k = some x → Q k x) :
    ∀ k x, Function.update f k₀ none k = some x → Q k x := by
  intro k x hx
  by_cases hk : k = k₀
  · subst hk
    rw [Function.update_self] at hx
    cases hx
  · rw [Function.update_of_ne hk] at hx
    exact h k x hx

end Table

/-- Every object is what a server of its name has asked for, some time. -/
structure Wired (P : PrintTable) (c : Cluster K) : Prop where
  configMaps : ∀ k y, c.configMaps k = some y → ∃ (s : StoredServer K) (template : _) (config : _),
    s.configMapName = k ∧ resolveConfig template s.spec = .ok config ∧ y = generateConfigYAML P (some config)
  services : ∀ k x, c.services k = some x → ∃ s : StoredServer K, s.serviceName = k ∧ x = s.serviceObject
  deployments : ∀ k d, c.deployments k = some d → ∃ s : StoredServer K, s.deploymentName = k ∧
    d = s.deploymentObject
  httpRoutes : ∀ k r, c.httpRoutes k = some r → ∃ (s : StoredServer K) (g : GatewaySpec),
    s.httpRouteName = k ∧ r = s.httpRoute g
  udpRoutes : ∀ k r, c.udpRoutes k = some r → ∃ (s : StoredServer K) (ref : GatewayReference),
    s.udpRouteName = k ∧ r = s.udpRoute ref
  pods : ∀ p ∈ c.pods, ∃ s : StoredServer K, s.name = p.deployment ∧ p.labels = labelsFor p.deployment ∧
    p.spec = s.podSpec

variable {P : PrintTable} {c c' : Cluster K} {a : Cluster.Action K}

theorem wired_empty : Wired P (Cluster.empty (K := K)) := ⟨nofun, nofun, nofun, nofun, nofun, nofun⟩

theorem wired_step (h : Wired P c) (hs : c.step P a = some c') : Wired P c' := by
  cases a with
  | configMap s template =>
    simp only [Cluster.step] at hs
    split at hs
    · cases hs
    · rename_i config hconfig
      cases hs
      exact { h with configMaps := forall_update h.configMaps ⟨s, template, config, rfl, hconfig, rfl⟩ }
  | service s =>
    cases hs
    exact { h with services := forall_update h.services ⟨s, rfl, rfl⟩ }
  | deployment s =>
    cases hs
    exact { h with deployments := forall_update h.deployments ⟨s, rfl, rfl⟩ }
  | httpRoute s g =>
    cases hs
    exact { h with httpRoutes := forall_update h.httpRoutes ⟨s, g, rfl, rfl⟩ }
  | udpRoute s ref =>
    cases hs
    exact { h with udpRoutes := forall_update h.udpRoutes ⟨s, ref, rfl, rfl⟩ }
  | createPod name =>
    obtain ⟨d, hd, rfl⟩ := Option.map_eq_some_iff.mp hs
    obtain ⟨s, rfl, rfl⟩ := h.deployments name d hd
    refine { h with pods := List.forall_mem_append.mpr ⟨h.pods, ?_⟩ }
    rw [List.forall_mem_singleton]
    exact ⟨s, rfl, rfl, rfl⟩
  | removePod i =>
    cases hs
    exact { h with pods := fun p hp => h.pods p (List.mem_of_mem_eraseIdx hp) }
  | removeConfigMap name =>
    cases hs
    exact { h with configMaps := forall_remove h.configMaps }
  | removeService name =>
    cases hs
    exact { h with services := forall_remove h.services }
  | removeDeployment name =>
    cases hs
    exact { h with deployments := forall_remove h.deployments }
  | removeHTTPRoute name =>
    cases hs
    exact { h with httpRoutes := forall_remove h.httpRoutes }
  | removeUDPRoute name =>
    cases hs
    exact { h with udpRoutes := forall_remove h.udpRoutes }

/-! ### Labels and ports -/

theorem selects_iff (n m : Text) : Cluster.selects (selectorLabelsFor n) (labelsFor m) = true ↔ n = m := by
  have hkeys : txt "app.kubernetes.io/instance" ≠ txt "app.kubernetes.io/name" ∧
      txt "app.kubernetes.io/instance" ≠ txt "app.kubernetes.io/managed-by" := by with_unfolding_all decide
  simp [Cluster.selects, selectorLabelsFor, labelsFor, hkeys.1, hkeys.2]

/-- A port that a container declares. -/
def Container.declares (ctr : Container K) (port : Int32) (protocol : Protocol) : Bool :=
  ctr.ports.any fun cp => cp.containerPort = port && cp.protocol = protocol

theorem intText_inj {m n : Int32} : intText m.toInt = intText n.toInt ↔ m = n := by
  refine ⟨fun h => Int32.toInt_inj.mp (Option.some.inj ?_), fun h => h ▸ rfl⟩
  rw [← parseInt_intText, ← parseInt_intText, h]

theorem acceptEula_podSpec (s : StoredServer K) :
    acceptEula s.serverContainer.args = s.spec.agreeEula ∧ acceptEula s.contentContainer.args = false := by
  constructor
  · simp only [StoredServer.serverContainer, StoredServer.serverArgs]
    cases s.spec.agreeEula <;> with_unfolding_all decide
  · simp only [StoredServer.contentContainer]
    with_unfolding_all decide

/-- The addresses that the arguments leave to the defaults have the ports of the containers. -/
theorem portOf_podSpec (s : StoredServer K) :
    portOf (clientAddr s.serverContainer.args) = intText httpPort.toInt ∧
    portOf (serverAddr s.serverContainer.args) = intText gamePort.toInt ∧
    portOf (contentAddr s.contentContainer.args) = intText contentPort.toInt := by
  refine ⟨?_, ?_, ?_⟩
  · simp only [StoredServer.serverContainer, StoredServer.serverArgs]
    cases s.spec.agreeEula <;> with_unfolding_all decide
  · simp only [StoredServer.serverContainer, StoredServer.serverArgs]
    cases s.spec.agreeEula <;> with_unfolding_all decide
  · simp only [StoredServer.contentContainer]
    with_unfolding_all decide

theorem serverContainer_listensAt (s : StoredServer K) (port : Int32) (protocol : Protocol) :
    s.serverContainer.listensAt port protocol =
      (s.spec.agreeEula && s.serverContainer.declares port protocol) := by
  obtain ⟨hhttp, hgame, -⟩ := portOf_podSpec s
  have hargs : s.serverContainer.args.head? = some (txt "server") := rfl
  simp only [Container.listensAt, hargs, if_true, (acceptEula_podSpec s).1]
  cases protocol with
  | TCP =>
    simp only [hhttp, intText_inj]
    simp [Container.declares, StoredServer.serverContainer]
  | UDP =>
    simp only [hgame, intText_inj]
    simp [Container.declares, StoredServer.serverContainer]

theorem contentContainer_listensAt (s : StoredServer K) (port : Int32) (protocol : Protocol) :
    s.contentContainer.listensAt port protocol = s.contentContainer.declares port protocol := by
  have hargs : s.contentContainer.args.head? = some (txt "content") := rfl
  have hne : txt "content" ≠ txt "server" := by with_unfolding_all decide
  simp only [Container.listensAt, hargs, Option.some.injEq, hne, if_false, (portOf_podSpec s).2.2,
    intText_inj]
  cases protocol <;> simp [Container.declares, StoredServer.contentContainer]

/-- The server in the pod was agreed to. -/
def Pod.agreed (p : Pod K) : Bool := p.spec.containers.any fun ctr => acceptEula ctr.args

theorem agreed_podSpec (s : StoredServer K) (name : Text) (labels : Labels) :
    Pod.agreed ⟨name, labels, s.podSpec⟩ = s.spec.agreeEula := by
  obtain ⟨h1, h2⟩ := acceptEula_podSpec s
  simp [Pod.agreed, StoredServer.podSpec, h1, h2]

/-- The ports of a pod's Service lead to one container each. -/
theorem listening_podSpec (s : StoredServer K) (name : Text) (labels : Labels) :
    (Cluster.listening ⟨name, labels, s.podSpec⟩ httpPort .TCP =
      if Pod.agreed ⟨name, labels, s.podSpec⟩ then [txt "server"] else []) ∧
    (Cluster.listening ⟨name, labels, s.podSpec⟩ gamePort .UDP =
      if Pod.agreed ⟨name, labels, s.podSpec⟩ then [txt "server"] else []) ∧
    Cluster.listening ⟨name, labels, s.podSpec⟩ contentPort .TCP = [txt "content-server"] := by
  rw [agreed_podSpec]
  simp only [Cluster.listening, StoredServer.podSpec, List.filter_cons, serverContainer_listensAt,
    contentContainer_listensAt]
  cases s.spec.agreeEula <;> exact ⟨rfl, rfl, rfl⟩

/-! ### Where the traffic goes -/

/-- The pods that were made for a server. -/
def Cluster.podsOf (c : Cluster K) (n : Text) : List (Pod K) := c.pods.filter (·.deployment = n)

theorem flatMap_if {α β : Type} (f : α → β) (q : α → Bool) (l : List α) :
    (l.flatMap fun x => if q x then [f x] else []) = (l.filter q).map f := by
  induction l with
  | nil => rfl
  | cons x l ih =>
    rw [List.flatMap_cons, ih, List.filter_cons]
    split <;> rfl

/-- A port of the server's Service leads to one container of each of its pods that listen there. -/
theorem Wired.backends (h : Wired P c) (n : Text) (sp : ServicePort) {name : Text} {q : Pod K → Bool}
    (hsp : ∀ s : StoredServer K, s.serviceObject.ports.filter (·.port = sp.port) = [sp])
    (hlisten : ∀ (s : StoredServer K) m labels,
      Cluster.listening ⟨m, labels, s.podSpec⟩ sp.targetPort sp.protocol =
      if q ⟨m, labels, s.podSpec⟩ then [name] else []) :
    c.backends ⟨n, sp.port⟩ =
      if (c.services n).isSome then ((c.podsOf n).filter q).map fun p => (p, name) else [] := by
  rcases hsvc : c.services n with _ | svc
  · simp [Cluster.backends, hsvc]
  obtain ⟨s, rfl, rfl⟩ := h.services n svc hsvc
  have hpods : (c.pods.filter fun p => Cluster.selects s.serviceObject.selector p.labels) =
      c.podsOf s.serviceName := by
    refine List.filter_congr fun p hp => ?_
    obtain ⟨-, -, hlabels, -⟩ := h.pods p hp
    rw [hlabels, Bool.eq_iff_iff, decide_eq_true_iff, eq_comm (a := p.deployment)]
    exact selects_iff s.name p.deployment
  have hone : ∀ p ∈ c.podsOf s.serviceName,
      ((Cluster.listening p sp.targetPort sp.protocol).map fun x => (p, x)) =
      if q p then [(p, name)] else [] := by
    intro p hp
    obtain ⟨t, -, -, hspec⟩ := h.pods p (List.mem_of_mem_filter hp)
    have hp' := hlisten t p.deployment p.labels
    rw [← hspec] at hp'
    rw [hp']
    split <;> rfl
  simp only [Cluster.backends, hsvc, hsp, List.flatMap_singleton, hpods]
  rw [List.flatMap_congr hone, flatMap_if]
  rfl

/-- Where a server is played: the container of the game in each of its pods. -/
def Cluster.players (c : Cluster K) (n : Text) : List (Pod K × Text) :=
  if (c.services n).isSome then ((c.podsOf n).filter (·.agreed)).map fun p => (p, txt "server") else []

theorem Wired.backends_http (h : Wired P c) (n : Text) : c.backends ⟨n, httpPort⟩ = c.players n :=
  h.backends n ⟨txt "http", httpPort, httpPort, .TCP⟩ (fun _ => rfl)
    fun s m labels => (listening_podSpec s m labels).1

theorem Wired.backends_game (h : Wired P c) (n : Text) : c.backends ⟨n, gamePort⟩ = c.players n :=
  h.backends n ⟨txt "game", gamePort, gamePort, .UDP⟩ (fun _ => rfl)
    fun s m labels => (listening_podSpec s m labels).2.1

theorem reach_wired (h : Run.Reach (Cluster.step P) Run.always (· = Cluster.empty) c) : Wired P c :=
  h.invariant (fun _ hs => hs ▸ wired_empty) fun _ _ _ hw _ hs => wired_step hw hs

/-- **A server's routes lead to the game in its own pods**, and there the controller asks for
the players, whatever has been done to the server and to the others of the namespace. -/
theorem traffic (h : Run.Reach (Cluster.step P) Run.always (· = Cluster.empty) c) (n : Text) :
    (∀ r, c.httpRoutes (n ++ txt "-http") = some r → r.backendRefs.flatMap c.backends = c.players n) ∧
    (∀ r, c.udpRoutes (n ++ txt "-udp") = some r → r.backendRefs.flatMap c.backends = c.players n) ∧
    ∀ s : StoredServer K, s.name = n → c.backends s.playerCountAddr = c.players n := by
  have hw := reach_wired h
  refine ⟨fun r hr => ?_, fun r hr => ?_, fun s hs => hs ▸ hw.backends_game s.name⟩
  · obtain ⟨s, g, hname, rfl⟩ := hw.httpRoutes _ r hr
    have hn : s.serviceName = n := List.append_cancel_right hname
    rw [StoredServer.httpRoute, List.flatMap_singleton, hn, hw.backends_http]
  · obtain ⟨s, ref, hname, rfl⟩ := hw.udpRoutes _ r hr
    have hn : s.serviceName = n := List.append_cancel_right hname
    rw [StoredServer.udpRoute, List.flatMap_singleton, hn, hw.backends_game]

section Example

def publicGateway : GatewaySpec := ⟨true, some ⟨txt "gateway", []⟩, txt "quake.example.com"⟩

def plainServer (name : Text) : StoredServer .unit :=
  ⟨⟨[], arenaSpec none (some publicGateway)⟩, name, 1, fun _ => none, false, .zero⟩

/-- A server is reconciled, and its pod starts. -/
def rollout (name : Text) : List (Cluster.Action .unit) :=
  [.configMap (plainServer name) fun _ => .error .notFound, .service (plainServer name),
    .deployment (plainServer name), .httpRoute (plainServer name) publicGateway,
    .udpRoute (plainServer name) ⟨txt "gateway", []⟩, .createPod name]

/-- Two servers, and the route of one of them. -/
theorem traffic_rollout : ∃ c : Cluster .unit,
    Run.run (Cluster.step .ascii7) .empty (rollout (txt "duel") ++ rollout (txt "arena")) = some c ∧
      (c.players (txt "arena")).length = 1 ∧
      ∀ r, c.httpRoutes (txt "arena" ++ txt "-http") = some r →
        r.backendRefs.flatMap c.backends = c.players (txt "arena") := by
  have hrun : (Run.run (Cluster.step .ascii7) .empty (rollout (txt "duel") ++ rollout (txt "arena"))).map
      (fun c => (c.players (txt "arena")).length) = some 1 := by with_unfolding_all rfl
  obtain ⟨c, hc, hlen⟩ := Option.map_eq_some_iff.mp hrun
  exact ⟨c, hc, hlen, (traffic (.of_run (.start rfl) (Run.along_always _ _) hc) (txt "arena")).1⟩

end Example

/-! ### What the containers find -/

theorem configFile_podSpec (s : StoredServer K) :
    configFile s.serverContainer.args = txt "/config/config.yaml" := by
  simp only [StoredServer.serverContainer, StoredServer.serverArgs]
  cases s.spec.agreeEula <;> with_unfolding_all decide

theorem contentServer_podSpec (s : StoredServer K) :
    contentServer s.serverContainer.args = txt "http://127.0.0.1:" ++ intText contentPort.toInt := by
  simp only [StoredServer.serverContainer, StoredServer.serverArgs]
  cases s.spec.agreeEula <;> with_unfolding_all decide

theorem assetsDir_podSpec (s : StoredServer K) :
    assetsDir s.serverContainer.args = assetsMountPath ∧
      assetsDir s.contentContainer.args = assetsMountPath := by
  constructor
  · simp only [StoredServer.serverContainer, StoredServer.serverArgs]
    cases s.spec.agreeEula <;> with_unfolding_all decide
  · simp only [StoredServer.contentContainer]
    with_unfolding_all decide

/-- What is below the directory of the game files, either container has in the volume they share. -/
theorem mounted_assets (s : StoredServer K) (path : Text) :
    Cluster.mounted s.serverContainer (assetsMountPath ++ txt "/" ++ path) = some (txt "assets", path) ∧
    Cluster.mounted s.contentContainer (assetsMountPath ++ txt "/" ++ path) = some (txt "assets", path) := by
  constructor <;> with_unfolding_all rfl

theorem file_config (s : StoredServer K) (name : Text) (labels : Labels) :
    c.file ⟨name, labels, s.podSpec⟩ s.serverContainer (txt "/config/config.yaml") =
      c.configMaps s.configMapName := by
  with_unfolding_all rfl

/-- The configuration in a server's ConfigMap is what some version of the server asks for. -/
def Cluster.configured (P : PrintTable) (K : Core) (n y : Text) : Prop :=
  ∃ (s : StoredServer K) (template : _) (config : _), s.name = n ∧
    resolveConfig template s.spec = .ok config ∧
    y = generateConfigYAML P (some config)

/-- **The containers of a pod find what they were given**: the server its configuration in the
ConfigMap of its own name, both the game files in one volume, the server the content server, and
the probes and the Service a container where it listens. -/
theorem pod_provided (h : Run.Reach (Cluster.step P) Run.always (· = Cluster.empty) c) {p : Pod K}
    (hp : p ∈ c.pods) :
    ∃ server content : Container K, p.spec.containers = [server, content] ∧
      c.file p server (configFile server.args) = c.configMaps (p.deployment ++ txt "-config") ∧
      (∀ y, c.file p server (configFile server.args) = some y → Cluster.configured P K p.deployment y) ∧
      (∀ path, Cluster.mounted server (assetsDir server.args ++ txt "/" ++ path) = some (txt "assets", path) ∧
        Cluster.mounted content (assetsDir content.args ++ txt "/" ++ path) = some (txt "assets", path)) ∧
      contentServer server.args = txt "http://127.0.0.1:" ++ portOf (contentAddr content.args) ∧
      ∀ port protocol, server.listensAt port protocol = (p.agreed && server.declares port protocol) ∧
        content.listensAt port protocol = content.declares port protocol := by
  have hw := reach_wired h
  obtain ⟨s, hname, -, hspec⟩ := hw.pods p hp
  obtain ⟨name, labels, spec⟩ := p
  subst hspec hname
  refine ⟨s.serverContainer, s.contentContainer, rfl, ?_, fun y hy => ?_, fun path => ?_, ?_,
    fun port protocol => ⟨?_, contentContainer_listensAt s port protocol⟩⟩
  · rw [configFile_podSpec, file_config]
    rfl
  · rw [configFile_podSpec, file_config] at hy
    obtain ⟨t, template, config, hn, hconfig, rfl⟩ := hw.configMaps _ y hy
    exact ⟨t, template, config, List.append_cancel_right hn, hconfig, rfl⟩
  · obtain ⟨hserver, hcontent⟩ := assetsDir_podSpec s
    rw [hserver, hcontent]
    exact mounted_assets s path
  · rw [contentServer_podSpec, (portOf_podSpec s).2.2]
  · rw [agreed_podSpec]
    exact serverContainer_listensAt s port protocol

/-- A pod of two that run. -/
theorem pod_provided_rollout : ∃ (c : Cluster .unit) (p : Pod .unit), p ∈ c.pods ∧
    ∃ server content : Container .unit, p.spec.containers = [server, content] ∧
      c.file p server (configFile server.args) = c.configMaps (p.deployment ++ txt "-config") := by
  have hrun : (Run.run (Cluster.step .ascii7) .empty (rollout (txt "duel") ++ rollout (txt "arena"))).map
      (fun c => c.pods.isEmpty) = some false := by with_unfolding_all rfl
  obtain ⟨c, hc, hpods⟩ := Option.map_eq_some_iff.mp hrun
  obtain ⟨p, hp⟩ := List.exists_mem_of_ne_nil c.pods (List.isEmpty_eq_false_iff.mp hpods)
  obtain ⟨server, content, hcontainers, hfile, -⟩ :=
    pod_provided (.of_run (.start rfl) (Run.along_always _ _) hc) hp
  exact ⟨c, p, hp, server, content, hcontainers, hfile⟩

end Operator
end QuakeKube
