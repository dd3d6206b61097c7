/-
# The objects the operator's controllers watch

`QuakeServers`, `QuakeServerTemplates` and `ConfigMaps` as the API server stores
them, each under its name, with the metadata by which a controller's write is
accepted and an event finds its owner.

Key definitions: `Key`, `Key.Object`, `getControllerOf`, `setControllerReference`,
`findServersForTemplate`, `ifCurrent`.
-/
import QuakeKube.Lib.Controller
import QuakeKube.Operator.Reconcile

namespace QuakeKube
namespace Operator

open Go Conditions Controller

variable {K : Core}

structure QuakeServerTemplateStatus where
  usedBy : List Text
  conditions : ConditionList
deriving DecidableEq

structure OwnerReference where
  group : Text
  kind : Text
  name : Text
  uid : Text
  controller : Bool
deriving DecidableEq

structure ConfigMap where
  resourceVersion : ℕ
  ownerReferences : List OwnerReference
  /-- The entries of `data`, one a key. -/
  data : List (Text × Text)
deriving DecidableEq

/-- The server that is stored under a name. -/
structure NamedServer (K : Core) (key : Text) extends StoredServer K where
  uid : Text
  resourceVersion : ℕ
  named : name = key

structure NamedTemplate (key : Text) where
  name : Text
  generation : Int64
  resourceVersion : ℕ
  spec : QuakeServerTemplateSpec
  status : QuakeServerTemplateStatus
  named : name = key

inductive Key
  | server (name : Text)
  | template (name : Text)
  | configMap (name : Text)
deriving DecidableEq

abbrev Key.Object (K : Core) : Key → Type
  | .server name => NamedServer K name
  | .template name => NamedTemplate name
  | .configMap _ => ConfigMap

/-- What one copy knows of the stored objects. -/
abbrev Objects (K : Core) := View (Key.Object K)

abbrev Stored (K : Core) := Version (Key.Object K)

/-! ### Owners -/

def quakeServerGroup : Text := txt "quakekube.io"
def quakeServerKind : Text := txt "QuakeServer"

/-- `metav1.GetControllerOf`. -/
def getControllerOf (refs : List OwnerReference) : Option OwnerReference := refs.find? (·.controller)

/-- `referSameObject`. -/
def OwnerReference.sameObject (a b : OwnerReference) : Bool :=
  a.group = b.group && a.kind = b.kind && a.name = b.name

/-- `upsertOwnerRef`. -/
def upsertOwnerRef (ref : OwnerReference) : List OwnerReference → List OwnerReference
  | [] => [ref]
  | r :: rs => if r.sameObject ref then ref :: rs else r :: upsertOwnerRef ref rs

/-- The reference by which a server controls an object. -/
def NamedServer.ownerReference {n : Text} (s : NamedServer K n) : OwnerReference :=
  ⟨quakeServerGroup, quakeServerKind, s.name, s.uid, true⟩

/-- `controllerutil.SetControllerReference`; none when another object has control. -/
def setControllerReference {n : Text} (s : NamedServer K n) (refs : List OwnerReference) :
    Option (List OwnerReference) :=
  match getControllerOf refs with
  | none => some (upsertOwnerRef s.ownerReference refs)
  | some existing =>
    if existing.sameObject s.ownerReference then some (upsertOwnerRef s.ownerReference refs) else none

/-- The server an event of an owned object is mapped to. -/
def ownerServer (refs : List OwnerReference) : Option Text :=
  match getControllerOf refs with
  | none => none
  | some ref => if ref.group = quakeServerGroup ∧ ref.kind = quakeServerKind then some ref.name else none

theorem getControllerOf_upsert {ref : OwnerReference} (hc : ref.controller = true) {refs : List OwnerReference}
    (h : ∀ r ∈ getControllerOf refs, r.sameObject ref = true) :
    getControllerOf (upsertOwnerRef ref refs) = some ref := by
  induction refs with
  | nil => simp [upsertOwnerRef, getControllerOf, hc]
  | cons r rs ih =>
    by_cases hr : r.sameObject ref = true
    · simp [upsertOwnerRef, getControllerOf, hr, hc]
    · have hrc : r.controller = false := by
        by_contra hrc
        exact hr (h r (by simp [getControllerOf, hrc]))
      have ih := ih fun x hx => h x (by simpa [getControllerOf, hrc] using hx)
      simpa [upsertOwnerRef, hr, getControllerOf, hrc] using ih

/-- An object a server has been given control of is mapped to that server. -/
theorem ownerServer_set {n : Text} {s : NamedServer K n} {refs owners : List OwnerReference}
    (h : setControllerReference s refs = some owners) : ownerServer owners = some n := by
  have hu : getControllerOf owners = some s.ownerReference := by
    unfold setControllerReference at h
    split at h
    · rename_i hn
      cases h
      exact getControllerOf_upsert rfl (by simp [hn])
    · rename_i r hr
      split at h <;> cases h
      exact getControllerOf_upsert rfl (by simpa [hr])
  rw [ownerServer, hu]
  exact (if_pos ⟨rfl, rfl⟩).trans (congrArg some s.named)

/-! ### Reading -/

/-- The template a server refers to. -/
def QuakeServerSpec.templateName (s : QuakeServerSpec K) : Option Text := s.templateRef.map (·.name)

/-- `r.Get` for a template, which finds it or does not. -/
def Objects.getTemplate (V : Objects K) (name : Text) : Except GetError QuakeServerTemplateSpec :=
  match V (.template name) with
  | none => .error .notFound
  | some t => .ok t.spec

/-- The server is there and refers to the template. -/
def Objects.refers (V : Objects K) (template server : Text) : Bool :=
  (V (.server server)).any fun s => s.spec.templateName = some template

/-! ### Writing -/

/-- What a run is answered by the API server and the game server; `unchanged` is
an update of a server that changes nothing. -/
structure Reply where
  update : Answer
  unchanged : Bool
  generation : Int64
  configMap : Answer
  getDeployment : DeploymentReply
  playerCount : Option Int64
  statusUpdate : Answer
  /-- The resource version of what is written. -/
  resourceVersion : ℕ
  now : ℤ

/-- A writing call of a run; where it is answered with an error the run fails. -/
def writeCall {π : Type} (a : Answer) (v : Option (Stored K)) (goesOn : Option π) (requeue : Bool) :
    Move (Key.Object K) π :=
  match a with
  | .ok => ⟨v, goesOn, requeue⟩
  | .refused => ⟨none, none, true⟩
  | .lost => ⟨v, none, true⟩

/-- What a writing call comes to where it is answered with ok. -/
theorem leads_writeCall {π : Text → Type} {marks : Objects K → Stored K → Text → Bool}
    {Good : ∀ n, π n → Objects K → Prop} {Settled : Text → Objects K → Prop} {n : Text}
    {V : Objects K} {a : Answer}
    {w : Option (Stored K)} {p : Option (π n)} {requeue : Bool}
    (h : Leads marks Good Settled n V ⟨w, p, requeue⟩) :
    Leads marks Good Settled n V (writeCall a w p requeue) := by
  cases a with
  | ok => exact h
  | refused => exact .inl rfl
  | lost => exact .inl rfl

/-- A writing call writes its object or nothing. -/
theorem writes_writeCall {π : Type} {W : Key → Prop} {a : Answer} {v : Option (Stored K)} {p : Option π}
    {requeue : Bool} (h : ∀ w ∈ v, W w.key) : ∀ w ∈ (writeCall a v p requeue).write, W w.key := by
  cases a with
  | ok => exact h
  | refused => exact fun w hw => nomatch hw
  | lost => exact h

/-- The API server refuses to overwrite another version than the one that was read. -/
def ifCurrent (stored : Option ℕ) (read : ℕ) (a : Answer) : Answer := if stored = some read then a else .refused

/-! ### A server and its template -/

namespace Arena

def name : Text := txt "arena"
def ffa : Text := txt "ffa"

def server (n : Text) : NamedServer .unit n :=
  ⟨⟨⟨[quakeServerFinalizer], arenaSpec (some ⟨ffa, []⟩) none⟩, n, 1, fun _ => none, false, .zero⟩, [], 1, rfl⟩

def template (n : Text) : NamedTemplate n :=
  ⟨n, 1, 2, ⟨some { ServerConfigSpec.zero with fragLimit := some 30 }⟩, ⟨[], .empty⟩, rfl⟩

/-- A server and its template, and no ConfigMap. -/
def objects : Objects .unit
  | .server n => if n = name then some (server n) else none
  | .template n => if n = ffa then some (template n) else none
  | .configMap _ => none

theorem objects_eq_none {k : Key} (hs : k ≠ .server name) (ht : k ≠ .template ffa) : objects k = none := by
  cases k with
  | server n => exact if_neg fun h => hs (congrArg Key.server h)
  | template n => exact if_neg fun h => ht (congrArg Key.template h)
  | configMap n => rfl

end Arena

end Operator
end QuakeKube
