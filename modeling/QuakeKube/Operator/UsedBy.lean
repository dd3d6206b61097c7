/-
# The servers that use a template

`QuakeServerTemplateReconciler.Reconcile` as its worker runs it: a template is
read from the cache, the servers that refer to it are listed by the index, and
their names become `status.usedBy`. Events of a template queue it, those of a
server the template it refers to, before the change and after
(`findTemplateForServer`).

When the controller is idle, `usedBy` names the servers that refer to the
template (`usedBy_exact`). Their order is the one in which they are listed, so
the status comes to rest only where there are not two of them
(`orderFree_iff`).

Key definitions: `Phase`, `marks`, `listed`, `templateStatus`, `next`, `OrderFree`.
Key theorems: `usedBy_exact`, `orderFree_iff`.
-/
import Mathlib.Data.List.Dedup
import QuakeKube.Operator.Objects

namespace QuakeKube
namespace Operator

open Go Conditions Controller

variable {K : Core}

namespace UsedBy

/-! ### The run of a request -/

/-- Where the run of the template `n` is. -/
inductive Phase (n : Text)
  | started
  | fetched (t : NamedTemplate n)
  | listed (t : NamedTemplate n) (items : List Text)

/-- What a run is answered. -/
structure Reply where
  /-- The servers that `r.List` finds, in its order. -/
  items : List Text
  statusUpdate : Answer
  /-- The resource version of what is written. -/
  resourceVersion : ℕ
  now : ℤ

/-- Which templates the handlers queue for an object of an event. -/
def marks (_cache : Objects K) : Stored K → Text → Bool
  | ⟨.server _, o⟩, n => o.any fun s => s.spec.templateName = some n
  | ⟨.template t, _⟩, n => t = n
  | ⟨.configMap _, _⟩, _ => false

def serverName : Key → Option Text
  | .server n => some n
  | .template _ | .configMap _ => none

/-- The cached servers under the template's name in the index. -/
def listed (cache : Cache (Key.Object K)) (template : Text) : List Text :=
  (cache.keys.filterMap serverName).dedup.filter (Objects.refers cache.get template)

variable (S : SetStatusCondition) {n : Text}

/-- The condition of a template that so many servers use. -/
def readyCondition (generation : Int64) (usedBy : ℕ) : Report :=
  ⟨typeReady, .ConditionTrue, txt "TemplateReady",
    txt "Template is ready, used by " ++ natText usedBy ++ txt " server(s)", generation⟩

/-- The status a run computes. -/
def templateStatus (t : NamedTemplate n) (usedBy : List Text) (now : ℤ) : QuakeServerTemplateStatus where
  usedBy := usedBy
  conditions := S.set t.status.conditions (readyCondition t.generation usedBy.length) now

/-- `r.Status().Update`; a status that was read already is not written again. -/
def statusUpdate (e : Reply) (store : Objects K) (t : NamedTemplate n) (status : QuakeServerTemplateStatus) :
    Move (Key.Object K) (Phase n) :=
  match store (.template n) with
  | none => ⟨none, none, true⟩
  | some current =>
    let written := { current with status := status, resourceVersion := e.resourceVersion }
    writeCall (ifCurrent (some current.resourceVersion) t.resourceVersion e.statusUpdate)
      (if t.status = status then none else some ⟨.template n, some written⟩) none false

/-- `Reconcile` for the request `n`; the index may be read in any order. -/
def next (e : Reply) (cache : Cache (Key.Object K)) (store : Objects K) :
    Phase n → Option (Move (Key.Object K) (Phase n))
  | .started => some ⟨none, (cache.get (.template n)).map .fetched, false⟩
  | .fetched t => if e.items.Perm (listed cache n) then some ⟨none, some (.listed t e.items), false⟩ else none
  | .listed t items => some (statusUpdate e store t (templateStatus S t items e.now))

/-- The controller of the templates. -/
def controller (K : Core) : Program (Key.Object K) Phase Reply where
  marks := marks
  start _ := .started
  next _ p cache store e := next S e cache store p

/-! ### What the index finds -/

theorem mem_serverNames {cache : Cache (Key.Object K)} {m : Text} (h : cache.get (.server m) ≠ none) :
    m ∈ cache.keys.filterMap serverName :=
  List.mem_filterMap.mpr ⟨.server m, cache.complete _ h, rfl⟩

theorem mem_listed {cache : Cache (Key.Object K)} {m : Text} :
    m ∈ listed cache n ↔ Objects.refers cache.get n m = true := by
  rw [listed, List.mem_filter, List.mem_dedup]
  refine ⟨And.right, fun h => ⟨mem_serverNames fun hm => ?_, h⟩⟩
  simp [Objects.refers, hm] at h

theorem nodup_listed (cache : Cache (Key.Object K)) (n : Text) : (listed cache n).Nodup :=
  (List.nodup_dedup _).filter _

theorem refers_iff {V : Objects K} {m : Text} :
    V.refers n m = true ↔ ∃ s, V (.server m) = some s ∧ s.spec.templateName = some n := by
  simp [Objects.refers, Option.any_eq_true]

/-! ### What a run makes sure of -/

/-- The names are those of the servers that refer to the template. -/
def Exact (V : Objects K) (n : Text) (names : List Text) : Prop := ∀ m, m ∈ names ↔ V.refers n m = true

/-- `usedBy` of the template is exact. -/
def Current (n : Text) (V : Objects K) : Prop := ∀ t, V (.template n) = some t → Exact V n t.status.usedBy

def Good (n : Text) : Phase n → Objects K → Prop
  | .started, _ => True
  | .fetched t, V => V (.template n) = some t
  | .listed t items, V => V (.template n) = some t ∧ Exact V n items

/-- A change that the handlers do not queue the template `n` for. -/
structure Quiet (V : Objects K) (v : Stored K) (n : Text) : Prop where
  old : marks (V.set v) ⟨v.key, V v.key⟩ n = false
  new : marks (V.set v) v n = false

variable {V : Objects K} {v : Stored K}

theorem Quiet.template (h : Quiet V v n) : V.set v (.template n) = V (.template n) := by
  refine View.set_of_ne fun hk => ?_
  have hm := h.new
  obtain ⟨key, o⟩ := v
  cases hk
  simp [marks] at hm

/-- No server has come to the template or left it. -/
theorem Quiet.refers (h : Quiet V v n) (m : Text) : Objects.refers (V.set v) n m = V.refers n m := by
  by_cases hk : Key.server m = v.key
  · obtain ⟨old, new⟩ := h
    obtain ⟨key, o⟩ := v
    cases hk
    simp only [marks] at old new
    simp [Objects.refers, View.set, old, new]
  · simp only [Objects.refers, View.set_of_ne hk]

theorem Quiet.exact (h : Quiet V v n) {names : List Text} (he : Exact V n names) : Exact (V.set v) n names :=
  fun m => (he m).trans (by rw [h.refers])

theorem Quiet.good (h : Quiet V v n) {p : Phase n} (hp : Good n p V) : Good n p (V.set v) := by
  cases p with
  | started => trivial
  | fetched t => exact h.template.trans hp
  | listed t items => exact ⟨h.template.trans hp.1, h.exact hp.2⟩

theorem Quiet.current (h : Quiet V v n) (hc : Current n V) : Current n (V.set v) :=
  fun t ht => h.exact (hc t (h.template.symm.trans ht))

/-! ### Moves -/

/-- Either the event of what is written queues the template, or its status was
exact already. -/
theorem leads_statusUpdate (e : Reply) (store : Objects K) {t : NamedTemplate n} {items : List Text} (now : ℤ)
    (h : Good n (.listed t items) V) :
    Leads marks Good Current n V (statusUpdate e store t (templateStatus S t items now)) := by
  unfold statusUpdate
  split
  · exact .inl rfl
  · dsimp only
    refine leads_writeCall ?_
    by_cases hs : t.status = templateStatus S t items now
    · rw [if_pos hs]
      refine .inr (.inr fun t' ht' => ?_)
      have ht : V (.template n) = some t := h.1
      rw [ht] at ht'
      cases ht'
      rw [hs]
      exact h.2
    · rw [if_neg hs]
      exact .inr (.inl ⟨_, rfl, fun V' => by simp [marks]⟩)

theorem leads_next (e : Reply) (cache : Cache (Key.Object K)) (store : Objects K) {p : Phase n}
    (h : Good n p cache.get) {m : Move (Key.Object K) (Phase n)} (hm : next S e cache store p = some m) :
    Leads marks Good Current n cache.get m := by
  cases p with
  | started =>
    cases hm
    refine .inr (.inr ?_)
    cases ht : cache.get (.template n) with
    | none =>
      intro t ht'
      simp [ht] at ht'
    | some t => exact ht
  | fetched t =>
    simp only [next] at hm
    split at hm
    · rename_i hp
      cases hm
      exact .inr (.inr ⟨h, fun m => hp.mem_iff.trans mem_listed⟩)
    · cases hm
  | listed t items =>
    cases hm
    exact leads_statusUpdate S e store e.now h

def sound : (controller S K).Sound where
  Good := Good
  Settled := Current
  settled_nothing _ _ h := nomatch h
  marks_of_quiet _ _ _ _ _ w hw := by
    obtain ⟨key, o⟩ := w
    cases key <;> exact hw
  good_of_quiet _ _ _ h1 h2 _ := (Quiet.mk h1 h2).good
  settled_of_quiet _ _ _ h1 h2 := (Quiet.mk h1 h2).current
  good_start _ _ := trivial
  good_next {_ _ cache store e _} h hm := leads_next S e cache store h hm

/-- **`usedBy` is right whenever the controller is idle**: with all events
delivered and no template queued or running, it names the servers that refer to
the template, and no others. -/
theorem usedBy_exact {st : State (Key.Object K) Phase} (h : Reached (controller S K) st) (hi : st.Idle)
    {n : Text} {t : NamedTemplate n} (ht : st.store (.template n) = some t) (m : Text) :
    m ∈ t.status.usedBy ↔ ∃ s, st.store (.server m) = some s ∧ s.spec.templateName = some n :=
  (settled_of_idle (sound S) h hi n t ht m).trans refers_iff

/-! ### A run that comes to rest -/

open Run

/-- A run writes its template, nothing else. -/
theorem writes_controller (n : Text) (p : Phase n) (cache : Cache (Key.Object K)) (store : Objects K)
    (e : Reply)
    (m : Move (Key.Object K) (Phase n)) (h : (controller S K).next n p cache store e = some m) :
    ∀ w ∈ m.write, w.key = .template n := by
  cases p with
  | started =>
    cases h
    exact fun w hw => nomatch hw
  | fetched t =>
    simp only [controller, next] at h
    split at h <;> cases h
    exact fun w hw => nomatch hw
  | listed t items =>
    cases h
    unfold statusUpdate
    split
    · exact fun w hw => nomatch hw
    · refine writes_writeCall (W := fun k => k = .template n) fun w hw => ?_
      split at hw <;> cases hw
      rfl

def arenaReply (resourceVersion : ℕ) : Reply := ⟨[Arena.name], .ok, resourceVersion, 0⟩

def arenaKeys : List Key := [.server Arena.name, .template Arena.ffa]

/-- The events of some keys, and a run for the template. -/
def reconcileAfter (keys : List Key) (resourceVersion : ℕ) :
    List (Controller.Action (Key.Object .unit) Text Reply) :=
  keys.flatMap (fun k => [.deliver k, .handle k]) ++ .start Arena.ffa ::
    List.replicate 3 (.move Arena.ffa (arenaReply resourceVersion))

/-- The first run writes the status, the second one finds it. -/
def arenaRun : List (Controller.Action (Key.Object .unit) Text Reply) :=
  reconcileAfter arenaKeys 3 ++ reconcileAfter [.template Arena.ffa] 4

abbrev Runs (st : State (Key.Object .unit) Phase) : Prop :=
  run (Controller.step (controller .upsert .unit)) (.initial Arena.objects) arenaRun = some st

/-- There are no events of other keys. -/
theorem arena_events {st : State (Key.Object .unit) Phase} (h : Runs st) {k : Key} (hk : k ∉ arenaKeys) :
    st.coming k = [] ∧ st.notices k = [] := by
  simp only [arenaKeys, List.mem_cons, List.not_mem_nil, or_false, not_or] at hk
  obtain ⟨hs, ht⟩ := hk
  obtain ⟨h1, h2⟩ := events_of_run (W := fun n k => k = .template n) (k := k) (writes_controller .upsert) h (by
    simp [arenaRun, arenaKeys, reconcileAfter, Controller.Action.Touches, ht, Ne.symm hs, Ne.symm ht])
  refine ⟨h1.trans ?_, h2⟩
  simp [State.initial, Arena.objects_eq_none hs ht]

theorem arena_rests : ∃ st, Runs st ∧ st.Idle ∧ ∃ t, st.store (.template Arena.ffa) = some t := by
  obtain ⟨st, hst, events, requests, template⟩ : ∃ st, Runs st ∧
      (∀ k ∈ arenaKeys, st.coming k = [] ∧ st.notices k = []) ∧
      (∀ n, st.queued n = false ∧ st.running n = none) ∧ ∃ t, st.store (.template Arena.ffa) = some t := by
    refine ⟨_, by with_unfolding_all rfl, ?_, ?_, _, by with_unfolding_all rfl⟩
    · simp only [arenaKeys, List.forall_mem_cons]
      with_unfolding_all exact ⟨⟨rfl, rfl⟩, ⟨rfl, rfl⟩, nofun⟩
    · intro n
      by_cases h : n = Arena.ffa
      · subst h
        with_unfolding_all exact ⟨rfl, rfl⟩
      · have refers : (Arena.server Arena.name).spec.templateName = some Arena.ffa := by with_unfolding_all rfl
        simp [State.initial, h, Ne.symm h, controller, marks, refers]
  exact ⟨st, hst, .of_keys events (fun _ hk => arena_events hst hk) requests, template⟩

theorem usedBy_exact_arena : ∃ st t, Runs st ∧ st.store (.template Arena.ffa) = some t ∧
    ∀ m, m ∈ t.status.usedBy ↔ ∃ s, st.store (.server m) = some s ∧ s.spec.templateName = some Arena.ffa := by
  obtain ⟨st, hst, hi, t, ht⟩ := arena_rests
  have reached : Reached (controller .upsert .unit) st :=
    .of_run (.start ⟨Arena.objects, rfl⟩) (along_always _ _) hst
  exact ⟨st, t, hst, ht, usedBy_exact .upsert reached hi ht⟩

/-! ### The order of the names -/

/-- The template after `i` runs that find its servers in these orders. -/
def reconciled (t : NamedTemplate n) (orders : ℕ → List Text) (now : ℕ → ℤ) : ℕ → NamedTemplate n
  | 0 => t
  | i + 1 =>
    let before := reconciled t orders now i
    { before with status := templateStatus S before (orders i) (now i) }

/-- The status does not depend on the order in which the servers are listed, and
runs one after another stop changing it. -/
structure OrderFree (t : NamedTemplate n) (items : List Text) : Prop where
  same : ∀ l l' now, l.Perm items → l'.Perm items → templateStatus S t l now = templateStatus S t l' now
  rests : ∀ orders now, (∀ i, List.Perm (orders i) items) →
    ∃ i, ∀ j ≥ i, (reconciled S t orders now (j + 1)).status = (reconciled S t orders now j).status

/-- The same names again change nothing. -/
theorem templateStatus_again (t : NamedTemplate n) (items : List Text) (now now' : ℤ) :
    templateStatus S { t with status := templateStatus S t items now } items now' =
      templateStatus S t items now := by
  simp only [templateStatus, SetStatusCondition.set_set]

theorem orderFree_of_unique {t : NamedTemplate n} {items : List Text}
    (h : ∀ l : List Text, l.Perm items → l = items) :
    OrderFree S t items where
  same l l' now hl hl' := by rw [h l hl, h l' hl']
  rests orders now ho := by
    refine ⟨1, fun j hj => ?_⟩
    obtain ⟨i, rfl⟩ := Nat.exists_eq_add_of_le' hj
    simp only [reconciled, h _ (ho _)]
    exact templateStatus_again S _ items _ _

/-- **The status does not depend on list order** if and only if no two servers
refer to the template. -/
theorem orderFree_iff (cache : Cache (Key.Object K)) (t : NamedTemplate n) :
    OrderFree S t (listed cache n) ↔
      ∀ m m', Objects.refers cache.get n m = true → Objects.refers cache.get n m' = true → m = m' := by
  simp only [← mem_listed]
  have distinct := nodup_listed cache n
  constructor
  · intro h
    match hl : listed cache n with
    | [] => exact fun m m' hm => nomatch hm
    | [a] =>
      intro m m' hm hm'
      rw [List.mem_singleton.mp hm, List.mem_singleton.mp hm']
    | a :: b :: rest =>
      -- the first two in the other order
      rw [hl] at h distinct
      have swapped := congrArg QuakeServerTemplateStatus.usedBy (h.same _ _ 0 (.refl _) (.swap a b rest))
      injection swapped with hab
      simp [hab] at distinct
  · intro h
    refine orderFree_of_unique S fun l hl => ?_
    match hitems : listed cache n with
    | [] => exact (hitems ▸ hl).eq_nil
    | [a] => exact (hitems ▸ hl).eq_singleton
    | a :: b :: rest =>
      rw [hitems] at h distinct
      have hab := h a b (by simp) (by simp)
      simp [hab] at distinct

def duel : Text := txt "duel"

/-- Two servers refer to the template. -/
def twoServers : Cache (Key.Object .unit) :=
  (Cache.empty.set ⟨Key.server Arena.name, some (Arena.server Arena.name)⟩).set
    ⟨Key.server duel, some (Arena.server duel)⟩

/-- Listed in turn in one order and in the other, they change the status for ever. -/
theorem order_matters : ¬ OrderFree .upsert (Arena.template Arena.ffa) (listed twoServers Arena.ffa) ∧
    ∃ orders : ℕ → List Text, (∀ i, (orders i).Perm (listed twoServers Arena.ffa)) ∧ ∀ now i,
      (reconciled .upsert (Arena.template Arena.ffa) orders now (i + 2)).status ≠
        (reconciled .upsert (Arena.template Arena.ffa) orders now (i + 1)).status := by
  have hl : listed twoServers Arena.ffa = [duel, Arena.name] := by with_unfolding_all decide
  have hne : duel ≠ Arena.name := by with_unfolding_all decide
  rw [hl]
  refine ⟨fun h => ?_, fun i => if i % 2 = 0 then [duel, Arena.name] else [Arena.name, duel], fun i => ?_,
    fun now i h => ?_⟩
  · have swapped := congrArg QuakeServerTemplateStatus.usedBy (h.same _ _ 0 (.refl _) (.swap _ _ []))
    exact hne (List.cons.inj swapped).1
  · dsimp only
    split
    · exact .refl _
    · exact .swap _ _ []
  · have usedBy := congrArg QuakeServerTemplateStatus.usedBy h
    simp only [reconciled, templateStatus] at usedBy
    rcases Nat.mod_two_eq_zero_or_one i with hi | hi <;> simp [Nat.add_mod, hi, hne, Ne.symm hne] at usedBy

end UsedBy
end Operator
end QuakeKube
