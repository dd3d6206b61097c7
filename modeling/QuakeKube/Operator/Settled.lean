/-
# A settled server

A run of the controller that has read a version `s` writes one status at most, and
which one is a function of the version and of what the run is answered
(`wantedStatus`). Written over itself it is the same again, the transition times
included (`wantedStatus_withStatus`): so once a run has stored its status, the runs
its writes set off store that version over and over (`settled_unchanged`).

Key definitions: `StoredServer.wantedStatus`, `Writes`, `Replies.Same`, `Settled`.
Key theorems: `reconcileServer_writes`, `wantedStatus_withStatus`, `settled_unchanged`.
-/
import QuakeKube.Operator.Status

namespace QuakeKube
namespace Operator

open Go Conditions Run

variable {K : Core} {S : SetStatusCondition} {P : PrintTable}

/-! ### The status of a run -/

/-- The status a run that gets as far writes: that of a resolution that failed, or
the published one; none when the Deployment is not read. -/
def StoredServer.wantedStatus (S : SetStatusCondition) (e : Replies) (s : StoredServer K) :
    Option QuakeServerStatus :=
  match resolveConfig e.template s.spec with
  | .error err => some (s.setUnresolved S e.now err).status
  | .ok _ => (e.getDeployment.phase s.isPaused).map fun p => s.published S e.now p e.playerCount

/-- What a run that has read `s` makes of the versions and of what has been
written: nothing, or it writes the wanted status, which is stored or not. -/
inductive Writes (S : SetStatusCondition) (e : Replies) (s : StoredServer K) (w w' : World K) : Prop
  | nothing (versions : w'.versions = w.versions) (written : w'.written = w.written)
  | refused (st : QuakeServerStatus) (wanted : s.wantedStatus S e = some st)
    (versions : w'.versions = w.versions) (written : w'.written = st :: w.written)
  | stored (st : QuakeServerStatus) (wanted : s.wantedStatus S e = some st)
    (versions : w'.versions = s.withStatus st :: w.versions) (written : w'.written = st :: w.written)

section Writes

variable {e : Replies} {s : StoredServer K} {w w' w₀ : World K}

theorem wantedStatus_error {err : Text} (h : resolveConfig e.template s.spec = .error err) :
    s.wantedStatus S e = some (s.setUnresolved S e.now err).status := by
  rw [StoredServer.wantedStatus, h]

theorem wantedStatus_ok {config : ServerConfigSpec} (h : resolveConfig e.template s.spec = .ok config) :
    s.wantedStatus S e =
      (e.getDeployment.phase s.isPaused).map fun p => s.published S e.now p e.playerCount := by
  rw [StoredServer.wantedStatus, h]

/-- No status has been written since `w₀`. -/
structure Unwritten (w₀ w : World K) : Prop where
  versions : w.versions = w₀.versions
  written : w.written = w₀.written

theorem Unwritten.writes (h : Unwritten w₀ w) : Writes S e s w₀ w := .nothing h.versions h.written

theorem writes_statusUpdate {st : QuakeServerStatus} {r : Result} (hw : Unwritten w₀ w)
    (hst : s.wantedStatus S e = some st) :
    Writes S e s w₀ (statusUpdate e (s.withStatus st) w fun w => (w, r)).1 := by
  unfold statusUpdate
  have hstored : Writes S e s w₀ (World.store (s.withStatus st) { w with written := st :: w.written }) :=
    .stored st hst (congrArg (s.withStatus st :: ·) hw.versions) (congrArg (st :: ·) hw.written)
  have hrefused : Writes S e s w₀ { w with written := st :: w.written } :=
    .refused st hst hw.versions (congrArg (st :: ·) hw.written)
  cases e.ifCurrent w e.statusUpdate with
  | ok => exact hstored
  | refused => exact hrefused
  | lost => exact hstored

theorem writes_updateStatus {config : ServerConfigSpec} (hw : Unwritten w₀ w)
    (hc : resolveConfig e.template s.spec = .ok config) :
    Writes S e s w₀ (updateStatus S e (s.setTemplate S e.now) w).1 := by
  unfold updateStatus
  rw [s.setReady_setPaused_setTemplate]
  cases hp : e.getDeployment.phase s.isPaused with
  | none => exact hw.writes
  | some p =>
    simp only [Option.map_some, s.setEndpoint_observed]
    refine writes_statusUpdate ⟨hw.versions, hw.written⟩ ?_
    rw [wantedStatus_ok hc, hp, Option.map_some]

/-- **What a run does to the status**, wherever it ends. -/
theorem reconcileServer_writes : Writes S e s w (reconcileServer S P e s w).1 := by
  unfold reconcileServer
  cases hc : resolveConfig e.template s.spec with
  | error err => exact writes_statusUpdate ⟨rfl, rfl⟩ (wantedStatus_error hc)
  | ok config =>
    exact reconcileObjects_rule (C := fun x => Writes S e s w x.1) (fun _ _ h => h.writes)
      (fun _ h => writes_updateStatus h hc) (fun _ _ _ _ _ _ h => ⟨h.versions, h.written⟩) ⟨rfl, rfl⟩

theorem written_statusUpdate (r : Result) :
    (statusUpdate e s w fun w => (w, r)).1.written = s.status :: w.written := by
  unfold statusUpdate
  cases e.ifCurrent w e.statusUpdate <;> rfl

/-- A run whose calls are answered writes the wanted status. -/
theorem reconcileServer_written {st : QuakeServerStatus} (he : e.Served) (hst : s.wantedStatus S e = some st) :
    (reconcileServer S P e s w).1.written = st :: w.written := by
  unfold reconcileServer
  cases hc : resolveConfig e.template s.spec with
  | error err =>
    obtain rfl : (s.setUnresolved S e.now err).status = st :=
      Option.some.inj ((wantedStatus_error hc).symm.trans hst)
    exact written_statusUpdate _
  | ok config =>
    obtain ⟨p, hp, rfl⟩ := Option.map_eq_some_iff.mp ((wantedStatus_ok hc).symm.trans hst)
    refine reconcileObjects_rule (Q := fun w' => w'.written = w.written)
      (C := fun x => x.1.written = s.published S e.now p e.playerCount :: w.written)
      (fun h => absurd he h) (fun w' h => ?_) (fun _ _ _ _ _ _ h => h) rfl
    unfold updateStatus
    rw [s.setReady_setPaused_setTemplate, hp]
    simp only [Option.map_some, s.setEndpoint_observed]
    rw [written_statusUpdate]
    exact congrArg (s.published S e.now p e.playerCount :: ·) h

end Writes

/-! ### The same again -/

namespace StoredServer

variable (S) (s : StoredServer K) (now now' : ℤ)

theorem setUnresolved_again (err : Text) :
    ((s.withStatus (s.setUnresolved S now err).status).setUnresolved S now' err).status =
      (s.setUnresolved S now err).status := by
  have hset := S.set_set s.status.conditions
    ⟨typeTemplateResolved, .ConditionFalse, txt "ResolutionFailed", err, s.generation⟩ now now'
  exact congrArg (fun cs => { s.status with conditions := cs }) hset

/-- The report on the template is there already, or there is none. -/
theorem resolved_published (p : Phase) (n : Option Int64) :
    (s.withStatus (s.published S now p n)).resolved S now' = (s.published S now p n).conditions := by
  have hreport : (s.withStatus (s.published S now p n)).templateReport = s.templateReport := rfl
  unfold resolved
  rw [hreport]
  cases hr : s.templateReport with
  | none => rfl
  | some r =>
    have htype : r.type = typeTemplateResolved := by
      obtain ⟨ref, -, rfl⟩ := Option.map_eq_some_iff.mp hr
      rfl
    apply S.set_of_report
    show (s.published S now p n).conditions.report r.type = some r
    rw [htype, report_templateResolved, hr, Option.some_or]

/-- The published status over itself: each report is there already, and each field
that is kept has its value. -/
theorem published_again (p : Phase) (n : Option Int64) :
    (s.withStatus (s.published S now p n)).published S now' p n = s.published S now p n := by
  have hconditions : S.set (S.set ((s.withStatus (s.published S now p n)).resolved S now') s.pausedReport now')
      (p.report s.generation) now' = (s.published S now p n).conditions := by
    have hpaused : (s.published S now p n).conditions.report s.pausedReport.type = some s.pausedReport := by
      rw [pausedReport_type, report_paused]
    have hready : (s.published S now p n).conditions.report (p.report s.generation).type =
        some (p.report s.generation) := by
      rw [Phase.report_type, report_ready]
    rw [resolved_published, S.set_of_report hpaused, S.set_of_report hready]
  have hplayers : p.players n (p.players n s.status.players) = p.players n s.status.players := by
    cases p <;> cases n <;> rfl
  have href : (s.spec.templateRef.map (·.name)).getD
      ((s.spec.templateRef.map (·.name)).getD s.status.templateRef) =
        (s.spec.templateRef.map (·.name)).getD s.status.templateRef := by
    cases s.spec.templateRef <;> rfl
  have hendpoint : (if s.hostname ≠ [] then txt "https://" ++ s.hostname
      else (s.published S now p n).endpoint) = (s.published S now p n).endpoint := by
    show _ = if s.hostname ≠ [] then txt "https://" ++ s.hostname else s.status.endpoint
    split
    · rfl
    · next hh => exact if_neg hh
  show QuakeServerStatus.mk p.isReady _ gamePort _ _ _ = QuakeServerStatus.mk p.isReady _ gamePort _ _ _
  rw [QuakeServerStatus.mk.injEq]
  exact ⟨rfl, hendpoint, rfl, hplayers, href, hconditions⟩

end StoredServer

/-- The same template, Deployment and player query, of the current version; the
other answers and the time are free. -/
structure Replies.Same (e e' : Replies) : Prop where
  behind : e'.behind = some 0
  template : e'.template = e.template
  getDeployment : e'.getDeployment = e.getDeployment
  playerCount : e'.playerCount = e.playerCount

/-- **The wanted status is a fixed point** of the runs that are answered alike. -/
theorem wantedStatus_withStatus {e e' : Replies} {s : StoredServer K} {st : QuakeServerStatus}
    (he : e.Same e') (h : s.wantedStatus S e = some st) : (s.withStatus st).wantedStatus S e' = some st := by
  have hspec : resolveConfig e'.template (s.withStatus st).spec = resolveConfig e.template s.spec := by
    rw [he.template]
    rfl
  cases hc : resolveConfig e.template s.spec with
  | error err =>
    obtain rfl : (s.setUnresolved S e.now err).status = st :=
      Option.some.inj ((wantedStatus_error hc).symm.trans h)
    calc (s.withStatus (s.setUnresolved S e.now err).status).wantedStatus S e'
        = some ((s.withStatus (s.setUnresolved S e.now err).status).setUnresolved S e'.now err).status :=
          wantedStatus_error (hspec.trans hc)
      _ = some (s.setUnresolved S e.now err).status := congrArg some (s.setUnresolved_again S _ _ err)
  | ok config =>
    obtain ⟨p, hp, rfl⟩ := Option.map_eq_some_iff.mp ((wantedStatus_ok hc).symm.trans h)
    have hp' :
        e'.getDeployment.phase (s.withStatus (s.published S e.now p e.playerCount)).isPaused = some p := by
      rw [he.getDeployment]
      exact hp
    calc (s.withStatus (s.published S e.now p e.playerCount)).wantedStatus S e'
        = some ((s.withStatus (s.published S e.now p e.playerCount)).published S e'.now p e'.playerCount) := by
          rw [wantedStatus_ok (hspec.trans hc), hp', Option.map_some]
      _ = some (s.published S e.now p e.playerCount) := by rw [he.playerCount, s.published_again]

/-! ### Runs over a settled server -/

/-- The version `s` is current, and every run that is answered like `e` wants the
status it has. -/
structure Settled (S : SetStatusCondition) (e : Replies) (s : StoredServer K) (w : World K) : Prop where
  current : ∃ older, w.versions = s :: older
  deleting : s.deleting = false
  finalizer : quakeServerFinalizer ∈ s.finalizers
  wanted : ∀ e', e.Same e' → s.wantedStatus S e' = some s.status

/-- A run that is answered like `e`, or a restart of the operator. -/
def Again (e : Replies) : Action K → Prop
  | .reconcile e' => e.Same e'
  | .restart => True
  | .edit .. | .annotate _ | .delete => False

section Settled

variable {e e' : Replies} {s : StoredServer K} {w w' : World K}

/-- No status is written where the server itself is. -/
theorem written_updateServer {r : Result} {f : World K → World K} (hf : ∀ w, (f w).written = w.written) :
    (updateServer e s w fun w => (f w, r)).1.written = w.written := by
  unfold updateServer
  split
  · rfl
  · exact call_rule (Q := fun w' => w'.written = w.written) (C := fun x => x.1.written = w.written)
      (fun _ _ h => h) (fun w' h => (hf w').trans h) (fun h => h) rfl

/-- A run that writes a status has read a version that stays. -/
theorem reconcile_read (h : (reconcile S P e w).1.written ≠ w.written) :
    ∃ t, t.deleting = false ∧ quakeServerFinalizer ∈ t.finalizers ∧
      reconcile S P e w = reconcileServer S P e t w := by
  unfold reconcile at h ⊢
  cases hn : e.behind with
  | none => simp only [hn, ne_eq, not_true_eq_false] at h
  | some n =>
    simp only [hn] at h ⊢
    cases ht : w.versions[n]? with
    | none => simp only [ht, ne_eq, not_true_eq_false] at h
    | some t =>
      simp only [ht] at h ⊢
      by_cases hdel : t.deleting = true
      · rw [if_pos hdel] at h
        exact absurd (written_updateServer (f := fun w => { w with playersActive := none }) fun _ => rfl) h
      · rw [if_neg hdel] at h ⊢
        by_cases hfin : quakeServerFinalizer ∈ t.finalizers
        · rw [if_neg (not_not.mpr hfin)]
          exact ⟨t, by simpa using hdel, hfin, rfl⟩
        · rw [if_pos hfin] at h
          exact absurd (written_updateServer (f := id) fun _ => rfl) h

/-- What a run that has stored a status leaves. -/
theorem settled_of_stored (hstored : (reconcile S P e w).1.versions = s :: w.versions)
    (hwritten : (reconcile S P e w).1.written = s.status :: w.written) :
    Settled S e s (reconcile S P e w).1 := by
  have hne : (reconcile S P e w).1.written ≠ w.written := by
    rw [hwritten]
    exact List.cons_ne_self _ _
  obtain ⟨t, hdel, hfin, ht⟩ := reconcile_read hne
  have hwrites : Writes S e t w (reconcile S P e w).1 := by
    rw [ht]
    exact reconcileServer_writes
  cases hwrites with
  | nothing _ hw => exact absurd hw hne
  | refused st _ hv _ => exact absurd (hstored.symm.trans hv) (List.cons_ne_self _ _)
  | stored st hst hv _ =>
    obtain rfl : t.withStatus st = s := (List.cons.inj (hv.symm.trans hstored)).1
    exact ⟨⟨_, hstored⟩, hdel, hfin, fun e' he => wantedStatus_withStatus he hst⟩

theorem Settled.reconcile_eq (h : Settled S e s w) (he : e.Same e') :
    reconcile S P e' w = reconcileServer S P e' s w := by
  obtain ⟨older, hv⟩ := h.current
  unfold reconcile
  simp only [he.behind, hv, List.getElem?_cons_zero, h.deleting, Bool.false_eq_true, if_false,
    if_neg (not_not.mpr h.finalizer)]

/-- What is stored and written again and again. -/
structure Repeated (s : StoredServer K) (w w' : World K) : Prop where
  versions : ∃ m, w'.versions = List.replicate m s ++ w.versions
  written : ∃ k, w'.written = List.replicate k s.status ++ w.written

theorem Repeated.refl (hv : w'.versions = w.versions) (hw : w'.written = w.written) : Repeated s w w' :=
  ⟨⟨0, hv⟩, ⟨0, hw⟩⟩

theorem Repeated.trans {w'' : World K} (h : Repeated s w w') (h' : Repeated s w' w'') : Repeated s w w'' := by
  obtain ⟨⟨m, hm⟩, ⟨k, hk⟩⟩ := h
  obtain ⟨⟨m', hm'⟩, ⟨k', hk'⟩⟩ := h'
  refine ⟨⟨m' + m, ?_⟩, ⟨k' + k, ?_⟩⟩
  · rw [hm', hm, List.replicate_add, List.append_assoc]
  · rw [hk', hk, List.replicate_add, List.append_assoc]

/-- One run over a settled server: its version and its status, or nothing. -/
theorem Settled.repeated_reconcile (h : Settled S e s w) (he : e.Same e') :
    Repeated s w (reconcile S P e' w).1 := by
  rw [h.reconcile_eq he]
  cases reconcileServer_writes (S := S) (P := P) (e := e') (s := s) (w := w) with
  | nothing hv hw => exact .refl hv hw
  | refused st hst hv hw =>
    obtain rfl : s.status = st := Option.some.inj ((h.wanted e' he).symm.trans hst)
    exact ⟨⟨0, hv⟩, ⟨1, hw⟩⟩
  | stored st hst hv hw =>
    obtain rfl : s.status = st := Option.some.inj ((h.wanted e' he).symm.trans hst)
    exact ⟨⟨1, hv⟩, ⟨1, hw⟩⟩

theorem Settled.of_repeated (h : Settled S e s w) (hr : Repeated s w w') : Settled S e s w' := by
  refine ⟨?_, h.deleting, h.finalizer, h.wanted⟩
  obtain ⟨older, hv⟩ := h.current
  obtain ⟨m, hm⟩ := hr.versions
  cases m with
  | zero => exact ⟨older, hm.trans hv⟩
  | succ m => exact ⟨_, hm⟩

theorem Settled.step (h : Settled S e s w) {a : Action K} (ha : Again e a) (hs : step S P w a = some w') :
    Repeated s w w' := by
  cases a with
  | reconcile e' =>
    cases hs
    exact h.repeated_reconcile ha
  | restart =>
    cases hs
    exact .refl rfl rfl
  | edit | annotate | delete => exact ha.elim

theorem Settled.run (h : Settled S e s w) {as : List (Action K)} (has : ∀ a ∈ as, Again e a)
    (hrun : run (Operator.step S P) w as = some w') : Repeated s w w' := by
  induction as generalizing w with
  | nil =>
    cases hrun
    exact .refl rfl rfl
  | cons a as ih =>
    obtain ⟨ha, has⟩ := List.forall_mem_cons.mp has
    rw [run_cons] at hrun
    obtain ⟨w₁, hstep, hrun⟩ := Option.bind_eq_some_iff.mp hrun
    have hr := h.step ha hstep
    exact hr.trans (ih (h.of_repeated hr) has hrun)

/-- **Reconciling a settled server changes nothing.** Once a run has stored the
status it has written, every later run that reads the latest version and is
answered alike about the template, the Deployment and the players writes that
status, with its transition times, over a version that stays what it is. -/
theorem settled_unchanged (hstored : (reconcile S P e w).1.versions = s :: w.versions)
    (hwritten : (reconcile S P e w).1.written = s.status :: w.written) {as : List (Action K)}
    (has : ∀ a ∈ as, Again e a) (hrun : Run.run (step S P) (reconcile S P e w).1 as = some w') :
    (∃ m, w'.versions = List.replicate m s ++ s :: w.versions) ∧
      (∃ k, w'.written = List.replicate k s.status ++ s.status :: w.written) ∧
      ∀ e', e.Same e' → e'.Served → (reconcile S P e' w').1.written = s.status :: w'.written := by
  have hsettled := settled_of_stored hstored hwritten
  have hr := hsettled.run has hrun
  refine ⟨hstored ▸ hr.versions, hwritten ▸ hr.written, fun e' he hserved => ?_⟩
  have h := hsettled.of_repeated hr
  rw [h.reconcile_eq he]
  exact reconcileServer_written hserved (h.wanted e' he)

/-- A server that is up, at five players: the runs after it write the same status,
at whatever time they run. -/
theorem settled_unchanged_arena : ∃ s w w', run (step .upsert .ascii7) (arena none none)
    [.reconcile (.good (some 5))] = some w ∧
      (reconcile .upsert .ascii7 (.good (some 5)) w).1.versions = s :: w.versions ∧
      run (step .upsert .ascii7) (reconcile .upsert .ascii7 (.good (some 5)) w).1
        [.reconcile { Replies.good (some 5) with now := 60 }] = some w' ∧
      (∃ k, w'.written = List.replicate k s.status ++ s.status :: w.written) := by
  have hruns : ∃ s w w', run (step .upsert .ascii7) (arena none none) [.reconcile (.good (some 5))] = some w ∧
      (reconcile .upsert .ascii7 (.good (some 5)) w).1.versions = s :: w.versions ∧
      (reconcile .upsert .ascii7 (.good (some 5)) w).1.written = s.status :: w.written ∧
      run (step .upsert .ascii7) (reconcile .upsert .ascii7 (.good (some 5)) w).1
        [.reconcile { Replies.good (some 5) with now := 60 }] = some w' := by
    with_unfolding_all exact ⟨_, _, _, rfl, rfl, rfl, rfl⟩
  obtain ⟨s, w, w', hw, hstored, hwritten, hrun⟩ := hruns
  have hagain : ∀ a ∈ [Action.reconcile { Replies.good (some 5) with now := 60 }],
      Again (K := .unit) (.good (some 5)) a := by
    intro a ha
    rw [List.mem_singleton.mp ha]
    exact ⟨rfl, rfl, rfl, rfl⟩
  exact ⟨s, w, w', hw, hstored, hrun, (settled_unchanged hstored hwritten hagain hrun).2.1⟩

end Settled

end Operator
end QuakeKube
