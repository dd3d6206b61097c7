/-
# The routes of a server

`Reconcile` writes the routes an enabled gateway asks for and removes none. So
what a successful run leaves are the routes of the current spec exactly when the
run has found no route that this spec does not ask for (`routesFollow_iff`), and
along a run of the system no other condition is needed (`along_routesKept_iff`).

Key definitions: `RoutesFollow`, `RoutesKept`, `NoRouteLeft`.
Key theorems: `routesFollow_iff`, `along_routesKept_iff`, `route_left`.
-/
import QuakeKube.Operator.Published

namespace QuakeKube
namespace Operator

open Go Conditions Run

variable {K : Core} {S : SetStatusCondition} {P : PrintTable}

/-! ### What the spec asks for -/

namespace StoredServer

/-- The gateway is enabled and has a host name. -/
def WantsHTTP (s : StoredServer K) : Prop := ∃ g ∈ s.spec.gateway, g.enabled = true ∧ g.hostname ≠ []

/-- The gateway is enabled and has a reference. -/
def WantsUDP (s : StoredServer K) : Prop := ∃ g ∈ s.spec.gateway, g.enabled = true ∧ g.gatewayRef ≠ none

variable {s : StoredServer K}

theorem wantedHTTPRoute_eq_some {r : HTTPRoute} : s.wantedHTTPRoute = some r ↔
    ∃ g, (s.spec.gateway = some g ∧ g.enabled = true ∧ g.hostname ≠ []) ∧ s.httpRoute g = r := by
  simp [wantedHTTPRoute]

theorem wantedUDPRoute_eq_some {r : UDPRoute} : s.wantedUDPRoute = some r ↔
    ∃ g ref, (s.spec.gateway = some g ∧ g.enabled = true ∧ g.gatewayRef = some ref) ∧ s.udpRoute ref = r := by
  simp only [wantedUDPRoute, Option.map_eq_some_iff, Option.bind_eq_some_iff, Option.filter_eq_some_iff]
  constructor
  · rintro ⟨ref, ⟨g, ⟨hg, hen⟩, href⟩, rfl⟩
    exact ⟨g, ref, ⟨hg, hen, href⟩, rfl⟩
  · rintro ⟨g, ref, ⟨hg, hen, href⟩, rfl⟩
    exact ⟨ref, ⟨g, ⟨hg, hen⟩, href⟩, rfl⟩

theorem isSome_wantedHTTPRoute : s.wantedHTTPRoute.isSome ↔ s.WantsHTTP := by
  rw [Option.isSome_iff_exists]
  constructor
  · rintro ⟨r, hr⟩
    obtain ⟨g, ⟨hg, hen, hh⟩, -⟩ := wantedHTTPRoute_eq_some.mp hr
    exact ⟨g, hg, hen, hh⟩
  · rintro ⟨g, hg, hen, hh⟩
    exact ⟨_, wantedHTTPRoute_eq_some.mpr ⟨g, ⟨hg, hen, hh⟩, rfl⟩⟩

theorem isSome_wantedUDPRoute : s.wantedUDPRoute.isSome ↔ s.WantsUDP := by
  rw [Option.isSome_iff_exists]
  constructor
  · rintro ⟨r, hr⟩
    obtain ⟨g, ref, ⟨hg, hen, href⟩, -⟩ := wantedUDPRoute_eq_some.mp hr
    exact ⟨g, hg, hen, by simp [href]⟩
  · rintro ⟨g, hg, hen, href⟩
    obtain ⟨ref, href⟩ := Option.ne_none_iff_exists'.mp href
    exact ⟨_, wantedUDPRoute_eq_some.mpr ⟨g, ref, ⟨hg, hen, href⟩, rfl⟩⟩

end StoredServer

/-! ### Following the spec -/

/-- **The routes are those of the spec**, with its host name and its gateway, and
with the server's service behind them. -/
structure RoutesFollow (s : StoredServer K) (w : World K) : Prop where
  http : w.httpRoute.isSome ↔ s.WantsHTTP
  udp : w.udpRoute.isSome ↔ s.WantsUDP
  httpRoute : ∀ r ∈ w.httpRoute, ∀ g ∈ s.spec.gateway, r.name = s.name ++ txt "-http" ∧
    r.hostnames = [g.hostname] ∧ r.parentRefs = (g.gatewayRef.map (·.parentRef)).toList ∧
    r.backendRefs = [⟨s.name, 8080⟩]
  udpRoute : ∀ r ∈ w.udpRoute, ∀ g ∈ s.spec.gateway, r.name = s.name ++ txt "-udp" ∧
    r.parentRefs = (g.gatewayRef.map (·.parentRef)).toList ∧ r.backendRefs = [⟨s.name, 27960⟩]

theorem StoredServer.eq_httpRoute_iff {s : StoredServer K} {r : HTTPRoute} {g : GatewaySpec} :
    r = s.httpRoute g ↔ r.name = s.name ++ txt "-http" ∧ r.hostnames = [g.hostname] ∧
      r.parentRefs = (g.gatewayRef.map (·.parentRef)).toList ∧ r.backendRefs = [⟨s.name, 8080⟩] := by
  have hrefs : (s.httpRoute g).parentRefs = (g.gatewayRef.map (·.parentRef)).toList := by
    unfold StoredServer.httpRoute
    cases g.gatewayRef <;> rfl
  rw [← hrefs]
  constructor
  · rintro rfl
    exact ⟨rfl, rfl, rfl, rfl⟩
  · rintro ⟨h1, h2, h3, h4⟩
    cases r
    subst h1 h2 h3 h4
    rfl

theorem StoredServer.eq_udpRoute_iff {s : StoredServer K} {r : UDPRoute} {ref : GatewayReference} :
    r = s.udpRoute ref ↔ r.name = s.name ++ txt "-udp" ∧ r.parentRefs = [ref.parentRef] ∧
      r.backendRefs = [⟨s.name, 27960⟩] := by
  constructor
  · rintro rfl
    exact ⟨rfl, rfl, rfl⟩
  · rintro ⟨h1, h2, h3⟩
    cases r
    subst h1 h2 h3
    rfl

theorem eq_iff_isSome {α : Type} {o p : Option α} :
    o = p ↔ (o.isSome ↔ p.isSome) ∧ ∀ a ∈ o, ∀ b ∈ p, a = b := by
  cases o <;> cases p <;> simp

theorem routesFollow_iff_eq {s : StoredServer K} {w : World K} : RoutesFollow s w ↔
    w.httpRoute = s.wantedHTTPRoute ∧ w.udpRoute = s.wantedUDPRoute := by
  rw [eq_iff_isSome, eq_iff_isSome, StoredServer.isSome_wantedHTTPRoute, StoredServer.isSome_wantedUDPRoute]
  constructor
  · intro h
    refine ⟨⟨h.http, fun r hr t ht => ?_⟩, h.udp, fun r hr t ht => ?_⟩
    · obtain ⟨g, ⟨hg, -, -⟩, rfl⟩ := StoredServer.wantedHTTPRoute_eq_some.mp ht
      exact StoredServer.eq_httpRoute_iff.mpr (h.httpRoute r hr g hg)
    · obtain ⟨g, ref, ⟨hg, -, href⟩, rfl⟩ := StoredServer.wantedUDPRoute_eq_some.mp ht
      have := h.udpRoute r hr g hg
      rw [href] at this
      exact StoredServer.eq_udpRoute_iff.mpr this
  · rintro ⟨⟨hhttp, hr⟩, hudp, hu⟩
    refine ⟨hhttp, hudp, fun r hr' g hg => ?_, fun r hr' g hg => ?_⟩
    · obtain ⟨g', hg', hen, hh⟩ := hhttp.mp (Option.isSome_of_mem hr')
      cases Option.some.inj (hg'.symm.trans hg)
      exact StoredServer.eq_httpRoute_iff.mp
        (hr r hr' _ (StoredServer.wantedHTTPRoute_eq_some.mpr ⟨g, ⟨hg, hen, hh⟩, rfl⟩))
    · obtain ⟨g', hg', hen, href⟩ := hudp.mp (Option.isSome_of_mem hr')
      cases Option.some.inj (hg'.symm.trans hg)
      obtain ⟨ref, href⟩ := Option.ne_none_iff_exists'.mp href
      rw [href]
      exact StoredServer.eq_udpRoute_iff.mp
        (hu r hr' _ (StoredServer.wantedUDPRoute_eq_some.mpr ⟨g, ref, ⟨hg, hen, href⟩, rfl⟩))

/-! ### Runs -/

/-- A run of `Reconcile` that succeeds leaves the routes of the current spec. -/
def RoutesKept (S : SetStatusCondition) (P : PrintTable) : World K → Action K → Prop :=
  OnSuccess S P fun _ _ w' => ∀ s ∈ w'.versions.head?, RoutesFollow s w'

/-- Where a run is going to succeed, there is no route that the current spec does not ask for. -/
def NoRouteLeft (S : SetStatusCondition) (P : PrintTable) : World K → Action K → Prop :=
  OnSuccess S P fun _ w _ => ∀ s ∈ w.versions.head?,
    (w.httpRoute.isSome → s.WantsHTTP) ∧ (w.udpRoute.isSome → s.WantsUDP)

theorem or_eq_self_iff {α : Type} {o p : Option α} : o.or p = o ↔ (p.isSome → o.isSome) := by
  cases o <;> cases p <;> simp

/-- What a successful run leaves are the wanted routes exactly when no other was there. -/
theorem routesFollow_iff {e : Replies} {w w' : World K} {ready : Bool}
    (h : reconcile S P e w = (w', .reconciled ready)) :
    (∀ s ∈ w'.versions.head?, RoutesFollow s w') ↔
      ∀ s ∈ w.versions.head?, (w.httpRoute.isSome → s.WantsHTTP) ∧ (w.udpRoute.isSome → s.WantsUDP) := by
  obtain ⟨s, older, config, p, hv, -, -, -, rfl⟩ := reconcile_reconciled h
  have hsame : ∀ st, (s.withStatus st).wantedHTTPRoute = s.wantedHTTPRoute ∧
      (s.withStatus st).wantedUDPRoute = s.wantedUDPRoute := fun _ => ⟨rfl, rfl⟩
  simp only [List.head?_cons, Option.mem_some_iff, forall_eq', hv, routesFollow_iff_eq, hsame,
    or_eq_self_iff, StoredServer.isSome_wantedHTTPRoute, StoredServer.isSome_wantedUDPRoute]

/-- **Along every run of the system** the routes follow the spec if and only if no
run of `Reconcile` that succeeds has found a route the spec does not ask for. -/
theorem along_routesKept_iff (w : World K) (as : List (Action K)) :
    Along (step S P) (RoutesKept S P) w as ↔ Along (step S P) (NoRouteLeft S P) w as :=
  along_onSuccess_congr (I := fun _ => True) (fun _ _ _ _ _ => trivial)
    (fun _ _ _ _ _ h => routesFollow_iff h) trivial as

/-- The gateway `gw` for a host. -/
def gw (hostname : Text) : GatewaySpec := ⟨true, some ⟨['g', 'w'], []⟩, hostname⟩

/-- Create a server with a gateway, let it be reconciled, and take the gateway away. -/
def gatewayTaken : List (Action .unit) :=
  [.reconcile (.good none), .reconcile (.good none), .edit (arenaSpec none none) 2]

/-- **A route that is no longer wanted stays.** -/
theorem route_left : ¬ Along (step .upsert .ascii7) (RoutesKept .upsert .ascii7)
    (arena none (gw ['h'])) (gatewayTaken ++ [.reconcile (.good none)]) := by
  intro h
  have hrun : ∃ w, run (step .upsert .ascii7) (arena none (gw ['h'])) gatewayTaken = some w ∧
      (∃ w', reconcile .upsert .ascii7 (.good none) w = (w', .reconciled true) ∧
        w'.httpRoute.isSome = true ∧ w'.versions.head?.map (·.spec.gateway) = some none) := by
    with_unfolding_all exact ⟨_, rfl, _, rfl, rfl, rfl⟩
  obtain ⟨w, hw, w', hr, hsome, hspec⟩ := hrun
  obtain ⟨s, hs, hgw⟩ := Option.map_eq_some_iff.mp hspec
  obtain ⟨g, hg, -⟩ := ((h.at_run hw).1 w' true hr s hs).http.mp hsome
  exact absurd (hgw.symm.trans hg) nofun

end Operator
end QuakeKube
