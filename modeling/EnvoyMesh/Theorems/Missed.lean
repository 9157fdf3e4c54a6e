import EnvoyMesh.Theorems.NoLostUpdate
import EnvoyMesh.Theorems.Quiet

/-! # Missed notifications

`mapEndpointSliceToProxies` lists the clusters, and where that fails it drops the notification: "the next
EndpointSlice update will trigger a retry". Runs with such failures keep account of the proxies that missed
something. A proxy that has missed nothing since its last Reconcile started is as up to date as if nothing could be
dropped, and the start of any Reconcile settles the account. -/

namespace EnvoyMesh
open Prog

/-- The requests for one object of a notification, with the answer that the handler's List of the clusters got. -/
def Object.handled (clusters : Except String (List Cluster)) : Object → List NamespacedName
  | .endpointSlice x => mapEndpointSliceToProxies clusters x
  | x => x.requests []

/-- An object of a notification, and how the clusters were listed for it. -/
abbrev Handling := Object × Except String (List Cluster)

def requested (hs : List Handling) : List NamespacedName := hs.flatMap fun h => h.1.handled h.2

/-- The proxies that a notification was for, and the List of its handler failed. -/
def missedBy (clusters : List Cluster) (hs : List Handling) (key : NamespacedName) : Prop :=
  ∃ h ∈ hs, (∃ err, h.2 = .error err) ∧ key ∈ h.1.requests clusters

/-- The states of all runs in which the handlers' Lists can fail, with the proxies that missed a notification and that
    no Reconcile has been started for since. -/
inductive Lossy (pj : Protojson) : (NamespacedName → Prop) → System → Prop where
  | empty : Lossy pj (fun _ => False) .empty
  | does {missed : NamespacedName → Prop} {s t : System} {a : Act} (h : Lossy pj missed s) (hd : Does pj s a t) :
      Lossy pj (fun key => missed key ∧ a ≠ .start key) t
  | deliver {missed : NamespacedName → Prop} {s : System} (front back : List Event) (e : Event) (hs : List Handling)
      (h : Lossy pj missed s) (he : s.world.events = front ++ e :: back) (hobjects : hs.map Prod.fst = e.objects)
      (hlists : ∀ h ∈ hs, Lists s.world.api.clusters.items h.2) :
      Lossy pj (fun key => missed key ∨ missedBy s.world.api.clusters.items hs key)
        ({ s with world := { s.world with events := front ++ back } }.enqueue (requested hs))

/-! ### Handlers -/

section Handled
variable {clusters l : List Cluster} {key : NamespacedName} {x : Object}

theorem mem_handled (hl : l.Perm clusters) : key ∈ x.handled (.ok l) ↔ key ∈ x.requests clusters := by
  cases x with
  | endpointSlice x => simp only [Object.handled, Object.requests, mem_mapEndpointSliceToProxies, hl.mem_iff]
  | _ => exact Iff.rfl

theorem handled_error (slice : EndpointSlice) (e : String) : (Object.endpointSlice slice).handled (.error e) = [] := by
  rw [Object.handled, mapEndpointSliceToProxies]
  split <;> rfl

end Handled

/-! ### The account -/

section Account
variable {pj : Protojson} {missed : NamespacedName → Prop} {s t : System} {key : NamespacedName} {a : Act}

/-- Every step but the start of a Reconcile of the proxy leaves it outstanding or fresh. -/
theorem kept_of_does (hruns : s.Runs pj) (hkey : isDNS1123Label key.ns = true) (hd : Does pj s a t) (hne : a ≠ .start key)
    (h : s.Outstanding key ∨ s.Fresh pj key) : t.Outstanding key ∨ t.Fresh pj key := by
  rcases h with hout | hfresh
  · exact Or.inl (outstanding_of_does hout hd hne)
  by_cases hown : a.key? = some key
  · cases hd with
    | other => cases hown
    | start => exact absurd (Option.some.inj hown ▸ rfl) hne
    | answer key' c k r w hr hw =>
      obtain rfl := Option.some.inj hown
      exact fresh_call hfresh hr hw
    | done key' hr =>
      obtain rfl := Option.some.inj hown
      exact Or.inr (fresh_done hfresh hr)
    | failed key' e hr =>
      obtain rfl := Option.some.inj hown
      exact Or.inl (Or.inl (mem_enqueue.mpr (Or.inr List.mem_cons_self)))
  · rcases unseen_of_does hruns hkey hd hown with hout | hunseen
    · exact Or.inl hout
    · exact Or.inr (fresh_of_sameView hfresh hunseen.view hunseen.cache hunseen.running)

theorem fresh_of_start (hd : Does pj s (.start key) t) : t.Fresh pj key := by
  cases hd with
  | start =>
    simp only [System.Fresh, Function.update_self]
    exact Or.inl .refl

/-- A notification that is handled leads to a request, or is missed. -/
theorem outstanding_of_handled {front back : List Event} {e : Event} {hs : List Handling}
    (he : s.world.events = front ++ e :: back) (hobjects : hs.map Prod.fst = e.objects)
    (hlists : ∀ h ∈ hs, Lists s.world.api.clusters.items h.2) (h : s.Outstanding key) :
    missedBy s.world.api.clusters.items hs key ∨
      System.Outstanding ({ s with world := { s.world with events := front ++ back } }.enqueue (requested hs)) key := by
  rcases h with hq | ⟨e', he', x, hx, hcon⟩
  · exact Or.inr (Or.inl (mem_enqueue.mpr (Or.inl hq)))
  simp only [he, List.mem_append, List.mem_cons] at he'
  by_cases heq : e' = e
  · subst heq
    have hreq := mem_requests_of_concerns (List.Perm.refl _) hcon
    obtain ⟨⟨_, clusters⟩, hmem, rfl⟩ := List.mem_map.mp (hobjects ▸ hx)
    rcases hlists _ hmem with ⟨l, rfl, hl⟩ | herr
    · have hhandled : key ∈ requested hs := List.mem_flatMap.mpr ⟨_, hmem, (mem_handled hl).mpr hreq⟩
      exact Or.inr (Or.inl (mem_enqueue.mpr (Or.inr hhandled)))
    · exact Or.inl ⟨_, hmem, herr, hreq⟩
  · exact Or.inr (Or.inr ⟨e', by simpa [heq] using he', x, hx, hcon⟩)

theorem Lossy.runs (h : Lossy pj missed s) : s.Runs pj := by
  induction h with
  | empty => rintro key P ⟨⟩
  | does _ hd ih => exact step_runs ih hd.step
  | deliver _ _ _ _ _ _ _ _ ih => exact ih

theorem Lossy.kept (h : Lossy pj missed s) (hkey : isDNS1123Label key.ns = true) :
    missed key ∨ s.Outstanding key ∨ s.Fresh pj key := by
  induction h with
  | empty => exact Or.inr (Or.inr (by rintro p ⟨⟩))
  | @does missed s t a h hd ih =>
    by_cases hstart : a = .start key
    · subst hstart
      exact Or.inr (Or.inr (fresh_of_start hd))
    · exact ih.imp (fun hm => ⟨hm, hstart⟩) (kept_of_does h.runs hkey hd hstart)
  | deliver front back e hs h he hobjects hlists ih =>
    rcases ih with hm | hout | hfresh
    · exact Or.inl (Or.inl hm)
    · exact (outstanding_of_handled he hobjects hlists hout).imp Or.inr Or.inl
    · exact Or.inr (Or.inr (fresh_of_sameView hfresh (.refl _ _) rfl rfl))

/-- Without failures the account stays empty. -/
theorem lossy_of_reachable (h : Reachable pj s) : ∃ missed, Lossy pj missed s ∧ ∀ key, ¬missed key := by
  induction h with
  | empty => exact ⟨_, .empty, fun _ => id⟩
  | step _ hs ih =>
    obtain ⟨missed, h, hnone⟩ := ih
    obtain ⟨a, hd⟩ := hs.does
    exact ⟨_, h.does hd, fun key hm => hnone key hm.1⟩

/-- A Reconcile that runs from its start to its end settles the account. -/
theorem Lossy.exec {w : World} (h : Lossy pj missed s) (hq : key ∈ s.queue) (hr : s.running key = none)
    (hexec : (reconcile pj key).Exec World.Answers s.world w (.ok ())) :
    ∃ missed, Lossy pj missed ⟨w, s.queue.filter (· ≠ key), s.running⟩ ∧ ¬missed key := by
  have hend := kept_of_exec (fun s => ∃ missed, Lossy pj missed s ∧ ¬missed key) key
    (fun s c k r w ⟨missed, h, hm⟩ hr hw => ⟨_, h.does (.answer key c k r w hr hw), fun hm' => hm hm'.1⟩)
    (s := ⟨s.world, s.queue.filter (· ≠ key), Function.update s.running key (some (reconcile pj key))⟩) hexec
    ⟨_, h.does (.start key hq hr), fun hm => hm.2 rfl⟩ (Function.update_self ..)
  obtain ⟨missed, hend, hm⟩ := hend
  have hdone := hend.does (.done key (Function.update_self ..))
  simp only [Function.update_idem, ← hr, Function.update_eq_self] at hdone
  exact ⟨_, hdone, fun hm' => hm hm'.1⟩

end Account

/-- A failing List can hide any change of a slice: the system is at rest with the new slice, and no cache entry has
    changed. -/
theorem slice_change_missed {pj : Protojson} {missed : NamespacedName → Prop} {s : System} (h : Lossy pj missed s)
    (hrest : s.AtRest) (slice : EndpointSlice) : ∃ missed t, Lossy pj missed t ∧ t.AtRest ∧
      t.world = { s.world with api := s.world.api.put (.endpointSlice slice) } := by
  let x : Object := .endpointSlice slice
  let e : Event := ⟨s.world.api.get? x.key, some x⟩
  let hs : List Handling := e.objects.map fun y => (y, .error "cache not started")
  have hwritten := h.does (.other (.write s x) rfl)
  have hrequested : requested hs = [] := by
    refine List.flatMap_eq_nil_iff.mpr fun h hh => ?_
    obtain ⟨y, hy, rfl⟩ := List.mem_map.mp hh
    -- the object before the change is a slice too
    obtain ⟨old, rfl⟩ : ∃ old, y = .endpointSlice old := by
      rcases List.mem_append.mp hy with hold | hnew
      · obtain ⟨old, -, rfl⟩ := Option.map_eq_some_iff.mp (Option.mem_toList.mp hold)
        exact ⟨old, rfl⟩
      · exact ⟨slice, List.mem_singleton.mp hnew⟩
    exact handled_error old _
  have hdropped := hwritten.deliver s.world.events [] e hs rfl (by simp [hs, Function.comp_def])
    (fun h hh => by
      obtain ⟨y, -, rfl⟩ := List.mem_map.mp hh
      exact Or.inr ⟨_, rfl⟩)
  rw [hrequested] at hdropped
  refine ⟨_, _, hdropped, ⟨?_, hrest.queue, hrest.running⟩, ?_⟩
  · exact (List.append_nil _).trans hrest.events
  · simp only [System.enqueue, World.write, List.append_nil, x]

/-- Failing Lists of the handlers delay updates only until the next Reconcile: in every run with such failures, if no
    notification is pending, a proxy is neither queued nor being reconciled and no List has failed on a notification for it
    since its last Reconcile started, then the cache holds for it what the pipeline gives on the objects stored now. -/
theorem missed_updates_caught_up {pj : Protojson} {missed : NamespacedName → Prop} {s : System} (h : Lossy pj missed s)
    (p : EnvoyProxy) (hp : s.world.api.envoyProxies.get? p.key = some p) (hevents : s.world.events = [])
    (hqueue : p.key ∉ s.queue) (hrunning : s.running p.key = none) (hmissed : ¬missed p.key) :
    ∃ snap, s.world.cache p.key.nodeID = some snap ∧ Pipeline pj s.world.api p.key snap := by
  have hkey : isDNS1123Label p.key.ns = true := p.metadata.ns_label
  rcases h.kept hkey with hm | (hq | ⟨e, he, -⟩) | hfresh
  · exact absurd hm hmissed
  · exact absurd hq hqueue
  · rw [hevents] at he
    cases he
  · rw [System.Fresh, hrunning] at hfresh
    exact hfresh p hp

namespace Sample

/-- The proxy with a cluster that refers to a Service. -/
def discovering : System := (System.empty.writes [.envoyProxy proxy, .cluster (cluster "web" "2" web)]).drain

/-- A slice of the Service is written, and its handler cannot list the clusters. -/
def unnoticed : System :=
  { discovering with world := { discovering.world.write (.endpointSlice slice) with events := [] } }

theorem lossy_unnoticed : ∃ missed, Lossy .reference missed unnoticed ∧ missed proxy.key := by
  have hdiscovering : Reachable .reference discovering := (Reachable.empty.writes _).drain
  obtain ⟨_, h, -⟩ := lossy_of_reachable hdiscovering
  have hwritten := h.does (.other (.write discovering (.endpointSlice slice)) rfl)
  have hdropped := hwritten.deliver [] [] ⟨none, some (.endpointSlice slice)⟩
    [(.endpointSlice slice, .error "cache not started")]
    rfl rfl (List.forall_mem_singleton.mpr (Or.inr ⟨_, rfl⟩))
  exact ⟨_, hdropped, Or.inr ⟨_, List.mem_cons_self, ⟨_, rfl⟩, by decide +kernel⟩⟩

end Sample

/-- The Reconcile that was queued before takes the slice into account. -/
theorem unnoticed_caught_up : ∃ missed s, Lossy .reference missed s ∧ s.world.api = Sample.unnoticed.world.api ∧
    ∃ snap, s.world.cache Sample.proxy.key.nodeID = some snap ∧ Pipeline .reference s.world.api Sample.proxy.key snap := by
  obtain ⟨_, h, -⟩ := Sample.lossy_unnoticed
  have hdec : Decodable .reference Sample.unnoticed.world.api Sample.proxy.key := by constructor <;> decide +kernel
  have hexec := exec_selected Protojson.reference_lawful (show _ = some Sample.proxy from rfl) hdec selects_stored
  obtain ⟨missed, hdone, hmissed⟩ := h.exec (by decide +kernel) rfl (hexec.mono fun _ _ _ _ hw => hw.1)
  exact ⟨missed, _, hdone, rfl, missed_updates_caught_up hdone Sample.proxy rfl rfl (by decide +kernel) rfl hmissed⟩

end EnvoyMesh
