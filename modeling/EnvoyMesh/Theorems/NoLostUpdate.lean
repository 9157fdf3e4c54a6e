import EnvoyMesh.Theorems.Endpoints
import EnvoyMesh.Theorems.Kept

/-! # No update is lost

Whatever concerns a proxy and changes while a Reconcile of it runs leaves a notification that leads to
another Reconcile. So at every moment a proxy has something outstanding, or what its running Reconcile
has read so far, or what the cache holds for it, is still what the stored objects give. -/

namespace EnvoyMesh
open Prog

def System.Current (pj : Protojson) (s : System) (key : NamespacedName) : Prop :=
  ∃ snap, s.world.cache key.nodeID = some snap ∧ Pipeline pj s.world.api key snap

/-- The running Reconcile of `key` got only answers that the stored objects still give and has not set
    its snapshot, or the cache is current and stays as it is. Without one, the cache is current if the
    proxy exists. -/
def System.Fresh (pj : Protojson) (s : System) (key : NamespacedName) : Prop :=
  match s.running key with
  | some P => Reaches s.world.api.Reads (reconcile pj key) P ∨ (s.Current pj key ∧ P.Uses fun c => ¬c.isSet)
  | none => ∀ p, s.world.api.envoyProxies.get? key = some p → s.Current pj key

section Frame
variable {pj : Protojson} {s t : System} {key : NamespacedName}

theorem fresh_of_running {P : Calls (Except String Unit)} (h : s.Fresh pj key) (hr : s.running key = some P) :
    Reaches s.world.api.Reads (reconcile pj key) P ∨ (s.Current pj key ∧ P.Uses fun c => ¬c.isSet) := by
  rwa [System.Fresh, hr] at h

theorem current_of_sameView (h : s.Current pj key) (hv : SameView key s.world.api t.world.api)
    (hc : t.world.cache key.nodeID = s.world.cache key.nodeID) : t.Current pj key := by
  obtain ⟨snap, hsnap, hp⟩ := h
  exact ⟨snap, hc.trans hsnap, hv.pipeline hp⟩

/-- Freshness of `key` depends on what a Reconcile of it can see, on its cache entry and on its running
    Reconcile. -/
theorem fresh_of_sameView (h : s.Fresh pj key) (hv : SameView key s.world.api t.world.api)
    (hc : t.world.cache key.nodeID = s.world.cache key.nodeID) (hr : t.running key = s.running key) :
    t.Fresh pj key := by
  unfold System.Fresh at h ⊢
  rw [hr]
  cases hP : s.running key with
  | none =>
    simp only [hP] at h ⊢
    exact fun p hp => current_of_sameView (h p (hv.proxy.trans hp)) hv hc
  | some P =>
    simp only [hP] at h ⊢
    rcases h with hreach | ⟨hcur, hu⟩
    · exact Or.inl (hv.reads.sim_reconcile.reaches hreach).1
    · exact Or.inr ⟨current_of_sameView hcur hv hc, hu⟩

end Frame

section Steps
variable {pj : Protojson} {s t : System} {key : NamespacedName}

theorem fresh_answer {c : Call} {k : c.Answer → Calls (Except String Unit)} {r : c.Answer} (h : s.Fresh pj key)
    (hr : s.running key = some (.call c k)) (hc : s.world.api.Reads c r) :
    { s with running := Function.update s.running key (some (k r)) }.Fresh pj key := by
  simp only [System.Fresh, Function.update_self]
  rcases fresh_of_running h hr with hreach | ⟨hcur, hu⟩
  · exact Or.inl (hreach.answer hc)
  · exact Or.inr ⟨hcur, hu.2 r⟩

/-- The snapshot that a fresh Reconcile sets is current. -/
theorem fresh_set {nodeID : String} {snap : Snapshot} {k : Except String Unit → Calls (Except String Unit)}
    (r : Except String Unit) (h : s.Fresh pj key) (hr : s.running key = some (.call (.setSnapshot nodeID snap) k)) :
    System.Fresh pj ⟨{ s.world with cache := Function.update s.world.cache nodeID (some snap) }, s.queue,
      Function.update s.running key (some (k r))⟩ key := by
  simp only [System.Fresh, Function.update_self]
  rcases fresh_of_running h hr with hreach | ⟨-, hu⟩
  · obtain ⟨ep, version, hp, rfl, rfl⟩ := reaches_set hreach
    obtain ⟨-, rfl, c, hc, -, hbuild⟩ := result_prepare_found hp
    refine Or.inr ⟨⟨snap, Function.update_self .., c, hc, hbuild.symm⟩, ?_⟩
    exact report_uses (fun _ => id) fun _ => id
  · exact absurd trivial hu.1

/-- A Reconcile that ends well without having set a snapshot has not found its proxy. -/
theorem not_found_of_reaches {a : API} (h : Reaches a.Reads (reconcile pj key) (.ret (.ok ()))) :
    a.envoyProxies.get? key = none := by
  obtain ⟨p, hp, hf⟩ := result_bind.mp (h.result rfl)
  match p, hf with
  | .ok none, _ => exact result_prepare_none hp
  | .ok (some (ep, version, .error e)), hf =>
    rw [finish, publish_error] at hf
    obtain ⟨_, -, hret⟩ := result_bind.mp hf
    cases hret
  | .ok (some (ep, version, .ok snap)), hf =>
    rw [finish, publish_ok] at hf
    obtain ⟨_, hset, -⟩ := hf
    exact hset.elim

theorem fresh_call {c : Call} {k : c.Answer → Calls (Except String Unit)} {r : c.Answer} {w : World}
    (h : s.Fresh pj key) (hr : s.running key = some (.call c k)) (hw : s.world.Answers c r w) :
    System.Outstanding ⟨w, s.queue, Function.update s.running key (some (k r))⟩ key ∨
      System.Fresh pj ⟨w, s.queue, Function.update s.running key (some (k r))⟩ key := by
  cases c with
  | setSnapshot nodeID snap =>
    obtain rfl : w = _ := hw
    exact Or.inr (fresh_set r h hr)
  | isConnected nodeID =>
    obtain ⟨-, rfl⟩ := hw
    exact Or.inr (fresh_answer h hr trivial)
  | updateStatus ep =>
    rcases answers_updateStatus hw with rfl | ⟨e, ha, he, hc, -⟩
    · exact Or.inr (fresh_answer h hr trivial)
    rcases ha.concerns_or_sameView key with hcon | hv
    · exact Or.inl (Or.inr ⟨e, by simp [he], hcon⟩)
    · exact Or.inr (fresh_of_sameView (fresh_answer (r := r) h hr trivial) hv (hc ▸ rfl) rfl)
  | _ =>
    obtain ⟨hreads, rfl⟩ := hw
    exact Or.inr (fresh_answer h hr hreads)

theorem fresh_done (h : s.Fresh pj key) (hr : s.running key = some (.ret (.ok ()))) :
    { s with running := Function.update s.running key none }.Fresh pj key := by
  simp only [System.Fresh, Function.update_self]
  intro p hp
  rcases fresh_of_running h hr with hreach | ⟨hcur, -⟩
  · rw [not_found_of_reaches hreach] at hp
    cases hp
  · exact hcur

theorem fresh_carried : Carried pj (fun _ _ _ _ => True) key fun _ s => s.Fresh pj key where
  empty := nofun
  start hr := by
    rw [System.Fresh, hr]
    exact Or.inl .refl
  answer h hr hw _ := fresh_call h hr hw
  done h hr _ := fresh_done h hr
  unseen h _ _ _ hu := Or.inr (fresh_of_sameView h hu.view hu.cache hu.running)

theorem reachable_kept (h : Reachable pj s) (key : NamespacedName) (hkey : isDNS1123Label key.ns = true) :
    s.Outstanding key ∨ s.Fresh pj key := by
  obtain ⟨acts, hrec⟩ := h.recorded
  exact fresh_carried.of_recorded hkey hrec

end Steps

/-- No lost update: in every reachable state, if no notification is pending and `p` is neither queued nor
    being reconciled, the cache holds for `p` what the pipeline of a Reconcile gives on the objects stored
    now. -/
theorem no_lost_update {pj : Protojson} {s : System} (h : Reachable pj s) (p : EnvoyProxy)
    (hp : s.world.api.envoyProxies.get? p.key = some p) (hevents : s.world.events = []) (hqueue : p.key ∉ s.queue)
    (hrunning : s.running p.key = none) :
    ∃ snap, s.world.cache p.key.nodeID = some snap ∧ Pipeline pj s.world.api p.key snap := by
  rcases reachable_kept h p.key p.metadata.ns_label with (hq | ⟨e, he, -⟩) | hfresh
  · exact absurd hq hqueue
  · rw [hevents] at he
    cases he
  · rw [System.Fresh, hrunning] at hfresh
    exact hfresh p hp

theorem no_lost_update_cached : ∃ snap, Sample.cached.world.cache Sample.proxy.key.nodeID = some snap ∧
    Pipeline .reference Sample.cached.world.api Sample.proxy.key snap :=
  no_lost_update ((Sample.reachable_written _).exec (by decide +kernel) rfl Sample.exec_cached) Sample.proxy rfl rfl
    (by decide +kernel) rfl

end EnvoyMesh
