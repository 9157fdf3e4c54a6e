import EnvoyMesh.Theorems.Order
import EnvoyMesh.Theorems.Quiet
import EnvoyMesh.Theorems.Replicas

/-! # Agreement

Each process serves the streams of its own Envoys from its own cache. Processes whose controllers run do not talk to each
other, and leader election does not keep two of them from running at the same time; what makes them serve the same are the
objects that they share. -/

namespace EnvoyMesh
open Prog

/-- The controllers of the process run, and nothing that concerns the proxy is left to do. -/
structure Replica.CaughtUp (a : API) (key : NamespacedName) (r : Replica) : Prop where
  active : r.active = true
  settled : ¬(r.view a).Outstanding key
  running : r.running key = none

/-- A process that has caught up holds what some order of the lists gives. -/
theorem Replica.CaughtUp.exists_selection {pj : Protojson} (hpj : pj.Lawful) {leaderElect : Bool} {d : Deployment}
    (h : d.Reachable pj leaderElect) {i : Nat} {r : Replica} (hi : d.replicas i = some r) (p : EnvoyProxy)
    (hp : d.api.envoyProxies.get? p.key = some p) (hr : r.CaughtUp d.api p.key) :
    ∃ sel, Selects d.api p.key sel ∧ r.cache p.key.nodeID = some (newSnapshot sel.version (sel.resources pj)) := by
  have hlabel : isDNS1123Label p.key.ns = true := p.metadata.ns_label
  have hreach : Reachable pj (r.view d.api) := (replicas_sound h hi).reachable hr.active
  have hfresh := (reachable_kept hreach p.key hlabel).resolve_left hr.settled
  rw [System.Fresh, show (r.view d.api).running p.key = none from hr.running] at hfresh
  obtain ⟨snap, hsnap, hpipe⟩ := hfresh p hp
  obtain ⟨-, sel, hsel, rfl⟩ := (pipeline_iff hpj).mp hpipe
  exact ⟨sel, hsel, hsnap⟩

theorem OneVersion.version_eq {pj : Protojson} (hpj : pj.Lawful) {a : API} {key : NamespacedName} (h : OneVersion pj a key)
    {s s' : Selected} (hs : Selects a key s) (hs' : Selects a key s') : s.version = s'.version := by
  obtain ⟨raws, hm⟩ := exists_marshals hpj s.synthesised
  obtain ⟨raws', hm'⟩ := exists_marshals hpj s'.synthesised
  have hversion := h _ _ ((collect_iff a.listing).mpr ⟨s, raws, hs, hm, rfl⟩)
    ((collect_iff a.listing).mpr ⟨s', raws', hs', hm', rfl⟩)
  exact hversion

/-- Processes that have caught up agree, also while several of them are elected: each holds a snapshot for the proxy, the
    snapshots have one version if the orders of the lists give one, and the same resources under every name that is not
    ambiguous. -/
theorem active_replicas_agree {pj : Protojson} (hpj : pj.Lawful) {leaderElect : Bool} {d : Deployment}
    (h : d.Reachable pj leaderElect) {i j : Nat} {r r' : Replica} (hi : d.replicas i = some r) (hj : d.replicas j = some r')
    (p : EnvoyProxy) (hp : d.api.envoyProxies.get? p.key = some p) (hr : r.CaughtUp d.api p.key)
    (hr' : r'.CaughtUp d.api p.key) :
    ∃ snap snap', r.cache p.key.nodeID = some snap ∧ r'.cache p.key.nodeID = some snap' ∧
      (OneVersion pj d.api p.key → snap.version = snap'.version) ∧
      ∀ n, NameUnambiguous pj d.api p.key n → SameContent d.api p.key n snap snap' := by
  obtain ⟨sel, hsel, hsnap⟩ := hr.exists_selection hpj h hi p hp
  obtain ⟨sel', hsel', hsnap'⟩ := hr'.exists_selection hpj h hj p hp
  refine ⟨_, _, hsnap, hsnap', fun hone => ?_, fun n hn => sameContent_of_unambiguous hn hsel hsel'⟩
  exact hone.version_eq hpj hsel hsel'

/-- Two processes that are elected at the same time and have listed the two listeners in different orders. -/
theorem overlapping_leaders_agree : ∃ (d : Deployment) (r r' : Replica) (snap snap' : Snapshot),
    d.Reachable .reference true ∧ d.replicas 0 = some r ∧ d.replicas 1 = some r' ∧
    r.cache Sample.proxy.key.nodeID = some snap ∧ r'.cache Sample.proxy.key.nodeID = some snap' ∧
    snap.version = snap'.version ∧ ∀ n, SameContent d.api Sample.proxy.key n snap snap' := by
  obtain ⟨d, hd, hapi, h0, h1⟩ := Sample.exists_overlap selects_stored Sample.selects_swapped
  have hcaught (sel : Selected) :
      ((Replica.created.activate Sample.stored).update (Sample.worked sel)).CaughtUp d.api Sample.proxy.key := by
    refine ⟨rfl, fun hout => ?_, rfl⟩
    rcases hout with hq | ⟨e, he, -⟩
    · exact absurd rfl (of_decide_eq_true (List.mem_filter.mp hq).2)
    · cases he
  obtain ⟨snap, snap', hsnap, hsnap', hversion, hcontent⟩ := active_replicas_agree Protojson.reference_lawful hd h0 h1
    Sample.proxy (hapi ▸ rfl) (hcaught _) (hcaught _)
  have hnames (n : String) : NameUnambiguous .reference Sample.stored Sample.proxy.key n :=
    ⟨agree_of_nodup (by decide +kernel), agree_of_nodup (by decide +kernel), agree_of_nodup (by decide +kernel),
      agree_of_nodup (by decide +kernel), fun _ => agree_of_nodup (by decide +kernel), fun syn hmem => nomatch hmem⟩
  exact ⟨d, _, _, snap, snap', hd, h0, h1, hsnap, hsnap', hversion (hapi ▸ Sample.commute_stored.oneVersion),
    fun n => hcontent n (hapi ▸ hnames n)⟩

end EnvoyMesh
