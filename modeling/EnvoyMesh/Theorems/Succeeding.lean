import EnvoyMesh.Theorems.Build

/-! # Reconciles in which no call fails

The outcome of such a Reconcile is a matter of the specs alone: it succeeds if all of them decode, in
whatever order they were listed. Every order of the lists is possible. -/

namespace EnvoyMesh
open Prog

def API.ReadsWell (a : API) (c : Call) (r : c.Answer) : Prop := a.Reads c r ∧ Succeeded c r

theorem API.listing_well (a : API) : Listing a a.ReadsWell where
  listeners l := (and_iff_left ⟨l, rfl⟩).trans lists_ok
  clusters l := (and_iff_left ⟨l, rfl⟩).trans lists_ok
  routes l := (and_iff_left ⟨l, rfl⟩).trans lists_ok
  scopedRoutes l := (and_iff_left ⟨l, rfl⟩).trans lists_ok
  assignments l := (and_iff_left ⟨l, rfl⟩).trans lists_ok
  slices _ _ l := (and_iff_left ⟨l, rfl⟩).trans lists_ok

section Total
variable {pj : Protojson} {a : API} {key : NamespacedName}

theorem total_wrap {α : Type} {v : (c : Call) → c.Answer → Prop} {context : String} {x : M α} (h : Total v x) :
    Total v (M.wrap context x) := by
  intro r hr
  obtain ⟨y, hy, rfl⟩ := result_bind.mp hr
  obtain ⟨b, rfl⟩ := h y hy
  exact ⟨b, rfl⟩

theorem total_synthesize (hpj : pj.Lawful) {names : List String} {clusters : List Cluster} :
    Total a.ReadsWell (synthesize pj names clusters) := by
  induction clusters with
  | nil => exact total_pure _
  | cons cluster clusters ih =>
    rw [synthesize]
    cases synthesisOf names cluster with
    | none => exact ih
    | some syn =>
      refine Total.bind (total_wrap ?_) fun slices => Total.bind (total_wrap ?_) fun _ => ih.bind fun _ => total_pure _
      · intro r hr
        rcases hr with ⟨_, ⟨-, x, rfl⟩, rfl⟩
        exact ⟨x, rfl⟩
      · rintro r rfl
        obtain ⟨raw, hraw, -⟩ := hpj syn.clusterName slices syn.ref.port
        exact ⟨raw, hraw⟩

theorem total_collect (hpj : pj.Lawful) (key : NamespacedName) : Total a.ReadsWell (collect pj key.ns key.name) := by
  refine Total.bind (total_wrap (Total.bind ?_ fun _ => total_pure _)) fun _ =>
    Total.bind (total_wrap (Total.bind ?_ fun _ => total_pure _)) fun _ =>
    Total.bind (total_wrap (Total.bind ?_ fun _ => total_pure _)) fun _ =>
    Total.bind (total_wrap (Total.bind ?_ fun _ => total_pure _)) fun _ =>
    Total.bind (total_wrap (Total.bind ?_ fun _ => (total_synthesize hpj).bind fun _ => total_pure _)) fun _ => total_pure _
  -- what is left are the five Lists
  all_goals
    intro r hr
    rcases hr with ⟨_, ⟨-, x, rfl⟩, rfl⟩
    exact ⟨x, rfl⟩

theorem total_prepare (hpj : pj.Lawful) : Total a.ReadsWell (prepare pj key) := by
  refine Total.bind ?_ fun found => ?_
  · intro r hr
    rcases hr with ⟨_, ⟨-, x, rfl⟩, rfl⟩
    exact ⟨x, rfl⟩
  cases found with
  | none => exact total_pure _
  | some ep => exact Total.bind (total_collect hpj ep.key) fun _ => total_pure _

end Total

section Exec
variable {pj : Protojson} {key : NamespacedName} {w w' : World} {ep : EnvoyProxy}

theorem exec_prepare_well {r : Prepared} (h : (prepare pj key).run.Exec World.AnswersWell w w' r) :
    w' = w ∧ (prepare pj key).run.Result w.api.ReadsWell r :=
  h.result_of_uses id prepare_uses fun _ _ _ _ hu hc ⟨ha, hs⟩ => by
    obtain rfl : _ = w := hu
    obtain ⟨rfl, hr⟩ := answers_of_isRead hc ha
    exact ⟨rfl, hr, hs⟩

/-- With no call failing, a Reconcile of an existing proxy succeeds exactly if every spec decodes, and
    then it stores the resources in the order in which they were selected. -/
theorem exec_reconcile_well (hpj : pj.Lawful) (hep : w.api.envoyProxies.get? key = some ep) {r : Except String Unit}
    (h : (reconcile pj key).Exec World.AnswersWell w w' r) :
    (r = .ok () ↔ Decodable pj w.api key) ∧
    (r = .ok () → ∃ s, Selects w.api key s ∧ w'.cache key.nodeID = some (newSnapshot s.version (s.resources pj))) := by
  have hmono (r : Except String Unit) (hr : r = .ok ()) (h : (reconcile pj key).Exec World.AnswersWell w w' r) :
      Decodable pj w.api key ∧
        ∃ s, Selects w.api key s ∧ w'.cache key.nodeID = some (newSnapshot s.version (s.resources pj)) := by
    subst hr
    obtain ⟨snap, hcache, hpipe⟩ := exec_reconcile_ok hep (h.mono fun _ _ _ _ hw => hw.1)
    obtain ⟨hdec, s, hs, rfl⟩ := (pipeline_iff hpj).mp hpipe
    exact ⟨hdec, s, hs, by rw [hcache, Function.update_self]⟩
  refine ⟨⟨fun hr => (hmono r hr h).1, fun hdec => ?_⟩, fun hr => (hmono r hr h).2⟩
  -- the first half cannot fail, and the second does only if the build did
  obtain ⟨p, u, hp, hf⟩ := exec_bind.mp h
  obtain ⟨rfl, hres⟩ := exec_prepare_well hp
  have hreads : (prepare pj key).run.Result u.api.Reads p := hres.mono fun _ _ hr => hr.1
  obtain ⟨x, rfl⟩ := total_prepare hpj p hres
  match x with
  | none =>
    rw [result_prepare_none hreads] at hep
    cases hep
  | some (ep', version, built) =>
    obtain ⟨-, rfl, c, hc, rfl, rfl⟩ := result_prepare_found hreads
    obtain ⟨s, raws, hs, hm, rfl⟩ := (collect_iff u.api.listing).mp hc
    rw [(build_iff hpj hs hm).mpr ⟨hdec, rfl⟩, finish, publish_ok, exec_call] at hf
    obtain ⟨_, w₁, ⟨-, x, rfl⟩, hf⟩ := hf
    rw [report_ok] at hf
    simp only [exec_call, exec_bind] at hf
    obtain ⟨_, _, -, _, _, -, _, _, -, -, rfl⟩ := hf
    rfl

/-- A Reconcile of an existing proxy reads its objects in some order, sets the snapshot and goes on to report
    it, if the environment `env` lets it read and set. -/
theorem exec_of_report {env : World → (c : Call) → c.Answer → World → Prop}
    (hread : ∀ (w : World) (c : Call) (r : c.Answer), c.isRead → w.api.ReadsWell c r → env w c r w)
    (hset : ∀ (w : World) (n : String) (snap : Snapshot), env w (.setSnapshot n snap) (.ok ())
      { w with cache := Function.update w.cache n (some snap) })
    (hpj : pj.Lawful) (hep : w.api.envoyProxies.get? key = some ep) (hdec : Decodable pj w.api key) {s : Selected}
    (hs : Selects w.api key s) {r : Except String Unit}
    (h : (report ep s.version (.ok ())).Exec env
      { w with cache := Function.update w.cache key.nodeID (some (newSnapshot s.version (s.resources pj))) } w' r) :
    (reconcile pj key).Exec env w w' r := by
  obtain ⟨raws, hm⟩ := exists_marshals hpj s.synthesised
  have hkey : ep.key = key := (Store.get?_eq_some.mp hep).2
  have hbuild := (build_iff hpj hs hm).mpr ⟨hdec, rfl⟩
  have hcollect := (collect_iff w.api.listing_well).mpr ⟨s, raws, hs, hm, rfl⟩
  have hprepare : (prepare pj key).run.Result w.api.ReadsWell
      (.ok (some (ep, s.version, .ok (newSnapshot s.version (s.resources pj))))) := by
    rw [prepare, result_run_bind]
    refine ⟨some ep, ⟨.ok (some ep), ⟨Or.inl (by rw [hep]), _, rfl⟩, rfl⟩, ?_⟩
    refine result_run_bind.mpr ⟨s.collected raws, ?_, ?_⟩
    · rw [← hkey] at hcollect
      exact hcollect
    · rw [hbuild]
      rfl
  rw [← hkey] at hprepare h ⊢
  refine exec_bind.mpr ⟨_, w, hprepare.exec prepare_uses (hread w), ?_⟩
  rw [finish, publish_ok]
  exact ⟨.ok (), _, hset w _ _, h⟩

theorem answersWell_of_reads (w : World) (c : Call) (r : c.Answer) (hc : c.isRead) (hr : w.api.ReadsWell c r) :
    w.AnswersWell c r w := by
  refine ⟨?_, hr.2⟩
  cases c <;> first | exact hc.elim | exact ⟨hr.1, rfl⟩

/-- Every selection of the objects can be the one that a Reconcile stores, without another change to the
    world. -/
theorem exec_selected (hpj : pj.Lawful) (hep : w.api.envoyProxies.get? key = some ep) (hdec : Decodable pj w.api key)
    {s : Selected} (hs : Selects w.api key s) : (reconcile pj key).Exec World.AnswersWell w
      { w with cache := Function.update w.cache key.nodeID (some (newSnapshot s.version (s.resources pj))) } (.ok ()) := by
  refine exec_of_report answersWell_of_reads (fun _ _ _ => ⟨rfl, _, rfl⟩) hpj hep hdec hs ?_
  -- the status writes fail, which does not matter
  rw [report_ok]
  refine ⟨_, _, ⟨⟨rfl, rfl⟩, trivial⟩, ?_⟩
  refine exec_bind.mpr ⟨_, _, ⟨.error "conflict", _, ⟨Or.inl ⟨_, rfl, rfl⟩, trivial⟩, rfl, rfl⟩, ?_⟩
  refine exec_bind.mpr ⟨_, _, ⟨.error "conflict", _, ⟨Or.inl ⟨_, rfl, rfl⟩, trivial⟩, rfl, rfl⟩, ?_⟩
  exact ⟨rfl, rfl⟩

theorem exists_exec (hpj : pj.Lawful) (hep : w.api.envoyProxies.get? key = some ep) (hdec : Decodable pj w.api key)
    {s : Selected} (hs : Selects w.api key s) : ∃ w', (reconcile pj key).Exec World.AnswersWell w w' (.ok ()) ∧
      w'.cache key.nodeID = some (newSnapshot s.version (s.resources pj)) :=
  ⟨_, exec_selected hpj hep hdec hs, Function.update_self ..⟩

end Exec

end EnvoyMesh
