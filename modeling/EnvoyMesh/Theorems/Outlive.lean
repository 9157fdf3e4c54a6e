import EnvoyMesh.Theorems.NoLostUpdate

/-! # Snapshots of deleted proxies

A Reconcile that finds no proxy ends without touching the cache. So the entry of a deleted proxy stays,
and nothing is left that would remove it: a snapshot can outlive its proxy. It cannot in the runs in
which no Reconcile misses its proxy while a snapshot of it is cached. -/

namespace EnvoyMesh
open Prog

/-- The proxy exists, or a request for it or a notification about it is still to come. -/
def System.Live (s : System) (key : NamespacedName) : Prop :=
  (s.world.api.envoyProxies.get? key).isSome ∨ key ∈ s.queue ∨
    ∃ e ∈ s.world.events, ∃ p : EnvoyProxy, .envoyProxy p ∈ e.objects ∧ p.key = key

/-- No snapshot outlives its proxy: one that is cached under the node ID of `key` has its proxy, a request
    for it that is pending, or a Reconcile of it that is running. -/
def System.Owned (s : System) (key : NamespacedName) : Prop :=
  (s.world.cache key.nodeID).isSome → s.Live key ∨ (s.running key).isSome

/-- The step answers the Get of a Reconcile of `key`, which does not find its proxy and is at its end. -/
def Misses (pj : Protojson) (key : NamespacedName) (s t : System) : Prop :=
  s.running key = some (reconcile pj key) ∧ t.running key = some (.ret (.ok ()))

/-- The states of the runs in which no Reconcile misses its proxy while a snapshot is cached for it. -/
inductive Guarded (pj : Protojson) : System → Prop where
  | empty : Guarded pj .empty
  | step {s t : System} : Guarded pj s → Step pj s t →
      (∀ key, Misses pj key s t → s.world.cache key.nodeID = none) → Guarded pj t

theorem Guarded.reachable {pj : Protojson} {s : System} (h : Guarded pj s) : Reachable pj s := by
  induction h with
  | empty => exact .empty
  | step _ hs _ ih => exact ih.step hs

section Live
variable {pj : Protojson} {s t : System} {key : NamespacedName}

theorem exists_put {a : API} {x : Object} (h : (a.envoyProxies.get? key).isSome) :
    ((a.put x).envoyProxies.get? key).isSome := by
  cases x with
  | envoyProxy p =>
    rw [API.put, Store.get?_put]
    split
    · rfl
    · exact h
  | _ => exact h

theorem live_of_alters {e : Event} (h : s.Live key) (ha : Alters s.world.api e t.world.api)
    (he : t.world.events = s.world.events ++ [e]) (hq : t.queue = s.queue) : t.Live key := by
  rcases h with hp | hmem | ⟨e', he', hobj⟩
  · obtain ⟨tw, tq, tr⟩ := t
    obtain ⟨ta, tc, ts, te⟩ := tw
    cases ha with
    | write x => exact Or.inl (exists_put hp)
    | delete k x hx =>
      obtain rfl := key_of_get? hx
      by_cases hk : x.key = .envoyProxy key
      · cases x with
        | envoyProxy p =>
          injection hk with hk
          exact Or.inr (Or.inr ⟨_, he ▸ List.mem_append_right _ List.mem_cons_self, p, List.mem_cons_self, hk⟩)
        | _ => cases hk
      · refine Or.inl ?_
        cases x with
        | envoyProxy p =>
          have hne : p.key ≠ key := fun heq => hk (congrArg _ heq)
          exact (congrArg Option.isSome ((Store.get?_erase ..).trans (if_neg hne))).trans hp
        | _ => exact hp
  · exact Or.inr (Or.inl (hq ▸ hmem))
  · exact Or.inr (Or.inr ⟨e', by simp [he, he'], hobj⟩)

theorem live_mono (h : s.Live key) (hw : t.world.api = s.world.api) (he : t.world.events = s.world.events)
    (hq : key ∈ s.queue → key ∈ t.queue) : t.Live key := by
  rcases h with hp | hmem | ⟨e, hmem, hobj⟩
  · exact Or.inl (hw ▸ hp)
  · exact Or.inr (Or.inl (hq hmem))
  · exact Or.inr (Or.inr ⟨e, he ▸ hmem, hobj⟩)

theorem step_live (h : s.Live key) (hs : Step pj s t) (hr : (s.running key).isSome ∨ t.running key = none) :
    t.Live key := by
  cases hs with
  | write x => exact live_of_alters h (.write x) rfl rfl
  | delete k x hx => exact live_of_alters h (.delete k x hx) rfl rfl
  | deliver front back e clusters he hc =>
    rcases h with hp | hmem | ⟨e', he', p, hobj, hk⟩
    · exact Or.inl hp
    · exact Or.inr (Or.inl (mem_enqueue.mpr (Or.inl hmem)))
    · simp only [he, List.mem_append, List.mem_cons] at he'
      by_cases heq : e' = e
      · subst heq
        have hreq : key ∈ e'.requests clusters := List.mem_flatMap.mpr ⟨_, hobj, List.mem_singleton.mpr hk.symm⟩
        exact Or.inr (Or.inl (mem_enqueue.mpr (Or.inr hreq)))
      · exact Or.inr (Or.inr ⟨e', by simpa [heq] using he', p, hobj, hk⟩)
  | start key' hq hnone =>
    refine live_mono h rfl rfl fun hmem => List.mem_filter.mpr ⟨hmem, ?_⟩
    have hne : key ≠ key' := by
      rintro rfl
      rcases hr with hr | hr
      · rw [hnone] at hr
        cases hr
      · simp at hr
    simpa using hne
  | call key' c k r w hr' hw =>
    rcases answers_cases hw with ⟨ha, he⟩ | ⟨e, ha, he⟩
    · exact live_mono h ha he id
    · exact live_of_alters h ha he rfl
  | done => exact live_mono h rfl rfl id
  | failed => exact live_mono h rfl rfl fun hmem => mem_enqueue.mpr (Or.inl hmem)
  | stream => exact live_mono h rfl rfl id

end Live

section Owned
variable {pj : Protojson} {s t : System} {key : NamespacedName}

/-- What holds of a running Reconcile of `key` after its Get: the proxy is live, or nothing is cached for
    it and nothing will be, or it failed and is to be repeated. -/
def System.Tracked (pj : Protojson) (s : System) (key : NamespacedName) : Prop :=
  match s.running key with
  | some P => P = reconcile pj key ∨ s.Live key ∨ (s.world.cache key.nodeID = none ∧ P.Uses fun c => ¬c.isSet) ∨
      ∃ e, P = .ret (.error e)
  | none => (s.world.cache key.nodeID).isSome → s.Live key

theorem tracked_of_live (h : s.Live key) : s.Tracked pj key := by
  unfold System.Tracked
  split
  · exact Or.inr (Or.inl h)
  · exact fun _ => h

theorem tracked_of_running {P : Calls (Except String Unit)} (h : s.Tracked pj key) (hr : s.running key = some P) :
    P = reconcile pj key ∨ s.Live key ∨ (s.world.cache key.nodeID = none ∧ P.Uses fun c => ¬c.isSet) ∨
      ∃ e, P = .ret (.error e) := by
  rwa [System.Tracked, hr] at h

theorem tracked_of_frame (h : s.Tracked pj key) (hs : Step pj s t)
    (hc : t.world.cache key.nodeID = s.world.cache key.nodeID) (hr : t.running key = s.running key) :
    t.Tracked pj key := by
  have hlive (hl : s.Live key) : t.Live key := by
    refine step_live hl hs ?_
    cases hP : s.running key with
    | none => exact Or.inr (hr.trans hP)
    | some P => exact Or.inl rfl
  unfold System.Tracked at h ⊢
  rw [hr, hc]
  cases hP : s.running key with
  | none =>
    simp only [hP] at h ⊢
    exact fun hcached => hlive (h hcached)
  | some P =>
    simp only [hP] at h ⊢
    exact h.imp_right (Or.imp_left hlive)

theorem get_tracked {k : Except String (Option EnvoyProxy) → Calls (Except String Unit)}
    {r : Except String (Option EnvoyProxy)} {w : World} (hk : reconcile pj key = .call (.get key) k)
    (hw : s.world.Answers (.get key) r w)
    (hmiss : k r = .ret (.ok ()) → s.world.cache key.nodeID = none) :
    System.Tracked pj ⟨w, s.queue, Function.update s.running key (some (k r))⟩ key := by
  obtain ⟨hget, rfl⟩ := hw
  simp only [System.Tracked, Function.update_self]
  injection hk with _ hk
  subst hk
  rcases hget with rfl | ⟨e, rfl⟩
  · cases hp : s.world.api.envoyProxies.get? key with
    | none =>
      rw [hp] at hmiss
      exact Or.inr (Or.inr (Or.inl ⟨hmiss rfl, trivial⟩))
    | some p => exact Or.inr (Or.inl (Or.inl (by rw [hp]; rfl)))
  · exact Or.inr (Or.inr (Or.inr ⟨e, rfl⟩))

theorem call_tracked {c : Call} {k : c.Answer → Calls (Except String Unit)} {r : c.Answer} {w : World}
    (h : s.Tracked pj key) (hr : s.running key = some (.call c k)) (hw : s.world.Answers c r w)
    (hmiss : Misses pj key s ⟨w, s.queue, Function.update s.running key (some (k r))⟩ →
      s.world.cache key.nodeID = none) :
    System.Tracked pj ⟨w, s.queue, Function.update s.running key (some (k r))⟩ key := by
  rcases tracked_of_running h hr with heq | hlive | ⟨hnone, hu⟩ | ⟨e, he⟩
  · obtain rfl : c = .get key := by
      injection heq
    refine get_tracked heq.symm hw fun hend => hmiss ⟨hr.trans (congrArg some heq), ?_⟩
    simp only [Function.update_self, hend]
  · have hstep : Step pj s _ := .call s key c k r w hr hw
    exact tracked_of_live (step_live hlive hstep (Or.inl (hr ▸ rfl)))
  · simp only [System.Tracked, Function.update_self]
    exact Or.inr (Or.inr (Or.inl ⟨(answers_cache hw hu.1).symm ▸ hnone, hu.2 r⟩))
  · cases he

theorem step_tracked (hruns : s.Runs pj) (hkey : isDNS1123Label key.ns = true) (h : s.Tracked pj key)
    (hs : Step pj s t) (hmiss : Misses pj key s t → s.world.cache key.nodeID = none) : t.Tracked pj key := by
  cases hs with
  | write x => exact tracked_of_frame h (.write s x) rfl rfl
  | delete k x hx => exact tracked_of_frame h (.delete s k x hx) rfl rfl
  | deliver front back e clusters he hc => exact tracked_of_frame h (.deliver s front back e clusters he hc) rfl rfl
  | stream ev st hst => exact tracked_of_frame h (.stream s ev st hst) rfl rfl
  | start key' hq hr =>
    by_cases hk : key = key'
    · subst hk
      simp only [System.Tracked, Function.update_self, true_or]
    · exact tracked_of_frame h (.start s key' hq hr) rfl (Function.update_of_ne hk ..)
  | call key' c k r w hr hw =>
    by_cases hk : key = key'
    · subst hk
      exact call_tracked h hr hw hmiss
    · exact tracked_of_frame h (.call s key' c k r w hr hw) (answers_cache_of_ne hruns hkey hk hr hw)
        (Function.update_of_ne hk ..)
  | done key' hr =>
    by_cases hk : key = key'
    · subst hk
      simp only [System.Tracked, Function.update_self]
      intro hcached
      rcases tracked_of_running h hr with heq | hlive | ⟨hnone, -⟩ | ⟨e, he⟩
      · cases heq
      · exact live_mono hlive rfl rfl id
      · rw [hnone] at hcached
        cases hcached
      · cases he
    · exact tracked_of_frame h (.done s key' hr) rfl (Function.update_of_ne hk ..)
  | failed key' e hr =>
    by_cases hk : key = key'
    · subst hk
      exact tracked_of_live (Or.inr (Or.inl (mem_enqueue.mpr (Or.inr List.mem_cons_self))))
    · exact tracked_of_frame h (.failed s key' e hr) rfl (Function.update_of_ne hk ..)

theorem guarded_tracked (h : Guarded pj s) (key : NamespacedName) (hkey : isDNS1123Label key.ns = true) :
    s.Tracked pj key := by
  induction h with
  | empty => rintro ⟨⟩
  | step hg hs hmiss ih => exact step_tracked (reachable_runs hg.reachable) hkey ih hs (hmiss key)

/-- No snapshot outlives its proxy in a run in which no Reconcile misses its proxy while a snapshot of it
    is cached. -/
theorem owned_of_guarded (h : Guarded pj s) (key : NamespacedName) (hkey : isDNS1123Label key.ns = true) :
    s.Owned key := by
  intro hcached
  have htracked := guarded_tracked h key hkey
  cases hr : s.running key with
  | none =>
    rw [System.Tracked, hr] at htracked
    exact Or.inl (htracked hcached)
  | some P => exact Or.inr rfl

end Owned

/-! ### Runs of the small mesh -/

section Found
variable {pj : Protojson} {s t : System} {key : NamespacedName}

theorem get?_of_misses (hs : Step pj s t) (h : Misses pj key s t) : s.world.api.envoyProxies.get? key = none := by
  obtain ⟨hrun, hend⟩ := h
  have hstays (heq : t.running key = s.running key) : s.world.api.envoyProxies.get? key = none := by
    rw [heq, hrun] at hend
    cases hend
  have hne {key' : NamespacedName} (hr : s.running key' ≠ some (reconcile pj key')) : key ≠ key' := by
    rintro rfl
    exact hr hrun
  cases hs with
  | write => exact hstays rfl
  | delete => exact hstays rfl
  | deliver => exact hstays rfl
  | stream => exact hstays rfl
  | start key' hq hr => exact hstays (Function.update_of_ne (hne (by rw [hr]; nofun)) ..)
  | done key' hr => exact hstays (Function.update_of_ne (hne (by rw [hr]; nofun)) ..)
  | failed key' e hr => exact hstays (Function.update_of_ne (hne (by rw [hr]; nofun)) ..)
  | call key' c k r w hr hw =>
    by_cases hk : key = key'
    · subst hk
      have heq : Prog.call c k = reconcile pj key := Option.some.inj (hr.symm.trans hrun)
      obtain rfl : c = .get key := by injection heq
      injection heq with _ hk
      subst hk
      simp only [Function.update_self] at hend
      obtain ⟨rfl | ⟨e, rfl⟩, -⟩ := hw
      · cases hp : s.world.api.envoyProxies.get? key with
        | none => rfl
        | some p =>
          rw [hp] at hend
          cases hend
      · cases hend
    · exact hstays (Function.update_of_ne hk ..)

theorem Guarded.of_found (h : Guarded pj s) (hs : Step pj s t)
    (hfound : ∀ key, s.running key = some (reconcile pj key) → (s.world.api.envoyProxies.get? key).isSome) :
    Guarded pj t := by
  refine h.step hs fun key hmiss => ?_
  have hsome := hfound key hmiss.1
  rw [get?_of_misses hs hmiss] at hsome
  cases hsome

theorem exists_of_answers {w w' : World} {c : Call} {r : c.Answer} (h : w.Answers c r w')
    (hp : (w.api.envoyProxies.get? key).isSome) : (w'.api.envoyProxies.get? key).isSome := by
  cases c with
  | setSnapshot nodeID snap =>
    obtain rfl : w' = _ := h
    exact hp
  | updateStatus ep =>
    obtain ⟨e, -, rfl⟩ | ⟨old, -, -, ⟨-, -, rfl⟩ | ⟨-, rv, -, rfl⟩⟩ := h
    · exact hp
    · exact hp
    · exact exists_put (x := .envoyProxy _) hp
  | _ =>
    obtain ⟨-, rfl⟩ := h
    exact hp

namespace Guarded

theorem of_idle (h : Guarded pj s) (hidle : ∀ key, s.running key = none) (hs : Step pj s t) : Guarded pj t := by
  refine h.of_found hs fun key hrun => ?_
  rw [hidle key] at hrun
  cases hrun

theorem writes (h : Guarded pj s) (hidle : ∀ key, s.running key = none) (xs : List Object) : Guarded pj (s.writes xs) :=
  (kept_of_writes (R := fun s => Guarded pj s ∧ ∀ key, s.running key = none)
    (fun h hs hr _ => ⟨h.1.of_idle h.2 hs, hr ▸ h.2⟩) ⟨h, hidle⟩ xs).1

theorem delete (h : Guarded pj s) (hidle : ∀ key, s.running key = none) (k : ObjectKey) : Guarded pj (s.delete k) :=
  (kept_of_delete (R := fun s => Guarded pj s ∧ ∀ key, s.running key = none)
    (fun h hs hr _ => ⟨h.1.of_idle h.2 hs, hr ▸ h.2⟩) ⟨h, hidle⟩ k).1

theorem drain (h : Guarded pj s) (hidle : ∀ key, s.running key = none) : Guarded pj s.drain :=
  (kept_of_drain (R := fun s => Guarded pj s ∧ ∀ key, s.running key = none)
    (fun h hs hr _ => ⟨h.1.of_idle h.2 hs, hr ▸ h.2⟩) ⟨h, hidle⟩).1

/-- The Reconcile of a proxy that exists runs to a successful end with nothing in between. -/
theorem exec {w : World} (h : Guarded pj s) (hidle : ∀ key, s.running key = none) (hq : key ∈ s.queue)
    (hp : (s.world.api.envoyProxies.get? key).isSome)
    (hexec : (reconcile pj key).Exec World.Answers s.world w (.ok ())) :
    Guarded pj ⟨w, s.queue.filter (· ≠ key), s.running⟩ := by
  have hstart := h.of_idle hidle (.start s key hq (hidle key))
  -- the proxy stays, and no other Reconcile runs
  obtain ⟨hend, -, hothers⟩ := kept_of_exec
    (fun s => Guarded pj s ∧ (s.world.api.envoyProxies.get? key).isSome ∧ ∀ key', key' ≠ key → s.running key' = none) key
    (fun s c k r w ⟨hg, hp, hothers⟩ hr hw => by
      refine ⟨hg.of_found (.call s key c k r w hr hw) fun key' hrun => ?_, exists_of_answers hw hp, fun key' hk => ?_⟩
      · by_cases hk : key' = key
        · exact hk ▸ hp
        · rw [hothers key' hk] at hrun
          cases hrun
      · exact (Function.update_of_ne hk ..).trans (hothers key' hk))
    (s := ⟨s.world, s.queue.filter (· ≠ key), Function.update s.running key (some (reconcile pj key))⟩) hexec
    ⟨hstart, hp, fun key' hk => (Function.update_of_ne hk ..).trans (hidle key')⟩ (Function.update_self ..)
  have hdone := hend.of_found (.done _ key (Function.update_self ..)) fun key' hrun => ?_
  · simpa only [Function.update_idem, ← hidle key, Function.update_eq_self] using hdone
  · by_cases hk : key' = key
    · subst hk
      simp only [Function.update_self] at hrun
      cases hrun
    · rw [hothers key' hk] at hrun
      cases hrun

theorem reconciled (h : Guarded pj s) (hidle : ∀ key, s.running key = none) (hq : key ∈ s.queue)
    (hp : (s.world.api.envoyProxies.get? key).isSome) (hok : (s.world.reconciled pj key).1 = .ok ()) :
    Guarded pj (s.reconciled pj key) := by
  have hexec := (exec_reconciled pj key s.world).mono fun _ _ _ _ hw => hw.1
  rw [hok] at hexec
  exact h.exec hidle hq hp hexec

end Guarded

end Found

namespace Sample

/-- The written proxy is reconciled, and once more after its status was written. Then it is deleted, which
    is delivered and reconciled. -/
def served : System := (written.reconciled .reference proxy.key).drain
def settled : System := served.reconciled .reference proxy.key
def deleted : System := (settled.delete (.envoyProxy proxy.key)).drain
def orphaned : System := deleted.reconciled .reference proxy.key

theorem idle_deleted : deleted.running proxy.key = none := by
  rw [deleted, System.running_drain, System.running_delete]
  rfl

/-- What the run computes, in one evaluation: the Reconciles until the deletion, the state after it, and the Reconcile
    of the deleted proxy. -/
theorem orphaned_run :
    (proxy.key ∈ served.queue ∧ (served.world.api.envoyProxies.get? proxy.key).isSome ∧
      (served.world.reconciled .reference proxy.key).1 = .ok ()) ∧
    (proxy.key ∈ deleted.queue ∧ (deleted.world.api.envoyProxies.get? proxy.key).isNone ∧
      (deleted.world.cache proxy.key.nodeID).isSome ∧ (deleted.world.reconciled .reference proxy.key).1 = .ok ()) ∧
    (orphaned.world.cache proxy.key.nodeID).isSome ∧ (orphaned.world.api.envoyProxies.get? proxy.key).isNone ∧
    orphaned.queue = [] ∧ orphaned.world.events.isEmpty := by
  decide +kernel

/-- Until the deletion is reconciled, every Reconcile finds its proxy. -/
theorem guarded_deleted : Guarded .reference deleted := by
  obtain ⟨⟨hqueue, hfound, hok⟩, -⟩ := orphaned_run
  have hwritten : Guarded .reference written := (Guarded.empty.writes (fun _ => rfl) _).drain fun _ => rfl
  have hserved : Guarded .reference served :=
    (hwritten.reconciled (fun _ => rfl) (by decide +kernel) rfl (by decide +kernel)).drain fun _ => rfl
  have hsettled : Guarded .reference settled := hserved.reconciled (fun _ => rfl) hqueue hfound hok
  refine (hsettled.delete (fun _ => rfl) _).drain fun key => ?_
  rw [System.running_delete]
  rfl

theorem reachable_orphaned : Reachable .reference orphaned := by
  obtain ⟨-, ⟨hqueue, -, -, hok⟩, -⟩ := orphaned_run
  exact guarded_deleted.reachable.reconciled hqueue idle_deleted hok

end Sample

/-- A snapshot can outlive its proxy: the Reconcile after the deletion leaves it in the cache. -/
theorem snapshot_outlives_proxy : ¬∀ (pj : Protojson) (s : System) (key : NamespacedName), pj.Lawful → Reachable pj s →
    isDNS1123Label key.ns = true → s.Owned key := by
  intro h
  obtain ⟨-, -, hcached, hnone, hqueue, hevents⟩ := Sample.orphaned_run
  rcases h _ _ Sample.proxy.key Protojson.reference_lawful Sample.reachable_orphaned (by decide) hcached with
    (hp | hq | ⟨e, he, -⟩) | hr
  · rw [Option.isNone_iff_eq_none.mp hnone] at hp
    cases hp
  · rw [hqueue] at hq
    cases hq
  · rw [List.isEmpty_iff.mp hevents] at he
    cases he
  · rw [Sample.orphaned, System.running_reconciled, Sample.idle_deleted] at hr
    cases hr

/-- The proxy has just been deleted, and the snapshot is still there. -/
theorem deleted_owned : (Sample.deleted.world.cache Sample.proxy.key.nodeID).isSome ∧
    (Sample.deleted.world.api.envoyProxies.get? Sample.proxy.key).isNone ∧ Sample.deleted.Owned Sample.proxy.key := by
  obtain ⟨-, ⟨-, hnone, hcached, -⟩, -⟩ := Sample.orphaned_run
  exact ⟨hcached, hnone, owned_of_guarded Sample.guarded_deleted Sample.proxy.key (by decide)⟩

end EnvoyMesh
