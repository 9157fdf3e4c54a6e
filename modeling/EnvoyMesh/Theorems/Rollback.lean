import EnvoyMesh.Theorems.Kept
import EnvoyMesh.Theorems.Sources
import EnvoyMesh.Timeline

/-! # Snapshots do not roll back

The work queue runs one Reconcile of a proxy at a time, and each reads anew. So all that a later snapshot of
the proxy is built from was read after an earlier one was set, and nothing of an older list comes back. -/

namespace EnvoyMesh
open Prog

/-! ### Steps -/

section Steps
variable {pj : Protojson} {s t : System} {key : NamespacedName}

/-- To the Reconcile of a key a step is nothing, its start, its end or the answer to its call. -/
theorem step_running (hs : Step pj s t) (key : NamespacedName) :
    t.running key = s.running key ∨ t.running key = some (reconcile pj key) ∨ t.running key = none ∨
      ∃ c r, Does pj s (.answer key c r) t := by
  have hother {key' : NamespacedName} {P : Option (Calls (Except String Unit))} (hne : key ≠ key') :
      Function.update s.running key' P key = s.running key := Function.update_of_ne hne ..
  cases hs with
  | write | delete | deliver | stream => exact Or.inl rfl
  | start key' =>
    by_cases hk : key = key'
    · subst hk
      exact Or.inr (Or.inl (Function.update_self ..))
    · exact Or.inl (hother hk)
  | call key' c k r w hr hw =>
    by_cases hk : key = key'
    · subst hk
      exact Or.inr (Or.inr (Or.inr ⟨c, r, .answer key c k r w hr hw⟩))
    · exact Or.inl (hother hk)
  | done key' | failed key' =>
    by_cases hk : key = key'
    · subst hk
      exact Or.inr (Or.inr (Or.inl (Function.update_self ..)))
    · exact Or.inl (hother hk)

theorem answer_cases {c : Call} {r : c.Answer} (h : Does pj s (.answer key c r) t) :
    ∃ k : c.Answer → Calls (Except String Unit), s.running key = some (.call c k) ∧ s.world.Answers c r t.world ∧
      t.running key = some (k r) := by
  cases h with
  | answer key c k r w hr hw => exact ⟨k, hr, hw, Function.update_self ..⟩

theorem running_of_answer {c : Call} {r : c.Answer} (h : Does pj s (.answer key c r) t) :
    t.running key ≠ s.running key := by
  obtain ⟨k, hr, -, hk⟩ := answer_cases h
  rw [hr, hk]
  exact fun heq => answer_ne (Option.some.inj heq)

/-- The cache entry of a proxy is left alone by every step but its own `SetSnapshot`. -/
theorem cache_of_not_set (hs : Step pj s t) (hruns : s.Runs pj) (hkey : isDNS1123Label key.ns = true)
    (hno : ¬∃ snap r, Does pj s (.answer key (.setSnapshot key.nodeID snap) r) t) :
    t.world.cache key.nodeID = s.world.cache key.nodeID := by
  cases hs with
  | write | delete | deliver | stream | start | done | failed => rfl
  | call key' c k r w hr hw =>
    by_cases hk : key = key'
    · subst hk
      cases c with
      | setSnapshot nodeID snap =>
        obtain ⟨rfl, -⟩ := running_set hruns hr
        exact absurd ⟨snap, r, .answer key _ k r w hr hw⟩ hno
      | _ => exact congrFun (answers_cache hw id) _
    · exact answers_cache_of_ne hruns hkey hk hr hw

end Steps

/-! ### Reconciles on a timeline -/

namespace Timeline
variable {pj : Protojson} {τ : Timeline pj} {key : NamespacedName} {a b i : Nat}

theorem answered_reads {c : Call} {r : c.Answer} (hc : c.isRead) (h : τ.Answered key c r i) :
    (τ.world i).api.Reads c r := by
  obtain ⟨k, -, hw, -⟩ := answer_cases h
  exact (answers_of_isRead hc hw).2

/-- One and the same Reconcile of `key` runs from moment `a`, at which it has just been started, to moment `b`. -/
structure Busy (τ : Timeline pj) (key : NamespacedName) (a b : Nat) : Prop where
  le : a ≤ b
  start : (τ.state a).running key = some (reconcile pj key)
  runs : ∀ j, a ≤ j → j ≤ b → (τ.state j).running key ≠ none

/-- What runs at moment `i` for `key` is the Reconcile that was started at moment `a`, with the answers that it
    got since; if it has set a snapshot, it sets no other. -/
structure Began (τ : Timeline pj) (key : NamespacedName) (a i : Nat) (P : Calls (Except String Unit)) : Prop where
  busy : τ.Busy key a i
  reaches : Reaches (τ.Between key a i) (reconcile pj key) P
  once : (∃ j nodeID snap r, a ≤ j ∧ j < i ∧ τ.Answered key (.setSnapshot nodeID snap) r j) → P.Uses fun c => ¬c.isSet

theorem between_succ {c : Call} {r : c.Answer} (h : τ.Between key a i c r) : τ.Between key a (i + 1) c r := by
  obtain ⟨j, ha, hj, hans⟩ := h
  exact ⟨j, ha, Nat.lt_succ_of_lt hj, hans⟩

theorem Busy.succ (h : τ.Busy key a i) (hr : (τ.state (i + 1)).running key ≠ none) : τ.Busy key a (i + 1) where
  le := Nat.le_succ_of_le h.le
  start := h.start
  runs j ha hj := by
    rcases Nat.le_succ_iff.mp hj with hj | rfl
    · exact h.runs j ha hj
    · exact hr

theorem Began.unmoved {P : Calls (Except String Unit)} (h : τ.Began key a i P)
    (hr : (τ.state (i + 1)).running key = (τ.state i).running key) : τ.Began key a (i + 1) P where
  busy := h.busy.succ (hr ▸ h.busy.runs i h.busy.le le_rfl)
  reaches := h.reaches.mono fun _ _ => between_succ
  once := by
    rintro ⟨j, nodeID, snap, r, ha, hj, hans⟩
    rcases Nat.lt_succ_iff_lt_or_eq.mp hj with hj | rfl
    · exact h.once ⟨j, nodeID, snap, r, ha, hj, hans⟩
    · exact absurd hr (running_of_answer hans)

theorem Began.answer {c : Call} {k : c.Answer → Calls (Except String Unit)} {r : c.Answer}
    (h : τ.Began key a i (.call c k)) (hr : (τ.state i).running key = some (.call c k)) (hans : τ.Answered key c r i) :
    τ.Began key a (i + 1) (k r) where
  busy := h.busy.succ (by
    obtain ⟨k', -, -, hk⟩ := answer_cases hans
    exact hk ▸ Option.some_ne_none _)
  reaches := (h.reaches.mono fun _ _ => between_succ).answer ⟨i, h.busy.le, Nat.lt_succ_self i, hans⟩
  once := by
    rintro ⟨j, nodeID, snap, r', ha, hj, hset⟩
    rcases Nat.lt_succ_iff_lt_or_eq.mp hj with hj | rfl
    · exact (h.once ⟨j, nodeID, snap, r', ha, hj, hset⟩).2 r
    · -- the snapshot is set by this very answer, and the report that follows sets none
      obtain ⟨k', hr', -⟩ := answer_cases hset
      cases Option.some.inj (hr.symm.trans hr')
      obtain ⟨ep, version, -, -, rfl⟩ := reaches_set h.reaches
      exact report_uses (fun _ => id) fun _ => id

theorem began (τ : Timeline pj) (key : NamespacedName) (i : Nat) {P : Calls (Except String Unit)}
    (h : (τ.state i).running key = some P) : ∃ a, τ.Began key a i P := by
  induction i generalizing P with
  | zero =>
    rw [τ.start] at h
    cases h
  | succ i ih =>
    have hunmoved (hr : (τ.state (i + 1)).running key = (τ.state i).running key) : ∃ a, τ.Began key a (i + 1) P := by
      obtain ⟨a, ha⟩ := ih (hr ▸ h)
      exact ⟨a, ha.unmoved hr⟩
    rcases τ.next i with heq | hs
    · exact hunmoved (by rw [heq])
    rcases step_running hs key with hr | hstart | hnone | ⟨c, r, hans⟩
    · exact hunmoved hr
    · cases h.symm.trans hstart
      refine ⟨i + 1, ⟨le_rfl, hstart, fun j ha hj => ?_⟩, .refl, ?_⟩
      · obtain rfl : j = i + 1 := by omega
        exact hstart ▸ Option.some_ne_none _
      · rintro ⟨j, -, -, -, hle, hlt, -⟩
        omega
    · cases h.symm.trans hnone
    · obtain ⟨k, hr, -, hk⟩ := answer_cases hans
      obtain ⟨a, ha⟩ := ih hr
      cases h.symm.trans hk
      exact ⟨a, ha.answer hr hans⟩

/-! ### Installed snapshots -/

/-- The Reconcile of `key` that was started at moment `a` set the snapshot at moment `b`. It holds the resources
    of objects that were listed in between, each list as the objects of one moment give it. -/
structure Install (τ : Timeline pj) (key : NamespacedName) (a b : Nat) (snap : Snapshot) : Prop where
  busy : τ.Busy key a b
  made : ∃ s, Sourced (τ.Reads a b) key s ∧ snap = newSnapshot s.version (s.resources pj)
  set : ∃ r, τ.Answered key (.setSnapshot key.nodeID snap) r b

/-- What a Reconcile was answered before it builds, the objects gave at that moment. -/
theorem prepare_between : (prepare pj key).run.Sim (τ.Between key a b) (τ.Reads a b) :=
  Sim.of_uses prepare_uses fun _ _ hc ⟨j, ha, hj, hr⟩ => ⟨j, ha, hj, answered_reads hc hr⟩

theorem Began.install (hpj : pj.Lawful) {snap : Snapshot} {k : Except String Unit → Calls (Except String Unit)}
    {r : Except String Unit} (h : τ.Began key a b (.call (.setSnapshot key.nodeID snap) k))
    (hans : τ.Answered key (.setSnapshot key.nodeID snap) r b) : τ.Install key a b snap where
  busy := h.busy
  made := by
    obtain ⟨ep, version, hp, -, -⟩ := reaches_set h.reaches
    exact prepared_built hpj (fun ep ⟨_, _, _, hr⟩ => key_of_reads hr) (prepare_between.result hp)
  set := ⟨r, hans⟩

/-- Between the moments `b` and `i` no snapshot is set for `key`. -/
def Unreplaced (τ : Timeline pj) (key : NamespacedName) (b i : Nat) : Prop :=
  ∀ j, b < j → j < i → ¬∃ snap r, τ.Answered key (.setSnapshot key.nodeID snap) r j

/-- What is cached for a proxy was set at some moment, and nothing after it. -/
theorem last_set (τ : Timeline pj) (hkey : isDNS1123Label key.ns = true) {i : Nat} {snap : Snapshot}
    (h : (τ.world i).cache key.nodeID = some snap) :
    ∃ b r, b < i ∧ τ.Answered key (.setSnapshot key.nodeID snap) r b ∧ τ.Unreplaced key b i := by
  induction i with
  | zero =>
    rw [world, τ.start] at h
    cases h
  | succ i ih =>
    by_cases hset : ∃ snap r, τ.Answered key (.setSnapshot key.nodeID snap) r i
    · obtain ⟨snap', r, hans⟩ := hset
      obtain ⟨k, -, hw, -⟩ := answer_cases hans
      have hcache : (τ.world (i + 1)).cache key.nodeID = some snap' := by
        rw [world, show (τ.state (i + 1)).world = _ from hw]
        exact Function.update_self ..
      cases h.symm.trans hcache
      exact ⟨i, r, Nat.lt_succ_self i, hans, fun j _ _ => by omega⟩
    · have hcache : (τ.world (i + 1)).cache key.nodeID = (τ.world i).cache key.nodeID := by
        rcases τ.next i with heq | hs
        · rw [world, heq, world]
        · exact cache_of_not_set hs (reachable_runs (τ.reachable i)) hkey hset
      obtain ⟨b, r, hb, hans, hlast⟩ := ih (hcache ▸ h)
      refine ⟨b, r, Nat.lt_succ_of_lt hb, hans, fun j hbj hj => ?_⟩
      rcases Nat.lt_succ_iff_lt_or_eq.mp hj with hj | rfl
      · exact hlast j hbj hj
      · exact hset

end Timeline

/-- Snapshots do not roll back: of two moments of a run, what is served to a proxy at the later one is what was
    served at the earlier one, or was read in whole after that had been set. Each was set last before its moment, and built
    by one Reconcile of the proxy from lists that it read between its start and its `SetSnapshot`. -/
theorem snapshots_do_not_roll_back {pj : Protojson} (hpj : pj.Lawful) (τ : Timeline pj) (p : EnvoyProxy) {i j : Nat}
    (hij : i ≤ j) {snap snap' : Snapshot} (hi : (τ.world i).cache p.key.nodeID = some snap)
    (hj : (τ.world j).cache p.key.nodeID = some snap') :
    ∃ a b a' b', τ.Install p.key a b snap ∧ b < i ∧ τ.Unreplaced p.key b i ∧
      τ.Install p.key a' b' snap' ∧ b' < j ∧ τ.Unreplaced p.key b' j ∧ ((a', b', snap') = (a, b, snap) ∨ b < a') := by
  have hkey : isDNS1123Label p.key.ns = true := p.metadata.ns_label
  obtain ⟨b, r, hb, hans, hlast⟩ := τ.last_set hkey hi
  obtain ⟨b', r', hb', hans', hlast'⟩ := τ.last_set hkey hj
  obtain ⟨k, hr, -⟩ := answer_cases hans
  obtain ⟨k', hr', -⟩ := answer_cases hans'
  obtain ⟨a, ha⟩ := τ.began p.key b hr
  obtain ⟨a', ha'⟩ := τ.began p.key b' hr'
  have hinstall := ha.install hpj hans
  have hinstall' := ha'.install hpj hans'
  rcases Nat.lt_trichotomy b b' with hlt | rfl | hgt
  · -- a Reconcile that was running when the earlier one was set has set it, and sets no other
    refine ⟨a, b, a', b', hinstall, hb, hlast, hinstall', hb', hlast', Or.inr (Nat.lt_of_not_le fun hle => ?_)⟩
    exact (ha'.once ⟨b, _, snap, r, hle, hlt, hans⟩).1 trivial
  · cases hr.symm.trans hr'
    exact ⟨a, b, a, b, hinstall, hb, hlast, hinstall, hb', hlast', Or.inl rfl⟩
  · exact absurd ⟨snap, r, hans⟩ (hlast' b hgt (by omega))

namespace Sample

theorem timeline_cached : ∃ (τ : Timeline .reference) (i : Nat), τ.state i = cached :=
  ((reachable_written .reference).exec (by decide +kernel) rfl exec_cached).timeline

theorem cache_cached : cached.world.cache proxy.key.nodeID = some snapshot := by
  simp only [cached, Function.update_self]

/-- Another listener is written, and the notification delivered. -/
def added : System := (cached.writes [.listener https]).drain

def nextSnapshot : Snapshot :=
  newSnapshot (added.world.api.stored proxy.key).version ((added.world.api.stored proxy.key).resources .reference)

/-- The proxy is reconciled again. -/
theorem exists_replaced : ∃ t, Relation.ReflTransGen (Step .reference) cached t ∧
    t.world.cache proxy.key.nodeID = some nextSnapshot := by
  have hdec : Decodable .reference added.world.api proxy.key := by constructor <;> decide +kernel
  have hexec := exec_selected Protojson.reference_lawful
    (show added.world.api.envoyProxies.get? _ = some proxy from rfl) hdec selects_stored
  have hqueue : proxy.key ∈ (cached.writes [.listener https]).drain.queue := by decide +kernel
  obtain ⟨_, _, hsends⟩ := Sends.refl.drain.exec hqueue rfl hexec
  refine ⟨_, .head (.write cached (.listener https)) hsends.steps, ?_⟩
  simp only [Function.update_self, nextSnapshot]

theorem nextSnapshot_ne : nextSnapshot ≠ snapshot := by
  intro h
  have hlisteners : (nextSnapshot.listeners "https").isSome = (snapshot.listeners "https").isSome := by rw [h]
  revert hlisteners
  decide +kernel

end Sample

/-- Two snapshots of the proxy, before and after a listener was added. -/
theorem later_snapshot_read_later : ∃ (τ : Timeline .reference) (i j a b a' b' : Nat), i ≤ j ∧
    τ.Install Sample.proxy.key a b Sample.snapshot ∧ b < i ∧ τ.Unreplaced Sample.proxy.key b i ∧
    τ.Install Sample.proxy.key a' b' Sample.nextSnapshot ∧ b' < j ∧ τ.Unreplaced Sample.proxy.key b' j ∧ b < a' := by
  obtain ⟨τ₀, i, hi⟩ := Sample.timeline_cached
  obtain ⟨t, hrun, ht⟩ := Sample.exists_replaced
  obtain ⟨τ, j, hij, hsame, hj⟩ := τ₀.exists_extension (hi ▸ hrun)
  have hcache : (τ.world i).cache Sample.proxy.key.nodeID = some Sample.snapshot := by
    rw [Timeline.world, hsame i le_rfl, hi, Sample.cache_cached]
  have hcache' : (τ.world j).cache Sample.proxy.key.nodeID = some Sample.nextSnapshot := by rw [Timeline.world, hj, ht]
  obtain ⟨a, b, a', b', hinstall, hb, hlast, hinstall', hb', hlast', heq | hlt⟩ :=
    snapshots_do_not_roll_back Protojson.reference_lawful τ Sample.proxy hij hcache hcache'
  · cases Sample.nextSnapshot_ne (congrArg (fun x => x.2.2) heq)
  · exact ⟨τ, i, j, a, b, a', b', hij, hinstall, hb, hlast, hinstall', hb', hlast', hlt⟩

/-! ### What reaches a proxy -/

namespace Timeline
variable {pj : Protojson} {τ : Timeline pj} {key : NamespacedName} {a b : Nat}

end Timeline

end EnvoyMesh
