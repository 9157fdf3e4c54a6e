import EnvoyMesh.Theorems.Endpoints

/-! # The last good configuration

A node ID determines the proxy, since a namespace has no dot. So the cache entry of a proxy is written
by its own Reconciles only, and only by those that built a snapshot. -/

namespace EnvoyMesh
open Prog

/-! ### Node IDs -/

theorem split_last_dot {a a' b b' : List Char} (hb : '.' ∉ b) (hb' : '.' ∉ b') (h : a ++ '.' :: b = a' ++ '.' :: b') :
    a = a' ∧ b = b' := by
  rcases List.append_eq_append_iff.mp h with ⟨m, rfl, hm⟩ | ⟨m, rfl, hm⟩
  · cases m with
    | nil =>
      rw [List.nil_append, List.cons.injEq] at hm
      exact ⟨(List.append_nil a).symm, hm.2⟩
    | cons c m =>
      rw [List.cons_append, List.cons.injEq] at hm
      exact absurd (hm.2 ▸ by simp) hb
  · cases m with
    | nil =>
      rw [List.nil_append, List.cons.injEq] at hm
      exact ⟨List.append_nil a', hm.2.symm⟩
    | cons c m =>
      rw [List.cons_append, List.cons.injEq] at hm
      exact absurd (hm.2 ▸ by simp) hb'

/-- `a.b` in `c` and `a` in `b.c` never share a node ID: the second is no namespace. -/
theorem nodeID_injective {k k' : NamespacedName} (h : isDNS1123Label k.ns = true) (h' : isDNS1123Label k'.ns = true)
    (he : k.nodeID = k'.nodeID) : k = k' := by
  have hl : k.name.toList ++ '.' :: k.ns.toList = k'.name.toList ++ '.' :: k'.ns.toList := by
    simpa [NamespacedName.nodeID] using congrArg String.toList he
  obtain ⟨hn, hns⟩ := split_last_dot (dot_notMem_of_label h) (dot_notMem_of_label h') hl
  obtain ⟨ns, name⟩ := k
  obtain ⟨ns', name'⟩ := k'
  obtain rfl : name = name' := String.toList_inj.mp hn
  obtain rfl : ns = ns' := String.toList_inj.mp hns
  rfl

/-! ### Sequences of Reconciles -/

/-- One Reconcile: the worlds around its two halves, and what its first half left. The API objects may
    change at any time in it. -/
structure Run (pj : Protojson) where
  key : NamespacedName
  before : World
  between : World
  after : World
  prepared : Prepared
  result : Except String Unit
  exec_prepare : (prepare pj key).run.Exec World.AnswersAmid before between prepared
  exec_finish : (finish prepared).Exec World.AnswersAmid between after result

/-- Every execution of `reconcile` is such a run. -/
theorem exists_run {pj : Protojson} {key : NamespacedName} {w w' : World} {r : Except String Unit}
    (h : (reconcile pj key).Exec World.AnswersAmid w w' r) :
    ∃ run : Run pj, run.key = key ∧ run.before = w ∧ run.after = w' ∧ run.result = r := by
  obtain ⟨p, u, hp, hf⟩ := exec_bind.mp h
  exact ⟨⟨key, w, u, w', p, r, hp, hf⟩, rfl, rfl, rfl, rfl⟩

namespace Run
variable {pj : Protojson}

def built (run : Run pj) : Option Snapshot := run.prepared.built

theorem cache_of_not_built (run : Run pj) (h : run.built = none) : run.after.cache = run.before.cache := by
  have hprep := (exec_prepare_amid run.exec_prepare).1
  rcases exec_finish_cache run.exec_finish with ⟨-, hcache⟩ | ⟨ep, version, snap, hp, -⟩
  · rw [hcache, hprep]
  · rw [built, hp] at h
    cases h

theorem cache_of_built (run : Run pj) {snap : Snapshot} (h : run.built = some snap) :
    isDNS1123Label run.key.ns = true ∧
      run.after.cache = Function.update run.before.cache run.key.nodeID (some snap) := by
  obtain ⟨hprep, hres⟩ := exec_prepare_amid run.exec_prepare
  rcases exec_finish_cache run.exec_finish with ⟨hb, -⟩ | ⟨ep, version, snap', hp, hcache⟩
  · rw [built, hb] at h
    cases h
  · rw [built, hp] at h
    cases h
    rw [hp] at hres
    rw [← key_of_found (fun _ ⟨_, h⟩ => key_of_reads h) hres, hcache, hprep]
    exact ⟨ep.metadata.ns_label, rfl⟩

theorem cache_of_other (run : Run pj) {p : NamespacedName} (hp : isDNS1123Label p.ns = true) (hne : run.key ≠ p) :
    run.after.cache p.nodeID = run.before.cache p.nodeID := by
  cases hb : run.built with
  | none => rw [run.cache_of_not_built hb]
  | some snap =>
    obtain ⟨hlabel, hcache⟩ := run.cache_of_built hb
    rw [hcache, Function.update_of_ne fun he => hne (nodeID_injective hp hlabel he).symm]

theorem cache_step (run : Run pj) {p : NamespacedName} (hp : isDNS1123Label p.ns = true) :
    run.after.cache p.nodeID =
      (if run.key = p then run.built else none).or (run.before.cache p.nodeID) := by
  by_cases hk : run.key = p
  · subst hk
    rw [if_pos rfl]
    cases hb : run.built with
    | none => rw [run.cache_of_not_built hb, Option.none_or]
    | some snap => rw [(run.cache_of_built hb).2, Function.update_self, Option.some_or]
  · rw [if_neg hk, run.cache_of_other hp hk, Option.none_or]

end Run

/-- Reconciles one after the other: each starts with the cache that the one before it left, in an
    otherwise arbitrary world. -/
inductive Sequence (pj : Protojson) : Cache → List (Run pj) → Cache → Prop where
  | nil (cache : Cache) : Sequence pj cache [] cache
  | cons {run : Run pj} {runs : List (Run pj)} {cache : Cache} :
      Sequence pj run.after.cache runs cache → Sequence pj run.before.cache (run :: runs) cache

/-- The snapshot of the last Reconcile of `p` in a sequence that built one. -/
def lastBuilt {pj : Protojson} (p : NamespacedName) (runs : List (Run pj)) : Option Snapshot :=
  ((runs.filter fun run => run.key = p).filterMap Run.built).getLast?

theorem Sequence.cache_eq {pj : Protojson} {cache cache' : Cache} {runs : List (Run pj)} {p : NamespacedName}
    (h : Sequence pj cache runs cache') (hp : isDNS1123Label p.ns = true) :
    cache' p.nodeID = (lastBuilt p runs).or (cache p.nodeID) := by
  induction h with
  | nil => rfl
  | @cons run runs cache _ ih =>
    rw [ih, run.cache_step hp, ← Option.or_assoc]
    congr 1
    unfold lastBuilt
    by_cases hk : run.key = p
    · rw [List.filter_cons_of_pos (by simpa using hk), if_pos hk]
      cases hb : run.built with
      | none => rw [List.filterMap_cons_none hb, Option.or_none]
      | some snap =>
        rw [List.filterMap_cons_some hb, List.getLast?_cons]
        cases ((runs.filter fun run => run.key = p).filterMap Run.built).getLast? <;> rfl
    · rw [List.filter_cons_of_neg (by simpa using hk), if_neg hk, Option.or_none]

/-- Over every sequence of Reconciles that starts with an empty cache, the entry of a proxy is the
    snapshot of its last Reconcile that got past `BuildSnapshot`, and is absent if there was none. A
    Reconcile that does not get there changes no entry, and one of another key never writes the
    proxy's. -/
theorem last_good_configuration_kept {pj : Protojson} {runs : List (Run pj)} {cache : Cache} (p : EnvoyProxy)
    (h : Sequence pj (fun _ => none) runs cache) :
    cache p.key.nodeID = lastBuilt p.key runs ∧
    ∀ run ∈ runs,
      (run.built = none → run.after.cache = run.before.cache) ∧
      (run.key ≠ p.key → run.after.cache p.key.nodeID = run.before.cache p.key.nodeID) := by
  have hp : isDNS1123Label p.key.ns = true := p.metadata.ns_label
  refine ⟨?_, fun run _ => ⟨run.cache_of_not_built, run.cache_of_other hp⟩⟩
  rw [h.cache_eq hp, Option.or_none]

theorem exec_missing {pj : Protojson} {key : NamespacedName} {w : World} (h : w.api.envoyProxies.get? key = none) :
    (reconcile pj key).Exec World.Answers w w (.ok ()) :=
  ⟨.ok none, w, ⟨Or.inl (congrArg _ h.symm), rfl⟩, rfl, rfl⟩

/-- The snapshot of the proxy is kept by a Reconcile of another key. -/
theorem cached_configuration_kept : ∃ first second : Run .reference, first.key = Sample.proxy.key ∧
    second.key = ⟨"prod", "other"⟩ ∧ second.after.cache Sample.proxy.key.nodeID = some Sample.snapshot ∧
    second.after.cache Sample.proxy.key.nodeID = lastBuilt Sample.proxy.key [first, second] := by
  have hamid {w w' : World} {c : Call} {r : c.Answer} (h : w.Answers c r w') : w.AnswersAmid c r w' := ⟨w, rfl, h⟩
  obtain ⟨first, hkey, hbefore, hafter, -⟩ := exists_run (Sample.exec_cached.mono fun _ _ _ _ => hamid)
  have hmissing : Sample.cached.world.api.envoyProxies.get? ⟨"prod", "other"⟩ = none := rfl
  obtain ⟨second, hkey', hbefore', hafter', -⟩ := exists_run ((exec_missing hmissing).mono fun _ _ _ _ => hamid)
  have hsequence : Sequence .reference (fun _ => none) [first, second] second.after.cache := by
    have hsecond : Sequence .reference second.before.cache [second] second.after.cache := .cons (.nil _)
    rw [hbefore', ← hafter] at hsecond
    have hempty : first.before.cache = fun _ => none := by rw [hbefore]; rfl
    exact hempty ▸ .cons hsecond
  refine ⟨first, second, hkey, hkey', ?_, (last_good_configuration_kept Sample.proxy hsequence).1⟩
  rw [hafter', Sample.cached]
  simp only [Function.update_self]

end EnvoyMesh
