import EnvoyMesh.History
import EnvoyMesh.Theorems.LastGood
import EnvoyMesh.Theorems.Mapping
import EnvoyMesh.Theorems.Running

/-! # What is kept between two Reconciles

Whatever concerns a proxy and changes while no Reconcile of it reads, leaves a notification that leads to
another Reconcile. So a fact about a proxy that its own Reconciles establish, and that others can change
only by something the proxy would see, holds whenever nothing is outstanding for the proxy. -/

namespace EnvoyMesh
open Prog

/-- A request for `key` is queued, or a notification is pending that concerns it. -/
def System.Outstanding (s : System) (key : NamespacedName) : Prop :=
  key ∈ s.queue ∨ ∃ e ∈ s.world.events, e.concerns key (s.world.api.clustersOf key)

/-- Nothing changed that a Reconcile of `key` could see, nor its cache entry, nor its own progress. -/
structure Unseen (key : NamespacedName) (s t : System) : Prop where
  view : SameView key s.world.api t.world.api
  cache : t.world.cache key.nodeID = s.world.cache key.nodeID
  running : t.running key = s.running key

/-! ### Answers -/

section Answers
variable {w w' : World}

theorem answers_updateStatus {ep : EnvoyProxy} {r : Except String EnvoyProxy} (h : w.Answers (.updateStatus ep) r w') :
    w' = w ∨ ∃ e, Alters w.api e w'.api ∧ w'.events = w.events ++ [e] ∧ w'.cache = w.cache ∧ w'.streams = w.streams := by
  rcases h with ⟨-, -, rfl⟩ | ⟨old, hold, -, ⟨-, -, rfl⟩ | ⟨-, rv, -, rfl⟩⟩
  · exact Or.inl rfl
  · exact Or.inl rfl
  · have hkey : (old.withStatus ep.status rv).key = ep.key := (Store.get?_eq_some.mp hold).2
    have hget : w.api.get? (.envoyProxy (old.withStatus ep.status rv).key) = some (.envoyProxy old) := by
      rw [hkey, API.get?, hold]
      rfl
    refine Or.inr ⟨_, ?_, rfl, rfl, rfl⟩
    have := Alters.write (a := w.api) (.envoyProxy (old.withStatus ep.status rv))
    rwa [Object.key, hget] at this

theorem answers_cases {c : Call} {r : c.Answer} (h : w.Answers c r w') :
    (w'.api = w.api ∧ w'.events = w.events) ∨ ∃ e, Alters w.api e w'.api ∧ w'.events = w.events ++ [e] := by
  cases c with
  | setSnapshot nodeID snap =>
    obtain rfl : w' = _ := h
    exact Or.inl ⟨rfl, rfl⟩
  | updateStatus ep =>
    rcases answers_updateStatus h with rfl | ⟨e, ha, he, -⟩
    · exact Or.inl ⟨rfl, rfl⟩
    · exact Or.inr ⟨e, ha, he⟩
  | _ =>
    obtain ⟨-, rfl⟩ := h
    exact Or.inl ⟨rfl, rfl⟩

theorem answers_cache {c : Call} {r : c.Answer} (h : w.Answers c r w') (hc : ¬c.isSet) : w'.cache = w.cache := by
  cases c with
  | setSnapshot nodeID snap => exact absurd trivial hc
  | updateStatus ep =>
    rcases answers_updateStatus h with rfl | ⟨e, -, -, hcache, -⟩
    · rfl
    · exact hcache
  | _ =>
    obtain ⟨-, rfl⟩ := h
    rfl

theorem answers_streams {c : Call} {r : c.Answer} (h : w.Answers c r w') : w'.streams = w.streams := by
  cases c with
  | setSnapshot nodeID snap =>
    obtain rfl : w' = _ := h
    rfl
  | updateStatus ep =>
    rcases answers_updateStatus h with rfl | ⟨e, -, -, -, hstreams⟩
    · rfl
    · exact hstreams
  | _ =>
    obtain ⟨-, rfl⟩ := h
    rfl

/-- A Reconcile of another key leaves the cache entry alone. -/
theorem answers_cache_of_ne {pj : Protojson} {s : System} {key key' : NamespacedName} {c : Call}
    {k : c.Answer → Calls (Except String Unit)} {r : c.Answer} {w : World} (hruns : s.Runs pj)
    (hkey : isDNS1123Label key.ns = true) (hne : key ≠ key') (hr : s.running key' = some (.call c k))
    (hw : s.world.Answers c r w) : w.cache key.nodeID = s.world.cache key.nodeID := by
  by_cases hset : c.isSet
  · cases c with
    | setSnapshot nodeID snap =>
      obtain ⟨rfl, hlabel⟩ := running_set hruns hr
      obtain rfl : w = _ := hw
      exact Function.update_of_ne (fun he => hne (nodeID_injective hkey hlabel he)) ..
    | _ => exact hset.elim
  · rw [answers_cache hw hset]

end Answers

/-! ### Steps -/

section Steps
variable {pj : Protojson} {s t : System} {key : NamespacedName} {a : Act}

/-- What another party does is a change of the objects, the delivery of a notification, or a stream event. -/
theorem other_cases (hs : Step pj s t) (hr : t.running = s.running) :
    (∃ e, Alters s.world.api e t.world.api ∧ t.world.events = s.world.events ++ [e] ∧ t.world.cache = s.world.cache ∧
      t.queue = s.queue) ∨
    (∃ front back e clusters, s.world.events = front ++ e :: back ∧ clusters.Perm s.world.api.clusters.items ∧
      t = { s with world := { s.world with events := front ++ back } }.enqueue (e.requests clusters)) ∨
    ∃ st, t = { s with world := { s.world with streams := st } } := by
  have hchange {key : NamespacedName} {P : Option (Calls (Except String Unit))}
      (h : Function.update s.running key P = s.running) : P = s.running key := by
    rw [← h, Function.update_self]
  cases hs with
  | write x => exact Or.inl ⟨_, .write x, rfl, rfl, rfl⟩
  | delete k x hx => exact Or.inl ⟨_, .delete k x hx, rfl, rfl, rfl⟩
  | deliver front back e clusters he hc => exact Or.inr (Or.inl ⟨front, back, e, clusters, he, hc, rfl⟩)
  | stream ev st => exact Or.inr (Or.inr ⟨st, rfl⟩)
  | start key hq hnone => exact absurd (hnone ▸ hchange hr) nofun
  | call key c k r w hrun => exact absurd (Option.some.inj (hrun ▸ hchange hr)) answer_ne
  | done key hrun => exact absurd (hrun ▸ hchange hr) nofun
  | failed key e hrun => exact absurd (hrun ▸ hchange hr) nofun

theorem outstanding_mono (h : s.Outstanding key) (hq : key ∈ s.queue → key ∈ t.queue)
    (he : ∀ e ∈ s.world.events, e ∈ t.world.events)
    (hcs : t.world.api.clustersOf key = s.world.api.clustersOf key) : t.Outstanding key := by
  rcases h with h | ⟨e, hmem, hcon⟩
  · exact Or.inl (hq h)
  · exact Or.inr ⟨e, he e hmem, hcs ▸ hcon⟩

/-- A change of the objects leaves a notification for the proxies that would see it. -/
theorem outstanding_of_alters {e : Event} (h : s.Outstanding key) (ha : Alters s.world.api e t.world.api)
    (he : t.world.events = s.world.events ++ [e]) (hq : key ∈ s.queue → key ∈ t.queue) : t.Outstanding key := by
  rcases ha.concerns_or_sameView key with hcon | hv
  · exact Or.inr ⟨e, by simp [he], hcon⟩
  · exact outstanding_mono h hq (fun e' he' => by simp [he, he']) hv.clusters.symm

theorem outstanding_of_deliver {front back : List Event} {e : Event} {clusters : List Cluster} (h : s.Outstanding key)
    (he : s.world.events = front ++ e :: back) (hc : clusters.Perm s.world.api.clusters.items) :
    System.Outstanding
      ({ s with world := { s.world with events := front ++ back } }.enqueue (e.requests clusters)) key := by
  rcases h with hq | ⟨e', he', x, hx, hcon⟩
  · exact Or.inl (mem_enqueue.mpr (Or.inl hq))
  · -- the notification is delivered, and its handlers request the proxy, or it stays
    simp only [he, List.mem_append, List.mem_cons] at he'
    by_cases heq : e' = e
    · subst heq
      have hreq : key ∈ e'.requests clusters := List.mem_flatMap.mpr ⟨x, hx, mem_requests_of_concerns hc hcon⟩
      exact Or.inl (mem_enqueue.mpr (Or.inr hreq))
    · exact Or.inr ⟨e', by simpa [heq] using he', x, hx, hcon⟩

/-- What is outstanding stays so until a Reconcile of the proxy starts. -/
theorem outstanding_of_does (h : s.Outstanding key) (hd : Does pj s a t) (hne : a ≠ .start key) : t.Outstanding key := by
  cases hd with
  | other hs hr =>
    rcases other_cases hs hr with ⟨e, ha, he, -, hq⟩ | ⟨front, back, e, clusters, he, hc, rfl⟩ | ⟨st, rfl⟩
    · exact outstanding_of_alters h ha he (hq ▸ id)
    · exact outstanding_of_deliver h he hc
    · exact h
  | start key' =>
    have hk : key ≠ key' := fun heq => hne (heq ▸ rfl)
    exact outstanding_mono h (fun hmem => List.mem_filter.mpr ⟨hmem, by simpa using hk⟩) (fun _ => id) rfl
  | answer key' c k r w hr hw =>
    rcases answers_cases hw with ⟨ha, he⟩ | ⟨e, ha, he⟩
    · exact outstanding_mono h id (fun e hmem => he ▸ hmem) (by rw [ha])
    · exact outstanding_of_alters h ha he id
  | done => exact h
  | failed => exact outstanding_mono h (fun hmem => mem_enqueue.mpr (Or.inl hmem)) (fun _ => id) rfl

/-- What is not done by a Reconcile of the proxy is unseen by it, or leaves something outstanding. -/
theorem unseen_of_does (hruns : s.Runs pj) (hkey : isDNS1123Label key.ns = true) (hd : Does pj s a t)
    (hne : a.key? ≠ some key) : t.Outstanding key ∨ Unseen key s t := by
  have hview := SameView.refl key s.world.api
  have hother {key' : NamespacedName} (h : some key' ≠ some key) : key ≠ key' := fun heq => h (heq ▸ rfl)
  cases hd with
  | other hs hr =>
    rcases other_cases hs hr with ⟨e, ha, he, hc, -⟩ | ⟨front, back, e, clusters, he, hc, rfl⟩ | ⟨st, rfl⟩
    · rcases ha.concerns_or_sameView key with hcon | hv
      · exact Or.inl (Or.inr ⟨e, by simp [he], hcon⟩)
      · exact Or.inr ⟨hv, by rw [hc], by rw [hr]⟩
    · exact Or.inr ⟨hview, rfl, rfl⟩
    · exact Or.inr ⟨hview, rfl, rfl⟩
  | start key' => exact Or.inr ⟨hview, rfl, Function.update_of_ne (hother hne) ..⟩
  | answer key' c k r w hr hw =>
    have hcache := answers_cache_of_ne hruns hkey (hother hne) hr hw
    have hrun := Function.update_of_ne (hother hne) (some (k r)) s.running
    rcases answers_cases hw with ⟨ha, -⟩ | ⟨e, ha, he⟩
    · exact Or.inr ⟨ha ▸ hview, hcache, hrun⟩
    · rcases ha.concerns_or_sameView key with hcon | hv
      · exact Or.inl (Or.inr ⟨e, by simp [he], hcon⟩)
      · exact Or.inr ⟨hv, hcache, hrun⟩
  | done key' => exact Or.inr ⟨hview, rfl, Function.update_of_ne (hother hne) ..⟩
  | failed key' => exact Or.inr ⟨hview, rfl, Function.update_of_ne (hother hne) ..⟩

end Steps

/-! ### The rule -/

/-- A fact about the proxy `key` that its Reconciles establish and that others cannot take away unnoticed,
    in the runs whose steps meet `ok`. -/
structure Carried (pj : Protojson) (ok : List Act → System → Act → System → Prop) (key : NamespacedName)
    (F : List Act → System → Prop) : Prop where
  empty : F [] .empty
  start : ∀ {acts s}, s.running key = some (reconcile pj key) → F (.start key :: acts) s
  answer : ∀ {acts s c k r w}, F acts s → s.running key = some (.call c k) → s.world.Answers c r w →
    ok acts s (.answer key c r) ⟨w, s.queue, Function.update s.running key (some (k r))⟩ →
    System.Outstanding ⟨w, s.queue, Function.update s.running key (some (k r))⟩ key ∨
      F (.answer key c r :: acts) ⟨w, s.queue, Function.update s.running key (some (k r))⟩
  done : ∀ {acts s}, F acts s → s.running key = some (.ret (.ok ())) →
    ok acts s (.finish key (.ok ())) { s with running := Function.update s.running key none } →
    F (.finish key (.ok ()) :: acts) { s with running := Function.update s.running key none }
  unseen : ∀ {acts s a t}, F acts s → Does pj s a t → ok acts s a t → a.key? ≠ some key → Unseen key s t →
    t.Outstanding key ∨ F (a :: acts) t

/-- It holds whenever nothing is outstanding for the proxy. -/
theorem Carried.of_recorded {pj : Protojson} {ok : List Act → System → Act → System → Prop} {key : NamespacedName}
    {F : List Act → System → Prop} (hF : Carried pj ok key F) (hkey : isDNS1123Label key.ns = true) {acts : List Act}
    {s : System} (h : Recorded pj ok acts s) : s.Outstanding key ∨ F acts s := by
  induction h with
  | empty => exact Or.inr hF.empty
  | @step acts s t a hrec hd hok ih =>
    by_cases hstart : a = .start key
    · subst hstart
      cases hd with
      | start => exact Or.inr (hF.start (Function.update_self ..))
    rcases ih with hout | hholds
    · exact Or.inl (outstanding_of_does hout hd hstart)
    by_cases hown : a.key? = some key
    · cases hd with
      | other => cases hown
      | start => exact absurd (Option.some.inj hown ▸ rfl) hstart
      | answer key' c k r w hr hw =>
        obtain rfl := Option.some.inj hown
        exact hF.answer hholds hr hw hok
      | done key' hr =>
        obtain rfl := Option.some.inj hown
        exact Or.inr (hF.done hholds hr hok)
      | failed key' e hr =>
        obtain rfl := Option.some.inj hown
        exact Or.inl (Or.inl (mem_enqueue.mpr (Or.inr List.mem_cons_self)))
    · rcases unseen_of_does (reachable_runs hrec.reachable) hkey hd hown with hout | hunseen
      · exact Or.inl hout
      · exact hF.unseen hholds hd hok hown hunseen

end EnvoyMesh
