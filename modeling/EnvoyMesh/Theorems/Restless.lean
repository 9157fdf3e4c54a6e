import EnvoyMesh.Theorems.Quiet

/-! # Never coming to rest

Where two orders of the lists give two versions, nothing else has to change for a Reconcile to find something to
write: the version it does not find in the status. What it writes starts the next one. -/

namespace EnvoyMesh
open Prog

/-- A Reconcile of `key` is about to start, and its lists are those of `a`. -/
structure Restless (a : API) (key : NamespacedName) (s : System) : Prop where
  lists : SameLists a s.world.api
  stored : ∃ p, s.world.api.envoyProxies.get? key = some p
  queue : key ∈ s.queue
  running : s.running key = none

/-- One round: the Reconcile that is queued for `key` runs to its end and changes the Ready message, and a notification of
    its own writes, delivered next, queues another one. -/
structure Round (pj : Protojson) (key : NamespacedName) (s t : System) : Prop where
  queued : key ∈ s.queue
  reconciled : ∃ w front e back, (reconcile pj key).Exec World.AnswersWell s.world w (.ok ()) ∧
    w.events = s.world.events ++ front ++ e :: back ∧ key ∈ e.requests w.api.clusters.items ∧
    t = System.enqueue ⟨{ w with events := s.world.events ++ front ++ back }, s.queue.filter (· ≠ key), s.running⟩
      (e.requests w.api.clusters.items)
  message : t.world.readyMessage key ≠ s.world.readyMessage key

section Restless
variable {pj : Protojson} {a : API} {key : NamespacedName} {s : System}

/-- The version that the proxy does not show can be the next one. -/
theorem exists_selection (htwo : ¬OneVersion pj a key) (p : EnvoyProxy) :
    ∃ sel, Selects a key sel ∧ p.readyMessage ≠ some ("version=" ++ sel.version) := by
  unfold OneVersion at htwo
  push Not at htwo
  obtain ⟨c, c', hc, hc', hne⟩ := htwo
  obtain ⟨sel, raws, hsel, -, rfl⟩ := (collect_iff a.listing).mp hc
  obtain ⟨sel', raws', hsel', -, rfl⟩ := (collect_iff a.listing).mp hc'
  by_cases h : p.readyMessage = some ("version=" ++ sel.version)
  · refine ⟨sel', hsel', fun h' => hne ?_⟩
    exact (String.append_right_inj _).mp (Option.some.inj (h.symm.trans h'))
  · exact ⟨sel, hsel, h⟩

theorem readyMessage_of_told {q : EnvoyProxy} {version : String} (h : (q.toldReady version).status = q.status) :
    q.readyMessage = some ("version=" ++ version) :=
  congrArg (Option.map Condition.message) (condition?_of_told h)

theorem Restless.round (hpj : pj.Lawful) (hdec : Decodable pj a key) (htwo : ¬OneVersion pj a key) (h : Restless a key s) :
    ∃ t, Relation.TransGen (Quiet pj) s t ∧ Restless a key t ∧ Round pj key s t := by
  obtain ⟨hlists, ⟨p, hp⟩, hqueue, hrunning⟩ := h
  obtain rfl := key_of_stored hp
  obtain ⟨sel, hsel, hnew⟩ := exists_selection htwo p
  obtain ⟨w, q, hexec, hsaves, -, htold⟩ := exec_reconcile_saves hpj hp (hlists.decodable hdec) (hlists.symm.selects hsel)
  replace hexec := hexec.mono fun _ _ _ _ hw => hw.1
  obtain ⟨_, _, hrun⟩ := Sends.refl.exec hqueue hrunning hexec
  have hmessage : q.readyMessage ≠ p.readyMessage := fun heq => hnew (heq ▸ readyMessage_of_told htold)
  obtain ⟨es, hes, hnotified⟩ := hsaves.events
  obtain ⟨e, he, hreq⟩ := hnotified.resolve_left fun heq => hmessage (heq ▸ rfl)
  obtain ⟨front, back, rfl⟩ := List.append_of_mem he
  rw [← List.append_assoc] at hes
  refine ⟨_, .tail' hrun.works
    (.deliver _ (s.world.events ++ front) back e w.api.clusters.items hes (List.Perm.refl _)), ?_, ?_⟩
  · exact ⟨hlists.trans hsaves.lists, ⟨q, hsaves.stored⟩, mem_enqueue.mpr (Or.inr (hreq _)), hrunning⟩
  · refine ⟨hqueue, ⟨w, front, e, back, hexec, hes, hreq _, rfl⟩, ?_⟩
    change (w.api.envoyProxies.get? p.key).bind _ ≠ _
    rw [World.readyMessage, hsaves.stored, hp]
    exact hmessage

end Restless

/-- Where two orders of the lists give two versions, a Reconcile that is queued leads to another, and so on for ever: there
    is a run in which nobody else acts, no read and no `SetSnapshot` fails, and that consists of rounds in each of which
    the control plane writes another version into the status of the proxy and so queues its next Reconcile. -/
theorem two_versions_never_rest {pj : Protojson} (hpj : pj.Lawful) {s : System} (p : EnvoyProxy)
    (hp : s.world.api.envoyProxies.get? p.key = some p) (hdec : Decodable pj s.world.api p.key)
    (htwo : ¬OneVersion pj s.world.api p.key) (hqueue : p.key ∈ s.queue) (hrunning : s.running p.key = none) :
    ∃ run start, Endless (Quiet pj) s run ∧ start 0 = 0 ∧ StrictMono start ∧
      ∀ n, Round pj p.key (run (start n)) (run (start (n + 1))) :=
  Endless.of_rounds (P := fun _ => Restless s.world.api p.key) (fun _ _ h => h.round hpj hdec htwo)
    ⟨.refl _, ⟨p, hp⟩, hqueue, hrunning⟩

def Sample.doubled : System :=
  (System.empty.writes [.envoyProxy proxy, .listener (listener "http" "3"), .listener (listener "https" "4")]).drain

/-- With two listeners the text is `34` in the one order and `43` in the other. -/
theorem doubled_never_rests : Reachable .reference Sample.doubled ∧
    ∃ run start, Endless (Quiet .reference) Sample.doubled run ∧ start 0 = 0 ∧ StrictMono start ∧
      ∀ n, Round .reference Sample.proxy.key (run (start n)) (run (start (n + 1))) := by
  have hdec : Decodable .reference Sample.doubled.world.api Sample.proxy.key := by constructor <;> decide +kernel
  have htwo : ¬OneVersion .reference Sample.doubled.world.api Sample.proxy.key := by
    intro hone
    have hstored : Selects Sample.doubled.world.api Sample.proxy.key (Sample.doubled.world.api.stored _) := selects_stored
    have hswapped : Selects Sample.doubled.world.api Sample.proxy.key
      { Sample.doubled.world.api.stored Sample.proxy.key with
        listeners := [Sample.listener "https" "4", Sample.listener "http" "3"] } :=
      { hstored with listeners := List.Perm.swap .. }
    have hversion := hone _ _ (collect_stored .reference _ _ .nil)
      ((collect_iff (API.listing _)).mpr ⟨_, [], hswapped, .nil, rfl⟩)
    have hne : computeVersion [["3", "4"], [], [], [], []] ≠ computeVersion [["4", "3"], [], [], [], []] := by
      decide +kernel
    exact hne hversion
  exact ⟨(Reachable.empty.writes _).drain, two_versions_never_rest Protojson.reference_lawful Sample.proxy rfl hdec htwo
    (by decide +kernel) rfl⟩

end EnvoyMesh
