import EnvoyMesh.Theorems.StatusWrites

/-! # Sound statuses

The conventions for a status: there is one condition of a type, and what was observed is not ahead of the object. A
Reconcile works with a copy that may be old, or of a proxy that has been deleted and created anew with a lower
generation; its writes still keep the conventions, since they are refused unless the copy is the stored proxy. -/

namespace EnvoyMesh
open Prog

/-- Of every type there is one condition, no condition was observed later than the status, and the status not later than
    the current generation. -/
structure EnvoyProxy.StatusSound (p : EnvoyProxy) : Prop where
  types : (p.status.conditions.map Condition.type).Nodup
  conditions : ∀ c ∈ p.status.conditions, c.observedGeneration ≤ p.status.observedGeneration
  observed : p.status.observedGeneration ≤ p.generation

theorem types_setStatusCondition {conditions : List Condition} (new : Condition)
    (h : (conditions.map Condition.type).Nodup) : ((setStatusCondition conditions new).map Condition.type).Nodup := by
  induction conditions with
  | nil => exact List.nodup_singleton _
  | cons c conditions ih =>
    rw [List.map_cons, List.nodup_cons] at h
    rw [setStatusCondition]
    split
    · next htype => exact List.nodup_cons.mpr ⟨htype ▸ h.1, h.2⟩
    · next htype =>
      refine List.nodup_cons.mpr ⟨fun hmem => ?_, ih h.2⟩
      obtain ⟨d, hd, hdc⟩ := List.mem_map.mp hmem
      rcases mem_setStatusCondition hd with hd | rfl
      · exact h.1 (List.mem_map.mpr ⟨d, hd, hdc⟩)
      · exact htype hdc.symm

theorem EnvoyProxy.StatusSound.withCondition {ep : EnvoyProxy} (h : ep.StatusSound) (condType : String)
    (status : ConditionStatus) (reason msg : String) : (ep.withCondition condType status reason msg).StatusSound where
  types := types_setStatusCondition _ h.types
  conditions c hc := by
    rcases mem_setStatusCondition hc with hc | rfl
    · exact Int.le_trans (h.conditions c hc) h.observed
    · exact Int.le_refl _
  observed := Int.le_refl _

namespace Timeline
variable {pj : Protojson} {τ : Timeline pj} {key : NamespacedName} {a i : Nat}

/-- What other parties store is sound, if all was sound before. -/
def OthersSound (τ : Timeline pj) : Prop :=
  ∀ i, (τ.state (i + 1)).running = (τ.state i).running → (∀ key p, τ.stored key i = some p → p.StatusSound) →
    ∀ key q, τ.stored key (i + 1) = some q → q.StatusSound

theorem draft_sound {ep : EnvoyProxy} (ih : ∀ j ≤ i, ∀ key p, τ.stored key j = some p → p.StatusSound)
    (h : Draft pj (τ.Between key a i) key ep) : ep.StatusSound := by
  induction h with
  | read h =>
    obtain ⟨j, hj, hget⟩ := stored_of_get h
    exact ih j hj.le _ _ hget
  | @saved ep stored hep h _ =>
    obtain ⟨j, -, hj, hans⟩ := h
    obtain ⟨k, -, hw, -⟩ := answer_cases hans
    rcases answers_saved hw with hold | ⟨hnew, -⟩
    · exact ih j hj.le _ _ hold
    · exact ih (j + 1) hj _ _ hnew
  | set _ _ ihd => exact ihd.withCondition ..

end Timeline

/-- Statuses stay sound: in every run in which resource versions are not reused and other parties store sound objects,
    every proxy that is ever stored has one condition of a type, none of them observed later than the status, and the
    status observed no later generation than the proxy has, however old the copy was that a Reconcile wrote from. -/
theorem stored_statuses_sound {pj : Protojson} (τ : Timeline pj) (hversions : τ.Versioned) (hothers : τ.OthersSound)
    (i : Nat) {key : NamespacedName} {p : EnvoyProxy} (hp : τ.stored key i = some p) : p.StatusSound := by
  refine Timeline.stored_rule (P := fun _ _ p => p.StatusSound) (fun _ _ _ => id)
    (fun i ih hr key p hp => hothers i hr (ih i le_rfl) key p hp) ?_ i key p hp
  intro i ih key a ep old rv _ hdraft hold hrv
  have hsound := Timeline.draft_sound ih hdraft
  -- the generation at hand is that of the stored proxy
  obtain ⟨j, o, ho, horv, hgen, -⟩ := Timeline.draft_origin hdraft
  obtain rfl : o = old := hversions j i key o old ho hold (horv.trans hrv.symm)
  exact ⟨hsound.types, hsound.conditions, hgen ▸ hsound.observed⟩

theorem reported_status_sound :
    (Sample.reported Sample.probed).stored Sample.proxy.key 12 = some (Sample.disconnected Sample.probed) ∧
      (Sample.disconnected Sample.probed).StatusSound := by
  have hstored := Sample.reported_disconnected Sample.mem_probed
  refine ⟨hstored, stored_statuses_sound _ (Sample.reported_versioned Sample.mem_probed) ?_ 12 hstored⟩
  intro i _ _ key q hq
  rcases Sample.reported_cases Sample.mem_probed hq with rfl | rfl <;> constructor <;> decide

end EnvoyMesh
