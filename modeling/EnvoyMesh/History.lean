import EnvoyMesh.Undisturbed

/-! # Runs with their history

A run of the system together with what its Reconciles did: when they started, which answers their calls
got, and how they ended. Conditions on the steps of a run are stated over this history. -/

namespace EnvoyMesh
open Prog

/-- What a step is to the Reconciles: the start of one, the answer to a call of one, its end, or something
    that another party does. -/
inductive Act where
  | other
  | start (key : NamespacedName)
  | answer (key : NamespacedName) (c : Call) (r : c.Answer)
  | finish (key : NamespacedName) (r : Except String Unit)

def Act.key? : Act → Option NamespacedName
  | .other => none
  | .start key | .answer key _ _ | .finish key _ => some key

inductive Does (pj : Protojson) (s : System) : Act → System → Prop where
  | other {t : System} (hs : Step pj s t) (hr : t.running = s.running) : Does pj s .other t
  | start (key : NamespacedName) (hq : key ∈ s.queue) (hr : s.running key = none) :
      Does pj s (.start key) { s with
        queue := s.queue.filter (· ≠ key)
        running := Function.update s.running key (some (reconcile pj key)) }
  | answer (key : NamespacedName) (c : Call) (k : c.Answer → Calls (Except String Unit)) (r : c.Answer) (w : World)
      (hr : s.running key = some (.call c k)) (hw : s.world.Answers c r w) :
      Does pj s (.answer key c r) { s with world := w, running := Function.update s.running key (some (k r)) }
  | done (key : NamespacedName) (hr : s.running key = some (.ret (.ok ()))) :
      Does pj s (.finish key (.ok ())) { s with running := Function.update s.running key none }
  | failed (key : NamespacedName) (e : String) (hr : s.running key = some (.ret (.error e))) :
      Does pj s (.finish key (.error e)) ({ s with running := Function.update s.running key none }.enqueue [key])

/-- The states of the runs whose steps all meet `ok`, with what happened until then, the latest first.
    `ok` is about the history and the state before the step, what is done, and the state after it. -/
inductive Recorded (pj : Protojson) (ok : List Act → System → Act → System → Prop) : List Act → System → Prop where
  | empty : Recorded pj ok [] .empty
  | step {acts : List Act} {s t : System} {a : Act} :
      Recorded pj ok acts s → Does pj s a t → ok acts s a t → Recorded pj ok (a :: acts) t

section Steps
variable {pj : Protojson} {s t : System} {a : Act} {acts : List Act} {ok : List Act → System → Act → System → Prop}

theorem Does.step (h : Does pj s a t) : Step pj s t := by
  cases h with
  | other hs => exact hs
  | start key hq hr => exact .start s key hq hr
  | answer key c k r w hr hw => exact .call s key c k r w hr hw
  | done key hr => exact .done s key hr
  | failed key e hr => exact .failed s key e hr

theorem Step.does (h : Step pj s t) : ∃ a, Does pj s a t := by
  cases h with
  | start key hq hr => exact ⟨_, .start key hq hr⟩
  | call key c k r w hr hw => exact ⟨_, .answer key c k r w hr hw⟩
  | done key hr => exact ⟨_, .done key hr⟩
  | failed key e hr => exact ⟨_, .failed key e hr⟩
  | write x => exact ⟨_, .other (.write s x) rfl⟩
  | delete k x hx => exact ⟨_, .other (.delete s k x hx) rfl⟩
  | deliver front back e clusters he hc => exact ⟨_, .other (.deliver s front back e clusters he hc) rfl⟩
  | stream ev st hst => exact ⟨_, .other (.stream s ev st hst) rfl⟩

theorem Recorded.reachable (h : Recorded pj ok acts s) : Reachable pj s := by
  induction h with
  | empty => exact .empty
  | step _ hd _ ih => exact ih.step hd.step

theorem Reachable.recorded (h : Reachable pj s) : ∃ acts, Recorded pj (fun _ _ _ _ => True) acts s := by
  induction h with
  | empty => exact ⟨[], .empty⟩
  | step _ hs ih =>
    obtain ⟨acts, ih⟩ := ih
    obtain ⟨a, hd⟩ := hs.does
    exact ⟨a :: acts, ih.step hd trivial⟩

end Steps

/-! ### What the history says about a Reconcile -/

/-- What a Reconcile that reached `BuildSnapshot` came to. -/
inductive Outcome where
  | installed | failed
  deriving DecidableEq

/-- What a Reconcile came to by the answer to a call. One that could not build its snapshot writes its
    status without having set any. -/
def Call.outcome : (c : Call) → c.Answer → Option Outcome → Option Outcome
  | .setSnapshot _ _, .ok _, _ => some .installed
  | .setSnapshot _ _, .error _, _ => some .failed
  | .updateStatus _, _, none => some .failed
  | _, _, o => o

/-- What `f` makes of the answers that the Reconcile of `key` got since it was started. -/
def since {β : Type} (key : NamespacedName) (b : β) (f : (c : Call) → c.Answer → β → β) : List Act → β
  | [] => b
  | .start k :: acts => if k = key then b else since key b f acts
  | .answer k c r :: acts => if k = key then f c r (since key b f acts) else since key b f acts
  | .finish _ _ :: acts | .other :: acts => since key b f acts

/-- What the Reconcile of `key` came to. -/
def attempt (key : NamespacedName) : List Act → Option Outcome := since key none Call.outcome

def Call.writeFailed : (c : Call) → c.Answer → Bool → Bool
  | .updateStatus _, .error _, _ => true
  | .updateStatus _, .ok _, _ => false
  | _, _, failed => failed

/-- The last status write of the Reconcile of `key` failed. -/
def lastWriteFailed (key : NamespacedName) : List Act → Bool := since key false Call.writeFailed

/-- The answers of a world in which nothing fails, status writes included. -/
def World.AnswersSaved (w : World) (c : Call) (r : c.Answer) (w' : World) : Prop :=
  w.AnswersWell c r w' ∧ c.writeFailed r false = false

/-- What the last completed Reconcile of `key` that reached `BuildSnapshot` came to. -/
def lastOutcome (key : NamespacedName) : List Act → Option Outcome
  | [] => none
  | .finish k _ :: acts => if k = key then (attempt key acts).or (lastOutcome key acts) else lastOutcome key acts
  | .start _ :: acts | .answer _ _ _ :: acts | .other :: acts => lastOutcome key acts

section History
variable {β : Type} {b : β} {f : (c : Call) → c.Answer → β → β} {key : NamespacedName} {acts : List Act} {a : Act}

@[simp] theorem since_start : since key b f (.start key :: acts) = b := if_pos rfl
@[simp] theorem since_answer {c : Call} {r : c.Answer} :
    since key b f (.answer key c r :: acts) = f c r (since key b f acts) := if_pos rfl
@[simp] theorem attempt_answer {c : Call} {r : c.Answer} :
    attempt key (.answer key c r :: acts) = c.outcome r (attempt key acts) := since_answer
@[simp] theorem lastWriteFailed_answer {c : Call} {r : c.Answer} :
    lastWriteFailed key (.answer key c r :: acts) = c.writeFailed r (lastWriteFailed key acts) := since_answer
@[simp] theorem lastOutcome_finish {r : Except String Unit} :
    lastOutcome key (.finish key r :: acts) = (attempt key acts).or (lastOutcome key acts) := if_pos rfl

theorem since_of_ne (h : a.key? ≠ some key) : since key b f (a :: acts) = since key b f acts := by
  cases a with
  | other | finish => rfl
  | start k => exact if_neg fun hk => h (congrArg some hk)
  | answer k c r => exact if_neg fun hk => h (congrArg some hk)

theorem lastOutcome_of_ne (h : a.key? ≠ some key) : lastOutcome key (a :: acts) = lastOutcome key acts := by
  cases a with
  | other | start | answer => rfl
  | finish k r => exact if_neg fun hk => h (congrArg some hk)

/-- A condition that holds of every step of a run in which the streams stay and the Reconciles of `key` meet no failure. -/
structure Calm (ok : List Act → System → Act → System → Prop) (key : NamespacedName) : Prop where
  other : ∀ acts s t, t.world.streams = s.world.streams → ok acts s .other t
  start : ∀ acts s t, t.world = s.world → ok acts s (.start key) t
  answer : ∀ acts s c r w t, s.world.AnswersSaved c r w → t.world = w → ok acts s (.answer key c r) t
  finish : ∀ acts s t, lastWriteFailed key acts = false → t.world = s.world → ok acts s (.finish key (.ok ())) t

section Calm
variable {pj : Protojson} {ok : List Act → System → Act → System → Prop} {s t : System} (hok : Calm ok key)
include hok

theorem Calm.kept (h : ∃ acts, Recorded pj ok acts s) (hs : Step pj s t) (hr : t.running = s.running)
    (hst : t.world.streams = s.world.streams) : ∃ acts, Recorded pj ok acts t := by
  obtain ⟨acts, h⟩ := h
  exact ⟨_, h.step (.other hs hr) (hok.other _ _ _ hst)⟩

/-- A Reconcile that runs to a successful end with nothing in between and no status write failing. -/
theorem Calm.exec {w : World} (h : ∃ acts, Recorded pj ok acts s) (hq : key ∈ s.queue) (hr : s.running key = none)
    (hexec : (reconcile pj key).Exec World.AnswersSaved s.world w (.ok ())) :
    ∃ acts, Recorded pj ok acts ⟨w, s.queue.filter (· ≠ key), s.running⟩ := by
  obtain ⟨acts, h⟩ := h
  have hbegin := h.step (.start key hq hr) (hok.start _ _ _ rfl)
  obtain ⟨acts', hend, hwrite⟩ := kept_of_exec (fun s => ∃ acts, Recorded pj ok acts s ∧ lastWriteFailed key acts = false)
    key (fun s c k r w ⟨acts, hrec, hwrite⟩ hr hw => by
      refine ⟨_, hrec.step (.answer key c k r w hr hw.1.1) (hok.answer _ _ _ _ _ _ hw rfl), ?_⟩
      rw [lastWriteFailed_answer, hwrite]
      exact hw.2)
    (s := ⟨s.world, s.queue.filter (· ≠ key), Function.update s.running key (some (reconcile pj key))⟩) hexec
    ⟨_, hbegin, since_start⟩ (Function.update_self ..)
  have hdone := hend.step (.done key (Function.update_self ..)) (hok.finish _ _ _ hwrite rfl)
  refine ⟨.finish key (.ok ()) :: acts', ?_⟩
  simpa only [Function.update_idem, ← hr, Function.update_eq_self] using hdone

end Calm

end History

end EnvoyMesh
