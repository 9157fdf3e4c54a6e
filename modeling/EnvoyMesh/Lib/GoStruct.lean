import EnvoyMesh.Lib.StructuralSchema

/-! # Structs read from JSON

How a decoder reads a JSON object into a Go struct: the members are read one after the other, each into the field whose
name it has, and members without a field are skipped. Names are compared as they are, as the Kubernetes decoders do. A
`null` leaves a string or a struct as it is and makes a pointer nil. -/

namespace GoStruct

structure Field (α : Type) where
  name : String
  /-- The struct after the value was read into the field; `none` stands for an error. -/
  set : α → Json → Option α

section Decode
variable {α β : Type}

def readMember (fields : List (Field α)) (a : α) (m : String × Json) : Option α :=
  match fields.find? fun f => f.name = m.1 with
  | some f => f.set a m.2
  | none => some a

/-- Reads a value into the struct `a`. -/
def decode (fields : List (Field α)) (a : α) : Json → Option α
  | .null => some a
  | .obj members => members.foldlM (readMember fields) a
  | _ => none

def readString (old : String) : Json → Option String
  | .str s => some s
  | .null => some old
  | _ => none

/-- Integers are written without fraction and exponent by the server, whatever the literal was that it got. -/
def readInt32 : Json → Option Int32
  | .num literal =>
    (Json.integer? literal).bind fun n => if -2147483648 ≤ n ∧ n ≤ 2147483647 then some (.ofInt n) else none
  | _ => none

/-- A pointer to a value that `read` reads; a nil pointer gets a value to be read into first. -/
def readPointer (read : α → Json → Option α) (zero : α) (old : Option α) : Json → Option (Option α)
  | .null => some none
  | v => (read (old.getD zero) v).map some

/-- A field of a part of the struct. -/
def Field.lift (get : β → α) (put : β → α → β) (f : Field α) : Field β where
  name := f.name
  set b v := (f.set (get b) v).map (put b)

/-! ### Rules -/

variable {fields : List (Field α)} {a : α} {members : List (String × Json)}

/-- What every member keeps that is read into a field holds in the end, and there is no error. -/
theorem decode_spec {P : α → Prop} (ha : P a)
    (h : ∀ m ∈ members, ∀ f ∈ fields, f.name = m.1 → ∀ a, P a → ∃ a', f.set a m.2 = some a' ∧ P a') :
    ∃ a', decode fields a (.obj members) = some a' ∧ P a' := by
  change ∃ a', members.foldlM (readMember fields) a = some a' ∧ P a'
  induction members generalizing a with
  | nil => exact ⟨a, rfl, ha⟩
  | cons m members ih =>
    have hstep : ∃ a', readMember fields a m = some a' ∧ P a' := by
      unfold readMember
      cases hf : fields.find? fun f => f.name = m.1 with
      | none => exact ⟨a, rfl, ha⟩
      | some f =>
        exact h m List.mem_cons_self f (List.mem_of_find?_eq_some hf) (by simpa using List.find?_some hf) a ha
    obtain ⟨a', hstep, ha'⟩ := hstep
    rw [List.foldlM_cons, hstep]
    exact ih ha' fun m' hm' => h m' (List.mem_cons_of_mem _ hm')

/-! ### Reading what a schema has pruned -/

section Pruning
open Structural
variable {σ : Type} {view : σ → Node σ} {s : σ}

/-- The value of the member `key`, pruned as part of an object with the schema `s`. -/
def pruneMember (view : σ → Node σ) (s : σ) (key : String) (v : Json) : Json :=
  match (view s).child key with
  | some c => prune view c v
  | none => v

/-- The field as it is read from a pruned object. -/
def Field.pruned (view : σ → Node σ) (s : σ) (f : Field α) : Field α where
  name := f.name
  set a v := f.set a (pruneMember view s f.name v)

/-- Pruning drops members that no field is for, if the schema knows the fields. -/
theorem decode_prune (h : ∀ f ∈ fields, ((view s).child f.name).isSome) (v : Json) :
    decode fields a (prune view s v) = decode (fields.map (Field.pruned view s)) a v := by
  cases v with
  | obj members =>
    rw [prune, pruneBelow]
    change (pruneMembers view _ (some s) members).foldlM (readMember fields) a =
      members.foldlM (readMember (fields.map (Field.pruned view s))) a
    generalize (view s).preserveUnknownFields = keep
    induction members generalizing a with
    | nil => rfl
    | cons m members ih =>
      obtain ⟨key, v⟩ := m
      have hfind : (fields.map (Field.pruned view s)).find? (fun f => f.name = key) =
          (fields.find? fun f => f.name = key).map (Field.pruned view s) := by
        rw [List.find?_map]
        rfl
      cases hf : fields.find? fun f => f.name = key with
      | none =>
        have hskip (v' : Json) : readMember fields a (key, v') = some a := by simp only [readMember, hf]
        have hskip' : readMember (fields.map (Field.pruned view s)) a (key, v) = some a := by
          simp only [readMember, hfind, hf, Option.map_none]
        rw [List.foldlM_cons, hskip', pruneMembers]
        cases childOf view (some s) key with
        | some c =>
          rw [List.foldlM_cons, hskip]
          exact ih
        | none =>
          cases keep with
          | true =>
            rw [if_pos rfl, List.foldlM_cons, hskip]
            exact ih
          | false => exact ih
      | some f =>
        obtain rfl : f.name = key := by simpa using List.find?_some hf
        obtain ⟨c, hc⟩ := Option.isSome_iff_exists.mp (h f (List.mem_of_find?_eq_some hf))
        have hchild : childOf view (some s) f.name = some c := hc
        have hread : readMember (fields.map (Field.pruned view s)) a (f.name, v) =
            readMember fields a (f.name, prune view c v) := by
          simp only [readMember, hfind, hf, Option.map_some, Field.pruned, pruneMember, hc]
        rw [pruneMembers, hchild, List.foldlM_cons, List.foldlM_cons, hread]
        exact congrArg _ (funext fun _ => ih)
  | _ => rfl

/-- A field that reads the same from pruned values. -/
theorem Field.pruned_eq {f : Field α}
    (h : ∀ c, (view s).child f.name = some c → ∀ a v, f.set a (prune view c v) = f.set a v) :
    f.pruned view s = f := by
  obtain ⟨name, set⟩ := f
  simp only [Field.pruned, Field.mk.injEq, true_and]
  funext a v
  unfold pruneMember
  cases hc : (view s).child name with
  | none => rfl
  | some c => exact h c hc a v

/-- A struct whose fields read the same from pruned values. -/
theorem decode_prune_eq (hknown : ∀ f ∈ fields, ((view s).child f.name).isSome)
    (hsame : ∀ f ∈ fields, ∀ c a v, f.set a (prune view c v) = f.set a v) (v : Json) :
    decode fields a (prune view s v) = decode fields a v := by
  have hpruned : fields.map (Field.pruned view s) = fields.map id :=
    List.map_congr_left fun f hf => Field.pruned_eq fun c _ => hsame f hf c
  rw [decode_prune hknown, hpruned, List.map_id]

theorem readString_prune (old : String) (v : Json) : readString old (prune view s v) = readString old v := by
  cases v <;> rfl

theorem readInt32_prune (v : Json) : readInt32 (prune view s v) = readInt32 v := by
  cases v <;> rfl

theorem readPointer_prune {read : α → Json → Option α} (h : ∀ a v, read a (prune view s v) = read a v) (zero : α)
    (old : Option α) (v : Json) : readPointer read zero old (prune view s v) = readPointer read zero old v := by
  have hread := h (old.getD zero) v
  cases v with
  | null => rfl
  | _ => exact congrArg (Option.map some) hread

end Pruning

end Decode

end GoStruct
