import ObjectRegistry.Table.Key

/-!
# Tables

A table binds each key to one value and lists its bindings in the order of the keys. The bindings
are held in that order, and the order is part of the type, so two tables with the same bindings
are equal.
-/

namespace ObjectRegistry

/-- Keys with values, in the order of the keys. -/
structure Table (κ ν : Type) [TableKey κ] where
  /-- The bindings, each key before every greater one. -/
  toList : List (κ × ν)
  sorted : toList.Pairwise fun a b => TableKey.compare a.1 b.1 = .lt
  deriving DecidableEq

namespace Table

variable {κ ν : Type} [TableKey κ]

/-- The table without bindings. -/
def empty : Table κ ν := ⟨[], List.Pairwise.nil⟩

/-- The value bound to a key. -/
def get? (t : Table κ ν) (key : κ) : Option ν :=
  (t.toList.find? fun b => TableKey.compare key b.1 == .eq).map (·.2)

/-- Whether a key is bound. -/
def contains (t : Table κ ν) (key : κ) : Bool :=
  (t.get? key).isSome

/-- The keys in order. -/
def keys (t : Table κ ν) : List κ :=
  t.toList.map (·.1)

/-- A sorted list of bindings with a key bound anew. -/
def insertInto (key : κ) (value : ν) : List (κ × ν) → List (κ × ν)
  | [] => [(key, value)]
  | b :: rest =>
    match TableKey.compare key b.1 with
    | .lt => (key, value) :: b :: rest
    | .eq => (key, value) :: rest
    | .gt => b :: insertInto key value rest

theorem mem_insertInto {key : κ} {value : ν} {b : κ × ν} {bs : List (κ × ν)}
    (h : b ∈ insertInto key value bs) : b = (key, value) ∨ b ∈ bs := by
  induction bs with
  | nil => exact Or.inl (List.mem_singleton.1 h)
  | cons c rest ih =>
    unfold insertInto at h
    split at h
    · exact List.mem_cons.1 h
    · cases List.mem_cons.1 h with
      | inl e => exact Or.inl e
      | inr m => exact Or.inr (List.mem_cons_of_mem _ m)
    · cases List.mem_cons.1 h with
      | inl e => exact Or.inr (e ▸ List.mem_cons_self)
      | inr m => exact (ih m).imp id (List.mem_cons_of_mem _)

theorem insertInto_sorted (key : κ) (value : ν) {bs : List (κ × ν)}
    (h : bs.Pairwise fun a b => TableKey.compare a.1 b.1 = .lt) :
    (insertInto key value bs).Pairwise fun a b => TableKey.compare a.1 b.1 = .lt := by
  induction bs with
  | nil => exact List.pairwise_singleton _ _
  | cons c rest ih =>
    obtain ⟨below, tail⟩ := List.pairwise_cons.1 h
    unfold insertInto
    split
    case h_1 lt =>
      refine List.pairwise_cons.2 ⟨fun b m => ?_, h⟩
      cases List.mem_cons.1 m with
      | inl e => exact e ▸ lt
      | inr m => exact TableKey.lt_trans lt (below b m)
    case h_2 eq =>
      have same : key = c.1 := TableKey.eq_of_compare eq
      exact List.pairwise_cons.2 ⟨fun b m => same ▸ below b m, tail⟩
    case h_3 gt =>
      refine List.pairwise_cons.2 ⟨fun b m => ?_, ih tail⟩
      cases mem_insertInto m with
      | inl e =>
        have swapped := TableKey.compare_swap c.1 key
        rw [gt] at swapped
        exact e ▸ swapped
      | inr m => exact below b m

/-- Binds a key to a value, in place of the value it had. -/
def insert (t : Table κ ν) (key : κ) (value : ν) : Table κ ν :=
  ⟨insertInto key value t.toList, insertInto_sorted key value t.sorted⟩

/-- Drops the binding of a key, if it has one. -/
def erase (t : Table κ ν) (key : κ) : Table κ ν :=
  ⟨t.toList.filter fun b => TableKey.compare key b.1 != .eq, t.sorted.filter _⟩

end Table

end ObjectRegistry
