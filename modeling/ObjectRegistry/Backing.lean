import ObjectRegistry.Store.Draft

/-!
# What stands behind a registry

A registry keeps its tables in an embedded store of its own, or leaves them to a database server.
The server of this library is one that cannot be reached: every call that gets as far as the
storage fails with it, while a call that is refused for its arguments never gets there.

An operation on a registry is an `Access`: it answers or fails, and in both cases hands the
backing on, so what an operation did before it failed stays done. A `Method` also works on an object
that its caller keeps, and hands that on in both cases too; whether an object is left half changed
by a call that fails is up to the method.
-/

namespace ObjectRegistry

/-- The two kinds of storage. -/
inductive Backend where
  | embedded
  | postgres
  deriving DecidableEq

/-- The name of a kind of storage. -/
def Backend.name : Backend → String
  | .embedded => "embedded"
  | .postgres => "postgres"

/-- The storage of a registry. -/
inductive Backing where
  | embedded (store : Store)
  | unreachable
  deriving DecidableEq

/-- The kind of a storage. -/
def Backing.backend : Backing → Backend
  | .embedded _ => .embedded
  | .unreachable => .postgres

/-- An operation on the storage of a registry. -/
abbrev Access (α : Type) := ExceptT Error (StateM Backing) α

namespace Access

/-- The answer of an operation and the storage after it. -/
def on (access : Access α) (backing : Backing) : Except Error α × Backing :=
  (ExceptT.run access).run backing

/-- Looks something up in the store. -/
def read (look : Store → Except Error α) : Access α := fun backing =>
  match backing with
  | .embedded store => (look store, backing)
  | .unreachable => (.error (.storage .unreachable), backing)

/-- Runs a write transaction on the store. -/
def write (work : Draft (Ending α)) : Access α := fun backing =>
  match backing with
  | .embedded store =>
    let (answer, store) := store.write work
    (answer, .embedded store)
  | .unreachable => (.error (.storage .unreachable), backing)

/-- An answer that needs no storage, or a refusal. -/
def check (result : Except Error α) : Access α := fun backing => (result, backing)

/-- Operations one after the other, as long as their answers let them go on: what they answered, and
the storage behind the last that was begun. -/
def inTurn (goesOn : Except Error α → Bool) :
    List (Access α) → Backing → List (Except Error α) × Backing
  | [], backing => ([], backing)
  | access :: rest, backing =>
    let (answer, backing) := access.on backing
    if goesOn answer then
      let (answers, backing) := inTurn goesOn rest backing
      (answer :: answers, backing)
    else ([answer], backing)

end Access

/-- An operation on the storage of a registry that works on an object of its caller. -/
abbrev Method (σ α : Type) := ExceptT Error (StateT σ (StateM Backing)) α

namespace Method

/-- An operation on the storage is a method that leaves its object alone. -/
instance : MonadLift Access (Method σ) where
  monadLift access := fun self backing =>
    let (answer, backing) := access.on backing
    ((answer, self), backing)

/-- The object as it is. -/
def self : Method σ σ := fun self backing => ((.ok self, self), backing)

/-- Changes the object. -/
def change (f : σ → σ) : Method σ Unit := fun self backing => ((.ok (), f self), backing)

/-- The answer of a method, the object after it and the storage after it. -/
def on (method : Method σ α) (self : σ) (backing : Backing) : Except Error α × σ × Backing :=
  let ((answer, self), backing) := ((ExceptT.run method).run self).run backing
  (answer, self, backing)

/-- A method as an operation that answers the object along, for an object that nobody keeps behind a
failure. -/
def of (method : Method σ α) (self : σ) : Access (α × σ) := fun backing =>
  match method.on self backing with
  | (.ok a, self, backing) => (.ok (a, self), backing)
  | (.error e, _, backing) => (.error e, backing)

end Method

end ObjectRegistry
