import ObjectRegistry.Backing

/-!
# Operations taken apart

What an operation answers and leaves behind, one lemma for each way to build one. An operation made
of two is taken apart by `on_bind_ok` and `on_bind_error`: the second part runs on whatever the
first left, and a first part that fails ends the whole with what it had already done.

`Keeps` is what most theorems about operations say: the storage keeps a property, and failures are
of one kind. It is put together along the same lines (`Keeps.bind`).
-/

namespace ObjectRegistry.Access

variable {α β : Type}

@[simp] theorem on_pure (a : α) (b : Backing) : (pure a : Access α).on b = (.ok a, b) := rfl

@[simp] theorem on_check (result : Except Error α) (b : Backing) :
    (check result).on b = (result, b) := rfl

@[simp] theorem on_read_embedded (look : Store → Except Error α) (s : Store) :
    (read look).on (.embedded s) = (look s, .embedded s) := rfl

@[simp] theorem on_write_embedded (work : Draft (Ending α)) (s : Store) :
    (write work).on (.embedded s) = ((s.write work).1, .embedded (s.write work).2) := rfl

theorem on_bind (x : Access α) (f : α → Access β) (b : Backing) :
    (x >>= f).on b =
      match x.on b with
      | (.ok a, b') => (f a).on b'
      | (.error e, b') => (.error e, b') := by
  unfold on
  rw [ExceptT.run_bind, StateT.run_bind]
  rcases (ExceptT.run x).run b with ⟨_ | _, _⟩ <;> rfl

theorem on_bind_ok {x : Access α} {b b' : Backing} {a : α} (h : x.on b = (.ok a, b'))
    (f : α → Access β) : (x >>= f).on b = (f a).on b' := by
  rw [on_bind, h]

theorem on_bind_error {x : Access α} {b b' : Backing} {e : Error} (h : x.on b = (.error e, b'))
    (f : α → Access β) : (x >>= f).on b = (.error e, b') := by
  rw [on_bind, h]

/-! ## Operations that only look -/

/-- The operation leaves every storage as it is. -/
def Looks (access : Access α) : Prop := ∀ b, (access.on b).2 = b

theorem Looks.pure (a : α) : Looks (pure a : Access α) := fun _ => rfl

theorem Looks.throw (e : Error) : Looks (throw e : Access α) := fun _ => rfl

theorem Looks.check (result : Except Error α) : Looks (check result) := fun _ => rfl

theorem Looks.read (look : Store → Except Error α) : Looks (read look)
  | .embedded _ => rfl
  | .unreachable => rfl

theorem Looks.bind {x : Access α} {f : α → Access β} (hx : Looks x) (hf : ∀ a, Looks (f a)) :
    Looks (x >>= f) := by
  intro b
  have hsame := hx b
  rw [on_bind]
  rcases h : x.on b with ⟨_ | a, b'⟩
  · rw [h] at hsame
    exact hsame
  · rw [h] at hsame
    exact (hf a b').trans hsame

/-! ## Properties that an operation keeps -/

/-- The operation leads from every storage with a property to one with that property, and fails in
ways of one kind. -/
def Keeps (P : Backing → Prop) (Q : Error → Prop) (access : Access α) : Prop :=
  ∀ b, P b → P (access.on b).2 ∧ ∀ e, (access.on b).1 = .error e → Q e

variable {P : Backing → Prop} {Q : Error → Prop}

theorem Keeps.pure (a : α) : Keeps P Q (pure a : Access α) :=
  fun _ hb => ⟨hb, fun e he => by cases he⟩

theorem Keeps.check {result : Except Error α} (h : ∀ e, result = .error e → Q e) :
    Keeps P Q (check result) :=
  fun _ hb => ⟨hb, h⟩

theorem Keeps.bind {x : Access α} {f : α → Access β} (hx : Keeps P Q x)
    (hf : ∀ a, Keeps P Q (f a)) : Keeps P Q (x >>= f) := by
  intro b hb
  obtain ⟨hkept, hfails⟩ := hx b hb
  rw [on_bind]
  rcases h : x.on b with ⟨_ | a, b'⟩
  · -- the first part failed, and what it left is what the whole leaves
    rw [h] at hkept hfails
    refine ⟨hkept, fun e he => hfails e ?_⟩
    injection he with he
    rw [he]
  · rw [h] at hkept
    exact hf a b' hkept

/-- What every one of some operations keeps is kept by them in turn. -/
theorem Keeps.inTurn (goesOn : Except Error α → Bool) {calls : List (Access α)}
    (hcalls : ∀ call ∈ calls, Keeps P Q call) {b : Backing} (hb : P b) :
    P (inTurn goesOn calls b).2 ∧ ∀ e, .error e ∈ (inTurn goesOn calls b).1 → Q e := by
  induction calls generalizing b with
  | nil => exact ⟨hb, fun e he => by cases he⟩
  | cons call rest ih =>
    obtain ⟨hkept, hfails⟩ := hcalls call List.mem_cons_self b hb
    unfold Access.inTurn
    simp only
    split
    case isTrue =>
      obtain ⟨hend, hrest⟩ := ih (fun x hx => hcalls x (List.mem_cons_of_mem _ hx)) hkept
      refine ⟨hend, fun e he => ?_⟩
      rcases List.mem_cons.1 he with hfirst | hlater
      · exact hfails e hfirst.symm
      · exact hrest e hlater
    case isFalse =>
      -- nothing was called behind the last answer
      exact ⟨hkept, fun e he => hfails e (List.mem_singleton.1 he).symm⟩

end ObjectRegistry.Access
