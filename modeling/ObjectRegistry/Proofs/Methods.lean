import ObjectRegistry.Generator
import ObjectRegistry.Proofs.Access
import ObjectRegistry.Walk

/-!
# Methods taken apart

What a method answers, makes of its object and leaves in the storage, along the same lines as for
operations without an object (`on_bind`). A method on an object that nobody keeps is an operation
(`Method.of`), and tells all about the method but what it makes of its object when it fails.

That is told apart: the methods of generators and walks are `Careful`, a call of them that fails
leaves its object as it was. Neither changes its object before the last call that may fail, but one
failure comes after a change all the same, that of a lease without values; such a lease adds nothing
to an empty one.
-/

namespace ObjectRegistry

namespace Method

variable {σ α β : Type} {x x' : σ} {b b' : Backing} {e : Error}

@[simp] theorem on_pure (a : α) (x : σ) (b : Backing) :
    (pure a : Method σ α).on x b = (.ok a, x, b) := rfl

@[simp] theorem on_throw (e : Error) (x : σ) (b : Backing) :
    (throw e : Method σ α).on x b = (.error e, x, b) := rfl

@[simp] theorem on_self (x : σ) (b : Backing) : (self : Method σ σ).on x b = (.ok x, x, b) := rfl

@[simp] theorem on_change (f : σ → σ) (x : σ) (b : Backing) :
    (change f).on x b = (.ok (), f x, b) := rfl

@[simp] theorem on_lift (access : Access α) (x : σ) (b : Backing) :
    (liftM access : Method σ α).on x b = ((access.on b).1, x, (access.on b).2) := rfl

theorem on_bind (m : Method σ α) (f : α → Method σ β) (x : σ) (b : Backing) :
    (m >>= f).on x b =
      match m.on x b with
      | (.ok a, x', b') => (f a).on x' b'
      | (.error e, x', b') => (.error e, x', b') := by
  unfold on
  rw [ExceptT.run_bind, StateT.run_bind, StateT.run_bind]
  rcases ((ExceptT.run m).run x).run b with ⟨⟨_ | _, _⟩, _⟩ <;> rfl

theorem on_bind_ok {m : Method σ α} {a : α} (h : m.on x b = (.ok a, x', b'))
    (f : α → Method σ β) : (m >>= f).on x b = (f a).on x' b' := by
  rw [on_bind, h]

theorem on_bind_error {m : Method σ α} (h : m.on x b = (.error e, x', b'))
    (f : α → Method σ β) : (m >>= f).on x b = (.error e, x', b') := by
  rw [on_bind, h]

/-! ## Objects that nobody keeps -/

theorem of_on (m : Method σ α) (x : σ) (b : Backing) :
    (m.of x).on b = ((m.on x b).1.map fun a => (a, (m.on x b).2.1), (m.on x b).2.2) := by
  show (match m.on x b with
    | (.ok a, x', b') => ((.ok (a, x'), b') : Except Error (α × σ) × Backing)
    | (.error e, _, b') => (.error e, b')) = _
  rcases m.on x b with ⟨_ | _, _, _⟩ <;> rfl

theorem of_on_ok {m : Method σ α} {a : α} (h : m.on x b = (.ok a, x', b')) :
    (m.of x).on b = (.ok (a, x'), b') := by
  rw [of_on, h]
  rfl

theorem of_on_error {m : Method σ α} (h : m.on x b = (.error e, x', b')) :
    (m.of x).on b = (.error e, b') := by
  rw [of_on, h]
  rfl

theorem on_of_ok {m : Method σ α} {a : α} (h : (m.of x).on b = (.ok (a, x'), b')) :
    m.on x b = (.ok a, x', b') := by
  rcases hon : m.on x b with ⟨e | a', after, storage⟩
  · rw [of_on_error hon] at h
    cases h
  · rw [of_on_ok hon] at h
    cases h
    rfl

/-- The method leaves its object as it was when it fails. -/
def Careful (m : Method σ α) : Prop :=
  ∀ x b e, (m.on x b).1 = .error e → (m.on x b).2.1 = x

theorem Careful.on_of_error {m : Method σ α} (hm : m.Careful)
    (h : (m.of x).on b = (.error e, b')) : m.on x b = (.error e, x, b') := by
  rcases hon : m.on x b with ⟨e' | a, after, storage⟩
  · have hsame := hm x b e' (congrArg Prod.fst hon)
    rw [hon] at hsame
    cases hsame
    rw [of_on_error hon] at h
    cases h
    rfl
  · rw [of_on_ok hon] at h
    cases h

end Method

open Method (on_bind on_bind_ok on_bind_error)

/-! ## The methods of generators -/

namespace Generator

variable {g : Generator} {b b' : Backing} {value : Int64} {rest : List Int64}

theorem pop_some (h : g.lease = value :: rest) (b : Backing) :
    pop.on g b = (.ok (some value), { g with lease := rest }, b) := by
  unfold pop
  rw [on_bind_ok (Method.on_self g b), h]
  rfl

theorem pop_none (h : g.lease = []) (b : Backing) : pop.on g b = (.ok none, g, b) := by
  unfold pop
  rw [on_bind_ok (Method.on_self g b), h]
  rfl

/-- What there is to know of `nextValue`: a value comes off the lease, or a block is leased whose
first value is handed out and whose others become the lease. -/
theorem nextValue_on (g : Generator) (b : Backing) :
    nextValue.on g b =
      match g.lease with
      | value :: rest => (.ok value, { g with lease := rest }, b)
      | [] =>
        match (Sequence.allocateBlock g.nameLimit g.sequence g.blockSize).on b with
        | (.error e, b') => (.error e, g, b')
        | (.ok block, b') =>
          match block.values with
          | value :: rest => (.ok value, { g with lease := rest }, b')
          | [] => (.error (.storage (.corrupt (.emptyLease g.sequence))), g, b') := by
  unfold nextValue
  cases hlease : g.lease with
  | cons value rest => exact on_bind_ok (pop_some hlease b) _
  | nil =>
    rw [on_bind_ok (pop_none hlease b)]
    show (Method.self >>= _).on g b = _
    rw [on_bind_ok (Method.on_self g b)]
    rcases hblock : (Sequence.allocateBlock g.nameLimit g.sequence g.blockSize).on b with
      ⟨e | block, b'⟩
    · rw [on_bind_error (by rw [Method.on_lift, hblock])]
    · rw [on_bind_ok (by rw [Method.on_lift, hblock]), on_bind_ok (Method.on_change _ g b')]
      cases hvalues : block.values with
      | nil =>
        -- a block without values leaves the empty lease as it is
        have hsame : { g with lease := g.lease ++ [] } = g := by rw [List.append_nil]
        rw [hsame, on_bind_ok (pop_none hlease b')]
        simp only [hvalues, Method.on_throw]
      | cons value rest =>
        have hleased : ({ g with lease := g.lease ++ value :: rest } : Generator).lease =
            value :: rest := by rw [hlease, List.nil_append]
        rw [on_bind_ok (pop_some hleased b')]
        simp only [hvalues, Method.on_pure]

theorem nextId_on (g : Generator) (b : Backing) :
    nextId.on g b =
      match nextValue.on g b with
      | (.ok value, g', b') => (.ok (g'.format.render value), g', b')
      | (.error e, g', b') => (.error e, g', b') := by
  unfold nextId
  rw [on_bind]
  rcases nextValue.on g b with ⟨e | value, g', b'⟩ <;> rfl

theorem nextValue_careful : nextValue.Careful := by
  intro g b e hfails
  rw [nextValue_on] at hfails ⊢
  cases hlease : g.lease with
  | cons value rest =>
    rw [hlease] at hfails
    cases hfails
  | nil =>
    rw [hlease] at hfails
    simp only at hfails ⊢
    rcases hblock : (Sequence.allocateBlock g.nameLimit g.sequence g.blockSize).on b with
      ⟨e' | block, b'⟩
    · rfl
    · rw [hblock] at hfails
      simp only at hfails ⊢
      cases hvalues : block.values with
      | nil => rfl
      | cons value rest =>
        rw [hvalues] at hfails
        cases hfails

theorem nextId_careful : nextId.Careful := by
  intro g b e hfails
  have hcareful := nextValue_careful g b
  rw [nextId_on] at hfails ⊢
  rcases hvalue : nextValue.on g b with ⟨e' | value, g', b'⟩
  · rw [hvalue] at hcareful
    exact hcareful e' rfl
  · rw [hvalue] at hfails
    cases hfails

variable {g' : Generator} {e : Error}

/-! ### The methods where the operation is known -/

theorem nextValue_on_ok (h : g.next.on b = (.ok (value, g'), b')) :
    nextValue.on g b = (.ok value, g', b') :=
  Method.on_of_ok h

theorem nextValue_on_error (h : g.next.on b = (.error e, b')) :
    nextValue.on g b = (.error e, g, b') :=
  nextValue_careful.on_of_error h

/-- An id is the value in the format of the generator. -/
theorem nextId_on_ok (h : g.next.on b = (.ok (value, g'), b')) :
    nextId.on g b = (.ok (g'.format.render value), g', b') := by
  rw [nextId_on, nextValue_on_ok h]

theorem nextId_on_error (h : g.next.on b = (.error e, b')) :
    nextId.on g b = (.error e, g, b') := by
  rw [nextId_on, nextValue_on_error h]

/-- The next value and the generator behind it, as one operation. -/
theorem next_eq (g : Generator) :
    g.next =
      match g.lease with
      | value :: rest => pure (value, { g with lease := rest })
      | [] =>
        Sequence.allocateBlock g.nameLimit g.sequence g.blockSize >>= fun block =>
          match block.values with
          | value :: rest => pure (value, { g with lease := rest })
          | [] => throw (.storage (.corrupt (.emptyLease g.sequence))) := by
  funext b
  show (nextValue.of g).on b = _
  rw [Method.of_on, nextValue_on]
  cases hlease : g.lease with
  | cons value rest => rfl
  | nil =>
    show _ = (Sequence.allocateBlock g.nameLimit g.sequence g.blockSize >>= _ : Access _).on b
    rw [Access.on_bind]
    simp only
    rcases (Sequence.allocateBlock g.nameLimit g.sequence g.blockSize).on b with ⟨e | block, b'⟩
    · rfl
    · simp only
      cases block.values <;> rfl

/-- The next id and the generator behind it, as one operation. -/
theorem nextId_of (g : Generator) :
    nextId.of g = g.next >>= fun drawn => pure (drawn.2.format.render drawn.1, drawn.2) := by
  funext b
  show (nextId.of g).on b = (nextValue.of g >>= _ : Access _).on b
  rw [Access.on_bind, Method.of_on, Method.of_on, nextId_on]
  rcases nextValue.on g b with ⟨e | value, g', b'⟩ <;> rfl

end Generator

/-! ## The method of walks -/

namespace Walk

/-- What there is to know of `nextPage`. -/
theorem nextPage_on (w : Walk) (b : Backing) :
    nextPage.on w b =
      if w.finished then (.ok none, w, b)
      else
        match (Registry.page w.scope { after := w.after, limit := w.pageSize }).on b with
        | (.error e, b') => (.error e, w, b')
        | (.ok page, b') =>
          (.ok (if page.items.isEmpty then none else some page.items),
            { w with after := page.next, finished := page.next.isNone }, b') := by
  unfold nextPage
  rw [on_bind_ok (Method.on_self w b)]
  split
  next => rfl
  next =>
    rcases hpage : (Registry.page w.scope { after := w.after, limit := w.pageSize }).on b with
      ⟨e | page, b'⟩
    · exact on_bind_error (by rw [Method.on_lift, hpage]) _
    · exact on_bind_ok (by rw [Method.on_lift, hpage]) _

theorem nextPage_careful : nextPage.Careful := by
  intro w b e hfails
  rw [nextPage_on] at hfails ⊢
  split at hfails
  next => cases hfails
  next hrunning =>
    rw [if_neg hrunning]
    rcases hpage : (Registry.page w.scope { after := w.after, limit := w.pageSize }).on b with
      ⟨e' | page, b'⟩
    · rfl
    · rw [hpage] at hfails
      cases hfails

/-- The next page and the walk behind it, as one operation. -/
theorem next_eq (w : Walk) :
    w.next =
      if w.finished then pure (none, w)
      else
        Registry.page w.scope { after := w.after, limit := w.pageSize } >>= fun page =>
          pure (if page.items.isEmpty then none else some page.items,
            { w with after := page.next, finished := page.next.isNone }) := by
  funext b
  show (nextPage.of w).on b = _
  rw [Method.of_on, nextPage_on]
  split
  next => rfl
  next =>
    show _ = (Registry.page w.scope { after := w.after, limit := w.pageSize } >>= _ :
      Access _).on b
    rw [Access.on_bind]
    rcases (Registry.page w.scope { after := w.after, limit := w.pageSize }).on b with
      ⟨e | page, b'⟩ <;> rfl

end Walk

end ObjectRegistry
