import ObjectRegistry.Proofs.Table
import ObjectRegistry.Registry

/-!
# What a write transaction does

Each of the four transactions is summed up in one equation over the whole store: what it answers,
and the store that it leaves (`write_insert`, `write_remove`, `write_purge`, `write_reserve`). The
equations hold for every store, whatever its tables hold and whichever of them exist; they are the
only place where a transaction is run step by step.

A resource comes and goes with its row and its two entries, so two functions on stores are enough
to say what changes: `adding` and `dropping`. A purge is a run of `dropping`.
-/

namespace ObjectRegistry

/-! ## The steps of a draft -/

namespace Draft

variable {α β : Type}

@[simp] theorem ok_bind (a : α) (f : α → Except Error β) : (Except.ok a >>= f) = f a := rfl

@[simp] theorem error_bind (e : Error) (f : α → Except Error β) :
    (Except.error e >>= f) = Except.error e := rfl

@[simp] theorem throw_eq_error (e : Error) : (throw e : Except Error α) = .error e := rfl

/-- Several are treated alike in two ways if each of them is. -/
theorem mapM_congr {f g : α → Except Error β} {xs : List α} (h : ∀ x ∈ xs, f x = g x) :
    xs.mapM f = xs.mapM g := by
  induction xs with
  | nil => rfl
  | cons x rest ih =>
    rw [List.mapM_cons, List.mapM_cons, h x List.mem_cons_self,
      ih fun y hy => h y (List.mem_cons_of_mem _ hy)]

/-- What succeeds for each of several succeeds for all of them. -/
theorem mapM_eq_ok_iff {f : α → Except Error β} {xs : List α} {ys : List β} :
    xs.mapM f = .ok ys ↔ List.Forall₂ (fun x y => f x = .ok y) xs ys := by
  induction xs generalizing ys with
  | nil =>
    rw [List.mapM_nil, List.forall₂_nil_left_iff]
    exact ⟨fun h => by cases h; rfl, fun h => by rw [h]; rfl⟩
  | cons x rest ih =>
    rw [List.mapM_cons, List.forall₂_cons_left_iff]
    cases hx : f x with
    | error e =>
      rw [error_bind]
      exact ⟨nofun, fun ⟨_, _, hy, _⟩ => by cases hy⟩
    | ok y =>
      rw [ok_bind]
      cases hrest : rest.mapM f with
      | error e =>
        rw [error_bind]
        refine ⟨nofun, fun ⟨_, zs, _, hzs, _⟩ => ?_⟩
        rw [ih.2 hzs] at hrest
        cases hrest
      | ok ys' =>
        rw [ok_bind]
        constructor
        · intro h
          cases h
          exact ⟨y, ys', rfl, ih.1 hrest, rfl⟩
        · rintro ⟨z, zs, hz, hzs, rfl⟩
          cases hz
          rw [ih.2 hzs] at hrest
          cases hrest
          rfl

/-- The first of several to fail makes all of them fail, in its way. -/
theorem mapM_eq_error_iff {f : α → Except Error β} {xs : List α} {e : Error} :
    xs.mapM f = .error e ↔
      ∃ front x rest, xs = front ++ x :: rest ∧ (∀ y ∈ front, ∃ b, f y = .ok b) ∧
        f x = .error e := by
  induction xs with
  | nil => exact ⟨nofun, fun ⟨_, _, _, hnil, _⟩ => absurd hnil (by simp)⟩
  | cons x rest ih =>
    rw [List.mapM_cons]
    constructor
    · intro h
      cases hx : f x with
      | error e' =>
        rw [hx] at h
        cases h
        exact ⟨[], x, rest, rfl, nofun, hx⟩
      | ok y =>
        have hrest : rest.mapM f = .error e := by
          rw [hx, ok_bind] at h
          cases hrest : rest.mapM f with
          | error e' =>
            rw [hrest] at h
            exact h
          | ok ys =>
            rw [hrest] at h
            cases h
        obtain ⟨front, z, more, rfl, hfront, hz⟩ := ih.1 hrest
        exact ⟨x :: front, z, more, rfl, List.forall_mem_cons.2 ⟨⟨y, hx⟩, hfront⟩, hz⟩
    · rintro ⟨front, z, more, hsplit, hfront, hz⟩
      cases front with
      | nil =>
        cases hsplit
        rw [hz, error_bind]
      | cons y front =>
        cases hsplit
        obtain ⟨⟨b, hb⟩, hfront⟩ := List.forall_mem_cons.1 hfront
        rw [hb, ok_bind, ih.2 ⟨front, z, more, rfl, hfront, hz⟩, error_bind]

@[simp] theorem run_lift (result : Except Error α) (s : Store) :
    (liftM result : Draft α).run s = result >>= fun a => .ok (a, s) := rfl

@[simp] theorem run_return (a : α) (s : Store) : (pure a : Draft α).run s = .ok (a, s) := rfl

@[simp] theorem run_openSequences (s : Store) :
    openSequences.run s =
      .ok (s.sequences.getD .empty, { s with sequences := some (s.sequences.getD .empty) }) := rfl

@[simp] theorem run_openResources (s : Store) :
    openResources.run s =
      .ok (s.resources.getD .empty, { s with resources := some (s.resources.getD .empty) }) := rfl

@[simp] theorem run_putResources (table : ResourceTable) (s : Store) :
    (putResources table).run s = .ok ((), { s with resources := some table }) := rfl

end Draft

namespace Store

/-! ## Single resources -/

/-- The rows of a store, none if their table is missing. -/
def records (s : Store) : ResourceTable := s.resources.getD .empty

/-- The entries on an axis, none if their table is missing. -/
def listed (s : Store) (axis : Axis) : IndexTable := (s.index axis).getD .empty

/-- The store with a row for a resource and its entry on either axis. -/
def adding (s : Store) (r : Resource) : Store where
  sequences := s.sequences
  resources := some (s.records.insert r.id r.record.encode)
  byHash := some ((s.listed .hash).insert (r.entry .hash) ())
  byBucket := some ((s.listed .bucket).insert (r.entry .bucket) ())

/-- The store without the row of a resource and without its entries. -/
def dropping (s : Store) (r : Resource) : Store where
  sequences := s.sequences
  resources := some (s.records.erase r.id)
  byHash := some ((s.listed .hash).erase (r.entry .hash))
  byBucket := some ((s.listed .bucket).erase (r.entry .bucket))

@[simp] theorem run_addEntry_hash (r : Resource) (s : Store) :
    (addEntry r .hash).run s =
      .ok ((), { s with byHash := some ((s.listed .hash).insert (r.entry .hash) ()) }) := rfl

@[simp] theorem run_addEntry_bucket (r : Resource) (s : Store) :
    (addEntry r .bucket).run s =
      .ok ((), { s with byBucket := some ((s.listed .bucket).insert (r.entry .bucket) ()) }) := rfl

@[simp] theorem run_dropEntry_hash (r : Resource) (s : Store) :
    (dropEntry r .hash).run s =
      .ok ((), { s with byHash := some ((s.listed .hash).erase (r.entry .hash)) }) := rfl

@[simp] theorem run_dropEntry_bucket (r : Resource) (s : Store) :
    (dropEntry r .bucket).run s =
      .ok ((), { s with byBucket := some ((s.listed .bucket).erase (r.entry .bucket)) }) := rfl

/-- **Storing a resource** adds it, unless its id is taken or its texts fit no memory. -/
theorem write_insert (s : Store) (r : Resource) :
    s.write (insert r) =
      if ¬ r.record.Holdable then (.error (.storage .unwritable), s)
      else if s.records.contains r.id then (.error (.duplicateId r.id), s)
      else (.ok (), s.adding r) := by
  unfold write insert
  by_cases hhold : r.record.Holdable
  · rw [if_neg (not_not.2 hhold), if_neg (not_not.2 hhold)]
    by_cases htaken : s.records.contains r.id = true
    · rw [if_pos htaken]
      have htaken' : (s.resources.getD .empty).contains r.id = true := htaken
      simp [htaken']
    · rw [if_neg htaken]
      have htaken' : ¬ (s.resources.getD .empty).contains r.id = true := htaken
      simp only [StateT.run_bind, Draft.run_return, Draft.ok_bind, Draft.run_openResources,
        if_neg htaken', Draft.run_putResources, run_addEntry_hash, run_addEntry_bucket]
      rfl
  · rw [if_pos hhold, if_pos hhold]
    rfl

theorem readRecord_id {id : String} {bytes : List UInt8} {r : Resource}
    (h : readRecord id bytes = .ok r) : r.id = id := by
  unfold readRecord at h
  split at h
  next => cases h; rfl
  next => cases h

/-- **Removing an id** drops the resource that its row holds. Without a row nothing happens, and a
row that cannot be read fails the removal. -/
theorem write_remove (s : Store) (id : String) :
    s.write (remove id) =
      match s.records.get? id with
      | none => (.ok none, s)
      | some bytes =>
        match readRecord id bytes with
        | .error e => (.error e, s)
        | .ok r => (.ok (some r), s.dropping r) := by
  unfold write remove records
  simp only [StateT.run_bind, Draft.run_openResources, Draft.ok_bind]
  cases hrow : (s.resources.getD .empty).get? id with
  | none => rfl
  | some bytes =>
    cases hread : readRecord id bytes with
    | error e => simp [hread]
    | ok r =>
      -- the entries to drop are read off the bytes of the row
      simp only [hread, StateT.run_bind, Draft.run_lift, Draft.ok_bind, Draft.run_putResources,
        run_dropEntry_hash, run_dropEntry_bucket, Draft.run_return]
      rw [← readRecord_id hread]
      rfl

/-! ## Purges -/

/-- The resources of all rows; one row that cannot be read fails them all. -/
def readAll (s : Store) : Except Error (List Resource) :=
  s.records.toList.mapM fun b => readRecord b.1 b.2

/-- The resources among some that a purge takes. -/
def outdated (cutoff : Int64) (all : List Resource) : List Resource :=
  all.filter fun r => r.createTime ≤ cutoff

/-- The two loops of a purge, one over the rows and one over the entries, do what dropping the
resources one after the other does. -/
theorem run_dropEntries (old : List Resource) (s : Store) :
    (old.forM fun r => do dropEntry r .hash; dropEntry r .bucket : Draft Unit).run
        { s with resources := some (old.foldl (fun table r => table.erase r.id) s.records) } =
      .ok ((), old.foldl dropping { s with resources := some s.records }) := by
  induction old generalizing s with
  | nil => rfl
  | cons r rest ih =>
    -- both entries of `r` go before the loop turns to `rest`, and its row is gone already
    exact ih (s.dropping r)

/-- **A purge** drops every outdated resource and answers them in order. It fails as soon as one
row cannot be read, outdated or not. -/
theorem write_purge (s : Store) (cutoff : Int64) :
    s.write (purge cutoff) =
      match s.readAll with
      | .error e => (.error e, s)
      | .ok all =>
        (.ok (inOrder (outdated cutoff all)),
          (outdated cutoff all).foldl dropping { s with resources := some s.records }) := by
  unfold write purge readAll records
  simp only [StateT.run_bind, Draft.run_openResources, Draft.ok_bind, Draft.run_lift]
  cases hall : (s.resources.getD .empty).toList.mapM fun b => readRecord b.1 b.2 with
  | error e => rfl
  | ok all =>
    have hloop := run_dropEntries (outdated cutoff all) s
    unfold outdated records at hloop
    simp only [Draft.ok_bind, Draft.run_putResources, hloop, Draft.run_return]
    rfl

/-! ## Counters -/

/-- The counters of a store, none if their table is missing. -/
def counters (s : Store) : SequenceTable := s.sequences.getD .empty

/-- **Reserving a block** moves the counter, unless the new one would leave the 64-bit range. -/
theorem write_reserve (s : Store) (name : String) (count : Int64) :
    s.write (reserve name count) =
      match addWithin64? ((s.counters.get? name).getD 0) count with
      | none => (.error (.storage (.exhausted name)), s)
      | some last =>
        (.ok { first := last - count + 1, last },
          { s with sequences := some (s.counters.insert name last) }) := by
  unfold write reserve counters
  simp only [StateT.run_bind, Draft.run_openSequences, Draft.ok_bind]
  cases addWithin64? (((s.sequences.getD .empty).get? name).getD 0) count with
  | none => rfl
  | some last => rfl

end Store

end ObjectRegistry
