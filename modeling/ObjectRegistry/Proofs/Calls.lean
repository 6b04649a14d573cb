import ObjectRegistry.Proofs.Access
import ObjectRegistry.Proofs.Listing
import ObjectRegistry.Sequence

/-!
# Calls on a consistent store

What the calls of a registry answer on a consistent store, and the store that they leave. Calls that
look succeed and change nothing. Creating fails without a trace or adds one resource
(`create_cases`); a removal drops the resource that it answers (`delete_cases`); a purge drops what
is outdated (`purge_on`).
-/

namespace ObjectRegistry

open Store (records_eq find_eq_load load readRecord)

/-! ## Calls that look -/

theorem Sequence.current_looks (limit : Nat) (name : String) :
    Access.Looks (current limit name) :=
  Access.Looks.bind (Access.Looks.check _) fun _ => Access.Looks.read _

namespace Registry

theorem get_looks (id : String) : Access.Looks (get id) := Access.Looks.read _

theorem page_looks (scope : Scope) (request : PageRequest) : Access.Looks (page scope request) :=
  Access.Looks.read _

theorem health_looks : Access.Looks health := Access.Looks.read _

theorem get_on {s : Store} (h : s.Consistent) (id : String) :
    ∃ found, (get id).on (.embedded s) = (.ok found, .embedded s) := by
  obtain ⟨found, hfound⟩ := h.readable id
  exact ⟨found, congrArg (fun answer => (answer, Backing.embedded s)) hfound⟩

theorem page_on {s : Store} (h : s.Consistent) (scope : Scope) (request : PageRequest) :
    ∃ answer, (page scope request).on (.embedded s) = (.ok answer, .embedded s) :=
  ⟨_, congrArg (fun answer => (answer, Backing.embedded s)) (h.page_eq _ _ _)⟩

theorem health_on {s : Store} (h : s.Consistent) :
    health.on (.embedded s) = (.ok (), .embedded s) := by
  obtain ⟨table, htable⟩ := h.counting
  refine congrArg (fun answer => (answer, Backing.embedded s)) ?_
  unfold Store.health
  rw [htable]

end Registry

theorem Store.Consistent.counter_eq {s : Store} (h : s.Consistent) (name : String) :
    ∃ value, s.counter name = .ok value := by
  obtain ⟨table, htable⟩ := h.counting
  exact ⟨table.get? name, by rw [counter, htable]⟩

/-! ## Calls that write -/

theorem Resource.validate_eq_ok_iff {r : Resource} :
    r.validate = .ok () ↔ r.id ≠ "" ∧ 0 ≤ r.createTime ∧ 0 ≤ r.size := by
  unfold validate fault?
  by_cases hid : r.id.isEmpty = true
  · have hempty : r.id = "" := String.isEmpty_iff.1 hid
    simp [hempty]
  · have hne : r.id ≠ "" := fun he => hid (String.isEmpty_iff.2 he)
    by_cases htime : r.createTime < 0
    · simp [hid, htime, ← Int64.not_lt]
    · by_cases hsize : r.size < 0 <;> simp [hid, hne, htime, hsize, ← Int64.not_lt]

theorem Resource.validate_error {r : Resource} {e : Error} (h : r.validate = .error e) :
    e.IsRefusal := by
  unfold validate at h
  split at h
  next => cases h; trivial
  next => cases h

/-- An id that is free in a consistent store has no row. -/
theorem Store.Consistent.find_eq_none {s : Store} (h : s.Consistent) {id : String}
    (hfree : ¬ s.records.contains id = true) : s.find id = .ok none := by
  obtain ⟨table, hrows⟩ := h.rowing
  have hnone : table.get? id = none := by
    rw [← records_eq hrows, ← Option.not_isSome_iff_eq_none]
    exact hfree
  rw [find_eq_load hrows, load, hnone]

namespace Registry

/-- **What creating a resource does**: the resource is offered badly, is too large or finds its id
taken, and nothing changes; or it is added. -/
theorem create_cases {s : Store} (h : s.Consistent) (r : Resource) :
    (∃ e : Error, (create r).on (.embedded s) = (.error e, .embedded s) ∧
      (e.IsRefusal ∨ e = .storage .unwritable ∨
        e = .duplicateId r.id ∧ s.records.contains r.id = true)) ∨
    ((create r).on (.embedded s) = (.ok r, .embedded (s.adding r)) ∧
      r.record.Holdable ∧ s.find r.id = .ok none ∧
      (r.id ≠ "" ∧ 0 ≤ r.createTime ∧ 0 ≤ r.size)) := by
  unfold create
  cases hvalid : r.validate with
  | error e =>
    left
    exact ⟨e, Access.on_bind_error (Access.on_check _ _) _,
      Or.inl (Resource.validate_error hvalid)⟩
  | ok _ =>
    rw [Access.on_bind_ok (Access.on_check _ _)]
    have hwrite := s.write_insert r
    by_cases hhold : r.record.Holdable
    · rw [if_neg (not_not.2 hhold)] at hwrite
      by_cases htaken : s.records.contains r.id = true
      · left
        rw [if_pos htaken] at hwrite
        refine ⟨.duplicateId r.id, Access.on_bind_error ?_ _, Or.inr (Or.inr ⟨rfl, htaken⟩)⟩
        rw [Access.on_write_embedded, hwrite]
      · right
        rw [if_neg htaken] at hwrite
        refine ⟨?_, hhold, h.find_eq_none htaken, Resource.validate_eq_ok_iff.1 hvalid⟩
        refine Access.on_bind_ok (a := ()) ?_ _
        rw [Access.on_write_embedded, hwrite]
    · left
      rw [if_pos hhold] at hwrite
      refine ⟨.storage .unwritable, Access.on_bind_error ?_ _, Or.inr (Or.inl rfl)⟩
      rw [Access.on_write_embedded, hwrite]

/-- **What a removal does**: nothing for an id that leads nowhere, and else the resource is
dropped and answered. -/
theorem delete_cases {s : Store} (h : s.Consistent) (id : String) :
    (s.find id = .ok none ∧ (delete id).on (.embedded s) = (.ok none, .embedded s)) ∨
    ∃ r, s.Holds r ∧ r.id = id ∧
      (delete id).on (.embedded s) = (.ok (some r), .embedded (s.dropping r)) := by
  obtain ⟨table, hrows⟩ := h.rowing
  obtain ⟨found, hfound⟩ := h.readable id
  have hwrite := s.write_remove id
  rw [records_eq hrows] at hwrite
  have hload := hfound
  rw [find_eq_load hrows, load] at hload
  unfold delete
  rw [Access.on_write_embedded]
  cases hrow : table.get? id with
  | none =>
    left
    rw [hrow] at hwrite hload
    injection hload with hload
    rw [hwrite]
    exact ⟨by rw [hfound, ← hload], rfl⟩
  | some bytes =>
    right
    rw [hrow] at hwrite hload
    cases hread : readRecord id bytes with
    | error e =>
      -- every row of a consistent store can be read
      simp [hread, Except.map] at hload
    | ok r =>
      simp only [hread, Except.map] at hwrite hload
      injection hload with hload
      have hr := Store.find_eq_some_iff.1 (hload ▸ hfound)
      rw [hwrite]
      exact ⟨r, hr.1, hr.2, rfl⟩

/-- **What a purge does**: the outdated resources are dropped and answered in order. -/
theorem purge_on {s : Store} (h : s.Consistent) (cutoff : Int64) :
    (purge cutoff).on (.embedded s) =
      (.ok (Store.inOrder (Store.outdated cutoff s.stored)),
        .embedded ((Store.outdated cutoff s.stored).foldl Store.dropping s)) := by
  obtain ⟨table, hrows⟩ := h.rowing
  have hsame : { s with resources := some s.records } = s := by rw [records_eq hrows, ← hrows]
  have hwrite := s.write_purge cutoff
  rw [h.readAll_eq.1, hsame] at hwrite
  unfold purge
  rw [Access.on_write_embedded, hwrite]

/-- The outdated resources are held, each once. -/
theorem outdated_held {s : Store} (h : s.Consistent) (cutoff : Int64) :
    (∀ r ∈ Store.outdated cutoff s.stored, s.Holds r) ∧
      (Store.outdated cutoff s.stored).Nodup :=
  ⟨fun _ hr => h.mem_stored.1 (List.mem_of_mem_filter hr),
    (h.nodup_stored.of_map _).filter _⟩

end Registry

end ObjectRegistry
