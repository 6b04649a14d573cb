import ObjectRegistry.Proofs.RecordBytes
import ObjectRegistry.Proofs.Writes

/-!
# Consistent stores

Three tables speak about the same resources: a row holds a resource, and either index lists it at
its position. `Consistent` says that they agree, that every row can be read, and that every
resource is one that could have been offered for storing. The agreement is stated over the
resources that a store `Holds`, which is what looking up their ids finds, so it does not mention
bytes.

A store changes by `adding` and `dropping` alone (`Proofs/Writes`), and a resource that is held
has its own id. So it is enough to say what these two do to `Holds` (`holds_adding`,
`holds_dropping`); the indexes follow because their entries are added and dropped with the rows
(`Consistent.adding`, `Consistent.dropping`). A purge drops held resources one after the other
(`Consistent.foldl_dropping`).
-/

namespace ObjectRegistry

namespace Store

/-- A resource is in the store: looking up its id finds it, all fields included. -/
def Holds (s : Store) (r : Resource) : Prop :=
  s.find r.id = .ok (some r)

/-- The tables of a store exist, can be read and agree with each other. -/
structure Consistent (s : Store) : Prop where
  /-- The counters exist. -/
  counting : ∃ table, s.sequences = some table
  /-- Among them are those that every store starts with. -/
  seeded : ∀ seed ∈ seeds, s.counters.contains seed.1 = true
  /-- The rows exist. -/
  rowing : ∃ table, s.resources = some table
  /-- Every row can be read. -/
  readable : ∀ id, ∃ found, s.find id = .ok found
  /-- An index exists, and its entries are those of the resources in the store: none is missing
  and none is stale. -/
  indexed : ∀ axis, ∃ index, s.index axis = some index ∧
    ∀ e, index.contains e = true ↔ ∃ r, s.Holds r ∧ r.entry axis = e
  /-- Every resource in the store could be offered for storing. -/
  wellFormed : ∀ r, s.Holds r → r.id ≠ "" ∧ 0 ≤ r.createTime ∧ 0 ≤ r.size

/-! ## What a store holds -/

variable {s : Store} {r r' : Resource}

/-- An id leads to one resource. -/
theorem Holds.eq_of_id_eq (hr : s.Holds r) (hr' : s.Holds r') (hid : r.id = r'.id) : r = r' := by
  unfold Holds at hr hr'
  rw [hid, hr'] at hr
  injection hr with h
  injection h with h
  exact h.symm

theorem find_eq_load {table : ResourceTable} (h : s.resources = some table) (id : String) :
    s.find id = load table id := by
  unfold find
  rw [h]

theorem listed_eq {axis : Axis} {index : IndexTable} (h : s.index axis = some index) :
    s.listed axis = index := by
  unfold listed
  rw [h]
  rfl

theorem records_eq {table : ResourceTable} (h : s.resources = some table) : s.records = table := by
  unfold records
  rw [h]
  rfl

/-- Bytes that hold a resource, under its id. -/
theorem load_eq_some_iff {table : ResourceTable} {id : String} :
    load table id = .ok (some r) ↔
      ∃ bytes, table.get? id = some bytes ∧ readRecord id bytes = .ok r := by
  unfold load
  cases table.get? id with
  | none => simp
  | some bytes => cases h : readRecord id bytes <;> simp [h, Except.map]

/-- What is held is found under no other id. -/
theorem find_eq_some_iff {id : String} : s.find id = .ok (some r) ↔ s.Holds r ∧ r.id = id := by
  constructor
  · intro h
    have hid : r.id = id := by
      unfold find at h
      split at h
      next => cases h
      next =>
        obtain ⟨_, _, hread⟩ := load_eq_some_iff.1 h
        exact readRecord_id hread
    exact ⟨by rw [Holds, hid]; exact h, hid⟩
  · rintro ⟨h, rfl⟩
    exact h

/-- A resource is held if the row under its id spells its record. -/
theorem holds_iff :
    s.Holds r ↔ ∃ bytes, s.records.get? r.id = some bytes ∧ Record.decode bytes = .ok r.record := by
  have hread : ∀ bytes, readRecord r.id bytes = .ok r ↔ Record.decode bytes = .ok r.record := by
    intro bytes
    unfold readRecord
    cases hdecoded : Record.decode bytes with
    | error _ => simp
    | ok record =>
      simp only [Except.ok.injEq]
      exact ⟨fun h => by rw [← h, Resource.record_named],
        fun h => by rw [h, Resource.named_record]⟩
  unfold Holds
  cases hrows : s.resources with
  | none =>
    unfold find records
    rw [hrows]
    simp [Table.get?_empty]
  | some table =>
    rw [find_eq_load hrows, load_eq_some_iff, records_eq hrows]
    simp only [hread]

theorem readRecord_encode (h : r.record.Holdable) :
    readRecord r.id r.record.encode = .ok r := by
  unfold readRecord
  rw [Record.decode_encode h]
  rfl

/-- Where a new resource is added, its id leads to it, and every other id to what it led to. -/
theorem find_adding {table : ResourceTable} (hrows : s.resources = some table)
    (h : r.record.Holdable) (id : String) :
    (s.adding r).find id = if id = r.id then .ok (some r) else s.find id := by
  rw [find_eq_load rfl, find_eq_load hrows, records_eq hrows, load, load, Table.get?_insert]
  by_cases hid : id = r.id
  · rw [if_pos hid, if_pos hid, hid]
    simp only [readRecord_encode h, Except.map]
  · rw [if_neg hid, if_neg hid]

/-- Where a resource is dropped, its id leads nowhere, and every other id to what it led to. -/
theorem find_dropping {table : ResourceTable} (hrows : s.resources = some table) (id : String) :
    (s.dropping r).find id = if id = r.id then .ok none else s.find id := by
  rw [find_eq_load rfl, find_eq_load hrows, records_eq hrows, load, load, Table.get?_erase]
  by_cases hid : id = r.id
  · rw [if_pos hid, if_pos hid]
  · rw [if_neg hid, if_neg hid]

theorem holds_adding {table : ResourceTable} (hrows : s.resources = some table)
    (h : r.record.Holdable) (hfree : s.find r.id = .ok none) :
    (s.adding r).Holds r' ↔ r' = r ∨ s.Holds r' := by
  unfold Holds
  rw [find_adding hrows h]
  by_cases hid : r'.id = r.id
  · rw [if_pos hid, hid, hfree]
    simp [eq_comm]
  · rw [if_neg hid]
    have hne : r' ≠ r := fun he => hid (congrArg Resource.id he)
    simp [hne]

theorem holds_dropping {table : ResourceTable} (hrows : s.resources = some table)
    (hr : s.Holds r) : (s.dropping r).Holds r' ↔ s.Holds r' ∧ r' ≠ r := by
  unfold Holds
  rw [find_dropping hrows]
  by_cases hid : r'.id = r.id
  · rw [if_pos hid]
    have hsame : s.find r'.id = .ok (some r') → r' = r := fun h => Holds.eq_of_id_eq h hr hid
    simp
    exact hsame
  · rw [if_neg hid]
    have hne : r' ≠ r := fun he => hid (congrArg Resource.id he)
    simp [hne]

/-- An entry belongs to one resource of a store. -/
theorem Holds.eq_of_entry_eq {axis : Axis} (hr : s.Holds r) (hr' : s.Holds r')
    (h : r.entry axis = r'.entry axis) : r = r' :=
  hr.eq_of_id_eq hr' (congrArg (fun e : IndexEntry => e.position.id) h)

/-! ## Consistency is kept -/

namespace Consistent

/-- A consistent store has all its tables. -/
theorem tables_eq (h : s.Consistent) :
    ∃ sequences rows byHash byBucket,
      s = ⟨some sequences, some rows, some byHash, some byBucket⟩ := by
  obtain ⟨sequences, hsequences⟩ := h.counting
  obtain ⟨rows, hrows⟩ := h.rowing
  obtain ⟨byHash, hhash, -⟩ := h.indexed .hash
  obtain ⟨byBucket, hbucket, -⟩ := h.indexed .bucket
  refine ⟨sequences, rows, byHash, byBucket, ?_⟩
  cases s
  cases hsequences
  cases hrows
  cases hhash
  cases hbucket
  rfl

theorem index_eq (h : s.Consistent) (axis : Axis) :
    ∃ index, s.index axis = some index ∧ s.listed axis = index ∧
      ∀ e, index.contains e = true ↔ ∃ r, s.Holds r ∧ r.entry axis = e := by
  obtain ⟨index, hindex, hentries⟩ := h.indexed axis
  exact ⟨index, hindex, listed_eq hindex, hentries⟩

theorem adding (h : s.Consistent) (hhold : r.record.Holdable) (hfree : s.find r.id = .ok none)
    (hwell : r.id ≠ "" ∧ 0 ≤ r.createTime ∧ 0 ≤ r.size) : (s.adding r).Consistent := by
  obtain ⟨table, hrows⟩ := h.rowing
  have hholds : ∀ r', (s.adding r).Holds r' ↔ r' = r ∨ s.Holds r' :=
    fun _ => holds_adding hrows hhold hfree
  refine ⟨h.counting, h.seeded, ⟨_, rfl⟩, ?readable, ?indexed, ?wellFormed⟩
  case readable =>
    intro id
    rw [find_adding hrows hhold]
    split
    next => exact ⟨some r, rfl⟩
    next => exact h.readable id
  case indexed =>
    intro axis
    obtain ⟨index, -, hlisted, hentries⟩ := h.index_eq axis
    refine ⟨index.insert (r.entry axis) (), ?_, ?_⟩
    · rw [← hlisted]
      cases axis <;> rfl
    · intro e
      rw [Table.contains_insert, hentries]
      simp [hholds, eq_comm]
  case wellFormed =>
    intro r' hr'
    rcases (hholds r').1 hr' with rfl | hold
    · exact hwell
    · exact h.wellFormed r' hold

theorem dropping (h : s.Consistent) (hr : s.Holds r) : (s.dropping r).Consistent := by
  obtain ⟨table, hrows⟩ := h.rowing
  have hholds : ∀ r', (s.dropping r).Holds r' ↔ s.Holds r' ∧ r' ≠ r :=
    fun _ => holds_dropping hrows hr
  refine ⟨h.counting, h.seeded, ⟨_, rfl⟩, ?readable, ?indexed, ?wellFormed⟩
  case readable =>
    intro id
    rw [find_dropping hrows]
    split
    next => exact ⟨none, rfl⟩
    next => exact h.readable id
  case indexed =>
    intro axis
    obtain ⟨index, -, hlisted, hentries⟩ := h.index_eq axis
    refine ⟨index.erase (r.entry axis), ?_, ?_⟩
    · rw [← hlisted]
      cases axis <;> rfl
    · intro e
      rw [Table.contains_erase, hentries]
      constructor
      · rintro ⟨hne, r', hr', rfl⟩
        exact ⟨r', (hholds r').2 ⟨hr', fun he => hne (he ▸ rfl)⟩, rfl⟩
      · rintro ⟨r', hr', rfl⟩
        obtain ⟨hold, hne⟩ := (hholds r').1 hr'
        -- an entry equal to the one dropped would make `r'` the resource dropped
        exact ⟨fun he => hne (hold.eq_of_entry_eq hr he), r', hold, rfl⟩
  case wellFormed =>
    intro r' hr'
    exact h.wellFormed r' ((hholds r').1 hr').1

/-- Dropping resources that are held, each once, keeps the tables in step and takes exactly
these. -/
theorem foldl_dropping (h : s.Consistent) {old : List Resource} (hold : ∀ r ∈ old, s.Holds r)
    (hnodup : old.Nodup) :
    (old.foldl Store.dropping s).Consistent ∧
      ∀ r, (old.foldl Store.dropping s).Holds r ↔ s.Holds r ∧ r ∉ old := by
  induction old generalizing s with
  | nil => exact ⟨h, fun r => by simp⟩
  | cons x rest ih =>
    obtain ⟨hnew, hrest⟩ := List.nodup_cons.1 hnodup
    obtain ⟨table, hrows⟩ := h.rowing
    have hx : s.Holds x := hold x List.mem_cons_self
    have hholds : ∀ r', (s.dropping x).Holds r' ↔ s.Holds r' ∧ r' ≠ x :=
      fun _ => holds_dropping hrows hx
    obtain ⟨hcons, hleft⟩ := ih (h.dropping hx)
      (fun r hr => (hholds r).2
        ⟨hold r (List.mem_cons_of_mem _ hr), fun he => hnew (he ▸ hr)⟩) hrest
    refine ⟨hcons, ?_⟩
    intro r
    rw [List.foldl_cons, hleft, hholds, List.mem_cons, not_or, and_assoc]

/-! ## Consistency row by row -/

/-- Every row spells a record, and one that could be offered under the id of the row. -/
theorem row_decodes (h : s.Consistent) {id : String} {bytes : List UInt8}
    (hrow : s.records.get? id = some bytes) :
    ∃ record, Record.decode bytes = .ok record ∧
      id ≠ "" ∧ 0 ≤ record.createTime ∧ 0 ≤ record.size := by
  obtain ⟨table, hrows⟩ := h.rowing
  obtain ⟨found, hfound⟩ := h.readable id
  rw [find_eq_load hrows, load, ← records_eq hrows, hrow] at hfound
  cases hdecoded : Record.decode bytes with
  | error e => simp [readRecord, hdecoded, Except.map] at hfound
  | ok record =>
    have hheld : s.Holds (record.named id) := holds_iff.2 ⟨bytes, hrow, hdecoded⟩
    exact ⟨record, rfl, h.wellFormed _ hheld⟩

/-- An index lists exactly the ids of the rows, each at the time and under the label that its row
spells. -/
theorem listed_iff (h : s.Consistent) (axis : Axis) (label : String) (time : Int64)
    (id : String) :
    (s.listed axis).contains ⟨label, ⟨time, id⟩⟩ = true ↔
      ∃ bytes record, s.records.get? id = some bytes ∧ Record.decode bytes = .ok record ∧
        record.label axis = label ∧ record.createTime = time := by
  obtain ⟨index, -, hlisted, hentries⟩ := h.index_eq axis
  rw [hlisted, hentries]
  constructor
  · rintro ⟨r, hr, hentry⟩
    obtain ⟨bytes, hrow, hdecoded⟩ := holds_iff.1 hr
    obtain ⟨rfl, hposition⟩ := IndexEntry.mk.inj hentry
    obtain ⟨rfl, rfl⟩ := Cursor.mk.inj hposition
    exact ⟨bytes, r.record, hrow, hdecoded, rfl, rfl⟩
  · rintro ⟨bytes, record, hrow, hdecoded, rfl, rfl⟩
    exact ⟨record.named id, holds_iff.2 ⟨bytes, hrow, hdecoded⟩, rfl⟩

end Consistent

end Store

end ObjectRegistry
