import ObjectRegistry.Proofs.Calls
import ObjectRegistry.Proofs.Counters
import ObjectRegistry.Proofs.Pages

/-!
# Calls keep a store consistent

An operation is `Sound` if it leads from every consistent store to a consistent one and reports no
damage there. Operations are built from few parts, so soundness is shown for the parts and put
together (`Keeps.bind`); the parts with something to show are the transactions, and what these do is
known from the case lemmas of the calls. A call that only looks succeeds on every consistent store
and is sound for that (`Sound.of_ok`).
-/

namespace ObjectRegistry

/-- A storage failure that a healthy store never reports: a table is missing, a record cannot be
read, or the tables contradict each other. -/
def Error.IsDamage : Error → Prop
  | .storage .missingTable => True
  | .storage (.unreadable _) => True
  | .storage (.corrupt _) => True
  | .storage .endlessWalk => True
  | _ => False

/-- A denied request is no sign of damage. -/
theorem Error.IsDenial.not_isDamage {e : Error} (h : e.IsDenial) : ¬ e.IsDamage := by
  rcases h with h | ⟨name, rfl⟩
  · cases e with
    | sequenceName _ => exact id
    | argument _ => exact id
    | duplicateId _ => exact h.elim
    | storage _ => exact h.elim
  · exact id

/-- An embedded store that is consistent. -/
def Backing.Consistent : Backing → Prop
  | .embedded s => s.Consistent
  | .unreachable => False

theorem Backing.Consistent.embedded {b : Backing} (h : b.Consistent) :
    ∃ s : Store, b = .embedded s ∧ s.Consistent := by
  cases b with
  | embedded s => exact ⟨s, rfl, h⟩
  | unreachable => exact h.elim

/-- A consistent store with some counters. -/
def Backing.Counts (table : Option SequenceTable) (b : Backing) : Prop :=
  ∃ s, b = .embedded s ∧ s.Consistent ∧ s.sequences = table

theorem Store.Consistent.advanced {s : Store} (h : s.Consistent) (name : String) (last : Int64) :
    (s.advanced name last).Consistent := by
  refine ⟨⟨_, rfl⟩, fun seed hseed => ?_, h.rowing, h.readable, h.indexed, h.wellFormed⟩
  show (s.counters.insert name last).contains seed.1 = true
  rw [Table.contains_insert]
  exact Or.inr (h.seeded seed hseed)

/-- Seeds that are there are not planted. -/
theorem Store.plantSeeds_eq {table : SequenceTable}
    (h : ∀ seed ∈ seeds, table.contains seed.1 = true) : plantSeeds table = table := by
  unfold plantSeeds
  generalize seeds = planted at h ⊢
  induction planted with
  | nil => rfl
  | cons seed rest ih =>
    rw [List.foldl_cons, if_pos (h seed List.mem_cons_self)]
    exact ih fun other hother => h other (List.mem_cons_of_mem _ hother)

/-- A store as opening leaves it: every table exists, and so does every seeded counter. -/
structure Store.Open (s : Store) : Prop where
  tables : ∃ sequences rows byHash byBucket,
    s = ⟨some sequences, some rows, some byHash, some byBucket⟩
  seeded : ∀ seed ∈ seeds, s.counters.contains seed.1 = true

/-- Opening an open store again changes nothing. -/
theorem Store.Open.opened_eq {s : Store} (h : s.Open) : s.opened = s := by
  have hplanted : plantSeeds s.counters = s.counters := plantSeeds_eq h.seeded
  obtain ⟨sequences, rows, byHash, byBucket, rfl⟩ := h.tables
  rw [counters, Option.getD_some] at hplanted
  unfold opened
  simp only [Option.getD_some, hplanted]

theorem Store.Consistent.isOpen {s : Store} (h : s.Consistent) : s.Open :=
  ⟨h.tables_eq, h.seeded⟩

theorem Store.Consistent.opened_eq {s : Store} (h : s.Consistent) : s.opened = s :=
  h.isOpen.opened_eq

/-- A store that was opened for the first time holds nothing and lists nothing. -/
theorem Store.fresh_consistent : Store.fresh.Consistent := by
  have hempty : ∀ id, Store.fresh.find id = .ok none := fun _ => rfl
  have hholds : ∀ r, ¬ Store.fresh.Holds r := by
    intro r hr
    rw [Store.Holds, hempty] at hr
    cases hr
  refine ⟨⟨_, rfl⟩, by decide, ⟨_, rfl⟩, fun id => ⟨none, hempty id⟩, fun axis => ?_,
    fun r hr => ?_⟩
  · refine ⟨.empty, by cases axis <;> rfl, ?_⟩
    intro e
    rw [Table.contains_empty]
    constructor
    · intro h
      cases h
    · rintro ⟨r, hr, -⟩
      exact absurd hr (hholds r)
  · exact absurd hr (hholds r)

/-! ## Sound operations -/

namespace Access

variable {α β : Type}

/-- From a consistent store to a consistent store, without a report of damage. -/
abbrev Sound (access : Access α) : Prop :=
  Keeps Backing.Consistent (fun e => ¬ e.IsDamage) access

/-- An operation on stores that is sound on each of them. -/
theorem Sound.of_embedded {access : Access α}
    (h : ∀ s : Store, s.Consistent → (access.on (.embedded s)).2.Consistent ∧
      ∀ e, (access.on (.embedded s)).1 = .error e → ¬ e.IsDamage) : Sound access := by
  intro b hb
  obtain ⟨s, rfl, hs⟩ := hb.embedded
  exact h s hs

/-- An operation that does not even change the counters. -/
theorem Sound.of_counts {access : Access α}
    (h : ∀ table, Keeps (Backing.Counts table) (fun e => ¬ e.IsDamage) access) :
    Sound access := by
  apply Sound.of_embedded
  intro s hs
  obtain ⟨⟨s', hs', hkept, -⟩, hundamaged⟩ := h s.sequences (.embedded s) ⟨s, rfl, hs, rfl⟩
  rw [hs']
  exact ⟨hkept, hundamaged⟩

/-- An operation that succeeds on consistent stores and does not change them. -/
theorem Sound.of_ok {access : Access α}
    (h : ∀ s : Store, s.Consistent → ∃ a, access.on (.embedded s) = (.ok a, .embedded s)) :
    Sound access := by
  apply Sound.of_embedded
  intro s hs
  obtain ⟨a, ha⟩ := h s hs
  rw [ha]
  exact ⟨hs, fun e he => by cases he⟩

/-- Looking at consistent stores for what is always found. -/
theorem Sound.read {look : Store → Except Error α}
    (h : ∀ s : Store, s.Consistent → ∃ a, look s = .ok a) : Sound (read look) :=
  Sound.of_ok fun s hs =>
    have ⟨a, ha⟩ := h s hs
    ⟨a, by rw [on_read_embedded, ha]⟩

end Access

open Access

/-! ## The calls of a registry -/

theorem Sequence.current_sound (limit : Nat) (name : String) : Sound (current limit name) :=
  Keeps.bind
    (Keeps.check fun _ he => Error.IsDenial.not_isDamage (Or.inl (checkName_error he)))
    fun _ => Sound.read fun _ hs => hs.counter_eq name

theorem Sequence.allocateBlock_sound (limit : Nat) (name : String) (count : UInt32) :
    Sound (allocateBlock limit name count) := by
  apply Sound.of_embedded
  intro s hs
  rcases allocateBlock_cases limit name count s with
    ⟨e, hfails, hdenied⟩ | ⟨block, last, hblock, -⟩
  · rw [hfails]
    refine ⟨hs, ?_⟩
    intro e' he
    injection he with he
    exact he ▸ hdenied.not_isDamage
  · rw [hblock]
    exact ⟨hs.advanced name last, fun e he => by cases he⟩

theorem Sequence.allocateNext_sound (limit : Nat) (name : String) :
    Sound (allocateNext limit name) :=
  Keeps.bind (allocateBlock_sound limit name 1) fun _ => Keeps.pure _

theorem Generator.next_sound (g : Generator) : Sound g.next := by
  apply Sound.of_embedded
  intro s hs
  rcases g.next_cases s with
    ⟨e, -, hfails, hdenied⟩ | ⟨value, rest, -, hnext⟩ | ⟨value, rest, last, -, hnext, -⟩
  · rw [hfails]
    refine ⟨hs, ?_⟩
    intro e' he
    injection he with he
    exact he ▸ hdenied.not_isDamage
  · rw [hnext]
    exact ⟨hs, fun e he => by cases he⟩
  · rw [hnext]
    exact ⟨hs.advanced _ _, fun e he => by cases he⟩

theorem IdFormat.validate_error {format : IdFormat} {e : Error} (h : format.validate = .error e) :
    e.IsRefusal := by
  unfold validate at h
  split at h
  next => cases h
  all_goals
    split at h
    all_goals cases h
    trivial

/-- A generator is refused for its arguments alone. -/
theorem Generator.make_error {limit : Nat} {sequence : String} {format : IdFormat}
    {blockSize : UInt32} {e : Error} (h : make limit sequence format blockSize = .error e) :
    e.IsRefusal := by
  simp only [make, Draft.throw_eq_error, Draft.error_bind] at h
  split at h
  next => cases h; trivial
  next =>
    split at h
    next => cases h; trivial
    next =>
      cases hformat : format.validate with
      | ok _ => rw [hformat] at h; cases h
      | error e' =>
        rw [hformat] at h
        injection h with h
        exact h ▸ IdFormat.validate_error hformat

theorem Generator.nextId_sound (g : Generator) : Sound (nextId.of g) := by
  rw [nextId_of]
  exact Keeps.bind g.next_sound fun _ => Keeps.pure _

namespace Registry

/-! Changes of resources leave the counters alone. -/

variable {table : Option SequenceTable}

theorem create_counts (r : Resource) :
    Keeps (Backing.Counts table) (fun e => ¬ e.IsDamage) (create r) := by
  rintro b ⟨s, rfl, hs, hsequences⟩
  rcases create_cases hs r with ⟨e, hfails, hcause⟩ | ⟨hadds, hhold, hfree, hwell⟩
  · -- the resource was refused, and none of the reasons for that is damage
    rw [hfails]
    refine ⟨⟨s, rfl, hs, hsequences⟩, ?_⟩
    intro e' he
    injection he with he
    rw [← he]
    rcases hcause with hrefusal | rfl | ⟨rfl, -⟩
    · exact Error.IsDenial.not_isDamage (Or.inl hrefusal)
    · exact id
    · exact id
  · rw [hadds]
    exact ⟨⟨_, rfl, hs.adding hhold hfree hwell, hsequences⟩, fun e he => by cases he⟩

theorem delete_counts (id : String) :
    Keeps (Backing.Counts table) (fun e => ¬ e.IsDamage) (delete id) := by
  rintro b ⟨s, rfl, hs, hsequences⟩
  rcases delete_cases hs id with ⟨-, hnone⟩ | ⟨r, hr, -, hdrops⟩
  · rw [hnone]
    exact ⟨⟨s, rfl, hs, hsequences⟩, fun e he => by cases he⟩
  · rw [hdrops]
    exact ⟨⟨_, rfl, hs.dropping hr, hsequences⟩, fun e he => by cases he⟩

theorem foldl_dropping_sequences (s : Store) (old : List Resource) :
    (old.foldl Store.dropping s).sequences = s.sequences := by
  induction old generalizing s with
  | nil => rfl
  | cons r rest ih => exact ih (s.dropping r)

theorem purge_counts (cutoff : Int64) :
    Keeps (Backing.Counts table) (fun e => ¬ e.IsDamage) (purge cutoff) := by
  rintro b ⟨s, rfl, hs, hsequences⟩
  obtain ⟨hheld, hnodup⟩ := outdated_held hs cutoff
  rw [purge_on hs]
  exact ⟨⟨_, rfl, (hs.foldl_dropping hheld hnodup).1,
    (foldl_dropping_sequences _ _).trans hsequences⟩, fun e he => by cases he⟩

theorem create_sound (r : Resource) : Sound (create r) :=
  Sound.of_counts fun _ => create_counts r

theorem delete_sound (id : String) : Sound (delete id) :=
  Sound.of_counts fun _ => delete_counts id

theorem purge_sound (cutoff : Int64) : Sound (purge cutoff) :=
  Sound.of_counts fun _ => purge_counts cutoff

end Registry

theorem Registry.health_sound : Sound health :=
  Sound.of_ok fun _ hs => ⟨_, health_on hs⟩

theorem Registry.get_sound (id : String) : Sound (get id) :=
  Sound.of_ok fun _ hs => get_on hs id

theorem Registry.page_sound (scope : Scope) (request : PageRequest) :
    Sound (page scope request) :=
  Sound.of_ok fun _ hs => page_on hs scope request

theorem Registry.findDuplicate_sound (bucket hash : String) :
    Sound (findDuplicate bucket hash) :=
  Sound.of_ok fun _ hs => ⟨_, findDuplicate_on hs bucket hash⟩

theorem Walk.next_sound (w : Walk) : Sound w.next :=
  Sound.of_ok fun _ hs =>
    have ⟨_, _, hnext, _⟩ := next_on hs w
    ⟨_, hnext⟩

theorem Walk.collect_sound (w : Walk) : Sound w.collect :=
  Sound.of_ok fun _ hs => ⟨_, collect_on hs w⟩

end ObjectRegistry
