import ObjectRegistry.Proofs.Steps

/-!
# The life of an id

An id comes to life when a resource is created under it and dies when that resource is removed, by
its id or by a purge. The events of a run are read off its answers (`Session.events`): a creation
that succeeded counts with the resource that was offered, a removal with the resource that it
answered. So the two sides of a life are put down by different calls, and that they name the same
resource is something to prove.

Whatever is done, the events of one id are whole lives one after the other, and one more creation if
the id is taken at the end (`Event.Follow`). The form composes, so a run is put together from its
steps. In front of the steps stand the calls; each either leaves the id alone or carries it on by
one event.
-/

namespace ObjectRegistry

open Access

/-- What becomes of an id. -/
inductive Event where
  | created (r : Resource)
  | removed (r : Resource)
  deriving DecidableEq

namespace Event

/-- The id of an event. -/
def id : Event → String
  | .created r | .removed r => r.id

/-- The events of one id. -/
def about (id : String) (events : List Event) : List Event :=
  events.filter fun e => e.id = id

/-- A life, from its first event to its last. -/
def life (r : Resource) : List Event := [.created r, .removed r]

/-- The events of an id that lead from one occupant to another. With the creation of the first they
are whole lives, and the creation of the last. -/
def Follow (before : Option Resource) (events : List Event) (after : Option Resource) : Prop :=
  ∃ lives : List Resource,
    before.toList.map created ++ events = lives.flatMap life ++ after.toList.map created

variable {x y z : Option Resource} {es fs : List Event}

theorem Follow.refl (x : Option Resource) : Follow x [] x :=
  ⟨[], List.append_nil _⟩

theorem Follow.creation (r : Resource) : Follow none [created r] (some r) :=
  ⟨[], rfl⟩

theorem Follow.removal (r : Resource) : Follow (some r) [removed r] none :=
  ⟨[r], rfl⟩

theorem Follow.trans (h : Follow x es y) (h' : Follow y fs z) : Follow x (es ++ fs) z := by
  obtain ⟨lives, hlives⟩ := h
  obtain ⟨more, hmore⟩ := h'
  refine ⟨lives ++ more, ?_⟩
  -- the creation of `y` closes the first part and opens the second
  calc x.toList.map created ++ (es ++ fs)
      = lives.flatMap life ++ (y.toList.map created ++ fs) := by
        rw [← List.append_assoc, hlives, List.append_assoc]
    _ = (lives ++ more).flatMap life ++ z.toList.map created := by
        rw [hmore, List.flatMap_append, List.append_assoc]

theorem about_append (id : String) (es fs : List Event) :
    about id (es ++ fs) = about id es ++ about id fs :=
  List.filter_append es fs

theorem about_self (e : Event) {id : String} (h : e.id = id) : about id [e] = [e] := by
  simp [about, h]

theorem about_other (e : Event) {id : String} (h : e.id ≠ id) : about id [e] = [] := by
  simp [about, h]

end Event

open Event (Follow about about_append about_self about_other)

/-! ## Occupants -/

namespace Store

/-- The resource under an id. -/
def occupant (s : Store) (id : String) : Option Resource :=
  match s.find id with
  | .ok found => found
  | .error _ => none

variable {s : Store} {r : Resource}

theorem Consistent.find_eq (h : s.Consistent) (id : String) :
    s.find id = .ok (s.occupant id) := by
  obtain ⟨found, hfound⟩ := h.readable id
  rw [occupant, hfound]

theorem Holds.occupant_eq (hr : s.Holds r) : s.occupant r.id = some r := by
  have hfound : s.find r.id = .ok (some r) := hr
  rw [occupant, hfound]

theorem Consistent.holds_iff (h : s.Consistent) {id : String} :
    s.occupant id = some r ↔ s.Holds r ∧ r.id = id := by
  rw [← find_eq_some_iff, h.find_eq]
  constructor
  · intro ho
    rw [ho]
  · intro ho
    injection ho

/-- An id is taken if there is a row under it. -/
theorem Consistent.contains_iff (h : s.Consistent) (id : String) :
    s.records.contains id = true ↔ (s.occupant id).isSome = true := by
  obtain ⟨table, hrows⟩ := h.rowing
  have hfound := h.find_eq id
  rw [find_eq_load hrows, load] at hfound
  rw [records_eq hrows, Table.contains]
  cases hrow : table.get? id with
  | none =>
    rw [hrow] at hfound
    injection hfound with hfound
    rw [← hfound]
    rfl
  | some bytes =>
    -- the row can be read, so there is a resource in it
    rw [hrow] at hfound
    cases hread : readRecord id bytes with
    | error e => simp [hread, Except.map] at hfound
    | ok r =>
      simp only [hread, Except.map] at hfound
      injection hfound with hfound
      rw [← hfound]
      rfl

theorem Consistent.occupant_adding (h : s.Consistent) (hhold : r.record.Holdable) (id : String) :
    (s.adding r).occupant id = if id = r.id then some r else s.occupant id := by
  obtain ⟨table, hrows⟩ := h.rowing
  rw [occupant, find_adding hrows hhold]
  by_cases hid : id = r.id
  · rw [if_pos hid, if_pos hid]
  · rw [if_neg hid, if_neg hid]
    rfl

theorem Consistent.occupant_dropping (h : s.Consistent) (id : String) :
    (s.dropping r).occupant id = if id = r.id then none else s.occupant id := by
  obtain ⟨table, hrows⟩ := h.rowing
  rw [occupant, find_dropping hrows]
  by_cases hid : id = r.id
  · rw [if_pos hid, if_pos hid]
  · rw [if_neg hid, if_neg hid]
    rfl

theorem Consistent.occupant_foldl_dropping (h : s.Consistent) {old : List Resource}
    (hheld : ∀ r ∈ old, s.Holds r) (hnodup : old.Nodup) (id : String) :
    (old.foldl Store.dropping s).occupant id = (s.occupant id).filter (· ∉ old) := by
  obtain ⟨hend, hleft⟩ := h.foldl_dropping hheld hnodup
  apply Option.ext
  intro r
  rw [hend.holds_iff, hleft, Option.filter_eq_some_iff, h.holds_iff, decide_eq_true_eq]
  exact and_right_comm

end Store

/-! ## Calls -/

namespace Registry

variable {s : Store} {r : Resource}

/-- **A resource that may be offered** is created if its id is free, and else refused without a
trace. -/
theorem create_valid (h : s.Consistent) (hvalid : r.validate = .ok ())
    (hhold : r.record.Holdable) :
    (create r).on (.embedded s) =
      if (s.occupant r.id).isSome then (.error (.duplicateId r.id), .embedded s)
      else (.ok r, .embedded (s.adding r)) := by
  unfold create
  rw [hvalid, on_bind_ok (on_check _ _)]
  have hwrite := s.write_insert r
  rw [if_neg (not_not.2 hhold)] at hwrite
  by_cases htaken : (s.occupant r.id).isSome = true
  · rw [if_pos ((h.contains_iff r.id).2 htaken)] at hwrite
    rw [if_pos htaken]
    refine on_bind_error ?_ _
    rw [on_write_embedded, hwrite]
  · rw [if_neg fun hcontained => htaken ((h.contains_iff r.id).1 hcontained)] at hwrite
    rw [if_neg htaken]
    refine on_bind_ok (a := ()) ?_ _
    rw [on_write_embedded, hwrite]

/-- What a creation answers is what was offered. -/
theorem create_answer {r created : Resource} {b b' : Backing}
    (h : (create r).on b = (.ok created, b')) : created = r := by
  unfold create at h
  rw [on_bind] at h
  split at h
  next =>
    rw [on_bind] at h
    split at h
    next =>
      cases h
      rfl
    next => cases h
  next => cases h

/-- Creating a resource fails, or is an event of its id. -/
theorem create_follow (h : s.Consistent) (r : Resource) (id : String) :
    (∃ e, (create r).on (.embedded s) = (.error e, .embedded s)) ∨
    ∃ s', (create r).on (.embedded s) = (.ok r, .embedded s') ∧ s'.Consistent ∧
      Follow (s.occupant id) (about id [.created r]) (s'.occupant id) := by
  rcases create_cases h r with ⟨e, hfails, -⟩ | ⟨hadds, hhold, hfree, hwell⟩
  · exact Or.inl ⟨e, hfails⟩
  · right
    refine ⟨s.adding r, hadds, h.adding hhold hfree hwell, ?_⟩
    rw [h.occupant_adding hhold]
    by_cases hid : id = r.id
    · have hnone : s.occupant id = none := by rw [Store.occupant, hid, hfree]
      rw [if_pos hid, hnone, about_self (.created r) hid.symm]
      exact Follow.creation r
    · rw [if_neg hid, about_other (.created r) (Ne.symm hid)]
      exact Follow.refl _

/-- Removing an id finds nothing, or is an event of the id. -/
theorem delete_follow (h : s.Consistent) (gone id : String) :
    (delete gone).on (.embedded s) = (.ok none, .embedded s) ∨
    ∃ r s', (delete gone).on (.embedded s) = (.ok (some r), .embedded s') ∧
      Follow (s.occupant id) (about id [.removed r]) (s'.occupant id) := by
  rcases delete_cases h gone with ⟨-, hnone⟩ | ⟨r, hr, -, hdrops⟩
  · exact Or.inl hnone
  · right
    refine ⟨r, s.dropping r, hdrops, ?_⟩
    rw [h.occupant_dropping]
    by_cases hid : id = r.id
    · rw [if_pos hid, about_self (.removed r) hid.symm, hid, hr.occupant_eq]
      exact Follow.removal r
    · rw [if_neg hid, about_other (.removed r) (Ne.symm hid)]
      exact Follow.refl _

/-- Removals under other ids. -/
theorem about_removed_nil {rs : List Resource} {id : String} (h : ∀ r ∈ rs, r.id ≠ id) :
    about id (rs.map .removed) = [] := by
  apply List.filter_eq_nil_iff.2
  intro e he
  obtain ⟨r, hr, rfl⟩ := List.mem_map.1 he
  exact fun hid => h r hr (of_decide_eq_true hid)

/-- Of resources with different ids, at most one has a given id. -/
theorem about_removed {rs : List Resource} (h : (rs.map Resource.id).Nodup) {r : Resource}
    (hr : r ∈ rs) : about r.id (rs.map .removed) = [.removed r] := by
  induction rs with
  | nil => cases hr
  | cons x rest ih =>
    rw [List.map_cons, List.nodup_cons] at h
    rw [List.map_cons, ← List.singleton_append, about_append]
    rcases List.mem_cons.1 hr with rfl | hrest
    · have hothers : about r.id (rest.map .removed) = [] :=
        about_removed_nil fun y hy hid => h.1 (hid ▸ List.mem_map_of_mem hy)
      rw [about_self (.removed r) (rfl : r.id = r.id), hothers]
      rfl
    · have hne : x.id ≠ r.id := fun hid => h.1 (hid ▸ List.mem_map_of_mem hrest)
      rw [about_other (.removed x) hne, ih h.2 hrest]
      rfl

/-- Dropping resources is an event of each of their ids. -/
theorem dropping_follow (h : s.Consistent) {old rs : List Resource}
    (hheld : ∀ r ∈ old, s.Holds r) (hnodup : old.Nodup) (hids : (rs.map Resource.id).Nodup)
    (hmem : ∀ r, r ∈ rs ↔ r ∈ old) (id : String) :
    Follow (s.occupant id) (about id (rs.map .removed))
      ((old.foldl Store.dropping s).occupant id) := by
  rw [h.occupant_foldl_dropping hheld hnodup]
  cases hbefore : s.occupant id with
  | none =>
    have hnot : ∀ r ∈ rs, r.id ≠ id := by
      intro r hr hid
      rw [← hid, (hheld r ((hmem r).1 hr)).occupant_eq] at hbefore
      cases hbefore
    rw [about_removed_nil hnot]
    exact Follow.refl none
  | some r =>
    obtain ⟨hr, rfl⟩ := h.holds_iff.1 hbefore
    by_cases hold : r ∈ old
    · rw [about_removed hids ((hmem r).2 hold), Option.filter_some_neg (by simp [hold])]
      exact Follow.removal r
    · -- what else is dropped has another id
      have hnot : ∀ x ∈ rs, x.id ≠ r.id := by
        intro x hx hid
        have hx := (hmem x).1 hx
        exact hold ((hheld x hx).eq_of_id_eq hr hid ▸ hx)
      rw [about_removed_nil hnot, Option.filter_some_pos (by simp [hold])]
      exact Follow.refl _

/-- A purge is an event of every id under which something outdated is found. -/
theorem purge_follow (h : s.Consistent) (cutoff : Int64) (id : String) :
    ∃ rs s', (purge cutoff).on (.embedded s) = (.ok rs, .embedded s') ∧
      Follow (s.occupant id) (about id (rs.map .removed)) (s'.occupant id) := by
  obtain ⟨hheld, hnodup⟩ := outdated_held h cutoff
  have hids : ((Store.inOrder (Store.outdated cutoff s.stored)).map Resource.id).Nodup := by
    have hold : ((Store.outdated cutoff s.stored).map Resource.id).Nodup :=
      h.nodup_stored.sublist (List.filter_sublist.map _)
    exact ((List.mergeSort_perm _ _).map Resource.id).nodup_iff.2 hold
  exact ⟨_, _, purge_on h cutoff,
    dropping_follow h hheld hnodup hids (fun _ => Store.mem_inOrder) id⟩

end Registry

/-! ## Steps -/

namespace Session

/-- The resources that a number of callers created under an id, in turn. -/
def admitted (s : Session) (id : String) (callers : Nat) : List Resource :=
  granted (Access.inTurn (fun _ => true) ((contenders id callers).map Registry.create) s.backing).1

/-- The events of a step, read off its answer. Only of callers at once the answer does not tell
whose offer was accepted. -/
def events (s : Session) (step : Step) : List Event :=
  match step, (s.step step).1 with
  | .create r, .ok _ => [.created r]
  | .createNow r, .ok _ => [.created { r with createTime := s.now }]
  | .createSeries series, .ok (.created n) | .createSeries series, .error (.afterCreating _ n) =>
    (List.range n).map fun k => .created (member series k)
  | .createTogether id callers, _ => (s.admitted id callers).map .created
  | .delete _, .ok (.maybeResource (some r)) => [.removed r]
  | .purge _, .ok (.resources rs) => rs.map .removed
  | _, _ => []

/-- The events of a run. -/
def history : List Step → Session → List Event
  | [], _ => []
  | step :: rest, s => s.events step ++ history rest (s.step step).2

variable {s : Session} {store : Store}

/-- An outcome in which an id goes on by some events. -/
def Lives (id : String) (store : Store) (events : List Event) (b : Backing) : Prop :=
  ∃ store', b = .embedded store' ∧ Follow (store.occupant id) (about id events)
    (store'.occupant id)

theorem Lives.refl (id : String) (store : Store) : Lives id store [] (.embedded store) :=
  ⟨store, rfl, Follow.refl _⟩

theorem create_lives (hstore : s.backing = .embedded store) (h : store.Consistent)
    (r : Resource) (id : String) :
    (∃ e, s.perform (Registry.create r) .resource = (.error (.error e), s)) ∨
    ∃ b, s.perform (Registry.create r) .resource = (.ok (.resource r), { s with backing := b }) ∧
      Lives id store [.created r] b := by
  unfold perform
  rw [hstore]
  rcases Registry.create_follow h r id with ⟨e, hfails⟩ | ⟨store', hcreates, -, hfollow⟩
  · left
    refine ⟨e, ?_⟩
    rw [hfails, ← hstore]
  · right
    refine ⟨.embedded store', ?_, store', rfl, hfollow⟩
    rw [hcreates]

/-- **Creations in turn** carry every id on by those that succeed, whoever else fails. -/
theorem inTurn_lives (h : store.Consistent) (goesOn : Except Error Resource → Bool)
    (offers : List Resource) (id : String) :
    Lives id store
      ((granted (Access.inTurn goesOn (offers.map Registry.create) (.embedded store)).1).map
        .created)
      (Access.inTurn goesOn (offers.map Registry.create) (.embedded store)).2 := by
  induction offers generalizing store with
  | nil => exact Lives.refl id store
  | cons r rest ih =>
    rw [List.map_cons]
    unfold Access.inTurn
    rcases Registry.create_follow h r id with ⟨e, hfails⟩ | ⟨store', hcreates, hcons, hfollow⟩
    · -- a refused offer leaves the store to the next
      rw [hfails]
      simp only
      split
      · exact ih h
      · exact Lives.refl id store
    · rw [hcreates]
      simp only
      split
      · obtain ⟨store'', hend, hrest⟩ := ih hcons
        refine ⟨store'', hend, ?_⟩
        show Follow _ (about id ([.created r] ++ _)) _
        rw [about_append]
        exact hfollow.trans hrest
      · exact ⟨store', rfl, hfollow⟩

/-- Creations that end with the first failure succeed for the first offers. -/
theorem granted_prefix (offers : List Resource) (b : Backing) :
    granted (Access.inTurn Except.isOk (offers.map Registry.create) b).1 <+: offers := by
  induction offers generalizing b with
  | nil => exact List.prefix_rfl
  | cons r rest ih =>
    rw [List.map_cons]
    unfold Access.inTurn
    rcases hcreate : (Registry.create r).on b with ⟨e | created, b'⟩
    · exact List.nil_prefix
    · obtain rfl : created = r := Registry.create_answer hcreate
      exact List.prefix_cons_inj created |>.2 (ih b')

/-- The members of a series that were created are the first ones. -/
theorem granted_members (series : Series) (b : Backing) :
    let created := granted (Access.inTurn Except.isOk ((members series).map Registry.create) b).1
    created = (List.range created.length).map (member series) := by
  intro created
  have hfirst : created <+: members series := granted_prefix (members series) b
  have hle : created.length ≤ series.count := by
    have hle := hfirst.length_le
    rwa [members, List.length_map, List.length_range] at hle
  calc created = (members series).take created.length := List.prefix_iff_eq_take.1 hfirst
    _ = (List.range created.length).map (member series) := by
      rw [members, ← List.map_take, List.take_range, Nat.min_eq_left hle]

/-- A consistent store with some rows. -/
def Rows (rows : Option ResourceTable) (b : Backing) : Prop :=
  ∃ s : Store, b = .embedded s ∧ s.Consistent ∧ s.resources = rows

/-- What is no change to resources keeps the rows. -/
theorem respects_rows {step : Step} (hchange : ¬ step.IsChange) (rows : Option ResourceTable) :
    step.Respects (Rows rows) where
  reserves := Backing.OnReserve.over fun name last h _ => ⟨h.1.advanced name last, h.2⟩
  changes h := absurd h hchange
  opens s hb := by
    obtain ⟨s', hs', hs, hrows⟩ := hb
    cases hs'
    exact ⟨s.opened, rfl, hs.opened_eq.symm ▸ hs, hs.opened_eq.symm ▸ hrows⟩

/-- What is no change to resources is no event. -/
theorem events_eq_nil {step : Step} (hchange : ¬ step.IsChange) : s.events step = [] := by
  cases step
  case create => exact absurd trivial hchange
  case createNow => exact absurd trivial hchange
  case createSeries => exact absurd trivial hchange
  case createTogether => exact absurd trivial hchange
  case delete => exact absurd trivial hchange
  case purge => exact absurd trivial hchange
  all_goals rfl

/-- **A step carries every id on** by the events it makes of it. -/
theorem step_lives (hstore : s.backing = .embedded store) (h : store.Consistent) (step : Step)
    (hchecked : step.Checked) (id : String) :
    Lives id store (s.events step) (s.step step).2.backing := by
  by_cases hchange : step.IsChange
  · cases step with
    | create r =>
      rcases create_lives hstore h r id with ⟨e, hfails⟩ | ⟨b, hcreates, hlives⟩
      · simp only [events, Session.step, hfails]
        exact hstore ▸ Lives.refl id store
      · simp only [events, Session.step, hcreates]
        exact hlives
    | createNow r =>
      rcases create_lives hstore h { r with createTime := s.now } id with
        ⟨e, hfails⟩ | ⟨b, hcreates, hlives⟩
      · simp only [events, Session.step, hfails]
        exact hstore ▸ Lives.refl id store
      · simp only [events, Session.step, hcreates]
        exact hlives
    | createSeries series =>
      have hlives := inTurn_lives h Except.isOk (members series) id
      have hmembers := granted_members series (.embedded store)
      simp only at hmembers
      rw [hmembers, List.map_map] at hlives
      simp only [events, Session.step, performInTurn, together, hstore]
      -- the answer counts the members that were created, whether one failed or not
      cases firstFailure (Access.inTurn Except.isOk ((members series).map Registry.create)
        (.embedded store)).1 with
      | none => exact hlives
      | some e => exact hlives
    | createTogether offered callers =>
      simp only [events, admitted, Session.step, performInTurn, hstore]
      exact inTurn_lives h _ (contenders offered callers) id
    | delete gone =>
      simp only [events, Session.step, perform, hstore]
      rcases Registry.delete_follow h gone id with hnone | ⟨r, store', hdrops, hfollow⟩
      · rw [hnone]
        exact Lives.refl id store
      · rw [hdrops]
        exact ⟨store', rfl, hfollow⟩
    | purge cutoff =>
      obtain ⟨rs, store', hpurges, hfollow⟩ := Registry.purge_follow h cutoff id
      simp only [events, Session.step, perform, hstore, hpurges]
      exact ⟨store', rfl, hfollow⟩
    | _ => exact hchange.elim
  · obtain ⟨store', hstore', -, hrows⟩ :=
      step_keeps (P := Rows store.resources) ⟨store, hstore, h, rfl⟩ step hchecked
        (respects_rows hchange _)
    -- the rows decide who is there
    have hsame : store'.occupant id = store.occupant id := by
      unfold Store.occupant Store.find
      rw [hrows]
    rw [events_eq_nil hchange]
    exact ⟨store', hstore', hsame ▸ Follow.refl _⟩

/-- A run carries every id on by the events of its steps. -/
theorem run_lives {steps : List Step} (hchecked : ∀ step ∈ steps, step.Checked) (id : String) :
    ∀ {s : Session} {store : Store}, s.backing = .embedded store → store.Consistent →
      Lives id store (history steps s) (run steps s).2.backing := by
  induction steps with
  | nil => exact fun hstore _ => ⟨_, hstore, Follow.refl _⟩
  | cons step rest ih =>
    intro s store hstore h
    have hstep := hchecked step List.mem_cons_self
    have hkept : (s.step step).2.backing.Consistent :=
      (step_healthy (hstore ▸ h) step hstep).1
    obtain ⟨store', hstore', hfollow⟩ := step_lives hstore h step hstep id
    rw [hstore'] at hkept
    obtain ⟨store'', hstore'', hrest⟩ :=
      ih (fun x hx => hchecked x (List.mem_cons_of_mem _ hx)) hstore' hkept
    refine ⟨store'', hstore'', ?_⟩
    rw [history, about_append]
    exact hfollow.trans hrest

/-! ## Runs over a fresh store -/

/-- A resource that may be offered under an id. -/
def Offer (id : String) (r : Resource) : Prop :=
  r.id = id ∧ r.validate = .ok () ∧ r.record.Holdable

/-- An offer under a taken id is refused, and nothing else happens. -/
theorem create_taken (hstore : s.backing = .embedded store) (h : store.Consistent) {id : String}
    {r : Resource} (hr : Offer id r) (htaken : (store.occupant id).isSome) :
    s.step (.create r) = (.error (.error (.duplicateId id)), s) := by
  obtain ⟨rfl, hvalid, hhold⟩ := hr
  have hcreate := Registry.create_valid h hvalid hhold
  rw [if_pos htaken, ← hstore] at hcreate
  simp only [Session.step, perform, hcreate]

/-- An offer under a free id is accepted, and takes it. -/
theorem create_free (hstore : s.backing = .embedded store) (h : store.Consistent) {id : String}
    {r : Resource} (hr : Offer id r) (hfree : store.occupant id = none) :
    (s.step (.create r)).1 = .ok (.resource r) ∧
      ∃ store', (s.step (.create r)).2.backing = .embedded store' ∧ store'.Consistent ∧
        (store'.occupant id).isSome := by
  obtain ⟨rfl, hvalid, hhold⟩ := hr
  have hcreate := Registry.create_valid h hvalid hhold
  have hnot : ¬ (store.occupant r.id).isSome = true := by simp [hfree]
  rw [if_neg hnot] at hcreate
  simp only [Session.step, perform, hstore, hcreate, true_and]
  have hfound : store.find r.id = .ok none := by rw [h.find_eq, hfree]
  refine ⟨store.adding r, rfl, h.adding hhold hfound (Resource.validate_eq_ok_iff.1 hvalid), ?_⟩
  rw [h.occupant_adding hhold, if_pos rfl]
  rfl

/-- Offers under a taken id are all refused. -/
theorem run_taken (hstore : s.backing = .embedded store) (h : store.Consistent) {id : String}
    (htaken : (store.occupant id).isSome) {offers : List Resource}
    (hoffers : ∀ r ∈ offers, Offer id r) :
    run (offers.map .create) s = (offers.map fun _ => .error (.error (.duplicateId id)), s) := by
  induction offers with
  | nil => rfl
  | cons r rest ih =>
    have hrest := ih fun x hx => hoffers x (List.mem_cons_of_mem _ hx)
    rw [List.map_cons, run_cons, create_taken hstore h (hoffers r List.mem_cons_self) htaken, hrest]
    rfl

/-- **The life of an id.** Over a fresh store, whatever is done, the events of an id are lives one
after the other, each ended by the resource that it was begun with, and perhaps one begun and not
ended. Whoever lives at the end is found under the id. An offer under the id is refused exactly if
someone lives there, without a trace; and of offers under a free id the first is accepted and no
other. -/
theorem life_of_id (limits : Limits) (now : Int64) {steps : List Step}
    (hchecked : ∀ step ∈ steps, step.Checked) (id : String) :
    let s := (run steps (new limits now)).2
    ∃ (lives : List Resource) (present : Option Resource),
      about id (history steps (new limits now)) =
        lives.flatMap Event.life ++ present.toList.map .created ∧
      s.step (.get id) = (.ok (.maybeResource present), s) ∧
      (∀ r, Offer id r →
        ((∃ f, (s.step (.create r)).1 = .error f) ↔ present.isSome) ∧
        (present.isSome → s.step (.create r) = (.error (.error (.duplicateId id)), s))) ∧
      (present = none → ∀ first rest, (∀ r ∈ first :: rest, Offer id r) →
        (run ((first :: rest).map .create) s).1 =
          .ok (.resource first) :: rest.map fun _ => .error (.error (.duplicateId id))) := by
  intro s
  have hend := (run_healthy hchecked (s := new limits now) Store.fresh_consistent).1
  obtain ⟨store, hstore, lives, hlives⟩ :=
    run_lives hchecked id (s := new limits now) rfl Store.fresh_consistent
  have h : store.Consistent := by
    rw [hstore] at hend
    exact hend
  refine ⟨lives, store.occupant id, hlives, ?get, ?offer, ?race⟩
  case get =>
    have hget : (Registry.get id).on s.backing = (.ok (store.occupant id), s.backing) := by
      rw [hstore, Registry.get, on_read_embedded, h.find_eq]
    simp only [Session.step, perform, hget]
  case offer =>
    intro r hr
    refine ⟨⟨?_, fun htaken => ⟨_, congrArg Prod.fst (create_taken hstore h hr htaken)⟩⟩,
      create_taken hstore h hr⟩
    rintro ⟨f, hfails⟩
    -- under a free id the offer would have been accepted
    by_contra hfree
    have hnone : store.occupant id = none := Option.not_isSome_iff_eq_none.1 hfree
    rw [(create_free hstore h hr hnone).1] at hfails
    cases hfails
  case race =>
    intro hfree first rest hoffers
    obtain ⟨haccepted, store', hstore', h', htaken⟩ :=
      create_free hstore h (hoffers first List.mem_cons_self) hfree
    rw [List.map_cons, run_cons, run_taken hstore' h' htaken fun r hr =>
      hoffers r (List.mem_cons_of_mem _ hr), haccepted]

/-- An id that is purged, deleted and taken up again, with offers that find it taken between. -/
def rebirths : List Step :=
  [.create ⟨"a", "b", 5, "h", 1⟩, .create ⟨"a", "c", 6, "k", 2⟩, .purge 5,
    .create ⟨"a", "c", 6, "k", 2⟩, .reopen none none, .delete "a", .delete "a",
    .createTogether "a" 3]

theorem life_of_id_rebirths :
    (∀ step ∈ rebirths, step.Checked) ∧ Offer "a" ⟨"a", "d", 7, "k", 3⟩ ∧
      (run rebirths (new .standard 0)).2.step (.create ⟨"a", "d", 7, "k", 3⟩) =
        (.error (.error (.duplicateId "a")), (run rebirths (new .standard 0)).2) ∧
      ∃ lives : List Resource, about "a" (history rebirths (new .standard 0)) =
        lives.flatMap Event.life ++ [.created (contender "a" 2)] := by
  have hchecked : ∀ step ∈ rebirths, step.Checked := by simp [rebirths, Step.Checked]
  have hoffer : Offer "a" ⟨"a", "d", 7, "k", 3⟩ := ⟨rfl, rfl, by decide⟩
  obtain ⟨lives, present, hlives, hget, hoffers, -⟩ := life_of_id .standard 0 hchecked "a"
  have hpresent : present = some (contender "a" 2) := by
    have hanswer : ((run rebirths (new .standard 0)).2.step (.get "a")).1 =
        .ok (.maybeResource (some (contender "a" 2))) := rfl
    rw [hget] at hanswer
    injection hanswer with hanswer
    injection hanswer
  subst hpresent
  exact ⟨hchecked, hoffer, (hoffers _ hoffer).2 rfl, lives, hlives⟩

end Session

end ObjectRegistry
