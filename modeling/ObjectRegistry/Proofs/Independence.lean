import ObjectRegistry.Proofs.Steps

/-!
# Independent operations

Two operations on different objects can be served in either order: each answers the same, and the
store behind both is the same (`Session.served_in_any_order`). The argument is about what an
operation looks at and what it changes. What it answers, and what it does to the store, is settled
by the part of the store that its subject owns (`Subject.SameIn`, `Access.About`); and what it does
keeps to that part, so another subject does not notice (`Touches.sameIn`), and two such changes can
be swapped (`Touches.comm`).

Resources with different ids may share a hash, a bucket and a second. Their entries then stand side
by side in both indexes, but they are never the same entry, because an entry holds the id
(`Resource.entry_ne`). Nothing is assumed about the store: the tables may be damaged or missing.
-/

namespace ObjectRegistry

open Access

/-! ## Subjects -/

/-- What an operation is about. -/
inductive Subject where
  | resource (id : String)
  /-- All resources at once. -/
  | resources
  | sequence (name : String)
  deriving DecidableEq

namespace Subject

/-- Different objects: two ids, two names, or resources on one side and a sequence on the other. -/
def Apart : Subject → Subject → Prop
  | .resource x, .resource y => x ≠ y
  | .sequence x, .sequence y => x ≠ y
  | .resource _, .sequence _ | .resources, .sequence _ => True
  | .sequence _, .resource _ | .sequence _, .resources => True
  | .resource _, .resources | .resources, .resource _ | .resources, .resources => False

theorem Apart.symm {x y : Subject} (h : x.Apart y) : y.Apart x := by
  cases x <;> cases y <;> first | exact Ne.symm h | exact h

/-- The two stores hold the same of a subject. -/
def SameIn : Subject → Store → Store → Prop
  | .resource id, s, t => s.records.get? id = t.records.get? id
  | .resources, s, t => s.records = t.records
  | .sequence name, s, t => s.counters.get? name = t.counters.get? name

theorem SameIn.refl (x : Subject) (s : Store) : x.SameIn s s := by
  cases x <;> rfl

end Subject

/-! ## Changes that keep to a subject -/

/-- Resources with different ids have different entries, whatever else they share. -/
theorem Resource.entry_ne {r r' : Resource} (h : r.id ≠ r'.id) (axis : Axis) :
    r.entry axis ≠ r'.entry axis :=
  fun he => h (congrArg (fun e : IndexEntry => e.position.id) he)

namespace Store

variable {r r' : Resource}

theorem adding_comm (h : r.id ≠ r'.id) (s : Store) :
    (s.adding r).adding r' = (s.adding r').adding r := by
  simp only [adding, records, listed, index, Option.getD_some]
  rw [Table.insert_comm _ h, Table.insert_comm _ (Resource.entry_ne h .hash),
    Table.insert_comm _ (Resource.entry_ne h .bucket)]

theorem dropping_comm (r r' : Resource) (s : Store) :
    (s.dropping r).dropping r' = (s.dropping r').dropping r := by
  simp only [dropping, records, listed, index, Option.getD_some]
  rw [Table.erase_comm, Table.erase_comm _ (r.entry .hash), Table.erase_comm _ (r.entry .bucket)]

theorem adding_dropping_comm (h : r.id ≠ r'.id) (s : Store) :
    (s.adding r).dropping r' = (s.dropping r').adding r := by
  simp only [adding, dropping, records, listed, index, Option.getD_some]
  rw [Table.insert_erase_comm _ h, Table.insert_erase_comm _ (Resource.entry_ne h .hash),
    Table.insert_erase_comm _ (Resource.entry_ne h .bucket)]

theorem advanced_comm {name other : String} (h : name ≠ other) (last last' : Int64) (s : Store) :
    (s.advanced name last).advanced other last' = (s.advanced other last').advanced name last := by
  simp only [advanced, counters, Option.getD_some]
  rw [Table.insert_comm _ h]

theorem foldl_dropping_advanced (old : List Resource) (name : String) (last : Int64) (s : Store) :
    old.foldl dropping (s.advanced name last) = (old.foldl dropping s).advanced name last := by
  induction old generalizing s with
  | nil => rfl
  | cons r rest ih => exact ih (s.dropping r)

/-- The store with its rows dropped that a purge takes. -/
def purged (s : Store) (old : List Resource) : Store :=
  old.foldl dropping { s with resources := some s.records }

end Store

/-- A change of a store that keeps to a subject. -/
inductive Touches : Subject → (Store → Store) → Prop
  | nothing (x : Subject) : Touches x id
  | adding (r : Resource) : Touches (.resource r.id) fun s => s.adding r
  | dropping (r : Resource) : Touches (.resource r.id) fun s => s.dropping r
  | purging (old : List Resource) : Touches .resources fun s => s.purged old
  | advancing (name : String) (last : Int64) :
    Touches (.sequence name) fun s => s.advanced name last

namespace Touches

variable {x y : Subject} {f g : Store → Store}

/-- A purge leaves the counters alone. -/
theorem counters_purged (s : Store) (old : List Resource) :
    (s.purged old).counters = s.counters := by
  have hsame := Registry.foldl_dropping_sequences { s with resources := some s.records } old
  exact congrArg (fun sequences => sequences.getD .empty) hsame

/-- **Another subject does not notice the change.** -/
theorem sameIn (hf : Touches x f) (h : x.Apart y) (s : Store) : y.SameIn (f s) s := by
  cases hf with
  | nothing => exact Subject.SameIn.refl y s
  | adding r =>
    cases y with
    | resource id => exact Table.get?_insert_of_ne _ _ (Ne.symm h)
    | resources => exact h.elim
    | sequence name => rfl
  | dropping r =>
    cases y with
    | resource id =>
      show (s.records.erase r.id).get? id = s.records.get? id
      rw [Table.get?_erase, if_neg (Ne.symm h)]
    | resources => exact h.elim
    | sequence name => rfl
  | purging old =>
    cases y with
    | resource id => exact h.elim
    | resources => exact h.elim
    | sequence name => exact congrArg (fun t => Table.get? t name) (counters_purged s old)
  | advancing name last =>
    cases y with
    | resource id => rfl
    | resources => rfl
    | sequence other => exact Table.get?_insert_of_ne _ _ (Ne.symm h)

/-- **Changes of different subjects can be swapped.** -/
theorem comm (hf : Touches x f) (hg : Touches y g) (h : x.Apart y) (s : Store) :
    g (f s) = f (g s) := by
  cases hf with
  | nothing => rfl
  | adding r =>
    cases hg with
    | nothing => rfl
    | adding r' => exact Store.adding_comm h s
    | dropping r' => exact Store.adding_dropping_comm h s
    | purging old => exact h.elim
    | advancing name last => rfl
  | dropping r =>
    cases hg with
    | nothing => rfl
    | adding r' => exact (Store.adding_dropping_comm (Ne.symm h) s).symm
    | dropping r' => exact Store.dropping_comm r r' s
    | purging old => exact h.elim
    | advancing name last => rfl
  | purging old =>
    cases hg with
    | nothing => rfl
    | adding r' => exact h.elim
    | dropping r' => exact h.elim
    | purging old' => exact h.elim
    | advancing name last =>
      exact (Store.foldl_dropping_advanced old name last
        { s with resources := some s.records }).symm
  | advancing name last =>
    cases hg with
    | nothing => rfl
    | adding r' => rfl
    | dropping r' => rfl
    | purging old =>
      exact Store.foldl_dropping_advanced old name last { s with resources := some s.records }
    | advancing other last' => exact Store.advanced_comm h last last' s

end Touches

/-! ## Operations about a subject -/

namespace Access

variable {α β : Type} {x y : Subject}

/-- What the operation answers and does to a store is settled by what the store holds of the
subject, and what it does keeps to the subject. -/
structure About (x : Subject) (access : Access α) : Prop where
  unreachable : (access.on .unreachable).2 = .unreachable
  embedded : ∀ s, ∃ answer f, Touches x f ∧
    ∀ t, x.SameIn t s → access.on (.embedded t) = (answer, .embedded (f t))

/-- A write that does nothing but to answer. -/
theorem About.write {work : Draft (Ending α)}
    (h : ∀ s, ∃ answer f, Touches x f ∧ ∀ t, x.SameIn t s → t.write work = (answer, f t)) :
    About x (Access.write work) where
  unreachable := rfl
  embedded s := by
    obtain ⟨answer, f, hf, hwrite⟩ := h s
    refine ⟨answer, f, hf, fun t ht => ?_⟩
    rw [on_write_embedded, hwrite t ht]

/-- A check of the arguments looks at no store. -/
theorem About.of_check {result : Except Error β} {access : Access α} (h : About x access) :
    About x (check result >>= fun _ => access) := by
  cases result with
  | error e =>
    refine ⟨rfl, fun s => ⟨.error e, id, Touches.nothing x, ?_⟩⟩
    exact fun t _ => on_bind_error (on_check _ _) _
  | ok b => exact h

theorem About.map {access : Access α} (h : About x access) (f : α → β) :
    About x (access >>= fun a => pure (f a)) where
  unreachable := by
    have hsame := h.unreachable
    rw [on_bind]
    rcases hon : access.on .unreachable with ⟨e | a, b⟩ <;> rw [hon] at hsame <;> exact hsame
  embedded s := by
    obtain ⟨answer, change, hchange, hon⟩ := h.embedded s
    cases answer with
    | error e =>
      exact ⟨.error e, change, hchange, fun t ht => on_bind_error (hon t ht) _⟩
    | ok a => exact ⟨.ok (f a), change, hchange, fun t ht => on_bind_ok (hon t ht) _⟩

/-- **Operations on different objects** do not notice each other, and can be served in either
order. -/
theorem About.comm {a : Access α} {b : Access β} (ha : About x a) (hb : About y b)
    (h : x.Apart y) (backing : Backing) :
    (b.on (a.on backing).2).1 = (b.on backing).1 ∧
      (b.on (a.on backing).2).2 = (a.on (b.on backing).2).2 := by
  cases backing with
  | unreachable => rw [ha.unreachable, hb.unreachable, ha.unreachable]; exact ⟨rfl, rfl⟩
  | embedded s =>
    obtain ⟨answer, f, hf, hon⟩ := ha.embedded s
    obtain ⟨answer', g, hg, hon'⟩ := hb.embedded s
    rw [hon s (Subject.SameIn.refl x s), hon' s (Subject.SameIn.refl y s),
      hon' (f s) (hf.sameIn h s), hon (g s) (hg.sameIn h.symm s), hf.comm hg h s]
    exact ⟨rfl, rfl⟩

end Access

/-! ## The calls -/

/-- Creating is about the id of the new resource. -/
theorem Registry.create_about (r : Resource) : About (.resource r.id) (create r) := by
  refine About.of_check (About.map (About.write fun s => ?_) fun _ => r)
  by_cases hhold : r.record.Holdable
  · by_cases htaken : s.records.contains r.id = true
    · refine ⟨.error (.duplicateId r.id), id, Touches.nothing _, fun t ht => ?_⟩
      have htaken' : t.records.contains r.id = true := by rwa [Table.contains, ht]
      rw [Store.write_insert, if_neg (not_not.2 hhold), if_pos htaken']
      rfl
    · refine ⟨.ok (), _, Touches.adding r, fun t ht => ?_⟩
      have htaken' : ¬ t.records.contains r.id = true := by rwa [Table.contains, ht]
      rw [Store.write_insert, if_neg (not_not.2 hhold), if_neg htaken']
  · refine ⟨.error (.storage .unwritable), id, Touches.nothing _, fun t _ => ?_⟩
    rw [Store.write_insert, if_pos hhold]
    rfl

/-- A removal is about its id: the row decides what it answers and which entries it drops. -/
theorem Registry.delete_about (gone : String) : About (.resource gone) (delete gone) := by
  refine About.write fun s => ?_
  cases hrow : s.records.get? gone with
  | none =>
    refine ⟨.ok none, id, Touches.nothing _, fun t ht => ?_⟩
    rw [Store.write_remove, show t.records.get? gone = none from ht.trans hrow]
    rfl
  | some bytes =>
    cases hread : Store.readRecord gone bytes with
    | error e =>
      refine ⟨.error e, id, Touches.nothing _, fun t ht => ?_⟩
      rw [Store.write_remove, show t.records.get? gone = some bytes from ht.trans hrow]
      simp only [hread]
      rfl
    | ok r =>
      obtain rfl := Store.readRecord_id hread
      refine ⟨.ok (some r), _, Touches.dropping r, fun t ht => ?_⟩
      rw [Store.write_remove, show t.records.get? r.id = some bytes from ht.trans hrow]
      simp only [hread]

/-- A purge is about all resources. -/
theorem Registry.purge_about (cutoff : Int64) : About .resources (purge cutoff) := by
  refine About.write fun s => ?_
  have hsame : ∀ t, Subject.resources.SameIn t s → t.readAll = s.readAll :=
    fun t ht => by rw [Store.readAll, Store.readAll, show t.records = s.records from ht]
  cases hall : s.readAll with
  | error e =>
    refine ⟨.error e, id, Touches.nothing _, fun t ht => ?_⟩
    rw [Store.write_purge, hsame t ht, hall]
    rfl
  | ok all =>
    refine ⟨.ok (Store.inOrder (Store.outdated cutoff all)), _,
      Touches.purging (Store.outdated cutoff all), fun t ht => ?_⟩
    rw [Store.write_purge, hsame t ht, hall]
    rfl

/-- An allocation is about its sequence. -/
theorem Sequence.allocateBlock_about (limit : Nat) (name : String) (count : UInt32) :
    About (.sequence name) (allocateBlock limit name count) := by
  refine About.of_check (About.of_check (About.write fun s => ?_))
  cases hlast : addWithin64? ((s.counters.get? name).getD 0) (Int64.ofNat count.toNat) with
  | none =>
    refine ⟨.error (.storage (.exhausted name)), id, Touches.nothing _, fun t ht => ?_⟩
    rw [Store.write_reserve, show t.counters.get? name = s.counters.get? name from ht, hlast]
    rfl
  | some last =>
    refine ⟨.ok { first := last - Int64.ofNat count.toNat + 1, last }, _,
      Touches.advancing name last, fun t ht => ?_⟩
    rw [Store.write_reserve, show t.counters.get? name = s.counters.get? name from ht, hlast]
    rfl

/-! ## Steps -/

/-- What a step is about, if it is an operation on one object or a purge. -/
def Step.subject? : Step → Option Subject
  | .create r | .createNow r => some (.resource r.id)
  | .delete id => some (.resource id)
  | .purge _ => some .resources
  | .allocateNext name | .allocateBlock name _ => some (.sequence name)
  | _ => none

/-- Two operations that concern different objects. -/
def Step.Apart (a b : Step) : Prop :=
  ∃ x y, a.subject? = some x ∧ b.subject? = some y ∧ x.Apart y

theorem Step.Apart.symm {a b : Step} (h : a.Apart b) : b.Apart a := by
  obtain ⟨x, y, hx, hy, hxy⟩ := h
  exact ⟨y, x, hy, hx, hxy.symm⟩

/-- A step about a subject is one operation about that subject, the same in every session with
these limits at that time. -/
theorem Step.about {step : Step} {x : Subject} (h : step.subject? = some x) (limits : Limits)
    (now : Int64) :
    ∃ (α : Type) (access : Access α) (answer : α → Answer), About x access ∧
      ∀ s : Session, s.limits = limits → s.now = now → s.step step = s.perform access answer := by
  cases step with
  | create r =>
    cases h
    exact ⟨_, Registry.create r, .resource, Registry.create_about r, fun _ _ _ => rfl⟩
  | createNow r =>
    cases h
    refine ⟨_, Registry.create { r with createTime := now }, .resource,
      Registry.create_about { r with createTime := now }, ?_⟩
    rintro s - rfl
    rfl
  | delete id =>
    cases h
    exact ⟨_, Registry.delete id, .maybeResource, Registry.delete_about id, fun _ _ _ => rfl⟩
  | purge cutoff =>
    cases h
    exact ⟨_, Registry.purge cutoff, .resources, Registry.purge_about cutoff, fun _ _ _ => rfl⟩
  | allocateNext name =>
    cases h
    refine ⟨_, Sequence.allocateNext limits.nameLimit name, .value,
      (Sequence.allocateBlock_about _ name 1).map Block.last, ?_⟩
    rintro s rfl -
    rfl
  | allocateBlock name count =>
    cases h
    refine ⟨_, Sequence.allocateBlock limits.nameLimit name count, .block,
      Sequence.allocateBlock_about _ name count, ?_⟩
    rintro s rfl -
    rfl
  | _ => cases h

namespace Session

variable {s : Session}

theorem perform_eq {α : Type} (s : Session) (access : Access α) (answer : α → Answer) :
    s.perform access answer =
      (((access.on s.backing).1.map answer).mapError .error,
        { s with backing := (access.on s.backing).2 }) := by
  unfold perform
  rcases access.on s.backing with ⟨e | a, b⟩ <;> rfl

/-- **Two steps about different objects** do not notice each other, and can be taken in either
order. -/
theorem step_comm {a b : Step} (h : a.Apart b) :
    ((s.step a).2.step b).1 = (s.step b).1 ∧
      ((s.step a).2.step b).2 = ((s.step b).2.step a).2 := by
  obtain ⟨x, y, hx, hy, hxy⟩ := h
  obtain ⟨α, access, answer, habout, hstep⟩ := Step.about hx s.limits s.now
  obtain ⟨β, access', answer', habout', hstep'⟩ := Step.about hy s.limits s.now
  obtain ⟨hanswer, hbacking⟩ := habout.comm habout' hxy s.backing
  -- neither step changes the limits or the time
  have hlater : ∀ backing, { s with backing := backing }.step b =
      { s with backing := backing }.perform access' answer' := fun _ => hstep' _ rfl rfl
  have hlater' : ∀ backing, { s with backing := backing }.step a =
      { s with backing := backing }.perform access answer := fun _ => hstep _ rfl rfl
  rw [hstep s rfl rfl, hstep' s rfl rfl, perform_eq, perform_eq, hlater, hlater', perform_eq,
    perform_eq]
  simp only [hanswer, hbacking, and_self]

/-- In a batch of steps about different objects, each answers as if it were alone. -/
theorem answers_apart {batch : List Step} (h : batch.Pairwise Step.Apart) :
    (run batch s).1 = batch.map fun step => (s.step step).1 := by
  induction batch generalizing s with
  | nil => rfl
  | cons a rest ih =>
    obtain ⟨ha, hrest⟩ := List.pairwise_cons.1 h
    have hsame : rest.map (fun step => ((s.step a).2.step step).1) =
        rest.map fun step => (s.step step).1 :=
      List.map_congr_left fun b hb => (step_comm (ha b hb)).1
    rw [run_cons, ih hrest, hsame, List.map_cons]

/-- Such a batch leads to one session, whatever its order. -/
theorem run_perm {batch order : List Step} (hperm : batch.Perm order)
    (h : batch.Pairwise Step.Apart) : (run batch s).2 = (run order s).2 := by
  induction hperm generalizing s with
  | nil => rfl
  | cons a _ ih => exact ih (List.pairwise_cons.1 h).2
  | swap a b rest =>
    have hab : b.Apart a := (List.pairwise_cons.1 h).1 a List.mem_cons_self
    simp only [run_cons, (step_comm hab).2]
  | trans hfirst _ ih ih' =>
    exact (ih h).trans (ih' (h.perm hfirst fun hab => hab.symm))

/-- **Independent operations are served in any order.** Of two operations on different objects each
answers what it would have answered alone, and the session behind both, with all four tables, is
the same in either order. So a batch of operations on pairwise different objects has one outcome,
whatever the order in which they are served. -/
theorem served_in_any_order (s : Session) :
    (∀ a b, Step.Apart a b → ∃ t,
      run [a, b] s = ([(s.step a).1, (s.step b).1], t) ∧
      run [b, a] s = ([(s.step b).1, (s.step a).1], t)) ∧
    ∀ batch : List Step, batch.Pairwise Step.Apart → ∃ t, ∀ order : List Step,
      order.Perm batch → run order s = (order.map fun step => (s.step step).1, t) := by
  have hbatch : ∀ batch : List Step, batch.Pairwise Step.Apart → ∃ t, ∀ order : List Step,
      order.Perm batch → run order s = (order.map fun step => (s.step step).1, t) := by
    intro batch h
    refine ⟨(run batch s).2, fun order horder => ?_⟩
    have h' : order.Pairwise Step.Apart := h.perm horder.symm fun hab => hab.symm
    exact Prod.ext (answers_apart h') (run_perm horder h')
  refine ⟨fun a b hab => ?_, hbatch⟩
  obtain ⟨t, ht⟩ := hbatch [a, b] (List.pairwise_pair.2 hab)
  exact ⟨t, ht [a, b] (List.Perm.refl _), ht [b, a] (List.Perm.swap a b [])⟩

/-- Two resources side by side in both indexes, one that is not there, and two sequences of which
one is asked for nothing. -/
def bystanders : List Step :=
  [.create ⟨"a", "b", 5, "h", 1⟩, .create ⟨"c", "b", 5, "h", 1⟩, .delete "d", .allocateNext "n",
    .allocateBlock "m" 0]

theorem served_in_any_order_bystanders :
    bystanders.Pairwise Step.Apart ∧ ∃ t,
      run bystanders (new .standard 0) =
        ([.ok (.resource ⟨"a", "b", 5, "h", 1⟩), .ok (.resource ⟨"c", "b", 5, "h", 1⟩),
          .ok (.maybeResource none), .ok (.value 1), .error (.error (.argument .emptyBlock))], t) ∧
      run bystanders.reverse (new .standard 0) =
        ([.error (.error (.argument .emptyBlock)), .ok (.value 1), .ok (.maybeResource none),
          .ok (.resource ⟨"c", "b", 5, "h", 1⟩), .ok (.resource ⟨"a", "b", 5, "h", 1⟩)], t) := by
  have hapart : bystanders.Pairwise Step.Apart := by
    simp [bystanders, Step.Apart, Step.subject?, Subject.Apart]
  obtain ⟨t, ht⟩ := (served_in_any_order (new .standard 0)).2 bystanders hapart
  exact ⟨hapart, t, ht _ (List.Perm.refl _), ht _ (List.reverse_perm _)⟩

end Session

end ObjectRegistry
