import ObjectRegistry.Proofs.Soundness
import ObjectRegistry.Session

/-!
# Sessions keep a store consistent

A session is a chain of sound operations, with the raw edits set apart (`Step.Checked`). One step
keeps its storage consistent and does not report damage (`Session.step_healthy`), and by induction
neither does a run (`Session.run_healthy`). What that means for the four tables is spelled out in
`Session.tables_agree`.

A store that some run leads to is `Reachable`. All that is used of such a store elsewhere is that it
is consistent (`Reachable.consistent`).
-/

namespace ObjectRegistry

open Access

/-! ## The steps of a session -/

/-- A step that stays within the calls of the registry. The others edit its tables directly. -/
def Step.Checked : Step → Prop
  | .reserve _ _ | .insert _ | .putBytes _ _ | .putEntry _ _ | .dropBytes _ | .dropTable _ =>
    False
  | _ => True

/-- The error behind a failed step, if there is one. -/
def Failure.cause? : Failure → Option Error
  | .error e | .afterValues e _ | .afterIds e _ | .afterCreating e _ => some e
  | .noSuchGenerator | .noSuchWalk => none

namespace Session

/-- A step that left its storage with a property and failed, if at all, in ways of one kind. -/
def Kept (P : Backing → Prop) (Q : Error → Prop) (outcome : Outcome) : Prop :=
  P outcome.2.backing ∧ ∀ f e, outcome.1 = .error f → f.cause? = some e → Q e

variable {s : Session} {α : Type} {P : Backing → Prop} {Q : Error → Prop}

/-- A name leads to the generator in its place. -/
theorem generator?_eq_some {name : String} {place : Nat} {g : Generator}
    (h : s.generator? name = some (place, g)) : s.generators[place]? = some g := by
  unfold generator? at h
  obtain ⟨place', -, hrest⟩ := Option.bind_eq_some_iff.1 h
  obtain ⟨g', hg', hsome⟩ := Option.bind_eq_some_iff.1 hrest
  obtain ⟨rfl, rfl⟩ := Prod.mk.inj (Option.some.inj hsome)
  exact hg'

/-- A generator that is put back into its place changes nothing. -/
theorem set_generator {name : String} {place : Nat} {g : Generator}
    (h : s.generator? name = some (place, g)) : s.generators.set place g = s.generators := by
  obtain ⟨hk, hget⟩ := List.getElem?_eq_some_iff.1 (generator?_eq_some h)
  rw [← hget, List.set_getElem_self]

theorem Kept.answer {s' : Session} (h : P s'.backing) (answer : Answer) :
    Kept P Q (.ok answer, s') :=
  ⟨h, fun f e hf => by cases hf⟩

theorem Kept.failure {s' : Session} (h : P s'.backing) {f : Failure}
    (hf : ∀ e, f.cause? = some e → Q e) : Kept P Q (.error f, s') := by
  refine ⟨h, fun f' e hf' he => hf e ?_⟩
  injection hf' with hf'
  rw [hf', he]

theorem perform_kept (h : P s.backing) {access : Access α} (ha : Keeps P Q access)
    (answer : α → Answer) : Kept P Q (s.perform access answer) := by
  obtain ⟨hkept, hfails⟩ := ha s.backing h
  unfold perform
  rcases hon : access.on s.backing with ⟨e | a, b⟩
  · rw [hon] at hkept hfails
    exact Kept.failure hkept fun e' he => Option.some.inj he ▸ hfails e rfl
  · rw [hon] at hkept
    exact Kept.answer hkept _

theorem withWalk_kept (h : P s.backing) (name : String) {act : Walk → Outcome}
    (hact : ∀ w, Kept P Q (act w)) : Kept P Q (s.withWalk name act) := by
  unfold withWalk
  cases s.walks.get? name with
  | none => exact Kept.failure h fun e he => by cases he
  | some w => exact hact w

/-- Going on with a walk moves the walk, if it succeeds, and nothing else. -/
theorem walkOn_eq (s : Session) (name : String) :
    s.step (.walkOn name) = s.withWalk name fun w =>
      match (w.next.on s.backing).1 with
      | .ok (items, behind) => (.ok (.maybeResources items), s.keepWalk name behind)
      | .error e => (.error (.error e), s) := by
  show s.withWalk name _ = _
  unfold withWalk
  cases hfound : s.walks.get? name with
  | none => rfl
  | some w =>
    have hsame := w.next_looks s.backing
    rcases hon : w.next.on s.backing with ⟨e | ⟨items, behind⟩, b⟩
    · rw [hon] at hsame
      cases hsame
      -- the walk is put back as it was
      have hback : s.walks.insert name w = s.walks := Table.insert_eq_self hfound
      simp only [hon, Walk.nextPage_careful.on_of_error hon, hback]
    · rw [hon] at hsame
      cases hsame
      simp only [hon, Method.on_of_ok hon]
      rfl

theorem repeatedly_kept {σ : Type} {method : Method σ α} (hmethod : ∀ x, Keeps P Q (method.of x))
    (n : Nat) (drawn : List α) (x : σ) (b : Backing) (h : P b) :
    P (repeatedly method n drawn x b).2.2.2 ∧
      ∀ e, (repeatedly method n drawn x b).2.1 = some e → Q e := by
  induction n generalizing drawn x b with
  | zero => exact ⟨h, fun e he => by cases he⟩
  | succ n ih =>
    obtain ⟨hkept, hfails⟩ := hmethod x b h
    unfold repeatedly
    rcases hon : method.on x b with ⟨e | a, x', b'⟩
    · -- the first failure ends the drawing
      rw [Method.of_on_error hon] at hkept hfails
      exact ⟨hkept, fun e' he => Option.some.inj he ▸ hfails e rfl⟩
    · rw [Method.of_on_ok hon] at hkept
      exact ih (a :: drawn) x' b' hkept

theorem draw_kept (h : P s.backing) {one : Method Generator α}
    (hone : ∀ g, Keeps P Q (one.of g)) (name : String) (times : Nat) (answer : List α → Answer)
    {failure : Error → List α → Failure}
    (hcause : ∀ e drawn, (failure e drawn).cause? = some e) :
    Kept P Q (s.draw name times one answer failure) := by
  unfold draw
  cases hfound : s.generator? name with
  | none => exact Kept.failure h fun e he => by cases he
  | some found =>
    obtain ⟨place, g⟩ := found
    have hrun := repeatedly_kept hone times [] g s.backing h
    rcases hon : repeatedly one times [] g s.backing with ⟨drawn, error?, g', b⟩
    rw [hon] at hrun
    simp only [hon]
    cases error? with
    | none => exact Kept.answer hrun.1 _
    | some e =>
      refine Kept.failure hrun.1 fun e' he => hrun.2 e' ?_
      rw [← he, hcause]

/-! ## Batches -/

/-- Answers that make one failure have the failure among them. -/
theorem mem_of_together {answers : List (Except Error α)} {answer : List α → Answer}
    {failure : Error → List α → Failure} (hcause : ∀ e vs, (failure e vs).cause? = some e)
    {f : Failure} {e : Error} (hf : together answers answer failure = .error f)
    (he : f.cause? = some e) : .error e ∈ answers := by
  unfold together at hf
  cases hfirst : firstFailure answers with
  | none =>
    rw [hfirst] at hf
    cases hf
  | some first =>
    rw [hfirst] at hf
    cases hf
    rw [hcause] at he
    cases he
    obtain ⟨x, hx, hfailed⟩ := List.exists_of_findSome?_eq_some hfirst
    cases x with
    | ok _ => cases hfailed
    | error e' =>
      cases hfailed
      exact hx

theorem performInTurn_kept (h : P s.backing) {goesOn : Except Error α → Bool}
    {calls : List (Access α)} (hcalls : ∀ call ∈ calls, Keeps P Q call)
    {answer : List (Except Error α) → Except Failure Answer}
    (hanswer : ∀ answers f e, answer answers = .error f → f.cause? = some e → .error e ∈ answers) :
    Kept P Q (s.performInTurn goesOn calls answer) := by
  obtain ⟨hkept, hfails⟩ := Keeps.inTurn goesOn hcalls h
  exact ⟨hkept, fun f e hf he => hfails e (hanswer _ f e hf he)⟩

theorem allocateTogether_kept (h : P s.backing) {name : String}
    (hallocate : Keeps P Q (Sequence.allocateNext s.limits.nameLimit name)) (callers : Nat) :
    Kept P Q (s.step (.allocateTogether name callers)) := by
  refine performInTurn_kept h ?_ fun _ _ _ => mem_of_together fun _ _ => rfl
  intro call hcall
  rw [List.eq_of_mem_replicate hcall]
  exact hallocate

theorem createSeries_kept (h : P s.backing) (hcreate : ∀ r, Keeps P Q (Registry.create r))
    (series : Series) : Kept P Q (s.step (.createSeries series)) := by
  refine performInTurn_kept h ?_ fun _ _ _ => mem_of_together fun _ _ => rfl
  intro call hcall
  obtain ⟨r, -, rfl⟩ := List.mem_map.1 hcall
  exact hcreate r

theorem createTogether_kept (h : P s.backing) (hcreate : ∀ r, Keeps P Q (Registry.create r))
    (id : String) (callers : Nat) : Kept P Q (s.step (.createTogether id callers)) := by
  refine performInTurn_kept h ?_ fun answers f e hf he => ?_
  · intro call hcall
    obtain ⟨r, -, rfl⟩ := List.mem_map.1 hcall
    exact hcreate r
  · -- a taken id is counted and is no failure of the callers
    exact List.mem_of_mem_filter (mem_of_together (fun _ _ => rfl) hf he)

/-! ## Steps and runs -/

theorem Cursor.decode_error {token : String} {e : Error} (h : Cursor.decode token = .error e) :
    e.IsRefusal := by
  unfold Cursor.decode at h
  split at h
  next => cases h
  next => cases h; trivial

theorem listPage_looks (scope : Scope) (start : Start) (limit : UInt32) :
    Access.Looks (listPage scope start limit) :=
  Looks.bind (Looks.check _) fun _ => Registry.page_looks _ _

/-- A listing that cannot start is refused for its token. -/
theorem startPosition_error {start : Start} {e : Error} (h : startPosition start = .error e) :
    e.IsRefusal := by
  cases start with
  | beginning => cases h
  | behind _ => cases h
  | token text =>
    cases hdecoded : Cursor.decode text with
    | ok _ => rw [startPosition, hdecoded] at h; cases h
    | error e' =>
      rw [startPosition, hdecoded] at h
      injection h with h
      exact h ▸ Cursor.decode_error hdecoded

theorem listPage_sound (scope : Scope) (start : Start) (limit : UInt32) :
    Sound (listPage scope start limit) :=
  Keeps.bind (Keeps.check fun _ he =>
    Error.IsDenial.not_isDamage (Or.inl (startPosition_error he))) fun _ =>
      Registry.page_sound _ _

theorem dump_sound : Sound (Access.read dump) :=
  Sound.read fun s hs => by
    obtain ⟨sequences, rows, byHash, byBucket, rfl⟩ := hs.tables_eq
    exact ⟨.tables sequences rows byHash byBucket, rfl⟩

/-- A step that left the storage consistent and did not report damage. -/
abbrev Healthy (outcome : Outcome) : Prop :=
  Kept Backing.Consistent (fun e => ¬ e.IsDamage) outcome

/-- **A step keeps its storage consistent and does not report damage.** -/
theorem step_healthy (h : s.backing.Consistent) (step : Step) (hchecked : step.Checked) :
    Healthy (s.step step) := by
  cases step with
  | allocateNext name => exact perform_kept h (Sequence.allocateNext_sound _ _) _
  | allocateBlock name count => exact perform_kept h (Sequence.allocateBlock_sound _ _ _) _
  | current name => exact perform_kept h (Sequence.current_sound _ _) _
  | nameLimit => exact Kept.answer h _
  | allocateTogether name callers =>
    exact allocateTogether_kept h (Sequence.allocateNext_sound _ _) callers
  | makeGenerator as sequence format blockSize =>
    cases hmade : Generator.make s.limits.nameLimit sequence format
        (blockSize.getD s.limits.blockSize) with
    | ok g =>
      simp only [Session.step, hmade]
      exact Kept.answer h _
    | error e =>
      simp only [Session.step, hmade]
      exact Kept.failure h fun e' he => Option.some.inj he ▸
        Error.IsDenial.not_isDamage (Or.inl (Generator.make_error hmade))
  | shareGenerator name as =>
    cases hfound : s.generator? name with
    | none =>
      simp only [Session.step, hfound]
      exact Kept.failure h fun e he => by cases he
    | some found =>
      simp only [Session.step, hfound]
      exact Kept.answer h _
  | dropGenerator name => exact Kept.answer h _
  | nextValues name times =>
    exact draw_kept h Generator.next_sound name times _ fun _ _ => rfl
  | nextIds name times =>
    exact draw_kept h Generator.nextId_sound name times _ fun _ _ => rfl
  | create r => exact perform_kept h (Registry.create_sound r) _
  | createNow r => exact perform_kept h (Registry.create_sound _) _
  | createSeries series => exact createSeries_kept h Registry.create_sound series
  | createTogether id callers => exact createTogether_kept h Registry.create_sound id callers
  | get id => exact perform_kept h (Registry.get_sound id) _
  | delete id => exact perform_kept h (Registry.delete_sound id) _
  | purge cutoff => exact perform_kept h (Registry.purge_sound cutoff) _
  | findDuplicate bucket hash =>
    exact perform_kept h (Registry.findDuplicate_sound bucket hash) _
  | listAll scope => exact perform_kept h (Walk.collect_sound _) _
  | listPage scope start limit => exact perform_kept h (listPage_sound scope start limit) _
  | beginWalk as scope pageSize => exact Kept.answer h _
  | copyWalk name as => exact withWalk_kept h name fun w => Kept.answer h _
  | resizeWalk name pageSize => exact withWalk_kept h name fun w => Kept.answer h _
  | restartWalk name => exact withWalk_kept h name fun w => Kept.answer h _
  | walkOn name =>
    rw [walkOn_eq]
    apply withWalk_kept h name
    intro w
    cases hnext : (w.next.on s.backing).1 with
    | ok _ => exact Kept.answer h _
    | error e =>
      exact Kept.failure h fun e' he =>
        Option.some.inj he ▸ (Walk.next_sound w s.backing h).2 e hnext
  | collectWalk name =>
    exact withWalk_kept h name fun w =>
      perform_kept (s := { s with walks := s.walks.erase name }) h (Walk.collect_sound w) _
  | health => exact perform_kept h Registry.health_sound _
  | backend => exact Kept.answer h _
  | openAgain => exact Kept.failure h fun e he => by cases he; exact id
  | reopen nameLimit blockSize =>
    -- opening again finds every table and every seed in its place
    obtain ⟨store, hstore, hconsistent⟩ := h.embedded
    simp only [Session.step, reopen, hstore]
    exact Kept.answer (hconsistent.opened_eq.symm ▸ hconsistent) _
  | dump => exact perform_kept h dump_sound _
  | counter name =>
    exact perform_kept h (Sound.read fun _ hs => hs.counter_eq name) _
  | storedPage scope after limit =>
    exact perform_kept h (Sound.read fun _ hs => ⟨_, hs.page_eq scope after limit⟩) _
  | reserve _ _ => exact hchecked.elim
  | insert _ => exact hchecked.elim
  | putBytes _ _ => exact hchecked.elim
  | putEntry _ _ => exact hchecked.elim
  | dropBytes _ => exact hchecked.elim
  | dropTable _ => exact hchecked.elim

/-- The storage stays consistent over a whole run, and no answer reports damage. -/
theorem run_healthy {steps : List Step} (hchecked : ∀ step ∈ steps, step.Checked) :
    ∀ {s : Session}, s.backing.Consistent → (run steps s).2.backing.Consistent ∧
      ∀ f e, .error f ∈ (run steps s).1 → f.cause? = some e → ¬ e.IsDamage := by
  induction steps with
  | nil => exact fun h => ⟨h, fun f e hf => by cases hf⟩
  | cons step rest ih =>
    intro s h
    obtain ⟨hkept, hundamaged⟩ := step_healthy h step (hchecked step List.mem_cons_self)
    obtain ⟨hend, hrest⟩ := ih (fun x hx => hchecked x (List.mem_cons_of_mem _ hx)) hkept
    refine ⟨hend, ?_⟩
    intro f e hf
    rcases List.mem_cons.1 hf with hfirst | hlater
    · exact hundamaged f e hfirst.symm
    · exact hrest f e hlater

end Session

/-! ## Reachable stores -/

/-- A session over a store that was opened for the first time. -/
def Session.new (limits : Limits) (now : Int64) : Session :=
  .start (.embedded .fresh) limits now

/-- The stores that runs lead to. -/
def Store.Reachable (s : Store) : Prop :=
  ∃ limits now steps, (∀ step ∈ steps, Step.Checked step) ∧
    (Session.run steps (Session.new limits now)).2.backing = .embedded s

theorem Store.Reachable.consistent {s : Store} (h : s.Reachable) : s.Consistent := by
  obtain ⟨limits, now, steps, hchecked, hs⟩ := h
  have hkept := (Session.run_healthy hchecked (s := Session.new limits now)
    Store.fresh_consistent).1
  rwa [hs] at hkept

/-! ## What a run leaves behind -/

/-- A store that answers every call about its resources. -/
structure Store.Serves (s : Store) : Prop where
  get : ∀ id, ∃ found, (Registry.get id).on (.embedded s) = (.ok found, .embedded s)
  page : ∀ scope request, ∃ page,
    (Registry.page scope request).on (.embedded s) = (.ok page, .embedded s)
  walk : ∀ w : Walk, ∃ answer, w.next.on (.embedded s) = (.ok answer, .embedded s)
  collect : ∀ w : Walk, ∃ all, w.collect.on (.embedded s) = (.ok all, .embedded s)
  delete : ∀ id, ∃ found s', (Registry.delete id).on (.embedded s) = (.ok found, .embedded s')
  purge : ∀ cutoff, ∃ old s', (Registry.purge cutoff).on (.embedded s) = (.ok old, .embedded s')

theorem Store.Consistent.serves {s : Store} (h : s.Consistent) : s.Serves where
  get := Registry.get_on h
  page := Registry.page_on h
  walk w :=
    have ⟨_, _, hnext, _⟩ := Walk.next_on h w
    ⟨_, hnext⟩
  collect w := ⟨_, Walk.collect_on h w⟩
  delete id := by
    rcases Registry.delete_cases h id with ⟨-, hnone⟩ | ⟨r, -, -, hdrops⟩
    · exact ⟨_, _, hnone⟩
    · exact ⟨_, _, hdrops⟩
  purge cutoff := ⟨_, _, Registry.purge_on h cutoff⟩

/-- **The tables agree after every run.** Whatever steps are taken from a fresh store, every row
that is left spells a record that could be offered under its id, each index lists the rows and
nothing else, every call about resources is answered, and no answer on the way reported damage. -/
theorem Session.tables_agree (limits : Limits) (now : Int64) {steps : List Step}
    (hchecked : ∀ step ∈ steps, step.Checked) :
    ∃ store sequences rows byHash byBucket,
      (run steps (new limits now)).2.backing = .embedded store ∧
      store = ⟨some sequences, some rows, some byHash, some byBucket⟩ ∧
      (∀ id bytes, rows.get? id = some bytes → ∃ record, Record.decode bytes = .ok record ∧
        id ≠ "" ∧ 0 ≤ record.createTime ∧ 0 ≤ record.size) ∧
      (∀ hash time id, byHash.contains ⟨hash, ⟨time, id⟩⟩ = true ↔
        ∃ bytes record, rows.get? id = some bytes ∧ Record.decode bytes = .ok record ∧
          record.hash = hash ∧ record.createTime = time) ∧
      (∀ bucket time id, byBucket.contains ⟨bucket, ⟨time, id⟩⟩ = true ↔
        ∃ bytes record, rows.get? id = some bytes ∧ Record.decode bytes = .ok record ∧
          record.bucket = bucket ∧ record.createTime = time) ∧
      store.Serves ∧
      ∀ f e, .error f ∈ (run steps (new limits now)).1 → f.cause? = some e → ¬ e.IsDamage := by
  obtain ⟨hend, hundamaged⟩ := run_healthy hchecked (s := new limits now) Store.fresh_consistent
  obtain ⟨store, hstore, h⟩ := hend.embedded
  obtain ⟨sequences, rows, byHash, byBucket, rfl⟩ := h.tables_eq
  exact ⟨_, sequences, rows, byHash, byBucket, hstore, rfl, fun _ _ => h.row_decodes,
    h.listed_iff .hash, h.listed_iff .bucket, h.serves, hundamaged⟩

/-- An id that is taken up again in another bucket, with another hash and at another time, between
calls that fail. -/
def Session.recreation : List Step :=
  [.create ⟨"a", "b", 5, "h", 1⟩, .create ⟨"a", "c", 6, "k", 2⟩, .delete "a",
    .create ⟨"a", "c", 6, "k", 2⟩, .create ⟨"", "c", 6, "k", 2⟩, .allocateBlock "n" 0,
    .purge 5, .reopen none none]

theorem Session.tables_agree_recreation :
    (∀ step ∈ recreation, step.Checked) ∧
      ∃ store, (run recreation (new .standard 0)).2.backing = .embedded store ∧ store.Serves := by
  have hchecked : ∀ step ∈ recreation, step.Checked := by simp [recreation, Step.Checked]
  obtain ⟨store, _, _, _, _, hstore, -, -, -, -, hserves, -⟩ :=
    tables_agree .standard 0 hchecked
  exact ⟨hchecked, store, hstore, hserves⟩

end ObjectRegistry
