import ObjectRegistry.Proofs.Runs

/-!
# Failures without a trace

A call that fails leaves everything as it was: the four tables, down to which of them exist, the
leases of the generators and the positions of the walks. This is said of every session, whatever its
tables hold, so no invariant is involved. A transaction that fails is given up as a whole
(`Store.write_error`); what has to be seen is that nothing can fail behind a transaction that was
kept, and that the methods of generators and walks put nothing into their objects before the last
call that may fail (`Method.Atomic`).

The one call with something behind its transaction is a generator that leases a block and would fail
if the block were empty. It never is (`Sequence.allocateBlock_values`).
-/

namespace ObjectRegistry

namespace Access

variable {α β : Type}

/-- Where the operation fails, it leaves the storage as it was. -/
def Atomic (access : Access α) : Prop :=
  ∀ b e, (access.on b).1 = .error e → (access.on b).2 = b

theorem Looks.atomic {access : Access α} (h : Looks access) : Atomic access :=
  fun b _ _ => h b

theorem Atomic.write (work : Draft (Ending α)) : Atomic (write work) := by
  intro b e he
  cases b with
  | embedded s =>
    rw [on_write_embedded] at he ⊢
    exact congrArg Backing.embedded (Store.write_error he)
  | unreachable => rfl

/-- Looking first does no harm. -/
theorem Atomic.of_looks {x : Access α} {f : α → Access β} (hx : Looks x)
    (hf : ∀ a, Atomic (f a)) : Atomic (x >>= f) := by
  intro b e he
  have hsame := hx b
  rw [on_bind] at he ⊢
  rcases h : x.on b with ⟨_ | a, b'⟩
  · rw [h] at hsame
    exact hsame
  · rw [h] at he hsame
    cases hsame
    exact hf a b' e he

/-- Behind a success, only what cannot fail may follow. -/
theorem Atomic.map {x : Access α} (hx : Atomic x) (f : α → β) :
    Atomic (x >>= fun a => pure (f a)) := by
  intro b e he
  rw [on_bind] at he ⊢
  rcases h : x.on b with ⟨e' | a, b'⟩
  · have hsame := hx b e' (congrArg Prod.fst h)
    rw [h] at hsame
    exact hsame
  · rw [h] at he
    cases he

end Access

open Access

/-! ## Calls -/

theorem Sequence.allocateBlock_atomic (limit : Nat) (name : String) (count : UInt32) :
    Atomic (allocateBlock limit name count) :=
  Atomic.of_looks (Looks.check _) fun _ =>
    Atomic.of_looks (Looks.check _) fun _ => Atomic.write _

theorem Sequence.allocateNext_atomic (limit : Nat) (name : String) :
    Atomic (allocateNext limit name) :=
  (allocateBlock_atomic limit name 1).map Block.last

/-- A server that cannot be reached serves no block. -/
theorem Sequence.allocateBlock_unreachable (limit : Nat) (name : String) (count : UInt32) :
    ∃ e, (allocateBlock limit name count).on .unreachable = (.error e, .unreachable) := by
  unfold allocateBlock
  cases hname : checkName limit name with
  | error e => exact ⟨e, Access.on_bind_error (Access.on_check _ _) _⟩
  | ok _ =>
    rw [Access.on_bind_ok (Access.on_check _ _)]
    cases hcount : checkCount count with
    | error e => exact ⟨e, Access.on_bind_error (Access.on_check _ _) _⟩
    | ok _ =>
      rw [Access.on_bind_ok (Access.on_check _ _)]
      exact ⟨.storage .unreachable, rfl⟩

/-- A block that is handed out has a value. -/
theorem Sequence.allocateBlock_values {limit : Nat} {name : String} {count : UInt32}
    {b b' : Backing} {block : Block}
    (h : (allocateBlock limit name count).on b = (.ok block, b')) : block.values ≠ [] := by
  cases b with
  | embedded s =>
    rcases allocateBlock_cases limit name count s with
      ⟨e, hfails, -⟩ | ⟨granted, last, hgrants, -, hlt, -, hvalues⟩
    · rw [hfails] at h
      cases h
    · rw [hgrants] at h
      cases h
      intro hnone
      rw [hnone, interval_eq_cons hlt] at hvalues
      cases hvalues
  | unreachable =>
    obtain ⟨e, hfails⟩ := allocateBlock_unreachable limit name count
    rw [hfails] at h
    cases h

/-- Where the method fails, it leaves its object and the storage as they were. -/
def Method.Atomic {σ α : Type} (method : Method σ α) : Prop :=
  ∀ x b e, (method.on x b).1 = .error e → (method.on x b).2 = (x, b)

/-- The object and the storage may be looked at apart from each other. -/
theorem Method.Careful.atomic {σ α : Type} {method : Method σ α} (hobject : method.Careful)
    (hstorage : ∀ x, Access.Atomic (method.of x)) : method.Atomic := by
  intro x b e hfails
  have hsame := hstorage x b e
  rw [Method.of_on, hfails] at hsame
  exact Prod.ext (hobject x b e hfails) (hsame rfl)

theorem Generator.next_atomic (g : Generator) : Access.Atomic g.next := by
  rw [next_eq]
  cases g.lease with
  | cons value rest =>
    -- a lease serves even where no server does
    exact (Looks.pure _).atomic
  | nil =>
    intro b e hfails
    have hsame := Sequence.allocateBlock_atomic g.nameLimit g.sequence g.blockSize b
    rcases hblock : (Sequence.allocateBlock g.nameLimit g.sequence g.blockSize).on b with
      ⟨e' | block, b'⟩
    · rw [hblock] at hsame
      rw [Access.on_bind_error hblock]
      exact hsame e' rfl
    · rw [Access.on_bind_ok hblock] at hfails
      cases hvalues : block.values with
      | nil => exact absurd hvalues (Sequence.allocateBlock_values hblock)
      | cons value rest =>
        rw [hvalues] at hfails
        cases hfails

/-- A generator that is denied a value keeps its lease. -/
theorem Generator.nextValue_atomic : nextValue.Atomic :=
  nextValue_careful.atomic next_atomic

theorem Generator.nextId_atomic : nextId.Atomic := by
  refine nextId_careful.atomic fun g => ?_
  rw [nextId_of]
  exact g.next_atomic.map _

/-- A walk that is denied a page stays where it is, over or not. -/
theorem Walk.nextPage_atomic : nextPage.Atomic :=
  nextPage_careful.atomic fun w => w.next_looks.atomic

theorem Registry.create_atomic (r : Resource) : Atomic (create r) :=
  Atomic.of_looks (Looks.check _) fun _ => (Atomic.write (Store.insert r)).map fun _ => r

/-- A removal that finds nothing leaves the storage as it was. -/
theorem Registry.delete_none (id : String) (b : Backing)
    (h : ((delete id).on b).1 = .ok none) : ((delete id).on b).2 = b := by
  cases b with
  | unreachable => rfl
  | embedded s =>
    have hwrite := s.write_remove id
    unfold delete at h ⊢
    rw [on_write_embedded] at h ⊢
    cases hrow : s.records.get? id with
    | none =>
      rw [hrow] at hwrite
      rw [hwrite]
    | some bytes =>
      -- a row that is there is answered, or fails the removal
      cases hread : Store.readRecord id bytes with
      | error e =>
        simp only [hrow, hread] at hwrite
        rw [hwrite] at h
        cases h
      | ok r =>
        simp only [hrow, hread] at hwrite
        rw [hwrite] at h
        cases h

/-! ## Steps -/

/-- A step that makes one call. The others make several, of which the last may fail after the first
succeeded, or use up a walk. -/
def Step.IsSingle : Step → Prop
  | .allocateTogether _ _ | .createSeries _ | .createTogether _ _ | .collectWalk _ => False
  | .nextValues _ times | .nextIds _ times => times = 1
  | _ => True

namespace Session

variable {s : Session} {α : Type}

theorem perform_atomic {access : Access α} (ha : Atomic access) {answer : α → Answer}
    {f : Failure} (hfails : (s.perform access answer).1 = .error f) :
    (s.perform access answer).2 = s := by
  unfold perform at hfails ⊢
  rcases hon : access.on s.backing with ⟨e | a, b⟩
  · have hsame := ha s.backing e (congrArg Prod.fst hon)
    rw [hon] at hsame
    cases hsame
    rfl
  · rw [hon] at hfails
    cases hfails

/-- A generator that fails to hand out its next value is put back as it was. -/
theorem draw_atomic {one : Method Generator α} (hone : one.Atomic) {name : String}
    {answer : List α → Answer} {failure : Error → List α → Failure} {f : Failure}
    (hfails : (s.draw name 1 one answer failure).1 = .error f) :
    (s.draw name 1 one answer failure).2 = s := by
  unfold draw at hfails ⊢
  cases hfound : s.generator? name with
  | none => rfl
  | some found =>
    obtain ⟨place, g⟩ := found
    rcases hon : one.on g s.backing with ⟨e | a, g', b⟩
    · have hsame := hone g s.backing e (congrArg Prod.fst hon)
      rw [hon] at hsame
      cases hsame
      have hplace : s.generators.set place g = s.generators := set_generator hfound
      simp only [repeatedly, hon, hplace]
    · simp only [hfound, repeatedly, hon] at hfails
      cases hfails

theorem withWalk_atomic {name : String} {act : Walk → Outcome} {f : Failure}
    (hact : ∀ w, s.walks.get? name = some w → (act w).1 = .error f → (act w).2 = s)
    (hfails : (s.withWalk name act).1 = .error f) : (s.withWalk name act).2 = s := by
  unfold withWalk at hfails ⊢
  cases hfound : s.walks.get? name with
  | none => rfl
  | some w =>
    rw [hfound] at hfails
    exact hact w hfound hfails

/-- A walk that fails to go on is put back where it was. -/
theorem walkOn_atomic {name : String} {f : Failure}
    (hfails : (s.step (.walkOn name)).1 = .error f) : (s.step (.walkOn name)).2 = s := by
  refine withWalk_atomic (fun w hfound hw => ?_) hfails
  rcases hon : Walk.nextPage.on w s.backing with ⟨e | items, w', b⟩
  · have hsame := Walk.nextPage_atomic w s.backing e (congrArg Prod.fst hon)
    rw [hon] at hsame
    cases hsame
    have hback : s.walks.insert name w = s.walks := Table.insert_eq_self hfound
    simp only [hback]
  · simp only [hon] at hw
    cases hw

/-- **A step that fails changes nothing.** -/
theorem step_atomic (step : Step) (hsingle : step.IsSingle) {f : Failure}
    (hfails : (s.step step).1 = .error f) : (s.step step).2 = s := by
  cases step with
  | allocateNext name => exact perform_atomic (Sequence.allocateNext_atomic _ _) hfails
  | allocateBlock name count => exact perform_atomic (Sequence.allocateBlock_atomic _ _ _) hfails
  | current name => exact perform_atomic (Sequence.current_looks _ _).atomic hfails
  | nameLimit => rfl
  | allocateTogether name callers => exact hsingle.elim
  | makeGenerator as sequence format blockSize =>
    cases hmade : Generator.make s.limits.nameLimit sequence format
        (blockSize.getD s.limits.blockSize) with
    | error e => simp only [step, hmade]
    | ok g =>
      simp only [step, hmade] at hfails
      cases hfails
  | shareGenerator name as =>
    cases hfound : s.generator? name with
    | none => simp only [step, hfound]
    | some found =>
      simp only [step, hfound] at hfails
      cases hfails
  | dropGenerator name => cases hfails
  | nextValues name times =>
    obtain rfl : times = 1 := hsingle
    exact draw_atomic Generator.nextValue_atomic hfails
  | nextIds name times =>
    obtain rfl : times = 1 := hsingle
    exact draw_atomic Generator.nextId_atomic hfails
  | create r => exact perform_atomic (Registry.create_atomic r) hfails
  | createNow r => exact perform_atomic (Registry.create_atomic _) hfails
  | createSeries series => exact hsingle.elim
  | createTogether id callers => exact hsingle.elim
  | get id => exact perform_atomic (Registry.get_looks id).atomic hfails
  | delete id => exact perform_atomic (Atomic.write _) hfails
  | purge cutoff => exact perform_atomic (Atomic.write _) hfails
  | findDuplicate bucket hash =>
    exact perform_atomic (Registry.findDuplicate_looks bucket hash).atomic hfails
  | listAll scope => exact perform_atomic (Walk.collect_looks _).atomic hfails
  | listPage scope start limit =>
    exact perform_atomic (listPage_looks scope start limit).atomic hfails
  | beginWalk as scope pageSize => cases hfails
  | copyWalk name as => exact withWalk_atomic (fun w _ hw => by cases hw) hfails
  | resizeWalk name pageSize => exact withWalk_atomic (fun w _ hw => by cases hw) hfails
  | restartWalk name => exact withWalk_atomic (fun w _ hw => by cases hw) hfails
  | walkOn name => exact walkOn_atomic hfails
  | collectWalk name => exact hsingle.elim
  | health => exact perform_atomic Registry.health_looks.atomic hfails
  | backend => rfl
  | openAgain => rfl
  | reopen nameLimit blockSize =>
    cases hb : s.backing with
    | embedded store =>
      simp only [step, reopen, hb] at hfails
      cases hfails
    | unreachable => simp only [step, reopen, hb]
  | dump => exact perform_atomic (Looks.read _).atomic hfails
  | reserve name count => exact perform_atomic (Atomic.write _) hfails
  | counter name => exact perform_atomic (Looks.read _).atomic hfails
  | insert r => exact perform_atomic (Atomic.write _) hfails
  | storedPage scope after limit => exact perform_atomic (Looks.read _).atomic hfails
  | putBytes id bytes => exact perform_atomic (Atomic.write _) hfails
  | putEntry axis entry => exact perform_atomic (Atomic.write _) hfails
  | dropBytes id => exact perform_atomic (Atomic.write _) hfails
  | dropTable name => exact perform_atomic (Atomic.write _) hfails

/-- A removal that finds nothing changes nothing. -/
theorem step_delete_none {id : String}
    (hnone : (s.step (.delete id)).1 = .ok (.maybeResource none)) :
    (s.step (.delete id)).2 = s := by
  simp only [step, perform] at hnone ⊢
  have hsame := Registry.delete_none id s.backing
  rcases hon : (Registry.delete id).on s.backing with ⟨e | found, b⟩
  · rw [hon] at hnone
    cases hnone
  · rw [hon] at hnone hsame
    cases hnone
    cases hsame rfl
    rfl

/-- **Failure leaves no trace**, whatever the tables hold. A call that fails leaves the session as
it was, tables, leases and positions of walks included, so whatever is done next answers as if it
had never been made. A removal that finds nothing leaves the session as it was too, down to the
tables that do not exist. And whoever keeps a generator or a walk, a call of it that fails leaves it
with the lease, the position and the end that it had. -/
theorem failure_without_trace (s : Session) :
    (∀ call f, call.IsSingle → (s.step call).1 = .error f →
      (s.step call).2 = s ∧
        ∀ rest, run (call :: rest) s = (.error f :: (run rest s).1, (run rest s).2)) ∧
    (∀ id, (s.step (.delete id)).1 = .ok (.maybeResource none) → (s.step (.delete id)).2 = s) ∧
    Generator.nextValue.Atomic ∧ Generator.nextId.Atomic ∧ Walk.nextPage.Atomic := by
  refine ⟨fun call f hsingle hfails => ?_, fun id hnone => step_delete_none hnone,
    Generator.nextValue_atomic, Generator.nextId_atomic, Walk.nextPage_atomic⟩
  have hsame : (s.step call).2 = s := step_atomic call hsingle hfails
  refine ⟨hsame, ?_⟩
  intro rest
  have houtcome : s.step call = (.error f, s) := Prod.ext hfails hsame
  rw [run, houtcome]

/-- A generator whose lease is used up and whose sequence is at its end. -/
def spent : Generator := ⟨"n", .plain, 10, 64, []⟩

/-- A walk that has come to an entry without a record. -/
def stuck : Walk := ⟨⟨.bucket, "x"⟩, 2, some ⟨4, "c"⟩, false⟩

/-- A session over damaged tables: a counter at its end, bytes that spell no record, an entry
without a record, and an index that is missing. -/
def damaged : Session where
  backing := .embedded {
    sequences := some (Table.empty.insert "n" 9223372036854775807)
    resources := some (Table.empty.insert "a" [1])
    byHash := none
    byBucket := some (Table.empty.insert ⟨"x", ⟨5, "gone"⟩⟩ ()) }
  limits := .standard
  now := 0
  generators := [⟨"n", .plain, 3, 64, [8, 9]⟩, spent]
  generatorNames := (Table.empty.insert "f" 0).insert "g" 1
  walks := Table.empty.insert "w" stuck

theorem failure_without_trace_damaged :
    (damaged.step (.delete "a")).1 = .error (.error (.storage (.unreadable .unexpectedEnd))) ∧
    (damaged.step (.delete "a")).2 = damaged ∧
    (damaged.step (.allocateNext "n")).1 = .error (.error (.storage (.exhausted "n"))) ∧
    (damaged.step (.allocateNext "n")).2 = damaged ∧
    (damaged.step (.nextValues "g" 1)).1 =
      .error (.afterValues (.storage (.exhausted "n")) []) ∧
    (damaged.step (.nextValues "g" 1)).2 = damaged ∧
    (damaged.step (.walkOn "w")).1 =
      .error (.error (.storage (.corrupt (.danglingEntry "gone")))) ∧
    (damaged.step (.walkOn "w")).2 = damaged ∧
    (Generator.nextValue.on spent damaged.backing).2 = (spent, damaged.backing) ∧
    (Walk.nextPage.on stuck damaged.backing).2 = (stuck, damaged.backing) ∧
    (damaged.step (.delete "b")).1 = .ok (.maybeResource none) ∧
    (damaged.step (.delete "b")).2 = damaged := by
  obtain ⟨hfailure, hnone, hvalue, -, hpage⟩ := failure_without_trace damaged
  have hdelete : (damaged.step (.delete "a")).1 =
      .error (.error (.storage (.unreadable .unexpectedEnd))) := rfl
  have hallocate : (damaged.step (.allocateNext "n")).1 =
      .error (.error (.storage (.exhausted "n"))) := rfl
  have hdraw : (damaged.step (.nextValues "g" 1)).1 =
      .error (.afterValues (.storage (.exhausted "n")) []) := rfl
  have hwalk : (damaged.step (.walkOn "w")).1 =
      .error (.error (.storage (.corrupt (.danglingEntry "gone")))) := rfl
  have hmissing : (damaged.step (.delete "b")).1 = .ok (.maybeResource none) := rfl
  exact ⟨hdelete, (hfailure (.delete "a") _ trivial hdelete).1, hallocate,
    (hfailure (.allocateNext "n") _ trivial hallocate).1, hdraw,
    (hfailure (.nextValues "g" 1) _ rfl hdraw).1, hwalk,
    (hfailure (.walkOn "w") _ trivial hwalk).1, hvalue spent _ _ rfl, hpage stuck _ _ rfl,
    hmissing, hnone _ hmissing⟩

end Session

end ObjectRegistry
