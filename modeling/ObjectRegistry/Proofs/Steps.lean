import ObjectRegistry.Proofs.Visits

/-!
# What a step may do to its storage

There are three ways for a step of a session to get at its storage: it reserves values, it makes a
change to resources, or it opens the store once more. Whatever these three keep is kept by every
step (`Session.step_keeps`). A step that is no change to resources cannot do with them as it likes
(`Step.IsChange`), so a property of rows and indexes needs to be shown for reserving and opening
only.
-/

namespace ObjectRegistry

open Access

/-- A step that creates or removes resources. -/
def Step.IsChange : Step → Prop
  | .create _ | .createNow _ | .createSeries _ | .createTogether _ _ | .delete _ | .purge _ => True
  | _ => False

namespace Backing

variable {P : Backing → Prop}

/-- Reserving values keeps the property. -/
def OnReserve (P : Backing → Prop) : Prop :=
  ∀ limit name count b, P b → P ((Sequence.allocateBlock limit name count).on b).2

/-- Changes to resources keep the property. -/
def OnChange (P : Backing → Prop) : Prop :=
  ∀ (change : Change) b, P b → P (change.on b)

theorem OnReserve.allocateBlock (h : OnReserve P) (limit : Nat) (name : String) (count : UInt32) :
    Keeps P (fun _ => True) (Sequence.allocateBlock limit name count) :=
  fun b hb => ⟨h limit name count b hb, fun _ _ => trivial⟩

theorem OnReserve.allocateNext (h : OnReserve P) (limit : Nat) (name : String) :
    Keeps P (fun _ => True) (Sequence.allocateNext limit name) :=
  Keeps.bind (h.allocateBlock limit name 1) fun _ => Keeps.pure _

theorem OnReserve.next (h : OnReserve P) (g : Generator) : Keeps P (fun _ => True) g.next := by
  rw [Generator.next_eq]
  cases g.lease with
  | cons value rest => exact Keeps.pure _
  | nil =>
    refine Keeps.bind (h.allocateBlock _ _ _) ?_
    intro block
    cases block.values with
    | cons value rest => exact Keeps.pure _
    | nil => exact fun b hb => ⟨hb, fun _ _ => trivial⟩

theorem OnReserve.nextId (h : OnReserve P) (g : Generator) :
    Keeps P (fun _ => True) (Generator.nextId.of g) := by
  rw [Generator.nextId_of]
  exact Keeps.bind (h.next g) fun _ => Keeps.pure _

theorem OnChange.create (h : OnChange P) (r : Resource) :
    Keeps P (fun _ => True) (Registry.create r) :=
  fun b hb => ⟨h (.create r) b hb, fun _ _ => trivial⟩

theorem OnChange.delete (h : OnChange P) (id : String) :
    Keeps P (fun _ => True) (Registry.delete id) :=
  fun b hb => ⟨h (.delete id) b hb, fun _ _ => trivial⟩

theorem OnChange.purge (h : OnChange P) (cutoff : Int64) :
    Keeps P (fun _ => True) (Registry.purge cutoff) :=
  fun b hb => ⟨h (.purge cutoff) b hb, fun _ _ => trivial⟩

/-! ### Properties of stores -/

/-- An embedded store with a property. -/
def Over (Q : Store → Prop) (b : Backing) : Prop := ∃ s, b = .embedded s ∧ Q s

variable {Q : Store → Prop}

/-- Reserving values moves a counter up, or does nothing. -/
theorem OnReserve.over
    (hadvanced : ∀ {s : Store} name (last : Int64), Q s → s.counterOf name < last.toInt →
      Q (s.advanced name last)) : OnReserve (Over Q) := by
  rintro limit name count b ⟨s, rfl, h⟩
  rcases Sequence.allocateBlock_cases limit name count s with
    ⟨e, hfails, -⟩ | ⟨block, last, hblock, -, hlt, -⟩
  · rw [hfails]
    exact ⟨s, rfl, h⟩
  · rw [hblock]
    exact ⟨s.advanced name last, rfl, hadvanced name last h hlt⟩

/-- Changes to resources add some and drop some. A purge also makes the table of the rows if it is
missing. -/
theorem OnChange.over (hadding : ∀ {s : Store} r, Q s → Q (s.adding r))
    (hdropping : ∀ {s : Store} r, Q s → Q (s.dropping r))
    (htable : ∀ {s : Store}, Q s → Q { s with resources := some s.records }) :
    OnChange (Over Q) := by
  have hwrite : ∀ {α : Type} {s : Store} {work : Draft (Ending α)}, Q (s.write work).2 →
      Over Q ((write work).on (.embedded s)).2 := fun h => ⟨_, rfl, h⟩
  have hfold : ∀ (old : List Resource) {s : Store}, Q s → Q (old.foldl Store.dropping s) := by
    intro old
    induction old with
    | nil => exact fun h => h
    | cons r rest ih => exact fun h => ih (hdropping r h)
  rintro change b ⟨s, rfl, h⟩
  cases change with
  | create r =>
    have hinsert : Q (s.write (Store.insert r)).2 := by
      rw [Store.write_insert]
      split
      · exact h
      · split
        · exact h
        · exact hadding r h
    unfold Change.on Registry.create
    simp only []
    cases r.validate with
    | error e =>
      rw [on_bind_error (on_check _ _)]
      exact ⟨s, rfl, h⟩
    | ok _ =>
      rw [on_bind_ok (on_check _ _), on_bind]
      rcases hon : (Access.write (Store.insert r)).on (.embedded s) with ⟨e | _, b⟩
      all_goals
        have hkept := hwrite hinsert
        rw [hon] at hkept
        exact hkept
  | delete id =>
    apply hwrite
    rw [Store.write_remove]
    split
    · exact h
    · split
      · exact h
      · exact hdropping _ h
  | purge cutoff =>
    apply hwrite
    rw [Store.write_purge]
    split
    · exact h
    · exact hfold _ (htable h)

end Backing

/-- The property survives what a step does to its storage, where changes to resources count only if
the step makes any. -/
structure Step.Respects (P : Backing → Prop) (step : Step) : Prop where
  reserves : Backing.OnReserve P
  changes : step.IsChange → Backing.OnChange P
  opens : ∀ s, P (.embedded s) → P (.embedded s.opened)

theorem Access.Looks.keeps {α : Type} {access : Access α} (h : Looks access)
    (P : Backing → Prop) : Keeps P (fun _ => True) access := by
  intro b hb
  rw [h b]
  exact ⟨hb, fun _ _ => trivial⟩

namespace Session

variable {P : Backing → Prop} {s : Session}

/-- **A step keeps what its ways to the storage keep.** -/
theorem step_keeps (hs : P s.backing) (step : Step) (hchecked : step.Checked)
    (h : Step.Respects P step) : P (s.step step).2.backing := by
  suffices hkept : Kept P (fun _ => True) (s.step step) from hkept.1
  have hstays : ∀ {outcome : Outcome}, P outcome.2.backing → Kept P (fun _ => True) outcome :=
    fun hb => ⟨hb, fun _ _ _ _ => trivial⟩
  have hlooks : ∀ {α : Type} {access : Access α}, Looks access →
      ∀ answer : α → Answer, Kept P (fun _ => True) (s.perform access answer) :=
    fun hl answer => perform_kept hs (hl.keeps P) answer
  cases step with
  -- values are reserved
  | allocateNext name => exact perform_kept hs (h.reserves.allocateNext _ _) _
  | allocateBlock name count => exact perform_kept hs (h.reserves.allocateBlock _ _ _) _
  | allocateTogether name callers =>
    exact allocateTogether_kept hs (h.reserves.allocateNext _ _) callers
  | nextValues name times => exact draw_kept hs h.reserves.next name times _ fun _ _ => rfl
  | nextIds name times => exact draw_kept hs h.reserves.nextId name times _ fun _ _ => rfl
  -- resources are changed
  | create r => exact perform_kept hs ((h.changes trivial).create r) _
  | createNow r => exact perform_kept hs ((h.changes trivial).create _) _
  | createSeries series => exact createSeries_kept hs (h.changes trivial).create series
  | createTogether id callers => exact createTogether_kept hs (h.changes trivial).create id callers
  | delete id => exact perform_kept hs ((h.changes trivial).delete id) _
  | purge cutoff => exact perform_kept hs ((h.changes trivial).purge cutoff) _
  -- the store is opened
  | reopen nameLimit blockSize =>
    cases hb : s.backing with
    | embedded store =>
      simp only [Session.step, reopen, hb]
      exact hstays (h.opens store (hb ▸ hs))
    | unreachable =>
      simp only [Session.step, reopen, hb]
      exact hstays hs
  -- all others look, or do not even do that
  | current name => exact hlooks (Sequence.current_looks _ _) _
  | nameLimit => exact hstays hs
  | makeGenerator as sequence format blockSize =>
    cases hmade : Generator.make s.limits.nameLimit sequence format
        (blockSize.getD s.limits.blockSize) with
    | ok g =>
      simp only [Session.step, hmade]
      exact hstays hs
    | error e =>
      simp only [Session.step, hmade]
      exact hstays hs
  | shareGenerator name as =>
    cases hfound : s.generator? name with
    | none =>
      simp only [Session.step, hfound]
      exact hstays hs
    | some found =>
      simp only [Session.step, hfound]
      exact hstays hs
  | dropGenerator name => exact hstays hs
  | get id => exact hlooks (Registry.get_looks id) _
  | findDuplicate bucket hash => exact hlooks (Registry.findDuplicate_looks bucket hash) _
  | listAll scope => exact hlooks (Walk.collect_looks _) _
  | listPage scope start limit => exact hlooks (listPage_looks scope start limit) _
  | beginWalk as scope pageSize => exact hstays hs
  | copyWalk name as => exact withWalk_kept hs name fun w => hstays hs
  | resizeWalk name pageSize => exact withWalk_kept hs name fun w => hstays hs
  | restartWalk name => exact withWalk_kept hs name fun w => hstays hs
  | walkOn name =>
    rw [walkOn_eq]
    apply withWalk_kept hs name
    intro w
    cases (w.next.on s.backing).1 <;> exact hstays hs
  | collectWalk name =>
    exact withWalk_kept hs name fun w =>
      perform_kept (s := { s with walks := s.walks.erase name }) hs (w.collect_looks.keeps P) _
  | health => exact hlooks Registry.health_looks _
  | backend => exact hstays hs
  | openAgain => exact hstays hs
  | dump => exact hlooks (Looks.read _) _
  | counter name => exact hlooks (Looks.read _) _
  | storedPage scope after limit => exact hlooks (Looks.read _) _
  | reserve _ _ => exact hchecked.elim
  | insert _ => exact hchecked.elim
  | putBytes _ _ => exact hchecked.elim
  | putEntry _ _ => exact hchecked.elim
  | dropBytes _ => exact hchecked.elim
  | dropTable _ => exact hchecked.elim

theorem run_cons (step : Step) (rest : List Step) (s : Session) :
    run (step :: rest) s =
      ((s.step step).1 :: (run rest (s.step step).2).1, (run rest (s.step step).2).2) := rfl

end Session

end ObjectRegistry
