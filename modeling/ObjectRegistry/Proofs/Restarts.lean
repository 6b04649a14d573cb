import Mathlib.Data.List.ReduceOption
import ObjectRegistry.Proofs.Failures
import ObjectRegistry.Proofs.Steps

/-!
# Restarts

Opening a store writes: it makes the tables that are missing and plants the counters that every
store starts with. On a store that is open it does nothing (`Store.Open.opened_eq`), and a store
stays open whatever is done to it by calls, since no call takes a table away or a counter
(`Session.step_open`). The records need not even be readable for that.

What else a restart changes is the generators and walks, which it forgets. A step that names none of
them (`Step.Standalone`) cannot tell two sessions apart that differ in these alone
(`Session.Agree`). So restarts between such steps change nothing (`Session.interrupted_agree`).
-/

namespace ObjectRegistry

open Access

/-! ## Open stores -/

namespace Store

variable {s : Store}

/-- Planting some seeds leaves all of them planted, and those that were there. -/
theorem contains_plant (planted : List (String × Int64)) (table : SequenceTable) (name : String) :
    (planted.foldl (fun t seed => if t.contains seed.1 then t else t.insert seed.1 seed.2)
      table).contains name = true ↔
      table.contains name = true ∨ ∃ seed ∈ planted, seed.1 = name := by
  induction planted generalizing table with
  | nil => simp
  | cons seed rest ih =>
    rw [List.foldl_cons, ih]
    by_cases hthere : table.contains seed.1 = true
    · rw [if_pos hthere]
      constructor
      · rintro (h | ⟨x, hx, hname⟩)
        · exact Or.inl h
        · exact Or.inr ⟨x, List.mem_cons_of_mem _ hx, hname⟩
      · rintro (h | ⟨x, hx, hname⟩)
        · exact Or.inl h
        · rcases List.mem_cons.1 hx with rfl | hrest
          · exact Or.inl (hname ▸ hthere)
          · exact Or.inr ⟨x, hrest, hname⟩
    · rw [if_neg hthere, Table.contains_insert]
      simp only [List.mem_cons, exists_eq_or_imp, eq_comm (a := name)]
      tauto

theorem opened_open (s : Store) : s.opened.Open where
  tables := ⟨_, _, _, _, rfl⟩
  seeded seed hseed := (contains_plant seeds _ seed.1).2 (Or.inr ⟨seed, hseed, rfl⟩)

theorem Open.advanced (h : s.Open) (name : String) (last : Int64) :
    (s.advanced name last).Open := by
  refine ⟨?_, ?_⟩
  · obtain ⟨sequences, rows, byHash, byBucket, rfl⟩ := h.tables
    exact ⟨_, rows, byHash, byBucket, rfl⟩
  · intro seed hseed
    show (s.counters.insert name last).contains seed.1 = true
    rw [Table.contains_insert]
    exact Or.inr (h.seeded seed hseed)

theorem Open.adding (h : s.Open) (r : Resource) : (s.adding r).Open := by
  refine ⟨?_, h.seeded⟩
  obtain ⟨sequences, rows, byHash, byBucket, rfl⟩ := h.tables
  exact ⟨sequences, _, _, _, rfl⟩

theorem Open.dropping (h : s.Open) (r : Resource) : (s.dropping r).Open := by
  refine ⟨?_, h.seeded⟩
  obtain ⟨sequences, rows, byHash, byBucket, rfl⟩ := h.tables
  exact ⟨sequences, _, _, _, rfl⟩

end Store

/-- An embedded store that is open. -/
def Backing.Open (b : Backing) : Prop := ∃ s : Store, b = .embedded s ∧ s.Open

theorem Backing.Open.onReserve : Backing.OnReserve Backing.Open :=
  Backing.OnReserve.over fun name last h _ => h.advanced name last

theorem Backing.Open.onChange : Backing.OnChange Backing.Open := by
  refine Backing.OnChange.over (fun r h => h.adding r) (fun r h => h.dropping r) ?_
  -- an open store has the table of the rows
  intro s h
  obtain ⟨sequences, rows, byHash, byBucket, rfl⟩ := h.tables
  exact h

/-! ## Steps without names -/

/-- A step that names no generator and no walk, and does not open the store. -/
def Step.Standalone : Step → Prop
  | .makeGenerator _ _ _ _ | .shareGenerator _ _ | .dropGenerator _ | .nextValues _ _
  | .nextIds _ _ | .beginWalk _ _ _ | .copyWalk _ _ | .resizeWalk _ _ | .restartWalk _
  | .walkOn _ | .collectWalk _ | .reopen _ _ => False
  | step => step.Checked

theorem Step.Standalone.checked {step : Step} (h : step.Standalone) : step.Checked := by
  cases step
  all_goals first | exact h | exact h.elim

namespace Session

variable {s t : Session} {α : Type}

/-- Sessions that differ at most in their generators and walks. -/
structure Agree (s t : Session) : Prop where
  backing : s.backing = t.backing
  limits : s.limits = t.limits
  now : s.now = t.now

theorem Agree.refl (s : Session) : Agree s s := ⟨rfl, rfl, rfl⟩

theorem perform_agree (h : Agree s t) (access : Access α) (answer : α → Answer) :
    (s.perform access answer).1 = (t.perform access answer).1 ∧
      Agree (s.perform access answer).2 (t.perform access answer).2 := by
  unfold perform
  rw [h.backing]
  rcases access.on t.backing with ⟨e | a, b⟩
  · exact ⟨rfl, rfl, h.limits, h.now⟩
  · exact ⟨rfl, rfl, h.limits, h.now⟩

theorem performInTurn_agree (h : Agree s t) (goesOn : Except Error α → Bool)
    (calls : List (Access α)) (answer : List (Except Error α) → Except Failure Answer) :
    (s.performInTurn goesOn calls answer).1 = (t.performInTurn goesOn calls answer).1 ∧
      Agree (s.performInTurn goesOn calls answer).2 (t.performInTurn goesOn calls answer).2 := by
  unfold performInTurn
  rw [h.backing]
  exact ⟨rfl, rfl, h.limits, h.now⟩

/-- **A step without names cannot tell such sessions apart.** -/
theorem step_agree (h : Agree s t) {step : Step} (hstep : step.Standalone) :
    (s.step step).1 = (t.step step).1 ∧ Agree (s.step step).2 (t.step step).2 := by
  obtain ⟨hbacking, hlimits, hnow⟩ := h
  cases step with
  | allocateTogether name callers =>
    simp only [Session.step, hlimits]
    exact performInTurn_agree ⟨hbacking, hlimits, hnow⟩ _ _ _
  | createSeries series => exact performInTurn_agree ⟨hbacking, hlimits, hnow⟩ _ _ _
  | createTogether id callers => exact performInTurn_agree ⟨hbacking, hlimits, hnow⟩ _ _ _
  | nameLimit =>
    refine ⟨?_, hbacking, hlimits, hnow⟩
    simp only [Session.step, hlimits]
  | backend =>
    refine ⟨?_, hbacking, hlimits, hnow⟩
    simp only [Session.step, hbacking]
  | openAgain => exact ⟨rfl, hbacking, hlimits, hnow⟩
  | makeGenerator _ _ _ _ => exact hstep.elim
  | shareGenerator _ _ => exact hstep.elim
  | dropGenerator _ => exact hstep.elim
  | nextValues _ _ => exact hstep.elim
  | nextIds _ _ => exact hstep.elim
  | beginWalk _ _ _ => exact hstep.elim
  | copyWalk _ _ => exact hstep.elim
  | resizeWalk _ _ => exact hstep.elim
  | restartWalk _ => exact hstep.elim
  | walkOn _ => exact hstep.elim
  | collectWalk _ => exact hstep.elim
  | reopen _ _ => exact hstep.elim
  | _ =>
    -- all others are one operation on the storage
    simp only [Session.step, hlimits, hnow]
    exact perform_agree ⟨hbacking, hlimits, hnow⟩ _ _

/-- A step leaves an open store open. -/
theorem step_open (h : s.backing.Open) {step : Step} (hchecked : step.Checked) :
    (s.step step).2.backing.Open :=
  step_keeps h step hchecked
    { reserves := Backing.Open.onReserve
      changes := fun _ => Backing.Open.onChange
      opens := fun store _ => ⟨store.opened, rfl, store.opened_open⟩ }

/-! ## Runs with restarts -/

/-- A run in which the registry is closed and opened again wherever there is no step. -/
def interrupted : List (Option Step) → Session → List (Except Failure Answer) × Session
  | [], s => ([], s)
  | none :: rest, s => interrupted rest (s.reopen s.limits).2
  | some step :: rest, s =>
    let (answer, s) := s.step step
    let (answers, s) := interrupted rest s
    (answer :: answers, s)

/-- Closing a registry over an open store and opening it again loses generators and walks only. -/
theorem reopen_agree (h : s.backing.Open) : Agree (s.reopen s.limits).2 s := by
  obtain ⟨store, hstore, hopen⟩ := h
  simp only [reopen, hstore, hopen.opened_eq]
  exact ⟨hstore.symm, rfl, rfl⟩

/-- **Restarts are not noticed**, wherever they stand between steps without names. -/
theorem interrupted_agree {turns : List (Option Step)}
    (hturns : ∀ step, some step ∈ turns → step.Standalone) :
    ∀ {s t : Session}, Agree s t → s.backing.Open →
      (interrupted turns s).1 = (run turns.reduceOption t).1 ∧
        Agree (interrupted turns s).2 (run turns.reduceOption t).2 := by
  induction turns with
  | nil => exact fun h _ => ⟨rfl, h⟩
  | cons turn rest ih =>
    intro s t h hopen
    have hlater : ∀ step, some step ∈ rest → step.Standalone :=
      fun step hstep => hturns step (List.mem_cons_of_mem _ hstep)
    cases turn with
    | none =>
      have hagree := reopen_agree hopen
      exact ih hlater ⟨hagree.backing.trans h.backing, hagree.limits.trans h.limits,
        hagree.now.trans h.now⟩ (hagree.backing ▸ hopen)
    | some step =>
      have hstep := hturns step List.mem_cons_self
      obtain ⟨hanswer, hagree⟩ := step_agree h hstep
      obtain ⟨hanswers, hend⟩ := ih hlater hagree (step_open hopen hstep.checked)
      rw [List.reduceOption_cons_of_some, run_cons]
      exact ⟨List.cons_eq_cons.2 ⟨hanswer, hanswers⟩, hend⟩

end Session

end ObjectRegistry
