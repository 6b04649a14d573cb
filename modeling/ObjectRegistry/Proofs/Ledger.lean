import ObjectRegistry.Proofs.Accounts
import ObjectRegistry.Proofs.Runs

/-!
# The ledger of a session

A ledger follows a session and writes down every value that is handed out, by whom, and the
generators that were forgotten when the registry was closed. It adds nothing to the session: what a
step hands out is read off its answer (`Session.handedBy`), and the session of a ledger is the one
that the run leads to (`Ledger.along_session`).

Every step of a session is made of moves of the accounts (`Ledger.after_moves`). So the ledger of a
run is balanced, and that is all there is to say about values: none is handed out twice, and none is
lost without account (`Ledger.accounted`).
-/

namespace ObjectRegistry

open Accounts

/-- The last value that a sequence counts as issued before it is used: its seed, or 0. -/
def Store.seedOf (name : String) : Int := ((seeds.lookup name).getD 0).toInt

/-- The last value that a sequence of a storage issued. -/
def Backing.counterOf : Backing → String → Int
  | .embedded s => s.counterOf
  | .unreachable => fun _ => 0

/-- What a generator holds, and of which sequence. -/
def Generator.account (g : Generator) : String × List Int :=
  (g.sequence, g.lease.map Int64.toInt)

namespace Session

/-- The values that an answer hands out. -/
def handedBy : Except Failure Answer → List Int64
  | .ok (.value v) => [v]
  | .ok (.block b) => b.values
  | .ok (.values vs) => vs
  | .error (.afterValues _ vs) => vs
  | _ => []

/-- The values handed out to a number of callers, some of whom may be refused. -/
def drawnTogether (s : Session) (name : String) (callers : Nat) : List Int64 :=
  granted (Access.inTurn (fun _ => true)
    (List.replicate callers (Sequence.allocateNext s.limits.nameLimit name)) s.backing).1

/-- What a step hands out. The generators of the session have serial numbers from `earlier` on. An
id stands for the value that the generator would have handed out in its place
(`step_nextIds`). -/
def issues (s : Session) (earlier : Nat) (step : Step) : List Issue :=
  match step with
  | .allocateNext name | .allocateBlock name _ =>
    entries name none ((handedBy (s.step step).1).map Int64.toInt)
  | .allocateTogether name callers =>
    entries name none ((s.drawnTogether name callers).map Int64.toInt)
  | .nextValues name times | .nextIds name times =>
    match s.generator? name with
    | none => []
    | some (place, g) =>
      entries g.sequence (some (earlier + place))
        ((handedBy (s.step (.nextValues name times)).1).map Int64.toInt)
  | _ => []

/-- A generator is dropped when no name is left that leads to it. -/
def isNamed (s : Session) (place : Nat) : Bool :=
  s.generatorNames.toList.any fun b => b.2 == place

/-- The generators of a session that have a name. -/
def live (s : Session) : List Generator :=
  (s.generators.zipIdx.filter fun g => s.isNamed g.2).map Prod.fst

/-- The generators of a session that lost their last name. -/
def dropped (s : Session) : List Generator :=
  (s.generators.zipIdx.filter fun g => !s.isNamed g.2).map Prod.fst

end Session

/-- A session and what it handed out. -/
structure Ledger where
  session : Session
  /-- The generators that were forgotten when the registry was closed. -/
  closed : List Generator
  /-- Everything handed out, in that order. -/
  issues : List Issue

namespace Ledger

/-- The ledger of a session over a fresh store. -/
def new (limits : Limits) (now : Int64) : Ledger where
  session := .new limits now
  closed := []
  issues := []

/-- The ledger after a step. -/
def after (l : Ledger) (step : Step) : Ledger where
  session := (l.session.step step).2
  closed :=
    match step, (l.session.step step).1 with
    | .reopen _ _, .ok _ => l.closed ++ l.session.generators
    | _, _ => l.closed
  issues := l.issues ++ l.session.issues l.closed.length step

/-- The ledger after a run. -/
def along (l : Ledger) (steps : List Step) : Ledger := steps.foldl after l

/-- A ledger follows the run it is kept of. -/
theorem along_session (l : Ledger) (steps : List Step) :
    (l.along steps).session = (Session.run steps l.session).2 := by
  induction steps generalizing l with
  | nil => rfl
  | cons step rest ih => exact ih (l.after step)

/-- The counter of a sequence. -/
def counter (l : Ledger) (name : String) : Int := l.session.backing.counterOf name

/-- Everything handed out of a sequence, in that order. -/
def issued (l : Ledger) (name : String) : List Int :=
  (l.issues.filter fun i => i.sequence == name).map Issue.value

/-- What a generator handed out, under whichever names it had, in that order. -/
def drawn (l : Ledger) (serial : Nat) : List Int :=
  (l.issues.filter fun i => i.source == some serial).map Issue.value

/-- The values of a sequence that wait in the leases of generators with a name. -/
def queued (l : Ledger) (name : String) : List Int :=
  (l.session.live.map Generator.account).flatMap (heldOf name)

/-- The values of a sequence that were left in generators without a name. -/
def lost (l : Ledger) (name : String) : List Int :=
  ((l.closed ++ l.session.dropped).map Generator.account).flatMap (heldOf name)

/-- The accounts of some generators over a storage. -/
def accountsOf (b : Backing) (gs : List Generator) (issues : List Issue) : Accounts where
  counter := b.counterOf
  leases := gs.map Generator.account
  issues

/-- The accounts of a ledger. -/
def accounts (l : Ledger) : Accounts :=
  accountsOf l.session.backing (l.closed ++ l.session.generators) l.issues

end Ledger

open Ledger

/-! ## Calls as moves -/

theorem Store.counterOf_fresh (name : String) : fresh.counterOf name = seedOf name := by
  have hcounters : fresh.counters = (Table.empty.insert "image_bed" 3).insert "test_id" 21 := rfl
  unfold counterOf seedOf
  rw [hcounters, Table.get?_insert, Table.get?_insert, Table.get?_empty]
  by_cases himage : name = "image_bed"
  · subst himage
    rfl
  · by_cases htest : name = "test_id"
    · subst htest
      rfl
    · have himage' : (name == "image_bed") = false := beq_eq_false_iff_ne.2 himage
      have htest' : (name == "test_id") = false := beq_eq_false_iff_ne.2 htest
      simp [seeds, List.lookup_cons, himage, htest, himage', htest']

theorem accountsOf_advanced (s : Store) (name : String) (last : Int64) (gs : List Generator)
    (is : List Issue) :
    accountsOf (.embedded (s.advanced name last)) gs is =
      { counter := (accountsOf (.embedded s) gs is).moved name last.toInt
        leases := gs.map Generator.account
        issues := is } := by
  have hcounter : (s.advanced name last).counterOf =
      fun other => if other = name then last.toInt else s.counterOf other :=
    funext fun other => Store.counterOf_advanced s name other last
  show ({ counter := (s.advanced name last).counterOf, leases := _, issues := _ } : Accounts) = _
  rw [hcounter]
  rfl

theorem accountsOf_set (b : Backing) (gs : List Generator) (k : Nat) (g : Generator)
    (is : List Issue) :
    accountsOf b (gs.set k g) is =
      { counter := b.counterOf
        leases := (gs.map Generator.account).set k g.account
        issues := is } := by
  rw [accountsOf, List.map_set]

/-- A generator that handed out nothing is where it was. -/
theorem accountsOf_undrawn (b : Backing) {gs : List Generator} {k : Nat} {g : Generator}
    (hg : gs[k]? = some g) (is : List Issue) (name : String) (source : Option Nat) :
    accountsOf b (gs.set k g) (is ++ entries name source []) = accountsOf b gs is := by
  obtain ⟨hk, hget⟩ := List.getElem?_eq_some_iff.1 hg
  rw [← hget, List.set_getElem_self, show entries name source [] = [] from rfl, List.append_nil]

/-- A counter that is moved over values grants them. -/
theorem advanced_move {s : Store} {name : String} {last : Int64}
    (hlt : s.counterOf name < last.toInt) {values : List Int64}
    (hvalues : values.map Int64.toInt = interval (s.counterOf name) last.toInt)
    (gs : List Generator) (is : List Issue) :
    Move (accountsOf (.embedded s) gs is) (accountsOf (.embedded (s.advanced name last)) gs
      (is ++ entries name none (values.map Int64.toInt))) := by
  rw [accountsOf_advanced, hvalues]
  exact Move.grant (accountsOf (.embedded s) gs is) name last.toInt (Int.le_of_lt hlt)

/-- A counter that is moved by one grants where it comes to. -/
theorem advanced_next_move {s : Store} {name : String} {value : Int64}
    (hnext : value.toInt = s.counterOf name + 1) (gs : List Generator) (is : List Issue) :
    Move (accountsOf (.embedded s) gs is) (accountsOf (.embedded (s.advanced name value)) gs
      (is ++ entries name none [value.toInt])) := by
  have hone : [value].map Int64.toInt = interval (s.counterOf name) value.toInt := by
    rw [hnext, interval_succ, ← hnext]
    rfl
  exact advanced_move (by omega) hone gs is

/-- A block is denied or granted. -/
theorem Sequence.allocateBlock_move (limit : Nat) (name : String) (count : UInt32) (s : Store) :
    (∃ e, (allocateBlock limit name count).on (.embedded s) = (.error e, .embedded s)) ∨
    ∃ block s', (allocateBlock limit name count).on (.embedded s) = (.ok block, .embedded s') ∧
      ∀ gs is, Move (accountsOf (.embedded s) gs is) (accountsOf (.embedded s') gs
        (is ++ entries name none (block.values.map Int64.toInt))) := by
  rcases allocateBlock_cases limit name count s with
    ⟨e, hfails, -⟩ | ⟨block, last, hblock, -, hlt, -, hvalues⟩
  · exact Or.inl ⟨e, hfails⟩
  · exact Or.inr ⟨block, _, hblock, advanced_move hlt hvalues⟩

/-- A single value is denied or granted. -/
theorem Sequence.allocateNext_move (limit : Nat) (name : String) (s : Store) :
    (∃ e, (allocateNext limit name).on (.embedded s) = (.error e, .embedded s)) ∨
    ∃ value s', (allocateNext limit name).on (.embedded s) = (.ok value, .embedded s') ∧
      ∀ gs is, Move (accountsOf (.embedded s) gs is)
        (accountsOf (.embedded s') gs (is ++ entries name none [value.toInt])) := by
  rcases allocateNext_cases limit name s with ⟨e, hfails, -⟩ | ⟨value, hvalue, hnext⟩
  · exact Or.inl ⟨e, hfails⟩
  · exact Or.inr ⟨value, _, hvalue, advanced_next_move hnext⟩

/-- A generator hands out a value in one move, or is denied it. It stays a generator of its
sequence with its format. -/
theorem Generator.next_move (g : Generator) (s : Store) :
    (∃ e, g.next.on (.embedded s) = (.error e, .embedded s)) ∨
    ∃ value g' s', g.next.on (.embedded s) = (.ok (value, g'), .embedded s') ∧
      g'.sequence = g.sequence ∧ g'.format = g.format ∧
      ∀ gs is k, gs[k]? = some g → Move (accountsOf (.embedded s) gs is)
        (accountsOf (.embedded s') (gs.set k g')
          (is ++ entries g.sequence (some k) [value.toInt])) := by
  have hlease : ∀ {gs : List Generator} {k : Nat}, gs[k]? = some g →
      (gs.map account)[k]? = some (g.sequence, g.lease.map Int64.toInt) := by
    intro gs k hg
    rw [List.getElem?_map, hg]
    rfl
  rcases g.next_cases s with
    ⟨e, -, hfails, -⟩ | ⟨value, rest, hfull, hnext⟩ |
    ⟨value, rest, last, hempty, hnext, hlt, hvalues⟩
  · exact Or.inl ⟨e, hfails⟩
  · refine Or.inr ⟨value, _, s, hnext, rfl, rfl, ?_⟩
    intro gs is k hg
    have hheld := hlease hg
    rw [hfull] at hheld
    have hmove := Move.take (accountsOf (.embedded s) gs is) k g.sequence value.toInt
      (rest.map Int64.toInt) hheld
    rw [accountsOf_set]
    exact hmove
  · refine Or.inr ⟨value, _, _, hnext, rfl, rfl, ?_⟩
    intro gs is k hg
    have hheld := hlease hg
    rw [hempty] at hheld
    have hmove := Move.refill (accountsOf (.embedded s) gs is) k g.sequence value.toInt
      (rest.map Int64.toInt) last.toInt hheld (Int.le_of_lt hlt) hvalues
    rw [accountsOf_advanced, List.map_set]
    exact hmove

namespace Session

/-- Drawing over and over is as many moves as there are values. Drawing ids does the same, and
answers the values as ids. -/
theorem repeatedly_moves (n : Nat) (drawn : List Int64) (g : Generator) (s : Store) :
    ∃ values error? g' s',
      repeatedly Generator.nextValue n drawn g (.embedded s) =
        (drawn.reverse ++ values, error?, g', .embedded s') ∧
      repeatedly Generator.nextId n (drawn.map g.format.render) g (.embedded s) =
        ((drawn.reverse ++ values).map g.format.render, error?, g', .embedded s') ∧
      ∀ gs is k, gs[k]? = some g → Moves (accountsOf (.embedded s) gs is)
        (accountsOf (.embedded s') (gs.set k g')
          (is ++ entries g.sequence (some k) (values.map Int64.toInt))) := by
  induction n generalizing drawn g s with
  | zero =>
    refine ⟨[], none, g, s, ?_, ?_, ?_⟩
    · rw [List.append_nil]
      rfl
    · rw [List.append_nil, List.map_reverse]
      rfl
    · intro gs is k hg
      rw [List.map_nil, accountsOf_undrawn _ hg]
  | succ n ih =>
    rcases g.next_move s with ⟨e, hfails⟩ | ⟨value, g', s', hnext, hsequence, hformat, hmove⟩
    · -- a failed attempt draws nothing and ends the drawing
      refine ⟨[], some e, g, s, ?_, ?_, ?_⟩
      · unfold repeatedly
        rw [Generator.nextValue_on_error hfails, List.append_nil]
      · unfold repeatedly
        rw [Generator.nextId_on_error hfails, List.append_nil, List.map_reverse]
      · intro gs is k hg
        rw [List.map_nil, accountsOf_undrawn _ hg]
    · obtain ⟨values, error?, g'', s'', hvalues, hids, hmoves⟩ := ih (value :: drawn) g' s'
      refine ⟨value :: values, error?, g'', s'', ?_, ?_, ?_⟩
      · unfold repeatedly
        rw [Generator.nextValue_on_ok hnext]
        simpa using hvalues
      · unfold repeatedly
        rw [Generator.nextId_on_ok hnext, hformat]
        rw [hformat] at hids
        simpa using hids
      · -- the generator that goes on stands in the place of the one that drew
        intro gs is k hg
        have hk : k < gs.length := (List.getElem?_eq_some_iff.1 hg).1
        have hrest := hmoves (gs.set k g') (is ++ entries g.sequence (some k) [value.toInt]) k
          (List.getElem?_set_self hk)
        rw [List.set_set, hsequence, List.append_assoc] at hrest
        exact Relation.ReflTransGen.head (hmove gs is k hg) hrest

/-- Many callers in turn are as many moves as callers that were served. -/
theorem inTurn_moves (limit : Nat) (name : String) (callers : Nat) (s : Store) :
    ∃ answers s', Access.inTurn (fun _ => true)
        (List.replicate callers (Sequence.allocateNext limit name)) (.embedded s) =
          (answers, .embedded s') ∧
      ∀ gs is, Moves (accountsOf (.embedded s) gs is) (accountsOf (.embedded s') gs
        (is ++ entries name none ((granted answers).map Int64.toInt))) := by
  induction callers generalizing s with
  | zero =>
    refine ⟨[], s, rfl, fun gs is => ?_⟩
    rw [show entries name none _ = ([] : List Issue) from rfl, List.append_nil]
  | succ callers ih =>
    rw [List.replicate_succ]
    unfold Access.inTurn
    rcases Sequence.allocateNext_move limit name s with ⟨e, hfails⟩ | ⟨value, s', hnext, hmove⟩
    · -- a caller that is refused leaves the store to the next
      obtain ⟨answers, s', hrest, hmoves⟩ := ih s
      rw [hfails]
      exact ⟨.error e :: answers, s', by simp only [if_pos, hrest], hmoves⟩
    · obtain ⟨answers, s'', hrest, hmoves⟩ := ih s'
      rw [hnext]
      refine ⟨.ok value :: answers, s'', by simp only [if_pos, hrest], fun gs is => ?_⟩
      have hlater := hmoves gs (is ++ entries name none [value.toInt])
      rw [List.append_assoc] at hlater
      exact Relation.ReflTransGen.head (hmove gs is) hlater

/-! ## Steps as moves -/

variable {s : Session} {store : Store}

/-- Drawing ids leaves what drawing values leaves, and answers the values as ids. -/
theorem step_nextIds (hstore : s.backing = .embedded store) (name : String) (times : Nat) :
    (s.step (.nextIds name times)).2 = (s.step (.nextValues name times)).2 ∧
      ∀ place g, s.generator? name = some (place, g) →
        ∃ values, handedBy (s.step (.nextValues name times)).1 = values ∧
          ((s.step (.nextIds name times)).1 = .ok (.ids (values.map g.format.render)) ∨
            ∃ e, (s.step (.nextIds name times)).1 =
              .error (.afterIds e (values.map g.format.render))) := by
  cases hfound : s.generator? name with
  | none =>
    simp only [step, draw, hfound]
    exact ⟨trivial, fun _ _ h => by cases h⟩
  | some found =>
    obtain ⟨place, g⟩ := found
    obtain ⟨values, error?, g', s', hvalues, hids, -⟩ := repeatedly_moves times [] g store
    rw [List.map_nil] at hids
    simp only [step, draw, hfound, hstore, hvalues, hids]
    cases error? with
    | none =>
      refine ⟨rfl, ?_⟩
      intro place' g'' h
      cases h
      exact ⟨_, rfl, Or.inl rfl⟩
    | some e =>
      refine ⟨rfl, ?_⟩
      intro place' g'' h
      cases h
      exact ⟨_, rfl, Or.inr ⟨e, rfl⟩⟩

end Session

/-! ## Steps that move no value -/

theorem Backing.Counts.counterOf_eq {table : Option SequenceTable} {b b' : Backing}
    (h : b.Counts table) (h' : b'.Counts table) : b'.counterOf = b.counterOf := by
  obtain ⟨s, rfl, -, hs⟩ := h
  obtain ⟨s', rfl, -, hs'⟩ := h'
  funext name
  show s'.counterOf name = s.counterOf name
  unfold Store.counterOf Store.counters
  rw [hs, hs']

namespace Session

variable {s : Session} {α : Type}

/-- Looking leaves the session as it is. -/
theorem perform_looks {access : Access α} (h : Access.Looks access) (answer : α → Answer) :
    (s.perform access answer).2 = s := by
  have hsame := h s.backing
  unfold perform
  rcases hon : access.on s.backing with ⟨_ | _, b⟩
  all_goals
    rw [hon] at hsame
    cases hsame
    rfl

theorem perform_generators (access : Access α) (answer : α → Answer) :
    (s.perform access answer).2.generators = s.generators := by
  unfold perform
  split <;> rfl

/-- What a step may change that moves no value: anything but the counters and the generators. -/
def Undrawn (s s' : Session) : Prop :=
  s'.backing.counterOf = s.backing.counterOf ∧ s'.generators = s.generators

theorem Undrawn.refl (s : Session) : Undrawn s s := ⟨rfl, rfl⟩

theorem looks_undrawn {access : Access α} (h : Access.Looks access) (answer : α → Answer) :
    Undrawn s (s.perform access answer).2 := by
  rw [perform_looks h]
  exact Undrawn.refl s

theorem withWalk_undrawn (name : String) {act : Walk → Outcome}
    (hact : ∀ w, Undrawn s (act w).2) : Undrawn s (s.withWalk name act).2 := by
  unfold withWalk
  cases s.walks.get? name with
  | none => exact Undrawn.refl s
  | some w => exact hact w

theorem walkOn_undrawn (name : String) : Undrawn s (s.step (.walkOn name)).2 := by
  rw [walkOn_eq]
  apply withWalk_undrawn name
  intro w
  cases (w.next.on s.backing).1 <;> exact ⟨rfl, rfl⟩

end Session

namespace Ledger

variable {l : Ledger} {store : Store}

/-- A step that moves no value and hands out none leaves the accounts as they are. -/
theorem moves_of_undrawn {step : Step} (h : Session.Undrawn l.session (l.session.step step).2)
    (hissues : l.session.issues l.closed.length step = [])
    (hclosed : (l.after step).closed = l.closed) :
    Moves l.accounts (l.after step).accounts := by
  have hsame : (l.after step).accounts = l.accounts := by
    unfold accounts accountsOf
    rw [hclosed, show (l.after step).issues = l.issues ++ _ from rfl, hissues, List.append_nil]
    show ({ counter := (l.session.step step).2.backing.counterOf
            leases := (l.closed ++ (l.session.step step).2.generators).map _
            issues := _ } : Accounts) = _
    rw [h.1, h.2]
  rw [hsame]

/-- Calls that are granted values. -/
theorem allocateNext_moves (hstore : l.session.backing = .embedded store) (name : String) :
    Moves l.accounts (l.after (.allocateNext name)).accounts := by
  unfold accounts after Session.issues
  simp only [Session.step, Session.perform, hstore]
  rcases Sequence.allocateNext_move l.session.limits.nameLimit name store with
    ⟨e, hfails⟩ | ⟨value, s', hnext, hmove⟩
  · rw [hfails]
    simp only [Session.handedBy, List.map_nil, entries, List.append_nil]
    exact Relation.ReflTransGen.refl
  · rw [hnext]
    exact Relation.ReflTransGen.single (hmove _ _)

theorem allocateBlock_moves (hstore : l.session.backing = .embedded store) (name : String)
    (count : UInt32) : Moves l.accounts (l.after (.allocateBlock name count)).accounts := by
  unfold accounts after Session.issues
  simp only [Session.step, Session.perform, hstore]
  rcases Sequence.allocateBlock_move l.session.limits.nameLimit name count store with
    ⟨e, hfails⟩ | ⟨block, s', hblock, hmove⟩
  · rw [hfails]
    simp only [Session.handedBy, List.map_nil, entries, List.append_nil]
    exact Relation.ReflTransGen.refl
  · rw [hblock]
    exact Relation.ReflTransGen.single (hmove _ _)

theorem allocateTogether_moves (hstore : l.session.backing = .embedded store) (name : String)
    (callers : Nat) : Moves l.accounts (l.after (.allocateTogether name callers)).accounts := by
  obtain ⟨answers, s', hturns, hmoves⟩ :=
    Session.inTurn_moves l.session.limits.nameLimit name callers store
  unfold accounts after Session.issues
  simp only [Session.step, Session.performInTurn, Session.drawnTogether, hstore, hturns]
  exact hmoves _ _

/-- Drawing from a generator. -/
theorem nextValues_moves (hstore : l.session.backing = .embedded store) (name : String)
    (times : Nat) : Moves l.accounts (l.after (.nextValues name times)).accounts := by
  unfold accounts after Session.issues
  cases hfound : l.session.generator? name with
  | none =>
    simp only [Session.step, Session.draw, hfound, List.append_nil]
    exact Relation.ReflTransGen.refl
  | some found =>
    obtain ⟨place, g⟩ := found
    obtain ⟨values, error?, g', s', hvalues, -, hmoves⟩ :=
      Session.repeatedly_moves times [] g store
    -- serial numbers count the closed generators first
    have hplace : (l.closed ++ l.session.generators)[l.closed.length + place]? = some g := by
      rw [List.getElem?_append_right (Nat.le_add_right _ _), Nat.add_sub_cancel_left]
      exact Session.generator?_eq_some hfound
    have hset : l.closed ++ l.session.generators.set place g' =
        (l.closed ++ l.session.generators).set (l.closed.length + place) g' := by
      rw [List.set_append_right _ _ (Nat.le_add_right _ _), Nat.add_sub_cancel_left]
    simp only [Session.step, Session.draw, hfound, hstore, hvalues]
    -- whether the last attempt failed or not, the values before it are handed out
    cases error? with
    | none =>
      show Moves _ (accountsOf _ (l.closed ++ l.session.generators.set place g') _)
      rw [hset]
      exact hmoves _ _ _ hplace
    | some e =>
      show Moves _ (accountsOf _ (l.closed ++ l.session.generators.set place g') _)
      rw [hset]
      exact hmoves _ _ _ hplace

theorem nextIds_moves (hstore : l.session.backing = .embedded store) (name : String)
    (times : Nat) : Moves l.accounts (l.after (.nextIds name times)).accounts := by
  have hsame : l.after (.nextIds name times) = l.after (.nextValues name times) := by
    unfold after
    rw [(Session.step_nextIds hstore name times).1]
    rfl
  rw [hsame]
  exact nextValues_moves hstore name times

theorem makeGenerator_moves (as sequence : String) (format : IdFormat)
    (blockSize : Option UInt32) :
    Moves l.accounts (l.after (.makeGenerator as sequence format blockSize)).accounts := by
  unfold accounts after Session.issues
  cases hmade : Generator.make l.session.limits.nameLimit sequence format
      (blockSize.getD l.session.limits.blockSize) with
  | error e =>
    simp only [Session.step, hmade, List.append_nil]
    exact Relation.ReflTransGen.refl
  | ok g =>
    simp only [Session.step, hmade, List.append_nil]
    have hempty : g.account = (g.sequence, []) := by
      obtain ⟨-, -, -, rfl⟩ := Generator.make_eq_ok_iff.1 hmade
      rfl
    have hbuilt : (l.closed ++ (l.session.generators ++ [g])).map Generator.account =
        (l.closed ++ l.session.generators).map Generator.account ++ [(g.sequence, [])] := by
      rw [← List.append_assoc, List.map_append, List.map_singleton, hempty]
    show Moves _ {
      counter := l.session.backing.counterOf
      leases := (l.closed ++ (l.session.generators ++ [g])).map Generator.account
      issues := l.issues }
    rw [hbuilt]
    exact Relation.ReflTransGen.single (Move.build l.accounts g.sequence)

theorem reopen_moves (hstore : l.session.backing = .embedded store) (hs : store.Consistent)
    (nameLimit : Option Nat) (blockSize : Option UInt32) :
    Moves l.accounts (l.after (.reopen nameLimit blockSize)).accounts := by
  unfold accounts after Session.issues
  simp only [Session.step, Session.reopen, hstore, hs.opened_eq, List.append_nil]
  -- the generators of the session are closed, and still hold what they held
  show Moves _ (accountsOf _ ((l.closed ++ l.session.generators) ++ []) _)
  rw [List.append_nil]
  exact Relation.ReflTransGen.refl

/-- **Every step is made of moves**: of one for a call, of as many as there are values for repeated
calls, and of none if it has nothing to do with values. -/
theorem after_moves (hstore : l.session.backing = .embedded store) (hs : store.Consistent)
    (step : Step) (hchecked : step.Checked) : Moves l.accounts (l.after step).accounts := by
  have hcounts : l.session.backing.Counts store.sequences := ⟨store, hstore, hs, rfl⟩
  have hlooks : ∀ {α : Type} {access : Access α}, Access.Looks access →
      ∀ answer : α → Answer, Session.Undrawn l.session (l.session.perform access answer).2 :=
    Session.looks_undrawn
  have hchanges : ∀ {α : Type} {access : Access α},
      Access.Keeps (Backing.Counts store.sequences) (fun e => ¬ e.IsDamage) access →
      ∀ answer : α → Answer, Session.Undrawn l.session (l.session.perform access answer).2 :=
    fun h answer => ⟨hcounts.counterOf_eq (Session.perform_kept hcounts h answer).1,
      Session.perform_generators _ _⟩
  cases step with
  -- steps that hand out values, and those that change who holds them
  | allocateNext name => exact allocateNext_moves hstore name
  | allocateBlock name count => exact allocateBlock_moves hstore name count
  | allocateTogether name callers => exact allocateTogether_moves hstore name callers
  | makeGenerator as sequence format blockSize =>
    exact makeGenerator_moves as sequence format blockSize
  | nextValues name times => exact nextValues_moves hstore name times
  | nextIds name times => exact nextIds_moves hstore name times
  | reopen nameLimit blockSize => exact reopen_moves hstore hs nameLimit blockSize
  -- all others leave counters and generators alone
  | current name => exact moves_of_undrawn (hlooks (Sequence.current_looks _ _) _) rfl rfl
  | nameLimit => exact moves_of_undrawn (.refl _) rfl rfl
  | shareGenerator name as =>
    refine moves_of_undrawn ?_ rfl rfl
    cases hfound : l.session.generator? name with
    | none =>
      simp only [Session.step, hfound]
      exact .refl _
    | some found =>
      simp only [Session.step, hfound]
      exact ⟨rfl, rfl⟩
  | dropGenerator name => exact moves_of_undrawn ⟨rfl, rfl⟩ rfl rfl
  | create r => exact moves_of_undrawn (hchanges (Registry.create_counts r) _) rfl rfl
  | createNow r => exact moves_of_undrawn (hchanges (Registry.create_counts _) _) rfl rfl
  | createSeries series =>
    exact moves_of_undrawn ⟨hcounts.counterOf_eq
      (Session.createSeries_kept hcounts Registry.create_counts series).1, rfl⟩ rfl rfl
  | createTogether id callers =>
    exact moves_of_undrawn ⟨hcounts.counterOf_eq
      (Session.createTogether_kept hcounts Registry.create_counts id callers).1, rfl⟩ rfl rfl
  | get id => exact moves_of_undrawn (hlooks (Registry.get_looks id) _) rfl rfl
  | delete id => exact moves_of_undrawn (hchanges (Registry.delete_counts id) _) rfl rfl
  | purge cutoff => exact moves_of_undrawn (hchanges (Registry.purge_counts cutoff) _) rfl rfl
  | findDuplicate bucket hash =>
    exact moves_of_undrawn (hlooks (Registry.findDuplicate_looks bucket hash) _) rfl rfl
  | listAll scope => exact moves_of_undrawn (hlooks (Walk.collect_looks _) _) rfl rfl
  | listPage scope start limit =>
    exact moves_of_undrawn (hlooks (Session.listPage_looks scope start limit) _) rfl rfl
  | beginWalk as scope pageSize => exact moves_of_undrawn ⟨rfl, rfl⟩ rfl rfl
  | copyWalk name as =>
    exact moves_of_undrawn (Session.withWalk_undrawn name fun _ => ⟨rfl, rfl⟩) rfl rfl
  | resizeWalk name pageSize =>
    exact moves_of_undrawn (Session.withWalk_undrawn name fun _ => ⟨rfl, rfl⟩) rfl rfl
  | restartWalk name =>
    exact moves_of_undrawn (Session.withWalk_undrawn name fun _ => ⟨rfl, rfl⟩) rfl rfl
  | walkOn name => exact moves_of_undrawn (Session.walkOn_undrawn name) rfl rfl
  | collectWalk name =>
    refine moves_of_undrawn (Session.withWalk_undrawn name fun w => ?_) rfl rfl
    rw [Session.perform_looks w.collect_looks]
    exact ⟨rfl, rfl⟩
  | health => exact moves_of_undrawn (hlooks Registry.health_looks _) rfl rfl
  | backend => exact moves_of_undrawn (.refl _) rfl rfl
  | openAgain => exact moves_of_undrawn (.refl _) rfl rfl
  | dump => exact moves_of_undrawn (hlooks (Access.Looks.read _) _) rfl rfl
  | counter name => exact moves_of_undrawn (hlooks (Access.Looks.read _) _) rfl rfl
  | storedPage scope after limit =>
    exact moves_of_undrawn (hlooks (Access.Looks.read _) _) rfl rfl
  | reserve _ _ => exact hchecked.elim
  | insert _ => exact hchecked.elim
  | putBytes _ _ => exact hchecked.elim
  | putEntry _ _ => exact hchecked.elim
  | dropBytes _ => exact hchecked.elim
  | dropTable _ => exact hchecked.elim

/-- A run is made of moves. -/
theorem along_moves {steps : List Step} (hchecked : ∀ step ∈ steps, step.Checked) :
    ∀ {l : Ledger}, l.session.backing.Consistent →
      Moves l.accounts (l.along steps).accounts := by
  induction steps with
  | nil => exact fun _ => Relation.ReflTransGen.refl
  | cons step rest ih =>
    intro l h
    have hstep := hchecked step List.mem_cons_self
    have hkept := (Session.step_healthy h step hstep).1
    have hrest := ih (fun x hx => hchecked x (List.mem_cons_of_mem _ hx)) (l := l.after step) hkept
    obtain ⟨store, hstore, hs⟩ := h.embedded
    exact (after_moves hstore hs step hstep).trans hrest

/-! ## The ledger of a run balances -/

/-- A generator has a name or lost it. -/
theorem live_dropped_perm (s : Session) : (s.live ++ s.dropped).Perm s.generators := by
  have hsplit := (List.filter_append_perm (fun g => s.isNamed g.2) s.generators.zipIdx).map
    Prod.fst
  rwa [List.map_append, List.zipIdx_map_fst] at hsplit

/-- What the accounts call leased is queued or lost. -/
theorem leased_perm (l : Ledger) (name : String) :
    (l.queued name ++ l.lost name).Perm (l.accounts.leased name) := by
  have hall : (l.session.live ++ (l.closed ++ l.session.dropped)).Perm
      (l.closed ++ l.session.generators) := by
    refine List.Perm.trans ?_ ((live_dropped_perm l.session).append_left l.closed)
    exact List.perm_append_comm_assoc _ _ _
  rw [queued, lost, ← List.flatMap_append, ← List.map_append]
  exact (hall.map Generator.account).flatMap_right _

theorem new_balanced (limits : Limits) (now : Int64) :
    (new limits now).accounts.Balanced Store.seedOf := by
  have hseeds : Store.fresh.counterOf = Store.seedOf := funext Store.counterOf_fresh
  show Balanced Store.seedOf { counter := Store.fresh.counterOf, leases := [], issues := [] }
  rw [hseeds]
  exact Balanced.start Store.seedOf

/-- The ledger of every run over a fresh store is balanced. -/
theorem balanced (limits : Limits) (now : Int64) {steps : List Step}
    (hchecked : ∀ step ∈ steps, step.Checked) :
    ((new limits now).along steps).accounts.Balanced Store.seedOf :=
  (along_moves hchecked (l := new limits now) Store.fresh_consistent).balanced
    (new_balanced limits now)

/-- The ids that a generator hands out are its values in its format, and these values are what the
ledger writes down. -/
theorem nextIds_issued (hstore : l.session.backing = .embedded store) {name : String} {place : Nat}
    {g : Generator} (hfound : l.session.generator? name = some (place, g)) (times : Nat) :
    ∃ values : List Int64,
      ((l.session.step (.nextIds name times)).1 = .ok (.ids (values.map g.format.render)) ∨
        ∃ e, (l.session.step (.nextIds name times)).1 =
          .error (.afterIds e (values.map g.format.render))) ∧
      (l.after (.nextIds name times)).issues = l.issues ++
        entries g.sequence (some (l.closed.length + place)) (values.map Int64.toInt) := by
  obtain ⟨values, hvalues, hanswer⟩ :=
    (Session.step_nextIds hstore name times).2 place g hfound
  refine ⟨values, hanswer, ?_⟩
  simp only [after, Session.issues, hfound, hvalues]

/-- What callers at once are answered is what the ledger writes down. -/
theorem allocateTogether_issued {name : String} {callers : Nat} {values : List Int64}
    (hanswer : (l.session.step (.allocateTogether name callers)).1 = .ok (.values values)) :
    (l.after (.allocateTogether name callers)).issues =
      l.issues ++ entries name none (values.map Int64.toInt) := by
  have hdrawn : l.session.drawnTogether name callers = values := by
    simp only [Session.step, Session.performInTurn, Session.together] at hanswer
    split at hanswer
    next => exact Answer.values.inj (Except.ok.inj hanswer)
    next => cases hanswer
  rw [← hdrawn]
  rfl

/-- **No value is handed out twice, and none is lost without account.** Whatever is done to a
registry over a fresh store, no counter is ever taken back, no value is handed out twice, and the
values that a counter passed over since it was planted are those handed out, those that wait in
generators that still have a name, and those left in generators that do not. What one generator
hands out, under all its names, only grows. Where an answer shows no values, or not as such, the
ledger has those behind it: ids are the values written down in the format of their generator. -/
theorem accounted (limits : Limits) (now : Int64) {steps : List Step}
    (hchecked : ∀ step ∈ steps, step.Checked) :
    let l := (new limits now).along steps
    l.session = (Session.run steps (.new limits now)).2 ∧
    (∀ more, (∀ step ∈ more, Step.Checked step) →
      ∀ name, l.counter name ≤ (l.along more).counter name) ∧
    (∀ name, Store.seedOf name ≤ l.counter name) ∧
    (∀ name, (l.issued name).Nodup) ∧
    (∀ name, (l.issued name ++ (l.queued name ++ l.lost name)).Perm
      (interval (Store.seedOf name) (l.counter name))) ∧
    (∀ serial, (l.drawn serial).Pairwise (· < ·)) ∧
    (∀ name times place g, l.session.generator? name = some (place, g) →
      ∃ values : List Int64,
        ((l.session.step (.nextIds name times)).1 = .ok (.ids (values.map g.format.render)) ∨
          ∃ e, (l.session.step (.nextIds name times)).1 =
            .error (.afterIds e (values.map g.format.render))) ∧
        (l.after (.nextIds name times)).issues = l.issues ++
          entries g.sequence (some (l.closed.length + place)) (values.map Int64.toInt)) ∧
    ∀ name callers values,
      (l.session.step (.allocateTogether name callers)).1 = .ok (.values values) →
      (l.after (.allocateTogether name callers)).issues =
        l.issues ++ entries name none (values.map Int64.toInt) := by
  intro l
  have h : l.accounts.Balanced Store.seedOf := balanced limits now hchecked
  have hsession : l.session = (Session.run steps (.new limits now)).2 :=
    along_session (new limits now) steps
  have hkept : l.session.backing.Consistent := by
    rw [hsession]
    exact (Session.run_healthy hchecked (s := .new limits now) Store.fresh_consistent).1
  obtain ⟨store, hstore, -⟩ := hkept.embedded
  refine ⟨hsession, fun more hmore => (along_moves hmore hkept).counter_le, h.grown, h.issued_nodup,
    fun name => ?_, h.drawn_sorted, fun name times place g hfound => ?_,
    fun name callers values => allocateTogether_issued⟩
  · exact ((leased_perm l name).append_left _).trans (h.balance name)
  · exact nextIds_issued hstore hfound times

/-- Two names of one generator, a caller between them, a generator that is dropped, and one of the
same name after the registry was opened again. -/
def leasing : List Step :=
  [.makeGenerator "g" "n" .plain (some 3), .shareGenerator "g" "h", .nextValues "g" 2,
    .allocateNext "n", .nextIds "h" 2, .makeGenerator "k" "n" .plain none, .nextValues "k" 1,
    .dropGenerator "k", .reopen none none, .makeGenerator "g" "n" .plain (some 2),
    .nextIds "g" 1]

theorem accounted_leasing :
    (∀ step ∈ leasing, step.Checked) ∧
      let l := (new .standard 0).along leasing
      (l.issued "n").Nodup ∧ (l.issued "n" ++ (l.queued "n" ++ l.lost "n")).Perm
        (interval (Store.seedOf "n") (l.counter "n")) ∧
      ∃ values : List Int64, values.map IdFormat.plain.render = ["19"] ∧
        (l.after (.nextIds "g" 1)).issues =
          l.issues ++ entries "n" (some 2) (values.map Int64.toInt) := by
  have hchecked : ∀ step ∈ leasing, step.Checked := by simp [leasing, Step.Checked]
  obtain ⟨-, -, -, hnodup, hperm, -, hids, -⟩ := accounted .standard 0 hchecked
  have hfound : ((new .standard 0).along leasing).session.generator? "g" =
      some (0, ⟨"n", .plain, 2, 64, [19]⟩) := rfl
  have hshown : (((new .standard 0).along leasing).session.step (.nextIds "g" 1)).1 =
      .ok (.ids ["19"]) := rfl
  obtain ⟨values, hanswer, hissues⟩ := hids "g" 1 0 _ hfound
  refine ⟨hchecked, hnodup "n", hperm "n", values, ?_, hissues⟩
  rcases hanswer with hall | ⟨e, hsome⟩
  · exact (Answer.ids.inj (Except.ok.inj (hshown.symm.trans hall))).symm
  · have himpossible := hshown.symm.trans hsome
    cases himpossible

end Ledger

end ObjectRegistry
