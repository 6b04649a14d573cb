import ObjectRegistry.Proofs.Independence
import ObjectRegistry.Proofs.Leases

/-!
# Sequences up to their last value

A sequence ends at the greatest 64-bit number, and not before it. A block is granted exactly if the
counter behind it is in range, and then its ends are computed without leaving the range
(`Block.Follows`, `Sequence.allocateBlock_follows`). A request that does not fit leaves the session
as it was, so the next one is served as if it had not been made (`Session.run_refused`).

In a run, counters only grow (`Session.run_counter_le`). So a sequence serves single values as long
as it has not issued the greatest number, which it does issue, and none after it
(`Session.exact_to_the_last`).
-/

namespace ObjectRegistry

/-- A block of a length that follows a counter. Its first value is found by going back from the new
counter, and each number on the way is that of the integers, so that nothing leaves the range. -/
structure Block.Follows (counter : Int) (count : UInt32) (b : Block) : Prop where
  /-- The length is the same number in 64 bits. -/
  length : (Int64.ofNat count.toNat).toInt = count.toNat
  /-- The last value is the new counter. -/
  last : b.last.toInt = counter + count.toNat
  /-- The way back to the first value has two steps. -/
  first : b.first = b.last - Int64.ofNat count.toNat + 1
  back : (b.last - Int64.ofNat count.toNat).toInt =
    b.last.toInt - (Int64.ofNat count.toNat).toInt
  forth : (b.last - Int64.ofNat count.toNat + 1).toInt =
    (b.last - Int64.ofNat count.toNat).toInt + 1
  /-- The values are those passed over. -/
  start : b.first.toInt = counter + 1
  values : b.values.map Int64.toInt = interval counter (counter + count.toNat)
  size : b.values.length = count.toNat

/-- What is reserved follows the counter. -/
theorem Block.follows_reserved {current last : Int64} {count : UInt32} (hcount : count ≠ 0)
    (h : addWithin64? current (Int64.ofNat count.toNat) = some last) :
    Block.Follows current.toInt count { first := last - Int64.ofNat count.toNat + 1, last } := by
  have hint := toInt_count count
  have hpos := toInt_count_pos hcount
  have hlast : last.toInt = current.toInt + count.toNat := by
    rw [← hint]
    exact addWithin64?_eq_some_iff.1 h
  obtain ⟨hback, hfirst⟩ := first_reserved hpos h
  have hvalues := values_reserved hpos h
  rw [hlast] at hvalues
  refine ⟨hint, hlast, rfl, ?back, ?forth, hfirst, hvalues, ?size⟩
  case back =>
    show _ = last.toInt - _
    rw [hback, hint, hlast]
    omega
  case forth => exact hfirst.trans (congrArg (· + 1) hback.symm)
  case size =>
    have hlength := congrArg List.length hvalues
    rw [List.length_map, length_interval] at hlength
    omega

/-- **A block is granted exactly if it fits**, and follows the counter. -/
theorem Sequence.allocateBlock_follows {limit : Nat} {name : String} {count : UInt32}
    (hname : checkName limit name = .ok ()) (hcount : count ≠ 0) (s : Store) :
    (s.counterOf name + count.toNat ≤ Int64.maxValue.toInt →
      ∃ block : Block, block.Follows (s.counterOf name) count ∧
        (allocateBlock limit name count).on (.embedded s) =
          (.ok block, .embedded (s.advanced name block.last))) ∧
    (Int64.maxValue.toInt < s.counterOf name + count.toNat →
      (allocateBlock limit name count).on (.embedded s) =
        (.error (.storage (.exhausted name)), .embedded s)) := by
  have heq := allocateBlock_eq hname hcount s
  rcases allocateBlock_on hname hcount s with ⟨hfull, hfails⟩ | ⟨block, last, hsum, -, -, hblock⟩
  · exact ⟨fun hfits => absurd hfull (Int.not_lt.2 hfits), fun _ => hfails⟩
  · have hhigh := last.toInt_lt
    rw [Int64.toInt_maxValue]
    refine ⟨fun _ => ?_, fun hfull => by omega⟩
    cases hadd : addWithin64? ((s.counters.get? name).getD 0) (Int64.ofNat count.toNat) with
    | none =>
      rw [hadd, hblock] at heq
      cases heq
    | some reached =>
      rw [hadd] at heq
      exact ⟨_, Block.follows_reserved hcount hadd, heq⟩

namespace Session

variable {s : Session} {store : Store} {name : String}

/-- The answer to a request that does not fit. -/
def exhausted (name : String) : Except Failure Answer :=
  .error (.error (.storage (.exhausted name)))

/-- A session with a counter moved. -/
def advanced (s : Session) (store : Store) (name : String) (last : Int64) : Session :=
  { s with backing := .embedded (store.advanced name last) }

/-- An operation that fails and leaves the storage is a step that fails and leaves the session. -/
theorem perform_failed {α : Type} {access : Access α} {e : Error} (answer : α → Answer)
    (h : access.on s.backing = (.error e, s.backing)) :
    s.perform access answer = (.error (.error e), s) := by
  rw [perform_eq, h]
  rfl

theorem perform_done {α : Type} {access : Access α} {a : α} {b : Backing} (answer : α → Answer)
    (h : access.on s.backing = (.ok a, b)) :
    s.perform access answer = (.ok (answer a), { s with backing := b }) := by
  rw [perform_eq, h]
  rfl

section

variable (hstore : s.backing = .embedded store)
  (hname : Sequence.checkName s.limits.nameLimit name = .ok ())
include hstore hname

theorem step_granted {count : UInt32} (hcount : count ≠ 0)
    (hfits : store.counterOf name + count.toNat ≤ Int64.maxValue.toInt) :
    ∃ block : Block, block.Follows (store.counterOf name) count ∧
      s.step (.allocateBlock name count) =
        (.ok (.block block), s.advanced store name block.last) := by
  obtain ⟨block, hfollows, hblock⟩ :=
    (Sequence.allocateBlock_follows hname hcount store).1 hfits
  rw [← hstore] at hblock
  exact ⟨block, hfollows, perform_done .block hblock⟩

theorem step_refused {count : UInt32} (hcount : count ≠ 0)
    (hfull : Int64.maxValue.toInt < store.counterOf name + count.toNat) :
    s.step (.allocateBlock name count) = (exhausted name, s) := by
  have hfails := (Sequence.allocateBlock_follows hname hcount store).2 hfull
  rw [← hstore] at hfails
  exact perform_failed .block hfails

/-- A single value is handed out or the sequence has come to its end. -/
theorem step_next :
    (store.counterOf name = Int64.maxValue.toInt ∧
      s.step (.allocateNext name) = (exhausted name, s)) ∨
    ∃ value : Int64, value.toInt = store.counterOf name + 1 ∧
      s.step (.allocateNext name) = (.ok (.value value), s.advanced store name value) := by
  rcases Sequence.allocateNext_on hname store with ⟨hlast, hfails⟩ | ⟨value, hvalue, hnext⟩
  · rw [← hstore] at hfails
    exact Or.inl ⟨hlast, perform_failed .value hfails⟩
  · rw [← hstore] at hnext
    exact Or.inr ⟨value, hvalue, perform_done .value hnext⟩

/-- Requests that do not fit are refused one after the other, and the rest of a run goes on as if
they had not been made. -/
theorem run_refused {counts : List UInt32}
    (hfull : ∀ count ∈ counts, count ≠ 0 ∧
      Int64.maxValue.toInt < store.counterOf name + count.toNat) (rest : List Step) :
    run (counts.map (.allocateBlock name) ++ rest) s =
      (counts.map (fun _ => exhausted name) ++ (run rest s).1, (run rest s).2) := by
  induction counts with
  | nil => rfl
  | cons count more ih =>
    obtain ⟨hcount, hfirst⟩ := hfull count List.mem_cons_self
    have hmore := ih fun c hc => hfull c (List.mem_cons_of_mem _ hc)
    rw [List.map_cons, List.cons_append, run, step_refused hstore hname hcount hfirst]
    simp only [hmore]
    rfl

end

/-- No counter is ever taken back in a run, whatever the store holds. -/
theorem run_counter_le {steps : List Step} (hchecked : ∀ step ∈ steps, step.Checked) :
    ∀ {s : Session} {store : Store}, s.backing = .embedded store →
      ∃ store', (run steps s).2.backing = .embedded store' ∧
        ∀ name, store.counterOf name ≤ store'.counterOf name := by
  induction steps with
  | nil => exact fun hstore => ⟨_, hstore, fun _ => Int.le_refl _⟩
  | cons step rest ih =>
    intro s store hstore
    have hstep := step_counter_le hstore step (hchecked step List.mem_cons_self)
    obtain ⟨behind, hbehind, -⟩ := hstep ""
    obtain ⟨store', hstore', hrest⟩ :=
      ih (fun x hx => hchecked x (List.mem_cons_of_mem _ hx)) hbehind
    refine ⟨store', hstore', fun name => ?_⟩
    obtain ⟨same, hsame, hle⟩ := hstep name
    obtain rfl : same = behind := Backing.embedded.inj (hsame.symm.trans hbehind)
    exact Int.le_trans hle (hrest name)

/-- **Allocation is exact up to the last value.** After any run, over whatever the store held
before, every counter is where it was or ahead of it. A block of a good name is granted if the
counter behind it does not exceed the greatest 64-bit number; it follows the counter, which then
stands at its last value. Otherwise the sequence is exhausted and nothing at all changes; so
requests that do not fit, however many, do not keep one that does from its block. Single values are
handed out exactly as long as the counter has not reached the greatest number, and that number is
one of them. -/
theorem exact_to_the_last (hstore : s.backing = .embedded store) {steps : List Step}
    (hchecked : ∀ step ∈ steps, step.Checked) :
    let s' := (run steps s).2
    ∃ store', s'.backing = .embedded store' ∧ ∀ name,
      store.counterOf name ≤ store'.counterOf name ∧
      (Sequence.checkName s'.limits.nameLimit name = .ok () →
        (∀ count : UInt32, count ≠ 0 →
          (store'.counterOf name + count.toNat ≤ Int64.maxValue.toInt →
            ∃ block : Block, block.Follows (store'.counterOf name) count ∧
              s'.step (.allocateBlock name count) =
                (.ok (.block block), s'.advanced store' name block.last) ∧
              (store'.advanced name block.last).counterOf name =
                store'.counterOf name + count.toNat ∧
              ∀ counts : List UInt32, (∀ c ∈ counts, c ≠ 0 ∧
                  Int64.maxValue.toInt < store'.counterOf name + c.toNat) →
                run (counts.map (.allocateBlock name) ++ [.allocateBlock name count]) s' =
                  (counts.map (fun _ => exhausted name) ++ [.ok (.block block)],
                    s'.advanced store' name block.last)) ∧
          (Int64.maxValue.toInt < store'.counterOf name + count.toNat →
            s'.step (.allocateBlock name count) = (exhausted name, s'))) ∧
        ((∃ value, (s'.step (.allocateNext name)).1 = .ok (.value value)) ↔
          store'.counterOf name < Int64.maxValue.toInt) ∧
        (store'.counterOf name + 1 = Int64.maxValue.toInt →
          s'.step (.allocateNext name) = (.ok (.value Int64.maxValue),
            s'.advanced store' name Int64.maxValue)) ∧
        (store'.counterOf name = Int64.maxValue.toInt →
          s'.step (.allocateNext name) = (exhausted name, s'))) := by
  intro s'
  obtain ⟨store', hstore', hgrown⟩ := run_counter_le hchecked hstore
  refine ⟨store', hstore', fun name => ⟨hgrown name, fun hname => ⟨?block, ?next⟩⟩⟩
  case block =>
    intro count hcount
    refine ⟨fun hfits => ?_, step_refused hstore' hname hcount⟩
    obtain ⟨block, hfollows, hgranted⟩ := step_granted hstore' hname hcount hfits
    refine ⟨block, hfollows, hgranted, ?_, fun counts hfull => ?_⟩
    · rw [Store.counterOf_advanced, if_pos rfl]
      exact hfollows.last
    · rw [run_refused hstore' hname hfull, run, hgranted]
      rfl
  case next =>
    have hgreatest := store'.counterOf_le_max name
    rcases step_next hstore' hname with ⟨hlast, hfails⟩ | ⟨value, hvalue, hnext⟩
    · refine ⟨⟨fun hserved => ?_, fun hless => ?_⟩, fun hone => ?_, fun _ => hfails⟩
      · obtain ⟨value, hvalue⟩ := hserved
        rw [hfails] at hvalue
        cases hvalue
      · exact absurd hlast (Int.ne_of_lt hless)
      · omega
    · have hhigh := value.toInt_lt
      rw [Int64.toInt_maxValue] at hgreatest ⊢
      refine ⟨⟨fun _ => by omega, fun _ => ⟨value, congrArg Prod.fst hnext⟩⟩, fun hone => ?_,
        fun hlast => by omega⟩
      obtain rfl : value = Int64.maxValue := by
        rw [← Int64.toInt_inj, Int64.toInt_maxValue]
        omega
      exact hnext

/-- A session over a counter that has six values left. -/
def sixLeft : Session :=
  start (.embedded (Store.fresh.advanced "n" (Int64.maxValue - 6))) .standard 0

/-- A block that does not fit, one that does, a single value, and the registry opened again between
them. One value is left. -/
def draining : List Step :=
  [.allocateBlock "n" 7, .allocateBlock "n" 4, .reopen none none, .allocateNext "n"]

theorem exact_to_the_last_draining :
    sixLeft.backing = .embedded (Store.fresh.advanced "n" (Int64.maxValue - 6)) ∧
      (∀ step ∈ draining, step.Checked) ∧
      let s' := (run draining sixLeft).2
      Sequence.checkName s'.limits.nameLimit "n" = .ok () ∧
        run [.allocateBlock "n" 2, .allocateBlock "n" 4294967295, .allocateBlock "n" 1] s' =
          ([exhausted "n", exhausted "n", .ok (.block ⟨Int64.maxValue, Int64.maxValue⟩)],
            s'.advanced (Store.fresh.advanced "n" (Int64.maxValue - 1)) "n" Int64.maxValue) ∧
        (s'.step (.allocateNext "n")).1 = .ok (.value Int64.maxValue) := by
  have hstore : sixLeft.backing = .embedded (Store.fresh.advanced "n" (Int64.maxValue - 6)) := rfl
  have hchecked : ∀ step ∈ draining, step.Checked := by simp [draining, Step.Checked]
  have hname : Sequence.checkName (run draining sixLeft).2.limits.nameLimit "n" = .ok () := rfl
  have hbehind : (run draining sixLeft).2.backing =
      .embedded (Store.fresh.advanced "n" (Int64.maxValue - 1)) := rfl
  obtain ⟨store', hstore', hall⟩ := exact_to_the_last hstore hchecked
  obtain rfl : Store.fresh.advanced "n" (Int64.maxValue - 1) = store' :=
    Backing.embedded.inj (hbehind.symm.trans hstore')
  obtain ⟨hblocks, -, hnext, -⟩ := (hall "n").2 hname
  obtain ⟨⟨first, last⟩, hfollows, -, -, hrun⟩ := (hblocks 1 (by decide)).1 (by decide)
  obtain rfl : first = Int64.maxValue := Int64.toInt_inj.1 (hfollows.start.trans (by decide))
  obtain rfl : last = Int64.maxValue := Int64.toInt_inj.1 (hfollows.last.trans (by decide))
  have hfull : ∀ c ∈ [(2 : UInt32), 4294967295], c ≠ 0 ∧
      Int64.maxValue.toInt < (Store.fresh.advanced "n" (Int64.maxValue - 1)).counterOf "n" +
        c.toNat := by
    exact List.forall_mem_cons.2 ⟨⟨by decide, by decide⟩,
      List.forall_mem_singleton.2 ⟨by decide, by decide⟩⟩
  exact ⟨hstore, hchecked, hname, hrun [2, 4294967295] hfull,
    congrArg Prod.fst (hnext (by decide))⟩

end Session

end ObjectRegistry
