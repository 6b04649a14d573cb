import Mathlib.Logic.Relation
import ObjectRegistry.Proofs.Counters

/-!
# Accounts of issued values

Where the values of the sequences are: behind a counter, handed out, or in the lease of a generator.
Accounts say this without the registry, and change by four moves. A block is granted to a caller, a
value is taken off a lease, a generator that has nothing left is refilled, and a generator is built.

The accounts are `Balanced` if, sequence by sequence, what was handed out and what is leased is
together exactly what the counter has passed over, and if each generator hands out in order. Every
move keeps the balance (`Move.balanced`), so any number of them does (`Moves.balanced`). That the
steps of a session are made of these moves is the subject of `Proofs/Ledger`.
-/

namespace ObjectRegistry

/-- A value that was handed out, and the generator that did it if it was one. Generators go by
their serial numbers. -/
structure Issue where
  sequence : String
  value : Int
  source : Option Nat

/-- The counters, what every generator holds for which sequence, and everything handed out so
far. -/
structure Accounts where
  counter : String → Int
  leases : List (String × List Int)
  issues : List Issue

namespace Accounts

/-- The values of a sequence that were handed out, in that order. -/
def issued (a : Accounts) (name : String) : List Int :=
  (a.issues.filter fun i => i.sequence == name).map Issue.value

/-- The values that one generator handed out, in that order. -/
def drawn (a : Accounts) (serial : Nat) : List Int :=
  (a.issues.filter fun i => i.source == some serial).map Issue.value

/-- What a lease holds of a sequence. -/
def heldOf (name : String) (lease : String × List Int) : List Int :=
  if lease.1 = name then lease.2 else []

/-- The values of a sequence that generators hold. -/
def leased (a : Accounts) (name : String) : List Int :=
  a.leases.flatMap (heldOf name)

/-- The counters with one of them moved. -/
def moved (a : Accounts) (name : String) (last : Int) : String → Int :=
  fun other => if other = name then last else a.counter other

/-- Values of a sequence, each noted as handed out by the same source. -/
def entries (name : String) (source : Option Nat) (values : List Int) : List Issue :=
  values.map fun v => ⟨name, v, source⟩

/-- The ways in which accounts change. -/
inductive Move : Accounts → Accounts → Prop
  /-- A caller is handed everything that the counter passes over. -/
  | grant (a : Accounts) (name : String) (last : Int) (hlast : a.counter name ≤ last) :
    Move a {
      counter := a.moved name last
      leases := a.leases
      issues := a.issues ++ entries name none (interval (a.counter name) last) }
  /-- A generator hands out the first value of its lease. -/
  | take (a : Accounts) (k : Nat) (name : String) (v : Int) (rest : List Int)
      (hlease : a.leases[k]? = some (name, v :: rest)) :
    Move a {
      counter := a.counter
      leases := a.leases.set k (name, rest)
      issues := a.issues ++ entries name (some k) [v] }
  /-- A generator with an empty lease leases what the counter passes over and hands out the first
  of it. -/
  | refill (a : Accounts) (k : Nat) (name : String) (v : Int) (rest : List Int) (last : Int)
      (hlease : a.leases[k]? = some (name, [])) (hlast : a.counter name ≤ last)
      (hvalues : v :: rest = interval (a.counter name) last) :
    Move a {
      counter := a.moved name last
      leases := a.leases.set k (name, rest)
      issues := a.issues ++ entries name (some k) [v] }
  /-- A generator is built, with nothing in its lease. -/
  | build (a : Accounts) (name : String) :
    Move a {
      counter := a.counter
      leases := a.leases ++ [(name, [])]
      issues := a.issues }

/-- Any number of moves. -/
abbrev Moves : Accounts → Accounts → Prop := Relation.ReflTransGen Move

/-- Everything that the counters passed over is handed out or leased, once; every value that a
generator handed out is of its sequence; and what it handed out, followed by what it holds, is in
order. -/
structure Balanced (initial : String → Int) (a : Accounts) : Prop where
  grown : ∀ name, initial name ≤ a.counter name
  balance : ∀ name,
    (a.issued name ++ a.leased name).Perm (interval (initial name) (a.counter name))
  sourced : ∀ i ∈ a.issues, ∀ k, i.source = some k →
    ∃ lease, a.leases[k]? = some (i.sequence, lease)
  ordered : ∀ k name lease, a.leases[k]? = some (name, lease) →
    (a.drawn k ++ lease).Pairwise (· < ·)

/-! ## What is handed out and leased after a move -/

variable {a b : Accounts} {name other : String}

theorem issued_append (a : Accounts) (counter : String → Int)
    (leases : List (String × List Int)) (name : String) (source : Option Nat)
    (values : List Int) (other : String) :
    issued ⟨counter, leases, a.issues ++ entries name source values⟩ other =
      a.issued other ++ if other = name then values else [] := by
  have hnew : ((entries name source values).filter fun i => i.sequence == other).map
      Issue.value = if other = name then values else [] := by
    rw [entries, List.filter_map, List.map_map]
    by_cases h : other = name
    · simp [h, Function.comp_def]
    · simp [h, Function.comp_def, Ne.symm h]
  rw [issued, issued, List.filter_append, List.map_append, hnew]

theorem drawn_append (a : Accounts) (counter : String → Int)
    (leases : List (String × List Int)) (name : String) (source : Option Nat)
    (values : List Int) (k : Nat) :
    drawn ⟨counter, leases, a.issues ++ entries name source values⟩ k =
      a.drawn k ++ if source = some k then values else [] := by
  have hnew : ((entries name source values).filter fun i => i.source == some k).map
      Issue.value = if source = some k then values else [] := by
    rw [entries, List.filter_map, List.map_map]
    by_cases h : source = some k <;> simp [h, Function.comp_def]
  rw [drawn, drawn, List.filter_append, List.map_append, hnew]

/-- Putting another item in a place of a list changes what that place adds, and nothing else. -/
theorem flatMap_set_perm {α β : Type} (f : α → List β) {l : List α} {k : Nat} {x : α}
    (h : l[k]? = some x) :
    ∃ others, (l.flatMap f).Perm (f x ++ others) ∧
      ∀ y, ((l.set k y).flatMap f).Perm (f y ++ others) := by
  induction l generalizing k with
  | nil => cases h
  | cons z rest ih =>
    cases k with
    | zero =>
      obtain rfl : z = x := Option.some.inj h
      exact ⟨rest.flatMap f, List.Perm.refl _, fun y => List.Perm.refl _⟩
    | succ k =>
      obtain ⟨others, hbefore, hafter⟩ := ih h
      -- the head stays in front, so it has to change places with what the item adds
      have hswap : ∀ front : List β, (f z ++ (front ++ others)).Perm (front ++ (f z ++ others)) :=
        fun front => List.perm_append_comm_assoc _ _ _
      exact ⟨f z ++ others, (hbefore.append_left (f z)).trans (hswap _),
        fun y => ((hafter y).append_left (f z)).trans (hswap _)⟩

/-! ## Moves keep the balance -/

namespace Balanced

variable {initial : String → Int}

/-- What a generator handed out does not exceed the counter of its sequence. -/
theorem drawn_le (h : a.Balanced initial) {k : Nat} {lease : List Int}
    (hlease : a.leases[k]? = some (name, lease)) {v : Int} (hv : v ∈ a.drawn k) :
    v ≤ a.counter name := by
  obtain ⟨i, hi, rfl⟩ := List.mem_map.1 hv
  obtain ⟨hissue, hsource⟩ := List.mem_filter.1 hi
  obtain ⟨lease', hlease'⟩ := h.sourced i hissue k (beq_iff_eq.1 hsource)
  have hname : i.sequence = name := by
    rw [hlease] at hlease'
    exact (Prod.mk.inj (Option.some.inj hlease')).1.symm
  have hissued : i.value ∈ a.issued name :=
    List.mem_map.2 ⟨i, List.mem_filter.2 ⟨hissue, beq_iff_eq.2 hname⟩, rfl⟩
  exact (mem_interval.1 ((h.balance name).mem_iff.1 (List.mem_append_left _ hissued))).2

/-- A generator that was not built has handed out nothing. -/
theorem drawn_eq_nil (h : a.Balanced initial) {k : Nat} (hk : a.leases[k]? = none) :
    a.drawn k = [] := by
  rw [drawn, List.map_eq_nil_iff, List.filter_eq_nil_iff]
  intro i hi hsource
  obtain ⟨lease, hlease⟩ := h.sourced i hi k (beq_iff_eq.1 hsource)
  rw [hk] at hlease
  cases hlease

theorem issued_nodup (h : a.Balanced initial) (name : String) : (a.issued name).Nodup :=
  (List.nodup_append.1 ((h.balance name).nodup_iff.2
    ((interval_sorted _ _).imp fun hlt => by omega))).1

theorem drawn_sorted (h : a.Balanced initial) (k : Nat) : (a.drawn k).Pairwise (· < ·) := by
  cases hk : a.leases[k]? with
  | none =>
    rw [h.drawn_eq_nil hk]
    exact List.Pairwise.nil
  | some lease => exact (List.pairwise_append.1 (h.ordered k lease.1 lease.2 hk)).1

/-- What a counter passes over is either granted or held back by a generator. In both cases the
values that are accounted for grow by it. -/
theorem passed (h : a.Balanced initial) {last : Int} (hlast : a.counter name ≤ last)
    {here : List Int}
    (hhere : here.Perm ((a.issued name ++ a.leased name) ++ interval (a.counter name) last)) :
    here.Perm (interval (initial name) last) := by
  refine hhere.trans ?_
  rw [← interval_append (h.grown name) hlast]
  exact (h.balance name).append_right _

theorem grant (h : a.Balanced initial) {last : Int} (hlast : a.counter name ≤ last) :
    Balanced initial {
      counter := a.moved name last
      leases := a.leases
      issues := a.issues ++ entries name none (interval (a.counter name) last) } where
  grown other := by
    show initial other ≤ if other = name then last else a.counter other
    split
    next hother => exact hother ▸ Int.le_trans (h.grown name) hlast
    next => exact h.grown other
  balance other := by
    rw [issued_append]
    show List.Perm _ (interval (initial other) (if other = name then last else a.counter other))
    by_cases hother : other = name
    · subst hother
      rw [if_pos rfl, if_pos rfl]
      refine h.passed hlast ?_
      rw [List.append_assoc, List.append_assoc]
      exact List.perm_append_comm.append_left _
    · rw [if_neg hother, if_neg hother, List.append_nil]
      exact h.balance other
  sourced i hi k hk := by
    rcases List.mem_append.1 hi with hold | hnew
    · exact h.sourced i hold k hk
    · obtain ⟨v, -, rfl⟩ := List.mem_map.1 hnew
      cases hk
  ordered k other lease hlease := by
    rw [drawn_append, if_neg (by simp), List.append_nil]
    exact h.ordered k other lease hlease

theorem build (h : a.Balanced initial) (name : String) :
    Balanced initial {
      counter := a.counter
      leases := a.leases ++ [(name, [])]
      issues := a.issues } where
  grown := h.grown
  balance other := by
    have hnothing : heldOf other (name, []) = [] := by
      unfold heldOf
      split <;> rfl
    have hleased : leased ⟨a.counter, a.leases ++ [(name, [])], a.issues⟩ other =
        a.leased other := by
      rw [leased, leased, List.flatMap_append, List.flatMap_singleton, hnothing, List.append_nil]
    rw [hleased]
    exact h.balance other
  sourced i hi k hk := by
    obtain ⟨lease, hlease⟩ := h.sourced i hi k hk
    have hbuilt : k < a.leases.length := (List.getElem?_eq_some_iff.1 hlease).1
    exact ⟨lease, (List.getElem?_append_left hbuilt).trans hlease⟩
  ordered k other lease hlease := by
    show (a.drawn k ++ lease).Pairwise (· < ·)
    rcases Nat.lt_or_ge k a.leases.length with hbuilt | hnew
    · exact h.ordered k other lease ((List.getElem?_append_left hbuilt).symm.trans hlease)
    · -- the new generator: it has handed out nothing and holds nothing
      have hlast : [(name, ([] : List Int))][k - a.leases.length]? = some (other, lease) :=
        (List.getElem?_append_right hnew).symm.trans hlease
      have hnil : lease = [] :=
        (Prod.mk.inj (List.mem_singleton.1 (List.mem_of_getElem? hlast))).2
      rw [h.drawn_eq_nil (List.getElem?_eq_none hnew), hnil]
      exact List.Pairwise.nil

/-- Where a generator hands out the first of some values and keeps the others, these values count
as handed out or leased. -/
theorem set_perm {k : Nat} (v : Int) (rest : List Int) {old : List Int}
    (hlease : a.leases[k]? = some (name, old)) (counter : String → Int) (other : String) :
    ∃ others, (a.leased other).Perm ((if other = name then old else []) ++ others) ∧
      (issued ⟨counter, a.leases.set k (name, rest),
          a.issues ++ entries name (some k) [v]⟩ other ++
        leased ⟨counter, a.leases.set k (name, rest),
          a.issues ++ entries name (some k) [v]⟩ other).Perm
        ((a.issued other ++ others) ++ if other = name then v :: rest else []) := by
  obtain ⟨others, hbefore, hafter⟩ := flatMap_set_perm (heldOf other) hlease
  have hheld : ∀ lease, heldOf other (name, lease) = if other = name then lease else [] := by
    intro lease
    by_cases h : other = name
    · simp [heldOf, h]
    · simp [heldOf, h, Ne.symm h]
  rw [hheld] at hbefore
  refine ⟨others, hbefore, ?_⟩
  rw [issued_append]
  refine ((hafter (name, rest)).append_left _).trans ?_
  rw [hheld, List.append_assoc, List.append_assoc]
  refine List.Perm.append_left _ ?_
  rw [← List.append_assoc]
  refine List.perm_append_comm.trans (List.Perm.append_left others ?_)
  by_cases h : other = name
  · rw [if_pos h, if_pos h, if_pos h]
    exact List.Perm.refl _
  · rw [if_neg h, if_neg h, if_neg h]
    exact List.Perm.refl _

/-- What a generator holds when it has handed out the first of some values. -/
theorem drew (h : a.Balanced initial) {k : Nat} {v : Int} {rest old : List Int}
    (hlease : a.leases[k]? = some (name, old))
    (hordered : (a.drawn k ++ v :: rest).Pairwise (· < ·)) (counter : String → Int) :
    (∀ i ∈ a.issues ++ entries name (some k) [v], ∀ j, i.source = some j →
      ∃ lease, (a.leases.set k (name, rest))[j]? = some (i.sequence, lease)) ∧
    ∀ j other lease, (a.leases.set k (name, rest))[j]? = some (other, lease) →
      (drawn ⟨counter, a.leases.set k (name, rest),
        a.issues ++ entries name (some k) [v]⟩ j ++ lease).Pairwise (· < ·) := by
  have hbuilt : k < a.leases.length := (List.getElem?_eq_some_iff.1 hlease).1
  have hself : (a.leases.set k (name, rest))[k]? = some (name, rest) :=
    List.getElem?_set_self hbuilt
  constructor
  · intro i hi j hj
    rcases List.mem_append.1 hi with hold | hnew
    · obtain ⟨lease, hlease'⟩ := h.sourced i hold j hj
      by_cases hjk : k = j
      · -- the generator that drew keeps its sequence
        subst hjk
        rw [hlease] at hlease'
        obtain ⟨hname, -⟩ := Prod.mk.inj (Option.some.inj hlease')
        exact ⟨rest, hname ▸ hself⟩
      · exact ⟨lease, (List.getElem?_set_ne hjk).trans hlease'⟩
    · obtain rfl : i = ⟨name, v, some k⟩ := List.mem_singleton.1 hnew
      obtain rfl : k = j := Option.some.inj hj
      exact ⟨rest, hself⟩
  · intro j other lease hlease'
    rw [drawn_append]
    by_cases hjk : k = j
    · subst hjk
      obtain ⟨rfl, rfl⟩ := Prod.mk.inj (Option.some.inj (hself.symm.trans hlease'))
      rw [if_pos rfl, List.append_assoc]
      exact hordered
    · rw [if_neg fun he => hjk (Option.some.inj he), List.append_nil]
      exact h.ordered j other lease ((List.getElem?_set_ne hjk).symm.trans hlease')

theorem take (h : a.Balanced initial) {k : Nat} {v : Int} {rest : List Int}
    (hlease : a.leases[k]? = some (name, v :: rest)) :
    Balanced initial {
      counter := a.counter
      leases := a.leases.set k (name, rest)
      issues := a.issues ++ entries name (some k) [v] } := by
  obtain ⟨hsourced, hordered⟩ :=
    h.drew hlease (h.ordered k name (v :: rest) hlease) a.counter
  refine ⟨h.grown, fun other => ?_, hsourced, hordered⟩
  obtain ⟨others, hbefore, hafter⟩ := set_perm v rest hlease a.counter other
  refine hafter.trans (List.Perm.trans ?_ (h.balance other))
  rw [List.append_assoc]
  exact (List.perm_append_comm.trans hbefore.symm).append_left _

theorem refill (h : a.Balanced initial) {k : Nat} {v last : Int} {rest : List Int}
    (hlease : a.leases[k]? = some (name, [])) (hlast : a.counter name ≤ last)
    (hvalues : v :: rest = interval (a.counter name) last) :
    Balanced initial {
      counter := a.moved name last
      leases := a.leases.set k (name, rest)
      issues := a.issues ++ entries name (some k) [v] } := by
  have hahead : (a.drawn k ++ v :: rest).Pairwise (· < ·) := by
    rw [List.pairwise_append, hvalues]
    refine ⟨h.drawn_sorted k, interval_sorted _ _, ?_⟩
    intro x hx y hy
    -- what was handed out is behind the counter, and the new values are ahead of it
    have hx' := h.drawn_le hlease hx
    have hy' := (mem_interval.1 hy).1
    omega
  obtain ⟨hsourced, hordered⟩ := h.drew hlease hahead (a.moved name last)
  refine ⟨fun other => ?grown, fun other => ?balance, hsourced, hordered⟩
  case grown =>
    show initial other ≤ if other = name then last else a.counter other
    split
    next hother => exact hother ▸ Int.le_trans (h.grown name) hlast
    next => exact h.grown other
  case balance =>
    obtain ⟨others, hbefore, hafter⟩ :=
      set_perm v rest hlease (a.moved name last) other
    show List.Perm _ (interval (initial other) (if other = name then last else a.counter other))
    -- the lease was empty, so everything that is held is held by others
    have hheld : (a.leased other).Perm others := by
      by_cases hother : other = name
      · rwa [if_pos hother] at hbefore
      · rwa [if_neg hother] at hbefore
    refine hafter.trans ?_
    by_cases hother : other = name
    · subst hother
      rw [if_pos rfl, if_pos rfl, hvalues]
      exact h.passed hlast ((hheld.symm.append_left _).append_right _)
    · rw [if_neg hother, if_neg hother, List.append_nil]
      exact (hheld.symm.append_left _).trans (h.balance other)

end Balanced

/-- Accounts that begin. -/
theorem Balanced.start (initial : String → Int) :
    Balanced initial { counter := initial, leases := [], issues := [] } where
  grown _ := Int.le_refl _
  balance name := by
    have hnothing : interval (initial name) (initial name) = [] := by simp [interval]
    rw [hnothing]
    exact List.Perm.refl _
  sourced i hi := absurd hi List.not_mem_nil
  ordered k _ _ hlease := by cases hlease

theorem Move.balanced {initial : String → Int} (hmove : Move a b) (h : a.Balanced initial) :
    b.Balanced initial := by
  cases hmove with
  | grant name last hlast => exact h.grant hlast
  | take k name v rest hlease => exact h.take hlease
  | refill k name v rest last hlease hlast hvalues => exact h.refill hlease hlast hvalues
  | build name => exact h.build name

/-- **Moves keep the balance**, however many there are. -/
theorem Moves.balanced {initial : String → Int} (hmoves : Moves a b) (h : a.Balanced initial) :
    b.Balanced initial := by
  induction hmoves with
  | refl => exact h
  | tail _ hmove ih => exact hmove.balanced ih

/-- No move takes a counter back. -/
theorem Move.counter_le (hmove : Move a b) (name : String) : a.counter name ≤ b.counter name := by
  have hmoved : ∀ {at' : String} {last : Int}, a.counter at' ≤ last →
      a.counter name ≤ a.moved at' last name := by
    intro at' last hlast
    unfold moved
    split
    next hname => exact hname ▸ hlast
    next => exact Int.le_refl _
  cases hmove with
  | grant _ _ hlast => exact hmoved hlast
  | take => exact Int.le_refl _
  | refill _ _ _ _ _ _ hlast => exact hmoved hlast
  | build => exact Int.le_refl _

theorem Moves.counter_le (hmoves : Moves a b) (name : String) :
    a.counter name ≤ b.counter name := by
  induction hmoves with
  | refl => exact Int.le_refl _
  | tail _ hmove ih => exact Int.le_trans ih (hmove.counter_le name)

end Accounts

end ObjectRegistry
