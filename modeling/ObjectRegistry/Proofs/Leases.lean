import ObjectRegistry.Proofs.Ledger
import ObjectRegistry.Proofs.Refusals
import ObjectRegistry.Proofs.Steps

/-!
# Leases

A generator that was built is over a name and a block size that every request of it passes. So a
call on it takes a value off its lease, is granted a block, or finds its sequence exhausted, and
nothing else can become of it (`Generator.Usable.next_on`).

What some calls on a generator come to is summed up by a `Tally`: what is left of the block leased
last, how many blocks were leased, and whether a call was denied. One call keeps the tally
(`Tally.taken`, `Tally.granted`, `Tally.denied`). Whatever else is done to the registry keeps it as
well, because no counter is ever taken back (`Session.step_counter_le`) and nobody touches the lease
of another. By induction it is kept by runs (`Session.run_served`).
-/

namespace ObjectRegistry

open Access

/-! ## Counters are never taken back -/

namespace Store

/-- Planting seeds takes no counter back, since they are not negative. -/
theorem counter_le_plant (planted : List (String × Int64)) (h : ∀ seed ∈ planted, 0 ≤ seed.2.toInt)
    (table : SequenceTable) (name : String) :
    ((table.get? name).getD 0).toInt ≤
      (((planted.foldl (fun t seed => if t.contains seed.1 then t else t.insert seed.1 seed.2)
        table).get? name).getD 0).toInt := by
  induction planted generalizing table with
  | nil => exact Int.le_refl _
  | cons seed rest ih =>
    refine Int.le_trans ?_ (ih (fun x hx => h x (List.mem_cons_of_mem _ hx)) _)
    simp only []
    by_cases hthere : table.contains seed.1 = true
    · rw [if_pos hthere]
    · rw [if_neg hthere, Table.get?_insert]
      by_cases hname : name = seed.1
      · -- the counter was missing, so it counted as 0
        have hmissing : table.get? name = none := by
          rw [← hname, Table.contains, Option.not_isSome_iff_eq_none] at hthere
          exact hthere
        rw [if_pos hname, hmissing]
        exact h seed List.mem_cons_self
      · rw [if_neg hname]

/-- Opening a store takes no counter back. -/
theorem counterOf_le_opened (s : Store) (name : String) :
    s.counterOf name ≤ s.opened.counterOf name :=
  counter_le_plant seeds (by decide) s.counters name

theorem counterOf_le_max (s : Store) (name : String) :
    s.counterOf name ≤ Int64.maxValue.toInt := by
  have hhigh := ((s.counters.get? name).getD 0).toInt_lt
  rw [Int64.toInt_maxValue, counterOf]
  omega

end Store

/-- **A step takes no counter back**, whatever the store holds. -/
theorem Session.step_counter_le {s : Session} {store : Store} (hstore : s.backing = .embedded store)
    (step : Step) (hchecked : step.Checked) (name : String) :
    ∃ store', (s.step step).2.backing = .embedded store' ∧
      store.counterOf name ≤ store'.counterOf name := by
  have hstart : Backing.Over (fun x => store.counterOf name ≤ x.counterOf name) s.backing :=
    ⟨store, hstore, Int.le_refl _⟩
  refine step_keeps hstart step hchecked ⟨?reserves, ?changes, ?opens⟩
  case reserves =>
    refine Backing.OnReserve.over ?_
    intro x other last hle hlt
    rw [Store.counterOf_advanced]
    split
    next hname => exact Int.le_of_lt (Int.lt_of_le_of_lt hle (hname ▸ hlt))
    next => exact hle
  case changes =>
    intro _
    exact Backing.OnChange.over (fun _ h => h) (fun _ h => h) (fun h => h)
  case opens =>
    rintro x ⟨x', hx, hle⟩
    cases hx
    exact ⟨x.opened, rfl, Int.le_trans hle (x.counterOf_le_opened name)⟩

/-! ## One call -/

namespace Generator

variable {made g : Generator} {s : Store} {b b' : Backing} {value : Int64} {rest : List Int64}

/-- **What becomes of a call on a generator that was built.** It takes a value off the lease. If
there is none, it leases a block exactly if the counter behind it is in range. -/
theorem Usable.next_on (h : g.Usable) (s : Store) :
    (∃ value rest, g.lease = value :: rest ∧
      g.next.on (.embedded s) = (.ok (value, { g with lease := rest }), .embedded s)) ∨
    (g.lease = [] ∧ Int64.maxValue.toInt < s.counterOf g.sequence + g.blockSize.toNat ∧
      g.next.on (.embedded s) = (.error (.storage (.exhausted g.sequence)), .embedded s)) ∨
    ∃ value rest last, g.lease = [] ∧ last.toInt = s.counterOf g.sequence + g.blockSize.toNat ∧
      (value :: rest).map Int64.toInt = interval (s.counterOf g.sequence) last.toInt ∧
      g.next.on (.embedded s) =
        (.ok (value, { g with lease := rest }), .embedded (s.advanced g.sequence last)) := by
  cases hlease : g.lease with
  | cons value rest =>
    refine Or.inl ⟨value, rest, rfl, ?_⟩
    rw [next_eq, hlease]
    rfl
  | nil =>
    rcases Sequence.allocateBlock_on h.name h.size s with
      ⟨hfull, hfails⟩ | ⟨block, last, hsum, -, hvalues, hblock⟩
    · exact Or.inr (Or.inl ⟨rfl, hfull, next_denied hlease hfails⟩)
    · have hpos := h.blockSize_pos
      obtain ⟨value, rest, hall, hnext⟩ := next_granted hlease hblock (by omega) hvalues
      exact Or.inr (Or.inr ⟨value, rest, last, rfl, hsum, hall, hnext⟩)

/-- Without a lease, and without room for a block, there is no next value. -/
theorem Usable.next_exhausted (h : g.Usable) (hempty : g.lease = [])
    (hfull : Int64.maxValue.toInt < s.counterOf g.sequence + g.blockSize.toNat) :
    g.next.on (.embedded s) = (.error (.storage (.exhausted g.sequence)), .embedded s) := by
  rcases Sequence.allocateBlock_on h.name h.size s with ⟨-, hfails⟩ | ⟨block, last, hsum, -⟩
  · exact next_denied hempty hfails
  · have hhigh := last.toInt_lt
    rw [Int64.toInt_maxValue] at hfull
    omega

/-- A call on a generator: the generator and the storage that it met. -/
structure Call where
  generator : Generator
  backing : Backing

namespace Call

/-- The value that a call answers. -/
def answer (c : Call) : Except Error Int64 := (c.generator.next.on c.backing).1.map Prod.fst

/-- The storage that a call leaves. -/
def behind (c : Call) : Backing := (c.generator.next.on c.backing).2

/-- The call answers a value. -/
def succeeds (c : Call) : Bool := c.answer.isOk

/-- The counter of the sequence behind a call. -/
def top (c : Call) : Int := c.behind.counterOf c.generator.sequence

/-- The call moves the counter of its sequence. -/
def leases (c : Call) : Bool := c.top != c.backing.counterOf c.generator.sequence

variable {c : Call}

theorem of_ok {g' : Generator} (h : c.generator.next.on c.backing = (.ok (value, g'), b')) :
    c.answer = .ok value ∧ c.succeeds = true ∧ c.behind = b' := by
  unfold succeeds answer behind
  rw [h]
  exact ⟨rfl, rfl, rfl⟩

theorem of_error {e : Error} (h : c.generator.next.on c.backing = (.error e, b')) :
    c.answer = .error e ∧ c.succeeds = false ∧ c.behind = b' := by
  unfold succeeds answer behind
  rw [h]
  exact ⟨rfl, rfl, rfl⟩

theorem not_leases (h : c.behind = c.backing) : c.leases = false := by
  rw [leases, top, h, bne_self_eq_false]

/-- A call that advances the counter leases. -/
theorem of_advanced {g' : Generator} {last : Int64}
    (h : g.next.on (.embedded s) =
      (.ok (value, g'), .embedded (s.advanced g.sequence last)))
    (hlt : s.counterOf g.sequence < last.toInt) :
    top ⟨g, .embedded s⟩ = last.toInt ∧ leases ⟨g, .embedded s⟩ = true := by
  have htop : top ⟨g, .embedded s⟩ = last.toInt := by
    rw [top, (of_ok (c := ⟨g, .embedded s⟩) h).2.2]
    show (s.advanced g.sequence last).counterOf g.sequence = last.toInt
    rw [Store.counterOf_advanced, if_pos rfl]
  refine ⟨htop, ?_⟩
  rw [leases, htop, bne_iff_ne]
  exact Int.ne_of_gt hlt

/-- What can become of a call on a generator that was built. -/
structure Proper (c : Call) : Prop where
  /-- A value that waits is answered, and the storage is left alone. -/
  waiting : ∀ value rest, c.generator.lease = value :: rest →
    c.answer = .ok value ∧ c.behind = c.backing
  /-- A call leases exactly if nothing waits, unless it fails. -/
  leases_iff : c.leases = true ↔ c.generator.lease = [] ∧ c.succeeds = true
  /-- What is leased is a whole block, and its first value is answered. -/
  block : c.leases = true →
    c.top = c.backing.counterOf c.generator.sequence + c.generator.blockSize.toNat ∧
      ∃ value, c.answer = .ok value ∧
        value.toInt = c.backing.counterOf c.generator.sequence + 1
  /-- A call fails for one reason only, and changes nothing then. -/
  failure : ∀ e, c.answer = .error e →
    e = .storage (.exhausted c.generator.sequence) ∧ c.behind = c.backing

end Call

/-- **All calls on a generator that was built are proper.** -/
theorem Usable.call_proper (h : g.Usable) (s : Store) : Call.Proper ⟨g, .embedded s⟩ := by
  rcases h.next_on s with ⟨value, rest, hlease, hnext⟩ | ⟨hempty, -, hnext⟩ |
    ⟨value, rest, last, hempty, hsum, hvalues, hnext⟩
  · obtain ⟨hanswer, -, hbehind⟩ := Call.of_ok (c := ⟨g, .embedded s⟩) hnext
    refine ⟨?waiting, ?leases_iff, ?block, ?failure⟩
    case waiting =>
      intro value' rest' hlease'
      obtain ⟨rfl, -⟩ := List.cons.inj (hlease.symm.trans hlease')
      exact ⟨hanswer, hbehind⟩
    case leases_iff =>
      rw [Call.not_leases hbehind]
      exact ⟨nofun, fun hnone => nomatch hlease.symm.trans hnone.1⟩
    case block =>
      rw [Call.not_leases hbehind]
      exact nofun
    case failure =>
      rw [hanswer]
      exact nofun
  · obtain ⟨hanswer, hfails, hbehind⟩ := Call.of_error (c := ⟨g, .embedded s⟩) hnext
    refine ⟨?waiting, ?leases_iff, ?block, ?failure⟩
    case waiting => exact fun _ _ hlease => nomatch hempty.symm.trans hlease
    case leases_iff =>
      rw [Call.not_leases hbehind, hfails]
      exact ⟨nofun, fun hsucceeds => nomatch hsucceeds.2⟩
    case block =>
      rw [Call.not_leases hbehind]
      exact nofun
    case failure =>
      rw [hanswer]
      rintro e ⟨⟩
      exact ⟨rfl, hbehind⟩
  · have hpos := h.blockSize_pos
    obtain ⟨hanswer, hsucceeds, -⟩ := Call.of_ok (c := ⟨g, .embedded s⟩) hnext
    obtain ⟨htop, hleases⟩ := Call.of_advanced hnext (by omega)
    rw [interval_eq_cons (by omega), List.map_cons] at hvalues
    refine ⟨?waiting, ?leases_iff, ?block, ?failure⟩
    case waiting => exact fun _ _ hlease => nomatch hempty.symm.trans hlease
    case leases_iff => exact ⟨fun _ => ⟨hempty, hsucceeds⟩, fun _ => hleases⟩
    case block => exact fun _ => ⟨htop.trans hsum, value, hanswer, (List.cons.inj hvalues).1⟩
    case failure =>
      rw [hanswer]
      exact nofun

/-- The calls that are made when values are drawn over and over, as long as this succeeds and no
more than `n` times. -/
def calls (g : Generator) : Nat → Backing → List Call
  | 0, _ => []
  | n + 1, b =>
    ⟨g, b⟩ ::
      match g.next.on b with
      | (.ok (_, g'), b') => g'.calls n b'
      | (.error _, _) => []

/-- The values that some calls answer. -/
def answered (calls : List Call) : List Int64 := calls.filterMap fun c => c.answer.toOption

/-- The failure of the first call that fails. -/
def failure? (calls : List Call) : Option Error :=
  calls.findSome? fun c =>
    match c.answer with
    | .ok _ => none
    | .error e => some e

/-- Values that are drawn over and over are the answers of the calls. -/
theorem repeatedly_calls (n : Nat) (drawn : List Int64) (g : Generator) (b : Backing) :
    (Session.repeatedly nextValue n drawn g b).1 = drawn.reverse ++ answered (g.calls n b) ∧
      (Session.repeatedly nextValue n drawn g b).2.1 = failure? (g.calls n b) := by
  induction n generalizing drawn g b with
  | zero => exact ⟨(List.append_nil _).symm, rfl⟩
  | succ n ih =>
    unfold Session.repeatedly calls answered failure?
    rcases hnext : g.next.on b with ⟨e | ⟨value, g'⟩, b'⟩
    · rw [List.filterMap_cons, List.findSome?_cons, (Call.of_error (c := ⟨g, b⟩) hnext).1,
        nextValue_on_error hnext]
      exact ⟨(List.append_nil _).symm, rfl⟩
    · rw [List.filterMap_cons, List.findSome?_cons, (Call.of_ok (c := ⟨g, b⟩) hnext).1,
        nextValue_on_ok hnext]
      obtain ⟨hvalues, hfailure⟩ := ih (value :: drawn) g' b'
      refine ⟨hvalues.trans ?_, hfailure⟩
      rw [List.reverse_cons, List.append_assoc]
      rfl

/-! ## Tallies -/

/-- The last value of the block that was leased last, if any was. -/
def lastLeased (before : List Call) : Option Int :=
  (before.filter Call.leases).getLast?.map Call.top

/-- What a generator has come to after some calls on it, over the storage as it is now. -/
structure Tally (made : Generator) (before : List Call) (g : Generator) (b : Backing) : Prop where
  /-- Nothing but the lease has changed. -/
  same : g = { made with lease := g.lease }
  /-- The lease is shorter than a block. -/
  short : g.lease.length < made.blockSize.toNat
  /-- Without a block leased, there is nothing in the lease. -/
  fresh : lastLeased before = none → g.lease = []
  /-- The lease is the end of the block leased last, and the counter has passed it. -/
  run : ∀ last, lastLeased before = some last →
    g.lease.map Int64.toInt = interval (last - g.lease.length) last ∧
      last ≤ b.counterOf made.sequence
  /-- Whatever was leased was answered or waits in the lease. -/
  count : before.countP Call.succeeds + g.lease.length =
    before.countP Call.leases * made.blockSize.toNat
  /-- Once a call was denied, nothing is left in the lease and no block fits. -/
  spent : ∀ c ∈ before, c.succeeds = false →
    g.lease = [] ∧ Int64.maxValue.toInt < b.counterOf made.sequence + made.blockSize.toNat

/-- Every call was proper, and met the generator as the calls before it left it. -/
def History (made : Generator) (calls : List Call) : Prop :=
  ∀ before c after, calls = before ++ c :: after →
    c.Proper ∧ Tally made before c.generator c.backing

variable {before calls : List Call} {c : Call}

theorem lastLeased_append (before : List Call) (c : Call) :
    lastLeased (before ++ [c]) = if c.leases then some c.top else lastLeased before := by
  unfold lastLeased
  rw [List.filter_append]
  cases hc : c.leases <;> simp [hc]

/-- A generator that was just built. -/
theorem Tally.start (h : made.Usable) (hempty : made.lease = []) (b : Backing) :
    Tally made [] made b where
  same := rfl
  short := by
    rw [hempty]
    exact h.blockSize_pos
  fresh _ := hempty
  run _ hlast := nomatch hlast
  count := by
    rw [hempty]
    simp
  spent _ hc := nomatch hc

theorem Tally.usable (h : Tally made before g b) (hmade : made.Usable) : g.Usable := by
  rw [h.same]
  exact ⟨hmade.name, hmade.size⟩

/-- Others move counters up, and leave the lease alone. -/
theorem Tally.others (h : Tally made before g b)
    (hle : b.counterOf made.sequence ≤ b'.counterOf made.sequence) : Tally made before g b' where
  same := h.same
  short := h.short
  fresh := h.fresh
  run last hlast := (h.run last hlast).imp_right fun hpassed => Int.le_trans hpassed hle
  count := h.count
  spent c hc hfails := (h.spent c hc hfails).imp_right fun hfull => by omega

/-- A call that is answered from the lease. -/
theorem Tally.taken (h : Tally made before g b) (hlease : g.lease = value :: rest)
    (hc : c.succeeds = true) (hleases : c.leases = false) :
    Tally made (before ++ [c]) { g with lease := rest } b := by
  have hshort := h.short
  have hcount := h.count
  rw [hlease, List.length_cons] at hshort hcount
  refine ⟨?same, Nat.lt_of_succ_lt hshort, ?fresh, ?run, ?count, ?spent⟩
  case same =>
    rw [h.same]
  case fresh =>
    rw [lastLeased_append, hleases]
    intro hnone
    rw [h.fresh hnone] at hlease
    cases hlease
  case run =>
    rw [lastLeased_append, hleases]
    intro last hlast
    obtain ⟨hrun, hpassed⟩ := h.run last hlast
    rw [hlease, List.length_cons, interval_eq_cons (by omega), List.map_cons] at hrun
    refine ⟨(List.cons.inj hrun).2.trans ?_, hpassed⟩
    congr 1
    show last - ((rest.length + 1 : Nat) : Int) + 1 = last - (rest.length : Int)
    omega
  case count =>
    simp only [List.countP_append, List.countP_singleton, hc, hleases, Bool.false_eq_true, if_true,
      if_false, Nat.add_zero]
    omega
  case spent =>
    intro x hx hfails
    rcases List.mem_append.1 hx with hbefore | hlast
    · -- a denied call would have left nothing in the lease
      rw [(h.spent x hbefore hfails).1] at hlease
      cases hlease
    · rw [List.mem_singleton.1 hlast, hc] at hfails
      cases hfails

/-- A call that is denied a block. -/
theorem Tally.denied (h : Tally made before g b) (hempty : g.lease = [])
    (hfull : Int64.maxValue.toInt < b.counterOf made.sequence + made.blockSize.toNat)
    (hc : c.succeeds = false) (hleases : c.leases = false) :
    Tally made (before ++ [c]) g b := by
  have hlast : lastLeased (before ++ [c]) = lastLeased before := by
    rw [lastLeased_append, hleases]
    rfl
  refine ⟨h.same, h.short, ?fresh, ?run, ?count, fun _ _ _ => ⟨hempty, hfull⟩⟩
  case fresh =>
    rw [hlast]
    exact h.fresh
  case run =>
    rw [hlast]
    exact h.run
  case count =>
    simp only [List.countP_append, List.countP_singleton, hc, hleases, Bool.false_eq_true, if_false,
      Nat.add_zero]
    exact h.count

/-- A call that leases a block. -/
theorem Tally.granted (h : Tally made before g b) (hempty : g.lease = [])
    (htop : c.top = b.counterOf made.sequence + made.blockSize.toNat)
    (hmax : c.top ≤ Int64.maxValue.toInt) (hb' : b'.counterOf made.sequence = c.top)
    (hvalues : (value :: rest).map Int64.toInt = interval (b.counterOf made.sequence) c.top)
    (hc : c.succeeds = true) (hleases : c.leases = true) :
    Tally made (before ++ [c]) { g with lease := rest } b' := by
  have hlast : lastLeased (before ++ [c]) = some c.top := by
    rw [lastLeased_append, hleases]
    rfl
  have hcount := h.count
  have hlength : rest.length + 1 = made.blockSize.toNat := by
    have hall := congrArg List.length hvalues
    rw [List.length_map, List.length_cons, length_interval] at hall
    omega
  rw [hempty, List.length_nil] at hcount
  refine ⟨?same, by show rest.length < _; omega, ?fresh, ?run, ?count, ?spent⟩
  case same =>
    rw [h.same]
  case fresh =>
    rw [hlast]
    exact nofun
  case run =>
    rw [hlast]
    rintro last ⟨⟩
    rw [interval_eq_cons (by omega), List.map_cons] at hvalues
    refine ⟨(List.cons.inj hvalues).2.trans ?_, Int.le_of_eq hb'.symm⟩
    congr 1
    show _ = c.top - (rest.length : Int)
    omega
  case count =>
    simp only [List.countP_append, List.countP_singleton, hc, hleases, if_true, Nat.add_mul,
      Nat.one_mul]
    omega
  case spent =>
    intro x hx hfails
    rcases List.mem_append.1 hx with hbefore | hsame
    · -- a block fits, so none was denied before
      have hfull := (h.spent x hbefore hfails).2
      omega
    · rw [List.mem_singleton.1 hsame, hc] at hfails
      cases hfails

/-- **One call keeps the tally**, whether it succeeds or fails. -/
theorem Tally.call (hg : g.Usable) (h : Tally made before g (.embedded s)) :
    (∃ e, g.next.on (.embedded s) = (.error e, .embedded s) ∧
      Tally made (before ++ [⟨g, .embedded s⟩]) g (.embedded s)) ∨
    ∃ value g' s', g.next.on (.embedded s) = (.ok (value, g'), .embedded s') ∧
      Tally made (before ++ [⟨g, .embedded s⟩]) g' (.embedded s') := by
  have hsequence : g.sequence = made.sequence := by rw [h.same]
  have hsize : g.blockSize = made.blockSize := by rw [h.same]
  rcases hg.next_on s with ⟨value, rest, hlease, hnext⟩ | ⟨hempty, hfull, hnext⟩ |
    ⟨value, rest, last, hempty, hsum, hvalues, hnext⟩
  · obtain ⟨-, hsucceeds, hbehind⟩ := Call.of_ok (c := ⟨g, .embedded s⟩) hnext
    exact Or.inr ⟨value, _, s, hnext, h.taken hlease hsucceeds (Call.not_leases hbehind)⟩
  · obtain ⟨-, hfails, hbehind⟩ := Call.of_error (c := ⟨g, .embedded s⟩) hnext
    rw [hsequence, hsize] at hfull
    exact Or.inl ⟨_, hnext, h.denied hempty hfull hfails (Call.not_leases hbehind)⟩
  · have hpos := hg.blockSize_pos
    obtain ⟨-, hsucceeds, -⟩ := Call.of_ok (c := ⟨g, .embedded s⟩) hnext
    obtain ⟨htop, hleases⟩ := Call.of_advanced hnext (by omega)
    have hcounter : (s.advanced g.sequence last).counterOf made.sequence = last.toInt := by
      rw [Store.counterOf_advanced, if_pos hsequence.symm]
    have hmax := (s.advanced g.sequence last).counterOf_le_max made.sequence
    rw [hcounter] at hmax
    rw [hsequence, hsize] at hsum
    rw [hsequence] at hvalues
    exact Or.inr ⟨value, _, _, hnext, h.granted hempty (htop.trans hsum) (htop ▸ hmax)
      (hcounter.trans htop.symm) (htop.symm ▸ hvalues) hsucceeds hleases⟩

/-! ## Calls in a row -/

theorem History.nil (made : Generator) : History made [] := by
  intro before c after hcalls
  cases before <;> cases hcalls

theorem History.snoc (h : History made calls) (hc : c.Proper)
    (htally : Tally made calls c.generator c.backing) : History made (calls ++ [c]) := by
  intro before x after hcalls
  rcases List.eq_nil_or_concat after with rfl | ⟨front, last, rfl⟩
  · obtain ⟨rfl, hx⟩ := List.append_inj' hcalls rfl
    obtain rfl := List.cons.inj hx |>.1
    exact ⟨hc, htally⟩
  · rw [List.concat_eq_append, ← List.cons_append, ← List.append_assoc] at hcalls
    exact h before x front (List.append_inj' hcalls rfl).1

/-- The calls of a history fail for one reason only. -/
theorem History.failure_eq (h : History made calls) (hc : c ∈ calls) {e : Error}
    (hfails : c.answer = .error e) : e = .storage (.exhausted made.sequence) := by
  obtain ⟨before, after, hcalls⟩ := List.append_of_mem hc
  obtain ⟨hproper, htally⟩ := h before c after hcalls
  rw [(hproper.failure e hfails).1, htally.same]

/-- The failure that ends some calls is the failure of one of them. -/
theorem exists_of_failure? {e : Error} (h : failure? calls = some e) :
    ∃ c ∈ calls, c.answer = .error e := by
  obtain ⟨c, hc, hfails⟩ := List.exists_of_findSome?_eq_some h
  cases hanswer : c.answer with
  | ok _ =>
    rw [hanswer] at hfails
    cases hfails
  | error e' =>
    rw [hanswer] at hfails
    exact ⟨c, hc, hanswer.trans (congrArg Except.error (Option.some.inj hfails))⟩

/-- **Drawing over and over keeps the tally**, and all calls are proper. -/
theorem Tally.draw (hmade : made.Usable) (n : Nat) (drawn : List Int64) :
    ∀ {before : List Call} {g : Generator} {s : Store}, Tally made before g (.embedded s) →
      History made before → ∃ g' s',
        (Session.repeatedly Generator.nextValue n drawn g (.embedded s)).2.2 =
          (g', .embedded s') ∧
        Tally made (before ++ g.calls n (.embedded s)) g' (.embedded s') ∧
        History made (before ++ g.calls n (.embedded s)) := by
  induction n generalizing drawn with
  | zero =>
    intro before g s h hbefore
    refine ⟨g, s, rfl, ?_⟩
    rw [calls, List.append_nil]
    exact ⟨h, hbefore⟩
  | succ n ih =>
    intro before g s h hbefore
    have hg := h.usable hmade
    have hhistory := hbefore.snoc (hg.call_proper s) h
    unfold Session.repeatedly calls
    rcases h.call hg with ⟨e, hnext, hdenied⟩ | ⟨value, g', s', hnext, hgoes⟩
    · rw [hnext, nextValue_on_error hnext]
      exact ⟨g, s, rfl, hdenied, hhistory⟩
    · rw [hnext, nextValue_on_ok hnext]
      obtain ⟨g'', s'', hend, htally, hall⟩ := ih (value :: drawn) hgoes hhistory
      rw [List.append_assoc, List.singleton_append] at htally hall
      exact ⟨g'', s'', hend, htally, hall⟩

/-- After a call that was denied, all calls are. -/
theorem Tally.next_denied (hmade : made.Usable) (h : Tally made before g (.embedded s))
    (hc : c ∈ before) (hfails : c.succeeds = false) :
    g.next.on (.embedded s) = (.error (.storage (.exhausted made.sequence)), .embedded s) := by
  obtain ⟨hempty, hfull⟩ := h.spent c hc hfails
  have hsequence : g.sequence = made.sequence := by rw [h.same]
  have hsize : g.blockSize = made.blockSize := by rw [h.same]
  rw [← hsequence, ← hsize] at hfull
  rw [← hsequence]
  exact (h.usable hmade).next_exhausted hempty hfull

/-- As many blocks were leased as the values take that were answered. -/
theorem Tally.leases_eq (h : Tally made before g b) :
    before.countP Call.leases =
      blocksFor made.blockSize.toNat (before.countP Call.succeeds) := by
  have hshort := h.short
  have hcount := h.count
  exact (blocksFor_eq (by omega) (by omega)).symm

end Generator

/-! ## Sessions -/

/-- A step that neither builds a generator nor draws from one nor forgets them all. -/
def Step.LeavesGenerators : Step → Prop
  | .makeGenerator _ _ _ _ | .nextValues _ _ | .nextIds _ _ | .reopen _ _ => False
  | _ => True

namespace Session

open Generator (Call Tally History)

variable {s : Session} {store : Store} {place : Nat} {made g : Generator} {before : List Call}

/-- The calls that a step makes on the generator in a place, under whichever name. -/
def callsOf (s : Session) (place : Nat) : Step → List Call
  | .nextValues name times | .nextIds name times =>
    match s.generator? name with
    | some (found, g) => if found = place then g.calls times s.backing else []
    | none => []
  | _ => []

/-- The calls on the generator in a place in the course of a run. -/
def calls (s : Session) (place : Nat) : List Step → List Call
  | [] => []
  | step :: rest => s.callsOf place step ++ (s.step step).2.calls place rest

theorem withWalk_generators (name : String) {act : Walk → Outcome}
    (hact : ∀ w, (act w).2.generators = s.generators) :
    (s.withWalk name act).2.generators = s.generators := by
  unfold withWalk
  cases s.walks.get? name with
  | none => rfl
  | some w => exact hact w

/-- Most steps leave all generators alone. -/
theorem step_generators {step : Step} (h : step.LeavesGenerators) :
    (s.step step).2.generators = s.generators := by
  cases step with
  | makeGenerator _ _ _ _ => exact h.elim
  | nextValues _ _ => exact h.elim
  | nextIds _ _ => exact h.elim
  | reopen _ _ => exact h.elim
  | shareGenerator name as =>
    cases hfound : s.generator? name with
    | none => simp only [Session.step, hfound]
    | some found => simp only [Session.step, hfound]
  | copyWalk name as => exact withWalk_generators name fun _ => rfl
  | resizeWalk name pageSize => exact withWalk_generators name fun _ => rfl
  | restartWalk name => exact withWalk_generators name fun _ => rfl
  | walkOn name =>
    refine withWalk_generators name fun w => ?_
    rcases Walk.nextPage.on w s.backing with ⟨_ | _, _, _⟩ <;> rfl
  | collectWalk name => exact withWalk_generators name fun w => perform_generators _ _
  | nameLimit => rfl
  | allocateTogether _ _ => rfl
  | dropGenerator _ => rfl
  | createSeries _ => rfl
  | createTogether _ _ => rfl
  | beginWalk _ _ _ => rfl
  | backend => rfl
  | openAgain => rfl
  | _ => exact perform_generators _ _

/-- Drawing puts back the generator in its place, and leaves the others alone. -/
theorem draw_snd {α : Type} {name : String} (hfound : s.generator? name = some (place, g))
    (times : Nat) (one : Method Generator α) (answer : List α → Answer)
    (failure : Error → List α → Failure) :
    (s.draw name times one answer failure).2 =
      { s with
        backing := (repeatedly one times [] g s.backing).2.2.2
        generators := s.generators.set place (repeatedly one times [] g s.backing).2.2.1 } := by
  unfold draw
  rw [hfound]
  simp only []
  split <;> rfl

/-- The generator in a place is as the calls on it left it. -/
def Served (s : Session) (place : Nat) (made : Generator) (before : List Call) : Prop :=
  ∃ g store, s.backing = .embedded store ∧ s.generators[place]? = some g ∧
    Tally made before g s.backing ∧ History made before

/-- What keeps the generator in its place and takes no counter back serves it. -/
theorem Served.others (h : s.Served place made before) {s' : Session}
    (hplace : ∀ g, s.generators[place]? = some g → s'.generators[place]? = some g)
    (hcounter : ∀ store, s.backing = .embedded store → ∃ store', s'.backing = .embedded store' ∧
      store.counterOf made.sequence ≤ store'.counterOf made.sequence) :
    s'.Served place made before := by
  obtain ⟨g, store, hstore, hg, htally, hhistory⟩ := h
  obtain ⟨store', hstore', hle⟩ := hcounter store hstore
  rw [hstore] at htally
  refine ⟨g, store', hstore', hplace g hg, ?_, hhistory⟩
  rw [hstore']
  exact htally.others hle

/-- Drawing from any generator serves the one in the place. -/
theorem nextValues_served (hmade : made.Usable) (h : s.Served place made before) (name : String)
    (times : Nat) :
    (s.step (.nextValues name times)).2.Served place made
      (before ++ s.callsOf place (.nextValues name times)) := by
  cases hfound : s.generator? name with
  | none =>
    simp only [Session.step, draw, callsOf, hfound, List.append_nil]
    exact h
  | some found =>
    obtain ⟨found, g⟩ := found
    by_cases hsame : found = place
    · subst hsame
      obtain ⟨g', store, hstore, hplace, htally, hhistory⟩ := h
      obtain rfl : g = g' := Option.some.inj ((generator?_eq_some hfound).symm.trans hplace)
      rw [hstore] at htally
      obtain ⟨g', store', hend, htally', hhistory'⟩ := htally.draw hmade times [] hhistory
      have hk : found < s.generators.length := (List.getElem?_eq_some_iff.1 hplace).1
      simp only [callsOf, hfound, if_true, hstore]
      refine ⟨g', store', ?_, ?_, ?_, hhistory'⟩
      all_goals
        rw [Session.step, draw_snd hfound, hstore, hend]
      · exact List.getElem?_set_self hk
      · exact htally'
    · have hcalls : s.callsOf place (.nextValues name times) = [] := by
        simp only [callsOf, hfound, if_neg hsame]
      rw [hcalls, List.append_nil]
      refine h.others (fun g' hplace => ?_) fun store hstore =>
        step_counter_le hstore (.nextValues name times) trivial made.sequence
      rw [Session.step, draw_snd hfound]
      rwa [List.getElem?_set_ne hsame]

/-- **Every step serves the generator in a place**, as long as the registry is open. -/
theorem step_served (hmade : made.Usable) (h : s.Served place made before) (step : Step)
    (hchecked : step.Checked) (hopen : ∀ nameLimit size, step ≠ .reopen nameLimit size) :
    (s.step step).2.Served place made (before ++ s.callsOf place step) := by
  have hcounter : ∀ store, s.backing = .embedded store → ∃ store',
      (s.step step).2.backing = .embedded store' ∧
        store.counterOf made.sequence ≤ store'.counterOf made.sequence :=
    fun store hstore => step_counter_le hstore step hchecked made.sequence
  by_cases hleaves : step.LeavesGenerators
  · have hcalls : s.callsOf place step = [] := by
      cases step <;> first | rfl | exact hleaves.elim
    rw [hcalls, List.append_nil]
    refine h.others (fun g hg => ?_) hcounter
    rwa [step_generators hleaves]
  · cases step with
    | nextValues name times => exact nextValues_served hmade h name times
    | nextIds name times =>
      obtain ⟨g, store, hstore, -⟩ := id h
      rw [(step_nextIds hstore name times).1]
      exact nextValues_served hmade h name times
    | makeGenerator as sequence format blockSize =>
      rw [show s.callsOf place (.makeGenerator as sequence format blockSize) = [] from rfl,
        List.append_nil]
      refine h.others (fun g hg => ?_) hcounter
      have hk : place < s.generators.length := (List.getElem?_eq_some_iff.1 hg).1
      cases hbuilt : Generator.make s.limits.nameLimit sequence format
          (blockSize.getD s.limits.blockSize) with
      | error e =>
        simp only [Session.step, hbuilt]
        exact hg
      | ok built =>
        simp only [Session.step, hbuilt]
        exact (List.getElem?_append_left hk).trans hg
    | reopen nameLimit size => exact absurd rfl (hopen nameLimit size)
    | _ => exact absurd trivial hleaves

/-- A run serves the generator in a place. -/
theorem run_served (hmade : made.Usable) {steps : List Step}
    (hchecked : ∀ step ∈ steps, step.Checked)
    (hopen : ∀ nameLimit size, .reopen nameLimit size ∉ steps) :
    ∀ {s : Session} {before : List Call}, s.Served place made before →
      (run steps s).2.Served place made (before ++ s.calls place steps) := by
  induction steps with
  | nil =>
    intro s before h
    rwa [calls, List.append_nil]
  | cons step rest ih =>
    intro s before h
    have hstep := step_served hmade h step (hchecked step List.mem_cons_self)
      fun nameLimit size hsame => hopen nameLimit size (hsame ▸ List.mem_cons_self)
    have hrest := ih (fun x hx => hchecked x (List.mem_cons_of_mem _ hx))
      (fun nameLimit size hmem => hopen nameLimit size (List.mem_cons_of_mem _ hmem)) hstep
    rwa [List.append_assoc] at hrest

/-- The answer of a step that draws over and over, which shows values in some way. -/
def reply {α : Type} (answer : List α → Answer) (failure : Error → List α → Failure)
    (shown : Int64 → α) (calls : List Call) : Except Failure Answer :=
  match Generator.failure? calls with
  | none => .ok (answer ((Generator.answered calls).map shown))
  | some e => .error (failure e ((Generator.answered calls).map shown))

/-- A step that draws answers what its calls answer. -/
theorem step_reply (hstore : s.backing = .embedded store) {name : String}
    (hfound : s.generator? name = some (place, g)) (times : Nat) :
    (s.step (.nextValues name times)).1 =
        reply .values .afterValues id (g.calls times s.backing) ∧
      (s.step (.nextIds name times)).1 =
        reply .ids .afterIds g.format.render (g.calls times s.backing) := by
  obtain ⟨values, error?, g', s', hvalues, hids, -⟩ := repeatedly_moves times [] g store
  obtain ⟨hanswered, hfailure⟩ := Generator.repeatedly_calls times [] g (.embedded store)
  rw [List.map_nil] at hids
  rw [hvalues] at hanswered hfailure
  simp only [List.reverse_nil, List.nil_append] at hvalues hids hanswered hfailure
  simp only [Session.step, draw, hfound, hstore, hvalues, hids, reply, ← hanswered, ← hfailure,
    List.map_id]
  cases error? <;> exact ⟨rfl, rfl⟩

/-- A generator that is denied its next value stays as it is, and so does everything else. -/
theorem step_denied {name : String} (hfound : s.generator? name = some (place, g)) {e : Error}
    (hfails : g.next.on s.backing = (.error e, s.backing)) (times : Nat) :
    s.step (.nextValues name (times + 1)) = (.error (.afterValues e []), s) ∧
      s.step (.nextIds name (times + 1)) = (.error (.afterIds e []), s) := by
  have hplace : s.generators.set place g = s.generators := set_generator hfound
  constructor
  · simp only [Session.step, draw, hfound, repeatedly, Generator.nextValue_on_error hfails, hplace]
    rfl
  · simp only [Session.step, draw, hfound, repeatedly, Generator.nextId_on_error hfails, hplace]
    rfl

/-- **A generator leases no more than it needs, and fails for want of values alone.** Take a
generator that was built, in some place of a session over any store, and any run in which the
registry stays open: with calls on the generator under all its names, and with whatever else is done
to the registry. Every call is proper and met the generator with a tally of the calls before it, and
at the end there is a tally of all calls. So there have been as many leases as blocks are needed for
the values that were answered. What a step answers that draws from the generator is what its calls
answer. Once a call was denied, every later one is denied and changes nothing. -/
theorem leases_as_needed {limit : Nat} {sequence : String} {format : IdFormat} {blockSize : UInt32}
    (hmade : Generator.make limit sequence format blockSize = .ok made)
    (hstore : s.backing = .embedded store) (hplace : s.generators[place]? = some made)
    {steps : List Step} (hchecked : ∀ step ∈ steps, step.Checked)
    (hopen : ∀ nameLimit size, .reopen nameLimit size ∉ steps) :
    made = ⟨sequence, format, blockSize, limit, []⟩ ∧
    let calls := s.calls place steps
    let s' := (run steps s).2
    ∃ g store', s'.backing = .embedded store' ∧ s'.generators[place]? = some g ∧
      Tally made calls g s'.backing ∧
      (∀ before c after, calls = before ++ c :: after →
        c.Proper ∧ Tally made before c.generator c.backing) ∧
      calls.countP Call.leases = blocksFor blockSize.toNat (calls.countP Call.succeeds) ∧
      ∀ name, s'.generator? name = some (place, g) → ∀ times,
        (s'.step (.nextValues name times)).1 =
          reply .values .afterValues id (g.calls times s'.backing) ∧
        (s'.step (.nextIds name times)).1 =
          reply .ids .afterIds format.render (g.calls times s'.backing) ∧
        (∀ e, Generator.failure? (g.calls times s'.backing) = some e →
          e = .storage (.exhausted sequence)) ∧
        ((∃ c ∈ calls, c.succeeds = false) →
          s'.step (.nextValues name (times + 1)) =
            (.error (.afterValues (.storage (.exhausted sequence)) []), s') ∧
          s'.step (.nextIds name (times + 1)) =
            (.error (.afterIds (.storage (.exhausted sequence)) []), s')) := by
  have husable := Generator.make_usable hmade
  obtain ⟨-, -, -, rfl⟩ := Generator.make_eq_ok_iff.1 hmade
  have hstart : s.Served place ⟨sequence, format, blockSize, limit, []⟩ [] :=
    ⟨_, store, hstore, hplace, Tally.start husable rfl _, History.nil _⟩
  obtain ⟨g, store', hstore', hg, htally, hhistory⟩ := run_served husable hchecked hopen hstart
  rw [List.nil_append] at htally hhistory
  refine ⟨rfl, g, store', hstore', hg, htally, hhistory, htally.leases_eq, ?_⟩
  intro name hfound times
  have hformat : g.format = format := by rw [htally.same]
  rw [hstore'] at htally
  obtain ⟨hvalues, hids⟩ := step_reply hstore' hfound times
  refine ⟨hvalues, hformat ▸ hids, ?failure, ?denied⟩
  case failure =>
    obtain ⟨-, -, -, -, hcalls⟩ := htally.draw husable times [] hhistory
    rw [hstore']
    intro e he
    obtain ⟨c, hc, hfails⟩ := Generator.exists_of_failure? he
    exact hcalls.failure_eq (List.mem_append_right _ hc) hfails
  case denied =>
    rintro ⟨c, hc, hfails⟩
    have hdenied := htally.next_denied husable hc hfails
    rw [← hstore'] at hdenied
    exact step_denied hfound hdenied times

/-- A session over a counter that has six values left, with a generator that leases two at once. -/
def nearTheEnd : Session :=
  ((start (.embedded (Store.fresh.advanced "n" (Int64.maxValue - 6))) .standard 0).step
    (.makeGenerator "g" "n" .plain (some 2))).2

/-- The generator is used under two names while another caller draws a value, so that its third
lease does not fit. The one value that is left goes to the other caller. -/
def scarcity : List Step :=
  [.shareGenerator "g" "h", .nextValues "h" 1, .allocateNext "n", .nextIds "g" 2,
    .dropGenerator "h", .nextValues "g" 2, .allocateNext "n"]

theorem leases_as_needed_scarcity :
    Generator.make 64 "n" .plain 2 = .ok ⟨"n", .plain, 2, 64, []⟩ ∧
      nearTheEnd.generators[0]? = some ⟨"n", .plain, 2, 64, []⟩ ∧
      (∀ step ∈ scarcity, step.Checked) ∧ (∀ limit size, .reopen limit size ∉ scarcity) ∧
      (nearTheEnd.calls 0 scarcity).countP Call.succeeds = 4 ∧
      (nearTheEnd.calls 0 scarcity).countP Call.leases = 2 ∧
      let s' := (run scarcity nearTheEnd).2
      s'.step (.nextValues "g" 1) = (.error (.afterValues (.storage (.exhausted "n")) []), s') := by
  have hmade : Generator.make 64 "n" .plain 2 = .ok ⟨"n", .plain, 2, 64, []⟩ := rfl
  have hplace : nearTheEnd.generators[0]? = some ⟨"n", .plain, 2, 64, []⟩ := rfl
  have hchecked : ∀ step ∈ scarcity, step.Checked := by simp [scarcity, Step.Checked]
  have hopen : ∀ limit size, .reopen limit size ∉ scarcity := by simp [scarcity]
  have hcount : (nearTheEnd.calls 0 scarcity).countP Call.succeeds = 4 := rfl
  obtain ⟨-, g, store', -, hg, -, -, hleases, hlater⟩ :=
    leases_as_needed hmade rfl hplace hchecked hopen
  have hdenied : ∃ c ∈ nearTheEnd.calls 0 scarcity, c.succeeds = false := by decide
  have hspent : (run scarcity nearTheEnd).2.generators[0]? = some ⟨"n", .plain, 2, 64, []⟩ := rfl
  obtain rfl := Option.some.inj (hspent.symm.trans hg)
  have hnamed : (run scarcity nearTheEnd).2.generator? "g" =
      some (0, ⟨"n", .plain, 2, 64, []⟩) := rfl
  rw [hcount] at hleases
  exact ⟨hmade, hplace, hchecked, hopen, hcount, hleases, ((hlater "g" hnamed 0).2.2.2 hdenied).1⟩

end Session

end ObjectRegistry
