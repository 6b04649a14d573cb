import ObjectRegistry.Proofs.ByteOrder
import ObjectRegistry.Proofs.Runs

/-!
# Walks while others write

Between the pages of a walk anything may happen to the store. What a walk is worth then is said by
`Progress`: what it returned so far is in order, its position is that of the last resource returned,
and whatever lies up to there and was in the store each time a page was fetched has been returned.
One page keeps this (`Progress.fetch`), because the page is the front of what the store holds behind
the position at that moment, and writes between two pages do not touch it at all.

Nothing is assumed about the resource at the position of the walk. It may be gone, or another may
have come into its place.
-/

namespace ObjectRegistry

open Store (Before isBehind)

/-- Created earlier, or in the same second with the lesser id, byte by byte. -/
def Resource.Earlier (x y : Resource) : Prop :=
  x.createTime < y.createTime ∨ x.createTime = y.createTime ∧ Text.bytes x.id < Text.bytes y.id

/-- Of an earlier second, or of the same second with the lesser id, byte by byte. -/
def Cursor.Precedes (x y : Cursor) : Prop :=
  x.createTime < y.createTime ∨ x.createTime = y.createTime ∧ Text.bytes x.id < Text.bytes y.id

/-- The order of positions, spelled out. -/
theorem Cursor.compare_eq_lt_iff {x y : Cursor} : TableKey.compare x y = .lt ↔ x.Precedes y := by
  unfold Cursor.Precedes
  rw [← TableKey.compare_eq_lt_iff_bytes]
  refine Iff.trans Ordering.then_eq_lt ?_
  exact or_congr TableKey.compareInt64_eq_lt (and_congr TableKey.compare_eq_iff Iff.rfl)

/-- What comes behind a position comes behind every earlier one with the same id. -/
theorem Cursor.Precedes.of_le {c d x : Cursor} (h : c.Precedes x) (hid : d.id = c.id)
    (htime : d.createTime ≤ c.createTime) : d.Precedes x := by
  rcases Int64.lt_or_eq_of_le htime with hless | hsame
  · rcases h with hc | ⟨hc, -⟩
    · exact Or.inl (Int64.lt_trans hless hc)
    · exact Or.inl (hc ▸ hless)
  · unfold Precedes
    rw [hid, hsame]
    exact h

theorem Cursor.Precedes.trans {c d x : Cursor} (h : c.Precedes d) (h' : d.Precedes x) :
    c.Precedes x := by
  rw [← Cursor.compare_eq_lt_iff] at h h' ⊢
  exact TableKey.lt_trans h h'

theorem Cursor.not_precedes_self (c : Cursor) : ¬ c.Precedes c := by
  rw [← Cursor.compare_eq_lt_iff]
  exact TableKey.compare_self_ne_lt c

/-- The order of a listing, spelled out. -/
theorem Store.before_iff {x y : Resource} : Before x y ↔ x.Earlier y :=
  Cursor.compare_eq_lt_iff

/-- Where a page starts, spelled out. -/
theorem Store.isBehind_iff {after : Option Cursor} {position : Cursor} :
    isBehind after position = true ↔ ∀ c, after = some c → c.Precedes position := by
  cases after with
  | none => exact ⟨fun _ _ => nofun, fun _ => rfl⟩
  | some start =>
    show (TableKey.compare start position == .lt) = true ↔ _
    rw [beq_iff_eq, Cursor.compare_eq_lt_iff]
    constructor
    · rintro hstart c ⟨⟩
      exact hstart
    · intro h
      exact h start rfl

/-- What other callers do to resources. -/
inductive Change where
  | create (r : Resource)
  | delete (id : String)
  | purge (cutoff : Int64)

/-- The storage after a change, whether it succeeded or not. -/
def Change.on (change : Change) (b : Backing) : Backing :=
  match change with
  | .create r => ((Registry.create r).on b).2
  | .delete id => ((Registry.delete id).on b).2
  | .purge cutoff => ((Registry.purge cutoff).on b).2

/-- What happens one after the other while a walk is going on. -/
inductive Turn where
  /-- The next page is fetched. -/
  | fetch
  /-- The pages have another size from here on. -/
  | resize (pageSize : UInt32)
  | change (change : Change)

/-- A page that was fetched: the storage it was fetched from, and the answer. -/
structure Visit where
  backing : Backing
  answer : Except Error (Option (List Resource))

namespace Walk

/-- The pages fetched from a walk in the course of some turns. -/
def visits : List Turn → Backing → Walk → List Visit
  | [], _, _ => []
  | .fetch :: rest, b, w =>
    match w.next.on b with
    | (.ok (items, behind), b') => ⟨b, .ok items⟩ :: visits rest b' behind
    | (.error e, b') => ⟨b, .error e⟩ :: visits rest b' w
  | .resize pageSize :: rest, b, w => visits rest b (w.resize pageSize)
  | .change change :: rest, b, w => visits rest (change.on b) w

/-- Everything that some pages returned, in that order. -/
def returned (seen : List (Store × List Resource)) : List Resource := seen.flatMap Prod.snd

/-- A walk on its way, after the pages it has seen. -/
structure Progress (scope : Scope) (seen : List (Store × List Resource)) (w : Walk) : Prop where
  onScope : w.scope = scope
  sorted : (returned seen).Pairwise Before
  /-- A page is not empty, and what is on it was in the store at that moment. -/
  faithful : ∀ v ∈ seen, v.2 ≠ [] ∧
    ∀ r ∈ v.2, v.1.Holds r ∧ r.record.label scope.axis = scope.key
  /-- The walk goes on behind the last resource returned. -/
  cursor : w.finished = false → w.after = (returned seen).getLast?.map Resource.position
  /-- What was there at every page and is not ahead has been returned. -/
  covered : ∀ r, r.record.label scope.axis = scope.key → (∀ v ∈ seen, v.1.Holds r) →
    w.finished = true ∨ isBehind w.after r.position = false → r ∈ returned seen

variable {s : Store} {scope : Scope} {seen : List (Store × List Resource)} {w : Walk}

/-- A walk that starts, or starts again, has returned nothing and has everything ahead. -/
theorem Progress.start (w : Walk) : Progress w.scope [] w.restart where
  onScope := rfl
  sorted := List.Pairwise.nil
  faithful v hv := absurd hv List.not_mem_nil
  cursor _ := rfl
  covered r _ _ hpast := by
    rcases hpast with hover | hbehind
    · cases hover
    · cases hbehind

theorem Progress.resize (hp : Progress scope seen w) (pageSize : UInt32) :
    Progress scope seen (w.resize pageSize) :=
  ⟨hp.onScope, hp.sorted, hp.faithful, hp.cursor, hp.covered⟩

theorem returned_append (seen : List (Store × List Resource)) (s : Store)
    (items : List Resource) : returned (seen ++ [(s, items)]) = returned seen ++ items := by
  rw [returned, returned, List.flatMap_append, List.flatMap_singleton]

/-- The last of some resources in order is the greatest. -/
theorem eq_or_before_getLast {rs : List Resource} (h : rs.Pairwise Before) {r last : Resource}
    (hlast : rs.getLast? = some last) (hr : r ∈ rs) : r = last ∨ Before r last := by
  obtain ⟨front, rfl⟩ := List.getLast?_eq_some_iff.1 hlast
  rcases List.mem_append.1 hr with hfront | hend
  · exact Or.inr ((List.pairwise_append.1 h).2.2 r hfront last (List.mem_singleton.2 rfl))
  · exact Or.inl (List.mem_singleton.1 hend)

/-- What is ahead of a walk comes behind everything it returned. -/
theorem Progress.before (hp : Progress scope seen w) (hon : w.finished = false) {x r : Resource}
    (hx : x ∈ returned seen) (hr : isBehind w.after r.position = true) : Before x r := by
  obtain ⟨last, hlast⟩ : ∃ last, (returned seen).getLast? = some last :=
    ⟨_, List.getLast?_eq_some_getLast (List.ne_nil_of_mem hx)⟩
  rw [hp.cursor hon, hlast] at hr
  have hbehind : Before last r := beq_iff_eq.1 hr
  rcases eq_or_before_getLast hp.sorted hlast hx with rfl | hbefore
  · exact hbehind
  · exact TableKey.lt_trans hbefore hbehind

/-- A page that returns something is progress. -/
theorem Progress.fetch (hp : Progress scope seen w) (h : s.Consistent) {items : List Resource}
    {behind : Walk} (hfetched : w.Fetched s (some items) behind) :
    Progress scope (seen ++ [(s, items)]) behind := by
  obtain ⟨hitems, hsome⟩ := hfetched.items_eq
  have hon : w.finished = false := running_of_ahead hsome
  have hahead : w.ahead s = s.remaining scope w.after := by
    rw [ahead_running hon, hp.onScope]
  have hmem : ∀ {r : Resource}, r ∈ w.ahead s ↔
      (s.Holds r ∧ r.record.label scope.axis = scope.key) ∧
        isBehind w.after r.position = true := by
    intro r
    rw [hahead]
    exact h.mem_remaining
  have hsorted : (w.ahead s).Pairwise Before := hahead ▸ h.remaining_sorted scope w.after
  have hsplit : (w.ahead s).take w.size ++ (w.ahead s).drop w.size = w.ahead s :=
    List.take_append_drop _ _
  have hnonempty : items ≠ [] := by
    rw [hitems, ne_eq, List.take_eq_nil_iff, not_or]
    exact ⟨Nat.pos_iff_ne_zero.1 w.size_pos, hsome⟩
  refine ⟨hfetched.scope.trans hp.onScope, ?sorted, ?faithful, ?cursor, ?covered⟩
  case sorted =>
    -- the page is in order itself, and ahead of everything returned before
    rw [returned_append, List.pairwise_append]
    refine ⟨hp.sorted, hitems ▸ hsorted.sublist (List.take_sublist _ _), ?_⟩
    intro x hx r hr
    rw [hitems] at hr
    exact hp.before hon hx (hmem.1 (List.mem_of_mem_take hr)).2
  case faithful =>
    intro v hv
    rcases List.mem_append.1 hv with hold | hnew
    · exact hp.faithful v hold
    · rw [List.mem_singleton.1 hnew]
      refine ⟨hnonempty, ?_⟩
      intro r hr
      rw [hitems] at hr
      exact (hmem.1 (List.mem_of_mem_take hr)).1
  case cursor =>
    intro hgoes
    rcases hfetched.goesOn with ⟨hover, -⟩ | ⟨-, x, hx, hafter⟩
    · rw [hover] at hgoes
      cases hgoes
    · rw [returned_append, List.getLast?_append, hitems, hx, hafter]
      rfl
  case covered =>
    intro r hlabel hheld hpast
    rw [returned_append, List.mem_append]
    by_cases hold : isBehind w.after r.position = true
    · -- it was ahead, so it is on this page or still ahead
      have hr : r ∈ w.ahead s :=
        hmem.2 ⟨⟨hheld (s, items) (List.mem_append_right _ (List.mem_singleton.2 rfl)), hlabel⟩,
          hold⟩
      rw [← hsplit] at hr hsorted
      rcases List.mem_append.1 hr with htaken | hleft
      · exact Or.inr (hitems ▸ htaken)
      · rcases hfetched.goesOn with ⟨-, hnil⟩ | ⟨hgoes, x, hx, hafter⟩
        · rw [hnil] at hleft
          cases hleft
        · -- behind the last of the page, so the walk has not passed it
          have hbefore : Before x r :=
            (List.pairwise_append.1 hsorted).2.2 x (List.mem_of_getLast? hx) r hleft
          have hahead' : isBehind behind.after r.position = true := by
            rw [hafter]
            exact beq_iff_eq.2 hbefore
          rw [hgoes, hahead'] at hpast
          rcases hpast with hover | hbehind
          · cases hover
          · cases hbehind
    · exact Or.inl (hp.covered r hlabel (fun v hv => hheld v (List.mem_append_left _ hv))
        (Or.inr (Bool.eq_false_iff.2 hold)))

/-- A page that returns nothing ends the walk, and nothing was left out. -/
theorem Progress.ends (hp : Progress scope seen w) (h : s.Consistent) {behind : Walk}
    (hfetched : w.Fetched s none behind) :
    behind.finished = true ∧
      ∀ r, r.record.label scope.axis = scope.key → (∀ v ∈ seen, v.1.Holds r) → s.Holds r →
        r ∈ returned seen := by
  have hnil : w.ahead s = [] := hfetched.none_iff.1 rfl
  constructor
  · rcases hfetched.goesOn with ⟨hover, -⟩ | ⟨-, x, hx, -⟩
    · exact hover
    · rw [hnil, List.take_nil] at hx
      cases hx
  · intro r hlabel hheld hr
    refine hp.covered r hlabel hheld ?_
    -- what is not past is ahead, and nothing is
    by_contra hpast
    rw [not_or] at hpast
    have hmem : r ∈ w.ahead s := by
      rw [ahead_running (Bool.eq_false_iff.2 hpast.1), hp.onScope]
      exact h.mem_remaining.2 ⟨⟨hr, hlabel⟩, by simpa using hpast.2⟩
    rw [hnil] at hmem
    cases hmem

/-! ## All pages of a walk -/

/-- A page with something on it. -/
def Visit.full (v : Store × List Resource) : Visit := ⟨.embedded v.1, .ok (some v.2)⟩

/-- A page that says that the walk is over. -/
def Visit.ended (s : Store) : Visit := ⟨.embedded s, .ok none⟩

/-- Changes keep a store consistent. -/
theorem Change.on_consistent (change : Change) (h : s.Consistent) :
    ∃ s', change.on (.embedded s) = .embedded s' ∧ s'.Consistent := by
  have hkept : (change.on (.embedded s)).Consistent := by
    cases change with
    | create r => exact (Registry.create_sound r (.embedded s) h).1
    | delete id => exact (Registry.delete_sound id (.embedded s) h).1
    | purge cutoff => exact (Registry.purge_sound cutoff (.embedded s) h).1
  exact hkept.embedded

/-- A walk that is over answers nothing any more, whatever happens to the store. -/
theorem visits_finished (h : s.Consistent) (hover : w.finished = true) (turns : List Turn) :
    ∃ beyond : List Store, visits turns (.embedded s) w = beyond.map Visit.ended := by
  induction turns generalizing s w with
  | nil => exact ⟨[], rfl⟩
  | cons turn rest ih =>
    cases turn with
    | fetch =>
      obtain ⟨beyond, hrest⟩ := ih h hover
      refine ⟨s :: beyond, ?_⟩
      unfold visits
      rw [next_on_finished hover, List.map_cons, ← hrest]
      rfl
    | resize pageSize => exact ih (w := w.resize pageSize) h hover
    | change change =>
      obtain ⟨s', hon, hs'⟩ := Change.on_consistent change h
      unfold visits
      rw [hon]
      exact ih hs' hover

/-- What the pages of a walk show: first those with something on them, in order and true to the
store each was fetched from, then none. When the first of those without anything was fetched,
nothing that had been there at every page was left out. -/
structure Shown (scope : Scope) (seen : List (Store × List Resource)) (beyond : List Store) :
    Prop where
  sorted : (returned seen).Pairwise Before
  faithful : ∀ v ∈ seen, v.2 ≠ [] ∧
    ∀ r ∈ v.2, v.1.Holds r ∧ r.record.label scope.axis = scope.key
  complete : ∀ s, beyond.head? = some s → ∀ r, r.record.label scope.axis = scope.key →
    (∀ v ∈ seen, v.1.Holds r) → s.Holds r → r ∈ returned seen

/-- **The pages of a walk on its way**, however many turns are taken and whatever they are. -/
theorem Progress.visits_eq (hp : Progress scope seen w) (h : s.Consistent) (turns : List Turn) :
    ∃ (more : List (Store × List Resource)) (beyond : List Store),
      visits turns (.embedded s) w = more.map Visit.full ++ beyond.map Visit.ended ∧
      Shown scope (seen ++ more) beyond := by
  induction turns generalizing s w seen with
  | nil =>
    refine ⟨[], [], rfl, ?_, ?_, fun _ hnone => by cases hnone⟩
    · rw [List.append_nil]
      exact hp.sorted
    · rw [List.append_nil]
      exact hp.faithful
  | cons turn rest ih =>
    cases turn with
    | fetch =>
      obtain ⟨items?, behind, hnext, hfetched⟩ := next_on h w
      unfold visits
      rw [hnext]
      cases items? with
      | none =>
        -- the walk is over, and all later pages say so
        obtain ⟨hover, hcomplete⟩ := hp.ends h hfetched
        obtain ⟨beyond, hrest⟩ := visits_finished h hover rest
        refine ⟨[], s :: beyond, ?_, ?_⟩
        · rw [List.map_cons, ← hrest]
          rfl
        · rw [List.append_nil]
          refine ⟨hp.sorted, hp.faithful, ?_⟩
          intro s' hfirst
          obtain rfl : s = s' := Option.some.inj hfirst
          exact fun r hlabel hheld hr => hcomplete r hlabel hheld hr
      | some items =>
        obtain ⟨more, beyond, hrest, hshown⟩ := ih (hp.fetch h hfetched) h
        refine ⟨(s, items) :: more, beyond, ?_, ?_⟩
        · rw [List.map_cons, List.cons_append, ← hrest]
          rfl
        · rwa [List.append_assoc] at hshown
    | resize pageSize => exact ih (hp.resize pageSize) h
    | change change =>
      obtain ⟨s', hon, hs'⟩ := Change.on_consistent change h
      unfold visits
      rw [hon]
      exact ih hp hs'

/-! ## Walks that nobody disturbs -/

/-- Without changes, every page is fetched from the same storage. -/
theorem backing_of_mem_visits {turns : List Turn} (hquiet : ∀ change, .change change ∉ turns)
    {b : Backing} {v : Visit} (hv : v ∈ visits turns b w) : v.backing = b := by
  induction turns generalizing w with
  | nil => cases hv
  | cons turn rest ih =>
    have hrest : ∀ change, .change change ∉ rest :=
      fun change hmem => hquiet change (List.mem_cons_of_mem _ hmem)
    cases turn with
    | fetch =>
      unfold visits at hv
      have hsame := w.next_looks b
      rcases hnext : w.next.on b with ⟨e | ⟨items, behind⟩, b'⟩
      all_goals
        rw [hnext] at hv hsame
        cases hsame
        rcases List.mem_cons.1 hv with rfl | hlater
        · rfl
        · exact ih hrest hlater
    | resize pageSize => exact ih hrest hv
    | change change => exact absurd List.mem_cons_self (hquiet change)

/-- Pages that are not empty return as many resources at least. -/
theorem length_le_returned (h : ∀ v ∈ seen, v.2 ≠ []) :
    seen.length ≤ (returned seen).length := by
  induction seen with
  | nil => exact Nat.le_refl _
  | cons v rest ih =>
    have hv := List.length_pos_iff.2 (h v List.mem_cons_self)
    have hrest := ih fun u hu => h u (List.mem_cons_of_mem _ hu)
    rw [returned, List.flatMap_cons, List.length_append, List.length_cons]
    rw [returned] at hrest
    omega

/-- Resources in order are all different. -/
theorem nodup_of_sorted {rs : List Resource} (h : rs.Pairwise Before) : rs.Nodup :=
  h.imp fun hlt he => TableKey.ne_of_lt hlt (congrArg Resource.position he)

/-- A walk that ended over one store has returned the listing. -/
theorem Shown.eq_listing {beyond : List Store} (hshown : Shown scope seen beyond) (h : s.Consistent)
    (hseen : ∀ v ∈ seen, v.1 = s) (hover : beyond.head? = some s) :
    returned seen = s.listing scope := by
  refine TableKey.eq_of_sorted Resource.position hshown.sorted (h.listing_sorted scope)
    fun r => ?_
  rw [h.mem_listing]
  constructor
  · intro hr
    obtain ⟨v, hv, hrv⟩ := List.mem_flatMap.1 hr
    have hfaithful := (hshown.faithful v hv).2 r hrv
    rwa [hseen v hv] at hfaithful
  · rintro ⟨hheld, hlabel⟩
    exact hshown.complete s hover r hlabel (fun v hv => (hseen v hv).symm ▸ hheld) hheld

/-- A walk over one store returns no more pages than the listing has resources. -/
theorem Shown.length_le {beyond : List Store} (hshown : Shown scope seen beyond) (h : s.Consistent)
    (hseen : ∀ v ∈ seen, v.1 = s) : seen.length ≤ (s.listing scope).length := by
  refine Nat.le_trans (length_le_returned fun v hv => (hshown.faithful v hv).1) ?_
  have hsubset : returned seen ⊆ s.listing scope := by
    intro r hr
    obtain ⟨v, hv, hrv⟩ := List.mem_flatMap.1 hr
    have hfaithful := (hshown.faithful v hv).2 r hrv
    rw [hseen v hv] at hfaithful
    exact h.mem_listing.2 hfaithful
  exact (List.subperm_of_subset (nodup_of_sorted hshown.sorted) hsubset).length_le

/-- **A walk neither repeats nor skips while others write.** However turns of the walk and changes
of others follow each other, a walk that starts (or starts again) over a reachable store returns
pages until it says that it is over, and then says so for good. What it returns is strictly in
order; each resource was in the store, under the label of the walk and with these fields, when its
page was fetched; and a resource that was there each time until the walk said that it was over is
returned exactly once. If nobody writes, the walk ends before it has fetched more pages than there
are resources and one, and it returns the listing, as does collecting it. -/
theorem in_order (w : Walk) {s : Store} (h : s.Reachable) (turns : List Turn) :
    ∃ (seen : List (Store × List Resource)) (beyond : List Store),
      visits turns (.embedded s) w.restart = seen.map Visit.full ++ beyond.map Visit.ended ∧
      (returned seen).Pairwise Resource.Earlier ∧
      (∀ v ∈ seen, ∀ r ∈ v.2, v.1.Holds r ∧ r.record.label w.scope.axis = w.scope.key) ∧
      (∀ first, beyond.head? = some first → ∀ r, r.record.label w.scope.axis = w.scope.key →
        (∀ v ∈ seen, v.1.Holds r) → first.Holds r → (returned seen).count r = 1) ∧
      ((∀ change, .change change ∉ turns) →
        (beyond ≠ [] → returned seen = s.listing w.scope) ∧
        ((s.listing w.scope).length < (visits turns (.embedded s) w.restart).length →
          beyond ≠ [])) ∧
      w.restart.collect.on (.embedded s) = (.ok (s.listing w.scope), .embedded s) ∧
      (s.listing w.scope).Pairwise Resource.Earlier ∧
      ∀ r, r ∈ s.listing w.scope ↔ s.Holds r ∧ r.record.label w.scope.axis = w.scope.key := by
  have hs : s.Consistent := h.consistent
  obtain ⟨seen, beyond, hvisits, hshown⟩ := (Progress.start w).visits_eq hs turns
  rw [List.nil_append] at hshown
  refine ⟨seen, beyond, hvisits, hshown.sorted.imp Store.before_iff.1,
    fun v hv => (hshown.faithful v hv).2, ?once, ?undisturbed, ?collected,
    (hs.listing_sorted w.scope).imp Store.before_iff.1, fun r => hs.mem_listing⟩
  case once =>
    intro first hfirst r hlabel hheld hr
    exact List.count_eq_one_of_mem (nodup_of_sorted hshown.sorted)
      (hshown.complete first hfirst r hlabel hheld hr)
  case undisturbed =>
    intro hquiet
    have hsame : ∀ v ∈ seen.map Visit.full ++ beyond.map Visit.ended, v.backing = .embedded s :=
      fun v hv => backing_of_mem_visits hquiet (hvisits ▸ hv)
    have hseen : ∀ v ∈ seen, v.1 = s := fun v hv => Backing.embedded.inj
      (hsame (Visit.full v) (List.mem_append_left _ (List.mem_map_of_mem hv)))
    constructor
    · intro hover
      obtain ⟨first, rest, rfl⟩ := List.exists_cons_of_ne_nil hover
      obtain rfl : first = s := Backing.embedded.inj
        (hsame (Visit.ended first) (List.mem_append_right _ List.mem_cons_self))
      exact hshown.eq_listing hs hseen rfl
    · -- otherwise all pages would have something on them
      intro hlong hover
      rw [hvisits, hover, List.map_nil, List.append_nil, List.length_map] at hlong
      exact absurd (hshown.length_le hs hseen) (Nat.not_le_of_lt hlong)
  case collected =>
    have hahead : w.restart.ahead s = s.listing w.scope := ahead_along w.scope w.pageSize
    rw [collect_on hs, hahead]

/-- A walk with pages of one resource, whose place is removed, and in front of and behind which
resources come to be. -/
def disturbed : List Turn :=
  [.change (.create ⟨"b", "x", 5, "h", 1⟩), .change (.create ⟨"c", "x", 5, "h", 1⟩), .fetch,
    .change (.delete "b"), .change (.create ⟨"a", "x", 5, "k", 1⟩),
    .change (.create ⟨"d", "x", 6, "k", 1⟩), .resize 7, .fetch, .fetch]

theorem in_order_disturbed :
    Store.fresh.Reachable ∧ ∃ (seen : List (Store × List Resource)) (beyond : List Store),
      visits disturbed (.embedded .fresh) (along ⟨.bucket, "x"⟩ 1) =
        seen.map Visit.full ++ beyond.map Visit.ended ∧
      (returned seen).Pairwise Resource.Earlier := by
  have hfresh : Store.fresh.Reachable := ⟨.standard, 0, [], by simp, rfl⟩
  obtain ⟨seen, beyond, hvisits, hsorted, -⟩ := in_order (along ⟨.bucket, "x"⟩ 1) hfresh disturbed
  exact ⟨hfresh, seen, beyond, hvisits, hsorted⟩

end Walk

end ObjectRegistry
