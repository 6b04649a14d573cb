import Mathlib.Data.Finset.Card
import ObjectRegistry.Command.Perform
import ObjectRegistry.Proofs.DamagedPages

/-!
# Walks that end and walks in a circle

A walk goes on behind the last resource of its page, wherever the entry was that led there. If no
entry of the scope leads back (`Store.Onward`), what is ahead of the walk after a page was ahead
before and comes behind all that the page showed (`Walk.Stage.ahead`): the walk ends, and has
returned one resource at most for each entry.

An entry that leads back may send the walk round in a circle (`Walk.Short.endless`). A walk is known
by its position, and the positions it goes on from are those of resources that entries of the scope
lead to. So after one page for each entry and two more it has been at one of them twice, and will
come by there forever (`Walk.endless_of_length`). Reading to the end is given up at that point,
which is thus never too early (`Walk.ends_or_circles`).
-/

namespace ObjectRegistry

/-- The last of some things goes with the last of those they are related to. -/
theorem exists_getLast_of_forall₂ {α β : Type} {R : α → β → Prop} {xs : List α} {ys : List β}
    {y : β} (h : List.Forall₂ R xs ys) (hy : ys.getLast? = some y) :
    ∃ front x, xs = front ++ [x] ∧ R x y := by
  obtain ⟨before, rfl⟩ := List.getLast?_eq_some_iff.1 hy
  have hreverse := List.forall₂_reverse_iff.2 h
  rw [List.reverse_append, List.reverse_singleton, List.singleton_append] at hreverse
  obtain ⟨x, front, hx, -, hxs⟩ := List.forall₂_cons_right_iff.1 hreverse
  refine ⟨front.reverse, x, ?_, hx⟩
  rw [← List.reverse_reverse xs, hxs, List.reverse_cons]

/-- The place to go on from is that of the last item of the page. -/
theorem Page.last_of_next {rows : List Resource} {limit : UInt32} {c : Cursor}
    (h : (Page.ofRows rows limit).next = some c) :
    ∃ last, (Page.ofRows rows limit).items.getLast? = some last ∧ last.position = c := by
  unfold Page.ofRows at h
  simp only at h
  split at h
  next => exact Option.map_eq_some_iff.1 h
  next => cases h

namespace Store

variable {s : Store} {scope : Scope}

/-- An entry of a scope. -/
def Lists (s : Store) (scope : Scope) (e : IndexEntry) : Prop :=
  (s.listed scope.axis).contains e = true ∧ e.label = scope.key

/-- No entry of a scope leads back: what it leads to was not created before the time it is listed
at. -/
def Onward (s : Store) (scope : Scope) : Prop :=
  ∀ e r, s.Lists scope e → Leads s.records e r → e.position.createTime ≤ r.createTime

theorem Leads.id {rows : ResourceTable} {e : IndexEntry} {r : Resource} (h : Leads rows e r) :
    r.id = e.position.id := by
  obtain ⟨_, _, _, _, rfl⟩ := h
  rfl

theorem Leads.unique {rows : ResourceTable} {e : IndexEntry} {r r' : Resource}
    (h : Leads rows e r) (h' : Leads rows e r') : r = r' := by
  rw [← follow_eq_ok_iff] at h h'
  rw [h] at h'
  exact Except.ok.inj h'

theorem index_of_lists {e : IndexEntry} (h : s.Lists scope e) :
    ∃ index, s.index scope.axis = some index := by
  cases hindex : s.index scope.axis with
  | some index => exact ⟨index, rfl⟩
  | none =>
    have hlisted := h.1
    rw [listed, hindex] at hlisted
    cases hlisted

theorem rows_of_leads {e : IndexEntry} {r : Resource} (h : Leads s.records e r) :
    ∃ rows, s.resources = some rows := by
  cases hrows : s.resources with
  | some rows => exact ⟨rows, rfl⟩
  | none =>
    obtain ⟨bytes, record, hrow, -⟩ := h
    rw [records, hrows] at hrow
    cases hrow

theorem scopeSize_eq (s : Store) (scope : Scope) :
    s.scopeSize scope = (scan (s.listed scope.axis) scope.key none).length := by
  unfold scopeSize listed
  cases s.index scope.axis <;> rfl

end Store

open Store (scan Leads)

namespace Walk

variable {s : Store} {w behind : Walk} {items : List Resource} {n : Nat}

/-! ## The pages of a walk -/

/-- The page that a call returns, and the walk behind it, over a store that nothing happens to. None
if the call returns nothing or fails. -/
def call? (s : Store) (w : Walk) : Option (List Resource × Walk) :=
  match (w.next.on (.embedded s)).1 with
  | .ok (some items, behind) => some (items, behind)
  | _ => none

/-- The pages that calls return one after the other, up to a number of calls. The first call that
returns nothing or fails is the last. -/
def pages (s : Store) : Nat → Walk → List (List Resource)
  | 0, _ => []
  | n + 1, w =>
    match w.call? s with
    | some (items, behind) => items :: pages s n behind
    | none => []

/-- Every call returns a page. -/
def Endless (s : Store) (w : Walk) : Prop := ∀ n, (w.pages s n).length = n

/-- The entries that a walk has ahead. -/
def entriesAhead (s : Store) (w : Walk) : List IndexEntry :=
  scan (s.listed w.scope.axis) w.scope.key w.after

/-- A call that returns a page: it is made of what the next entries of the scope lead to, and the
walk is over or goes on from the position of the last resource on the page. -/
structure Stage (s : Store) (w : Walk) (items : List Resource) (behind : Walk) : Prop where
  running : w.finished = false
  led : List.Forall₂ (Leads s.records) ((w.entriesAhead s).take w.size) items
  nonempty : items ≠ []
  scope : behind.scope = w.scope
  pageSize : behind.pageSize = w.pageSize
  goesOn : behind.finished = true ∨ behind.finished = false ∧
    ∃ last, items.getLast? = some last ∧ behind.after = some last.position

theorem stage (h : w.call? s = some (items, behind)) : Stage s w items behind := by
  unfold call? at h
  cases hover : w.finished with
  | true =>
    rw [next_on_finished hover] at h
    cases h
  | false =>
    cases hpage : s.page w.scope w.after (PageRequest.effectiveLimit
      { after := w.after, limit := w.pageSize }) with
    | error e =>
      rw [next_on_running hover, hpage] at h
      cases h
    | ok page =>
      rw [next_on_page hover hpage] at h
      have hnonempty : ¬ page.items.isEmpty = true := by
        intro hnone
        rw [if_pos hnone] at h
        cases h
      rw [if_neg hnonempty] at h
      cases h
      obtain ⟨index, rows, hindex, hrows⟩ := Store.tables_of_page hpage
      obtain ⟨rs, hrs, rfl⟩ := (Store.page_eq_ok_iff hindex hrows).1 hpage
      refine ⟨hover, ?led, fun hnil => hnonempty (List.isEmpty_iff.2 hnil), rfl, rfl, ?goesOn⟩
      case led =>
        have hled := List.forall₂_take w.size hrs
        rw [size, Store.take_touched] at hled
        rw [entriesAhead, Store.listed_eq hindex, Store.records_eq hrows]
        exact hled
      case goesOn =>
        cases hnext : (Page.ofRows rs (PageRequest.effectiveLimit
          { after := w.after, limit := w.pageSize })).next with
        | none => exact Or.inl rfl
        | some c =>
          obtain ⟨last, hlast, rfl⟩ := Page.last_of_next hnext
          exact Or.inr ⟨rfl, last, hlast, rfl⟩

/-! ## Walks that are not led back -/

theorem mem_entriesAhead {e : IndexEntry} :
    e ∈ w.entriesAhead s ↔
      s.Lists w.scope e ∧ ∀ c, w.after = some c → c.Precedes e.position := by
  rw [entriesAhead, Store.mem_scan, Store.isBehind_iff, Store.Lists, and_assoc]

theorem entriesAhead_sorted (s : Store) (w : Walk) :
    (w.entriesAhead s).Pairwise fun e f => e.position.Precedes f.position :=
  Store.scan_precedes _ _ _

/-- The last resource of a page is what the last entry shown leads to. -/
theorem Stage.last_entry (h : Stage s w items behind) {last : Resource}
    (hlast : items.getLast? = some last) :
    ∃ front e, (w.entriesAhead s).take w.size = front ++ [e] ∧ Leads s.records e last ∧
      e ∈ w.entriesAhead s := by
  obtain ⟨front, e, hshown, hlead⟩ := exists_getLast_of_forall₂ h.led hlast
  have he : e ∈ (w.entriesAhead s).take w.size := by
    rw [hshown]
    exact List.mem_append_right front (List.mem_singleton.2 rfl)
  exact ⟨front, e, hshown, hlead, List.mem_of_mem_take he⟩

/-- **A walk that is not led back leaves behind what it was shown**: what is ahead of it after a
page was ahead before, and comes behind all that the page showed. -/
theorem Stage.ahead (h : Stage s w items behind) (hon : s.Onward w.scope)
    (hgoes : behind.finished = false) {x : IndexEntry} (hx : x ∈ behind.entriesAhead s) :
    x ∈ w.entriesAhead s ∧
      ∀ e ∈ (w.entriesAhead s).take w.size, e.position.Precedes x.position := by
  obtain ⟨last, hlast, hafter⟩ : ∃ last, items.getLast? = some last ∧
      behind.after = some last.position := by
    rcases h.goesOn with hover | ⟨-, hlast⟩
    · rw [hgoes] at hover
      cases hover
    · exact hlast
  obtain ⟨front, e, hshown, hlead, he⟩ := h.last_entry hlast
  obtain ⟨helisted, hebehind⟩ := mem_entriesAhead.1 he
  obtain ⟨hxlisted, hxbehind⟩ := mem_entriesAhead.1 hx
  rw [h.scope] at hxlisted
  -- the last entry shown lies at the last resource or before it, so what follows comes behind it
  have hpassed : e.position.Precedes x.position :=
    (hxbehind _ hafter).of_le hlead.id.symm (hon e last helisted hlead)
  refine ⟨mem_entriesAhead.2 ⟨hxlisted, fun c hc => (hebehind c hc).trans hpassed⟩, ?_⟩
  intro f hf
  have hsorted := (w.entriesAhead_sorted s).sublist (List.take_sublist w.size _)
  rw [hshown] at hsorted hf
  rcases List.mem_append.1 hf with hfront | hend
  · exact ((List.pairwise_append.1 hsorted).2.2 f hfront e (List.mem_singleton.2 rfl)).trans
      hpassed
  · rw [List.mem_singleton.1 hend]
    exact hpassed

theorem call?_finished (hover : w.finished = true) : w.call? s = none := by
  rw [call?, next_on_finished hover]

theorem pages_none (hnone : w.call? s = none) (n : Nat) : w.pages s n = [] := by
  cases n with
  | zero => rfl
  | succ n => rw [pages, hnone]

/-- The resources returned by a walk that is not led back are what some of the entries ahead of it
lead to, each entry once, and there are no more pages than entries. -/
theorem pages_of_onward (n : Nat) {w : Walk} (hon : s.Onward w.scope) :
    ∃ entries : List IndexEntry,
      entries.Pairwise (fun e f => e.position.Precedes f.position) ∧
      (∀ e ∈ entries, e ∈ w.entriesAhead s) ∧
      List.Forall₂ (Leads s.records) entries (w.pages s n).flatten ∧
      (w.pages s n).length ≤ entries.length := by
  induction n generalizing w with
  | zero => exact ⟨[], List.Pairwise.nil, nofun, List.Forall₂.nil, Nat.le_refl 0⟩
  | succ n ih =>
    cases hnext : w.call? s with
    | none =>
      rw [pages_none hnext]
      exact ⟨[], List.Pairwise.nil, nofun, List.Forall₂.nil, Nat.le_refl 0⟩
    | some stop =>
      obtain ⟨items, behind⟩ := stop
      have h := stage hnext
      have hpages : w.pages s (n + 1) = items :: behind.pages s n := by rw [pages, hnext]
      have hsorted := (w.entriesAhead_sorted s).sublist (List.take_sublist w.size _)
      have hshown : 0 < ((w.entriesAhead s).take w.size).length := by
        rw [h.led.length_eq]
        exact List.length_pos_iff.2 h.nonempty
      cases hgoes : behind.finished with
      | true =>
        refine ⟨(w.entriesAhead s).take w.size, hsorted, fun e he => List.mem_of_mem_take he,
          ?_, ?_⟩
        · rw [hpages, pages_none (call?_finished hgoes), List.flatten_cons, List.flatten_nil,
            List.append_nil]
          exact h.led
        · rw [hpages, pages_none (call?_finished hgoes)]
          exact hshown
      | false =>
        obtain ⟨entries, hentries, hahead, hled, hlength⟩ := ih (w := behind) (h.scope ▸ hon)
        refine ⟨(w.entriesAhead s).take w.size ++ entries, ?_, ?_, ?_, ?_⟩
        · exact List.pairwise_append.2 ⟨hsorted, hentries,
            fun e he x hx => (h.ahead hon hgoes (hahead x hx)).2 e he⟩
        · intro e he
          rcases List.mem_append.1 he with hnow | hlater
          · exact List.mem_of_mem_take hnow
          · exact (h.ahead hon hgoes (hahead e hlater)).1
        · rw [hpages, List.flatten_cons]
          exact List.rel_append h.led hled
        · rw [hpages, List.length_cons, List.length_append]
          omega

/-- A walk that is not led back returns no more pages than entries. -/
theorem length_pages_le (hon : s.Onward w.scope) (n : Nat) :
    (w.pages s n).length ≤ (w.entriesAhead s).length := by
  obtain ⟨entries, hsorted, hahead, -, hlength⟩ := pages_of_onward n hon
  have hnodup : entries.Nodup := hsorted.imp fun {e f} hlt hsame => by
    rw [hsame] at hlt
    exact Cursor.not_precedes_self _ hlt
  exact Nat.le_trans hlength (List.subperm_of_subset hnodup hahead).length_le

/-! ## Walks that come by the same place twice -/

/-- The walk behind a call. -/
def moved (s : Store) (w : Walk) : Walk :=
  match w.call? s with
  | some (_, behind) => behind
  | none => w

/-- A sequence of steps that comes back to an earlier state stays among the states before that. -/
theorem exists_iterate_eq {α : Type} {f : α → α} {x : α} {i j : Nat} (hij : i < j)
    (hsame : f^[i] x = f^[j] x) (n : Nat) : ∃ k < j, f^[n] x = f^[k] x := by
  induction n with
  | zero => exact ⟨0, Nat.lt_of_le_of_lt (Nat.zero_le i) hij, rfl⟩
  | succ n ih =>
    obtain ⟨k, hk, hn⟩ := ih
    have hstep : f^[n + 1] x = f^[k + 1] x := by
      rw [Function.iterate_succ_apply', hn, Function.iterate_succ_apply']
    rcases Nat.lt_or_eq_of_le (Nat.succ_le_of_lt hk) with hlt | heq
    · exact ⟨k + 1, hlt, hstep⟩
    · exact ⟨i, hij, by rw [hstep, hsame, ← heq]⟩

/-- As many pages as calls are returned exactly if each of the calls returns one. -/
theorem length_pages_eq_iff {n : Nat} {w : Walk} :
    (w.pages s n).length = n ↔ ∀ k < n, (((moved s)^[k] w).call? s).isSome = true := by
  induction n generalizing w with
  | zero => exact ⟨fun _ k hk => absurd hk (Nat.not_lt_zero k), fun _ => rfl⟩
  | succ n ih =>
    cases hnext : w.call? s with
    | none =>
      rw [pages_none hnext]
      refine ⟨fun h => absurd h (Nat.succ_ne_zero n).symm, fun h => ?_⟩
      have hfirst := h 0 (Nat.zero_lt_succ n)
      rw [Function.iterate_zero, id, hnext] at hfirst
      cases hfirst
    | some stop =>
      obtain ⟨items, behind⟩ := stop
      have hmoved : moved s w = behind := by rw [moved, hnext]
      rw [pages, hnext]
      show (items :: behind.pages s n).length = n + 1 ↔ _
      rw [List.length_cons, Nat.add_right_cancel_iff, ih]
      constructor
      · intro h k hk
        cases k with
        | zero => rw [Function.iterate_zero, id, hnext]; rfl
        | succ k =>
          rw [Function.iterate_succ_apply, hmoved]
          exact h k (Nat.lt_of_succ_lt_succ hk)
      · intro h k hk
        have hlater := h (k + 1) (Nat.succ_lt_succ hk)
        rwa [Function.iterate_succ_apply, hmoved] at hlater

/-- The page of the next call, empty if it returns none. -/
def shown (s : Store) (w : Walk) : List Resource :=
  match w.call? s with
  | some (items, _) => items
  | none => []

/-- Where each call returns a page, the pages are those of the walks behind the calls before. -/
theorem pages_eq_map {n : Nat} {w : Walk} (h : (w.pages s n).length = n) :
    w.pages s n = (List.range n).map fun k => ((moved s)^[k] w).shown s := by
  induction n generalizing w with
  | zero => rfl
  | succ n ih =>
    cases hnext : w.call? s with
    | none =>
      rw [pages_none hnext] at h
      cases h
    | some stop =>
      obtain ⟨items, behind⟩ := stop
      have hpages : w.pages s (n + 1) = items :: behind.pages s n := by rw [pages, hnext]
      have hmoved : moved s w = behind := by rw [moved, hnext]
      have hshown : w.shown s = items := by rw [shown, hnext]
      rw [hpages, List.length_cons, Nat.add_right_cancel_iff] at h
      rw [hpages, ih h, List.range_succ_eq_map, List.map_cons, List.map_map, Function.iterate_zero,
        id, hshown]
      simp only [Function.comp_def, Nat.succ_eq_add_one, Function.iterate_succ_apply, hmoved]

/-- The walks that go on from where the entries of a scope lead. -/
def places (s : Store) (scope : Scope) (pageSize : UInt32) : List Walk :=
  (scan (s.listed scope.axis) scope.key none).map fun e =>
    { scope
      pageSize
      after :=
        match Store.follow s.records e with
        | .ok r => some r.position
        | .error _ => none
      finished := false }

/-- Behind a page a walk is over or at one of these places. -/
theorem Stage.over_or_mem_places (h : Stage s w items behind) :
    behind.finished = true ∨ behind ∈ places s w.scope w.pageSize := by
  rcases h.goesOn with hover | ⟨hgoes, last, hlast, hafter⟩
  · exact Or.inl hover
  · obtain ⟨front, e, -, hlead, he⟩ := h.last_entry hlast
    obtain ⟨hlisted, -⟩ := mem_entriesAhead.1 he
    refine Or.inr (List.mem_map.2 ⟨e, Store.mem_scan.2 ⟨hlisted.1, hlisted.2, rfl⟩, ?_⟩)
    rw [Store.follow_eq_ok_iff.2 hlead, ← h.scope, ← h.pageSize, ← hgoes]
    simp only [← hafter]

/-- A walk stays on its scope, with pages of its size. -/
theorem iterate_moved (w : Walk) (k : Nat) :
    ((moved s)^[k] w).scope = w.scope ∧ ((moved s)^[k] w).pageSize = w.pageSize := by
  induction k with
  | zero => exact ⟨rfl, rfl⟩
  | succ k ih =>
    rw [Function.iterate_succ_apply']
    cases hnext : ((moved s)^[k] w).call? s with
    | none =>
      rw [moved, hnext]
      exact ih
    | some stop =>
      obtain ⟨items, behind⟩ := stop
      rw [moved, hnext]
      exact ⟨(stage hnext).scope.trans ih.1, (stage hnext).pageSize.trans ih.2⟩

/-- **Some place is come by twice**: there are fewer places to go on from than calls. -/
theorem exists_repeat
    (h : ∀ k < s.scopeSize w.scope + 2, (((moved s)^[k] w).call? s).isSome = true) :
    ∃ i j, i < j ∧ j < s.scopeSize w.scope + 2 ∧ (moved s)^[i] w = (moved s)^[j] w := by
  have hfewer : (places s w.scope w.pageSize).toFinset.card <
      (Finset.range (s.scopeSize w.scope + 1)).card := by
    rw [Finset.card_range, Store.scopeSize_eq]
    refine Nat.lt_succ_of_le (Nat.le_trans (List.toFinset_card_le _) ?_)
    rw [places, List.length_map]
  have hmaps : ∀ k ∈ Finset.range (s.scopeSize w.scope + 1),
      (moved s)^[k + 1] w ∈ (places s w.scope w.pageSize).toFinset := by
    intro k hk
    have hk := Finset.mem_range.1 hk
    obtain ⟨⟨items, behind⟩, hnext⟩ := Option.isSome_iff_exists.1 (h k (Nat.lt_succ_of_lt hk))
    have hbehind : (moved s)^[k + 1] w = behind := by
      rw [Function.iterate_succ_apply', moved, hnext]
    obtain ⟨hscope, hsize⟩ := iterate_moved (s := s) w k
    rcases (stage hnext).over_or_mem_places with hover | hplace
    · -- the walk is not over, as its next call returns a page
      have hsome := h (k + 1) (Nat.succ_lt_succ hk)
      rw [hbehind, call?_finished hover] at hsome
      cases hsome
    · rw [hscope, hsize] at hplace
      rw [hbehind]
      exact List.mem_toFinset.2 hplace
  obtain ⟨i, hi, j, hj, hne, hsame⟩ :=
    Finset.exists_ne_map_eq_of_card_lt_of_maps_to hfewer hmaps
  have hi := Finset.mem_range.1 hi
  have hj := Finset.mem_range.1 hj
  rcases Nat.lt_or_gt_of_ne hne with hlt | hgt
  · exact ⟨i + 1, j + 1, Nat.succ_lt_succ hlt, Nat.succ_lt_succ hj, hsame⟩
  · exact ⟨j + 1, i + 1, Nat.succ_lt_succ hgt, Nat.succ_lt_succ hi, hsame.symm⟩

/-- **A walk that is not over after one page for each entry and two more never is**, and shows no
page that it has not shown by then. -/
theorem endless_of_length
    (h : (w.pages s (s.scopeSize w.scope + 2)).length = s.scopeSize w.scope + 2) :
    Endless s w ∧ ∀ n, ∀ items ∈ w.pages s n, items ∈ w.pages s (s.scopeSize w.scope + 2) := by
  have hreturns := length_pages_eq_iff.1 h
  obtain ⟨i, j, hij, hj, hsame⟩ := exists_repeat hreturns
  have hendless : Endless s w := by
    intro n
    refine length_pages_eq_iff.2 fun k _ => ?_
    obtain ⟨m, hm, hk⟩ := exists_iterate_eq hij hsame k
    rw [hk]
    exact hreturns m (Nat.lt_trans hm hj)
  refine ⟨hendless, fun n items hitems => ?_⟩
  rw [pages_eq_map (hendless n), List.mem_map] at hitems
  obtain ⟨k, -, rfl⟩ := hitems
  obtain ⟨m, hm, hk⟩ := exists_iterate_eq hij hsame k
  rw [pages_eq_map h, List.mem_map]
  exact ⟨m, List.mem_range.2 (Nat.lt_trans hm hj), by rw [hk]⟩

/-! ## Reading to the end -/

/-- No page fails because of a circle: it takes several calls to be led round. -/
theorem page_ne_endless (s : Store) (scope : Scope) (after : Option Cursor) (limit : UInt32) :
    s.page scope after limit ≠ .error (.storage .endlessWalk) := by
  intro hpage
  cases hindex : s.index scope.axis with
  | none =>
    unfold Store.page at hpage
    rw [hindex] at hpage
    cases hpage
  | some index =>
    cases hrows : s.resources with
    | none =>
      unfold Store.page at hpage
      rw [hindex, hrows] at hpage
      cases hpage
    | some rows =>
      obtain ⟨_, _, _, _, _, hastray⟩ := (Store.page_eq_error_iff hindex hrows).1 hpage
      cases hastray

/-- A call returns a page, or it returns nothing or fails, but never because of a circle. -/
theorem next_cases (s : Store) (w : Walk) :
    (∃ items behind, w.call? s = some (items, behind) ∧
      w.next.on (.embedded s) = (.ok (some items, behind), .embedded s)) ∨
    w.call? s = none ∧
      ((∃ behind, w.next.on (.embedded s) = (.ok (none, behind), .embedded s)) ∨
        ∃ e, e ≠ .storage .endlessWalk ∧
          w.next.on (.embedded s) = (.error e, .embedded s)) := by
  cases hover : w.finished with
  | true =>
    have hnext := next_on_finished hover (.embedded s)
    exact Or.inr ⟨call?_finished hover, Or.inl ⟨w, hnext⟩⟩
  | false =>
    cases hpage : s.page w.scope w.after (PageRequest.effectiveLimit
      { after := w.after, limit := w.pageSize }) with
    | error e =>
      have hnext := next_on_running hover s
      rw [hpage] at hnext
      refine Or.inr ⟨by rw [call?, hnext]; rfl, Or.inr ⟨e, fun he => ?_, hnext⟩⟩
      rw [he] at hpage
      exact page_ne_endless _ _ _ _ hpage
    | ok page =>
      have hnext := next_on_page hover hpage
      by_cases hnone : page.items.isEmpty = true
      · rw [if_pos hnone] at hnext
        exact Or.inr ⟨by rw [call?, hnext], Or.inl ⟨_, hnext⟩⟩
      · rw [if_neg hnone] at hnext
        exact Or.inl ⟨_, _, by rw [call?, hnext], hnext⟩

/-- Collecting is given up if each of the calls that it may make returns a page. -/
theorem collectFrom_endless_iff (fuel : Nat) (collected : List Resource) (w : Walk) :
    ((collectFrom fuel collected w).on (.embedded s)).1 = .error (.storage .endlessWalk) ↔
      (w.pages s fuel).length = fuel := by
  induction fuel generalizing collected w with
  | zero => exact iff_of_true rfl rfl
  | succ fuel ih =>
    unfold collectFrom
    rcases next_cases s w with ⟨items, behind, hsome, hnext⟩ |
      ⟨hnone, ⟨behind, hnext⟩ | ⟨e, he, hnext⟩⟩
    · rw [Access.on_bind_ok hnext, pages, hsome]
      exact (ih (collected ++ items) behind).trans Nat.add_right_cancel_iff.symm
    · rw [Access.on_bind_ok hnext, pages_none hnone]
      refine iff_of_false (fun h => ?_) (Nat.succ_ne_zero fuel).symm
      cases h
    · rw [Access.on_bind_error hnext, pages_none hnone]
      exact iff_of_false (fun h => he (Except.error.inj h)) (Nat.succ_ne_zero fuel).symm

/-- A search is given up if each of the calls that it may make returns a page, and nothing that is
searched for is on these. -/
theorem search_endless_iff {α : Type} (pick : List Resource → Option α) (fuel : Nat) (w : Walk) :
    ((search pick fuel w).on (.embedded s)).1 = .error (.storage .endlessWalk) ↔
      (w.pages s fuel).length = fuel ∧ ∀ items ∈ w.pages s fuel, pick items = none := by
  induction fuel generalizing w with
  | zero => exact iff_of_true rfl ⟨rfl, List.forall_mem_nil _⟩
  | succ fuel ih =>
    unfold search
    rcases next_cases s w with ⟨items, behind, hsome, hnext⟩ |
      ⟨hnone, ⟨behind, hnext⟩ | ⟨e, he, hnext⟩⟩
    · have hpages : w.pages s (fuel + 1) = items :: behind.pages s fuel := by rw [pages, hsome]
      rw [Access.on_bind_ok hnext, hpages, List.length_cons, List.forall_mem_cons,
        Nat.add_right_cancel_iff]
      cases hfound : pick items with
      | some found =>
        simp only [hfound, reduceCtorEq, false_and, and_false, iff_false]
        intro h
        cases h
      | none =>
        simp only [hfound, true_and]
        exact ih behind
    · rw [Access.on_bind_ok hnext, pages_none hnone]
      refine iff_of_false (fun h => ?_) fun h => (Nat.succ_ne_zero fuel).symm h.1
      cases h
    · rw [Access.on_bind_error hnext, pages_none hnone]
      exact iff_of_false (fun h => he (Except.error.inj h))
        fun h => (Nat.succ_ne_zero fuel).symm h.1

/-- The pages of as many calls as a walk is allowed tell whether it ever ends. -/
theorem endless_iff (s : Store) (w : Walk) :
    Endless s w ↔
      (w.pages s (s.scopeSize w.scope + 2)).length = s.scopeSize w.scope + 2 :=
  ⟨fun h => h _, fun h => (endless_of_length h).1⟩

theorem bound_on (s : Store) (w : Walk) :
    w.bound.on (.embedded s) = (.ok (s.scopeSize w.scope + 2), .embedded s) := rfl

theorem collect_endless_iff (s : Store) (w : Walk) :
    (w.collect.on (.embedded s)).1 = .error (.storage .endlessWalk) ↔ Endless s w := by
  unfold collect
  rw [Access.on_bind_ok (bound_on s w), collectFrom_endless_iff, endless_iff]

theorem findDuplicate_endless_iff (s : Store) (bucket hash : String) :
    ((Registry.findDuplicate bucket hash).on (.embedded s)).1 = .error (.storage .endlessWalk) ↔
      Endless s (along ⟨.hash, hash⟩ 0) ∧
        ∀ n, ∀ items ∈ (along ⟨.hash, hash⟩ 0).pages s n, ∀ r ∈ items, r.bucket ≠ bucket := by
  have hpick : ∀ items : List Resource, (items.find? fun r => r.bucket == bucket) = none ↔
      ∀ r ∈ items, r.bucket ≠ bucket := by
    intro items
    simp only [List.find?_eq_none, beq_iff_eq, ne_eq]
  unfold Registry.findDuplicate
  rw [Access.on_bind_ok (bound_on s _), search_endless_iff]
  simp only [hpick]
  constructor
  · intro h
    obtain ⟨hendless, hshown⟩ := endless_of_length h.1
    exact ⟨hendless, fun n items hitems => h.2 items (hshown n items hitems)⟩
  · intro h
    exact ⟨h.1 _, h.2 _⟩

theorem findHash_endless_iff (s : Store) (limits : Limits) (now : Int64) (content : ByteArray)
    (hash : String) :
    (((Command.findHash hash).perform limits now content).on (.embedded s)).1 =
        .error (.storage .endlessWalk) ↔
      Endless s (along ⟨.hash, hash⟩ 0) := by
  rw [← collect_endless_iff]
  show (((along ⟨.hash, hash⟩ 0).collect >>= fun rs => pure (.matching rs) : Access Reply).on _).1 =
    _ ↔ _
  rw [Access.on_bind]
  rcases (along ⟨.hash, hash⟩ 0).collect.on (.embedded s) with ⟨e | rs, b⟩
  · exact ⟨fun h => by rw [Except.error.inj h], fun h => by rw [Except.error.inj h]⟩
  · exact iff_of_false nofun nofun

/-! ## Walks that are led back -/

/-- A walk in pages of one that has not got past an entry. -/
structure Short (e : IndexEntry) (w : Walk) : Prop where
  pageSize : w.pageSize = 1
  running : w.finished = false
  before : ∀ c, w.after = some c → c.Precedes e.position

/-- A scope in which every entry leads to a resource, none to one that was created later than
listed, and one entry that is not the last leads back. -/
structure Backdated (s : Store) (scope : Scope) (e f : IndexEntry) : Prop where
  sound : ∀ g, s.Lists scope g →
    ∃ r, Leads s.records g r ∧ r.createTime ≤ g.position.createTime
  back : ∃ r, Leads s.records e r ∧ r.createTime < e.position.createTime
  listed : s.Lists scope e
  more : s.Lists scope f
  before : e.position.Precedes f.position

variable {e f : IndexEntry}

/-- The first two entries ahead of a walk that has not got past an entry that is not the last. -/
theorem Short.entriesAhead_eq (h : Short e w) (hb : Backdated s w.scope e f) :
    ∃ g g' more, w.entriesAhead s = g :: g' :: more ∧ (g = e ∨ g.position.Precedes e.position) := by
  have he : e ∈ w.entriesAhead s := mem_entriesAhead.2 ⟨hb.listed, h.before⟩
  have hf : f ∈ w.entriesAhead s :=
    mem_entriesAhead.2 ⟨hb.more, fun c hc => (h.before c hc).trans hb.before⟩
  have hsorted := w.entriesAhead_sorted s
  match hentries : w.entriesAhead s with
  | [] =>
    rw [hentries] at he
    cases he
  | [g] =>
    rw [hentries, List.mem_singleton] at he hf
    have hlt := hb.before
    rw [he, hf] at hlt
    exact absurd hlt (Cursor.not_precedes_self _)
  | g :: g' :: more =>
    rw [hentries] at he hsorted
    refine ⟨g, g', more, rfl, ?_⟩
    rcases List.mem_cons.1 he with hfirst | hlater
    · exact Or.inl hfirst.symm
    · exact Or.inr ((List.pairwise_cons.1 hsorted).1 e hlater)

/-- **A walk that is led back does not get past the entry**: its next page shows one resource, at
or before the first entry ahead, and strictly before the entry that leads back. -/
theorem Short.next (h : Short e w) (hb : Backdated s w.scope e f) :
    ∃ items behind, w.call? s = some (items, behind) ∧ behind.scope = w.scope ∧
      Short e behind := by
  obtain ⟨g, g', more, hentries, hg⟩ := h.entriesAhead_eq hb
  have hlisted : ∀ x ∈ [g, g'], s.Lists w.scope x := by
    intro x hx
    have hahead : x ∈ w.entriesAhead s := by
      rw [hentries]
      exact List.mem_append_left more hx
    exact (mem_entriesAhead.1 hahead).1
  obtain ⟨r, hr, htime⟩ := hb.sound g (hlisted g List.mem_cons_self)
  obtain ⟨r', hr', -⟩ := hb.sound g' (hlisted g' (List.mem_cons_of_mem g List.mem_cons_self))
  obtain ⟨index, hindex⟩ := Store.index_of_lists hb.listed
  obtain ⟨rows, hrows⟩ := Store.rows_of_leads hr
  have hpage : s.page w.scope w.after 1 = .ok (Page.ofRows [r, r'] 1) := by
    refine (Store.page_eq_ok_iff hindex hrows).2 ⟨[r, r'], ?_, rfl⟩
    rw [entriesAhead, Store.listed_eq hindex] at hentries
    rw [Store.touched, hentries, ← Store.records_eq hrows]
    exact .cons hr (.cons hr' .nil)
  have hbefore : r.position.Precedes e.position := by
    rcases hg with rfl | hg
    · obtain ⟨back, hback, hless⟩ := hb.back
      rw [hback.unique hr] at hless
      exact Or.inl hless
    · exact hg.of_le hr.id htime
  refine ⟨[r], { w with after := some r.position, finished := false }, ?_, rfl, h.pageSize, rfl,
    fun c hc => Option.some.inj hc ▸ hbefore⟩
  have hasked : s.page w.scope w.after (PageRequest.effectiveLimit
      { after := w.after, limit := w.pageSize }) = .ok (Page.ofRows [r, r'] 1) := by
    rw [h.pageSize]
    exact hpage
  rw [call?, next_on_page h.running hasked]
  rfl

/-- A walk that is led back never ends. -/
theorem Short.endless (h : Short e w) (hb : Backdated s w.scope e f) : Endless s w := by
  intro n
  induction n generalizing w with
  | zero => rfl
  | succ n ih =>
    obtain ⟨items, behind, hnext, hscope, hshort⟩ := h.next hb
    rw [pages, hnext]
    exact congrArg (· + 1) (ih hshort (hscope ▸ hb))

/-! ## Walks end or run in a circle -/

/-- **A walk ends or runs in a circle, and it ends if it is not led back.** Whatever the tables
hold, a walk over a store that nothing happens to that still returns a page after one for each entry
of its scope and two more returns one forever; and reading it to the end, searching it for a
duplicate and the command that lists a hash are given up if and only if there is no end to reach.

If no entry of the scope leads to a resource that was created earlier than listed, a walk with pages
of any size returns no more pages than the scope has entries, so it comes to its end or fails; and
what it returns is what distinct entries lead to. This cannot be dropped: where every entry leads to
a resource, none to one created later than listed and one that is not the last to one created
earlier, a walk with pages of one item never ends. -/
theorem ends_or_circles (s : Store) (scope : Scope) (pageSize : UInt32) :
    let w := along scope pageSize
    (Endless s w ↔ (w.pages s (s.scopeSize scope + 2)).length = s.scopeSize scope + 2) ∧
    ((w.collect.on (.embedded s)).1 = .error (.storage .endlessWalk) ↔ Endless s w) ∧
    (∀ bucket hash,
      ((Registry.findDuplicate bucket hash).on (.embedded s)).1 =
          .error (.storage .endlessWalk) ↔
        Endless s (along ⟨.hash, hash⟩ 0) ∧
          ∀ n, ∀ items ∈ (along ⟨.hash, hash⟩ 0).pages s n, ∀ r ∈ items, r.bucket ≠ bucket) ∧
    (∀ limits now content hash,
      (((Command.findHash hash).perform limits now content).on (.embedded s)).1 =
          .error (.storage .endlessWalk) ↔
        Endless s (along ⟨.hash, hash⟩ 0)) ∧
    (s.Onward scope → ¬ Endless s w ∧ ∀ n, (w.pages s n).length ≤ s.scopeSize scope ∧
      ∃ entries : List IndexEntry,
        entries.Pairwise (fun e f => e.position.Precedes f.position) ∧
        (∀ e ∈ entries, s.Lists scope e) ∧
        List.Forall₂ (Leads s.records) entries (w.pages s n).flatten) ∧
    ∀ e f, Backdated s scope e f → Endless s (along scope 1) := by
  intro w
  refine ⟨endless_iff s w, collect_endless_iff s w, findDuplicate_endless_iff s,
    findHash_endless_iff s, fun hon => ?_, fun e f hb => ?_⟩
  · have hlength : ∀ n, (w.pages s n).length ≤ s.scopeSize scope := by
      intro n
      rw [Store.scopeSize_eq]
      exact length_pages_le (w := w) hon n
    refine ⟨fun hendless => ?_, fun n => ⟨hlength n, ?_⟩⟩
    · have hmore := hlength (s.scopeSize scope + 1)
      rw [hendless (s.scopeSize scope + 1)] at hmore
      exact Nat.not_succ_le_self _ hmore
    · obtain ⟨entries, hsorted, hahead, hled, -⟩ := pages_of_onward (w := w) n hon
      exact ⟨entries, hsorted, fun e he => (mem_entriesAhead.1 (hahead e he)).1, hled⟩
  · exact Short.endless ⟨rfl, rfl, nofun⟩ hb

/-- A store with two resources of one hash, after the bytes of the first were overwritten with a
record of an earlier time. -/
def backdated : Store :=
  match (Session.run [.create ⟨"a", "x", 20, "h", 1⟩, .create ⟨"b", "x", 30, "h", 1⟩]
    (Session.new .standard 0)).2.backing with
  | .embedded s =>
    { s with resources := some (s.records.insert "a" (Record.encode ⟨"x", 10, "h", 1⟩)) }
  | .unreachable => .blank

/-- The same with a later time, and a resource between the two. -/
def postdated : Store :=
  match (Session.run [.create ⟨"a", "x", 20, "h", 1⟩, .create ⟨"b", "x", 30, "h", 1⟩,
    .create ⟨"c", "x", 22, "h", 1⟩] (Session.new .standard 0)).2.backing with
  | .embedded s =>
    { s with resources := some (s.records.insert "a" (Record.encode ⟨"x", 25, "h", 1⟩)) }
  | .unreachable => .blank

/-- The entry of the postdated resource leads ahead, past the one between, and the walk ends; that
of the backdated one leads back. -/
theorem ends_or_circles_dated :
    postdated.Onward ⟨.hash, "h"⟩ ∧ ¬ Endless postdated (along ⟨.hash, "h"⟩ 1) ∧
      ((along ⟨.hash, "h"⟩ 1).pages postdated 9).length ≤ 3 ∧
      Backdated backdated ⟨.hash, "h"⟩ ⟨"h", ⟨20, "a"⟩⟩ ⟨"h", ⟨30, "b"⟩⟩ ∧
      Endless backdated (along ⟨.hash, "h"⟩ 1) := by
  have honward : postdated.Onward ⟨.hash, "h"⟩ := by
    intro e r he hlead
    have hkeys : e ∈ (postdated.listed .hash).keys := Table.mem_keys.2 he.1
    rw [show (postdated.listed .hash).keys =
      [⟨"h", ⟨20, "a"⟩⟩, ⟨"h", ⟨22, "c"⟩⟩, ⟨"h", ⟨30, "b"⟩⟩] from rfl] at hkeys
    simp only [List.mem_cons, List.not_mem_nil, or_false] at hkeys
    rcases hkeys with rfl | rfl | rfl
    · rw [hlead.unique ⟨_, ⟨"x", 25, "h", 1⟩, rfl, rfl, rfl⟩]
      decide
    · rw [hlead.unique ⟨_, ⟨"x", 22, "h", 1⟩, rfl, rfl, rfl⟩]
      decide
    · rw [hlead.unique ⟨_, ⟨"x", 30, "h", 1⟩, rfl, rfl, rfl⟩]
      decide
  have hback : Backdated backdated ⟨.hash, "h"⟩ ⟨"h", ⟨20, "a"⟩⟩ ⟨"h", ⟨30, "b"⟩⟩ := by
    refine ⟨fun g hg => ?_, ⟨_, ⟨_, ⟨"x", 10, "h", 1⟩, rfl, rfl, rfl⟩, by decide⟩, ⟨rfl, rfl⟩,
      ⟨rfl, rfl⟩, Or.inl (by decide)⟩
    have hkeys : g ∈ (backdated.listed .hash).keys := Table.mem_keys.2 hg.1
    rw [show (backdated.listed .hash).keys = [⟨"h", ⟨20, "a"⟩⟩, ⟨"h", ⟨30, "b"⟩⟩] from rfl]
      at hkeys
    simp only [List.mem_cons, List.not_mem_nil, or_false] at hkeys
    rcases hkeys with rfl | rfl
    · exact ⟨_, ⟨_, ⟨"x", 10, "h", 1⟩, rfl, rfl, rfl⟩, by decide⟩
    · exact ⟨_, ⟨_, ⟨"x", 30, "h", 1⟩, rfl, rfl, rfl⟩, by decide⟩
  obtain ⟨-, -, -, -, hends, -⟩ := ends_or_circles postdated ⟨.hash, "h"⟩ 1
  obtain ⟨-, -, -, -, -, hcircles⟩ := ends_or_circles backdated ⟨.hash, "h"⟩ 1
  exact ⟨honward, (hends honward).1, ((hends honward).2 9).1, hback, hcircles _ _ hback⟩

/-- **A walk may never end**: with pages of one item, the backdated resource is returned over and
over. -/
theorem endless_backdated :
    backdated.scopeSize ⟨.hash, "h"⟩ = 2 ∧
      (∀ n, (along ⟨.hash, "h"⟩ 1).pages backdated n =
        List.replicate n [⟨"a", "x", 10, "h", 1⟩]) ∧
      ((along ⟨.hash, "h"⟩ 1).collect.on (.embedded backdated)).1 =
        .error (.storage .endlessWalk) := by
  have hfirst : (along ⟨.hash, "h"⟩ 1).call? backdated =
      some ([⟨"a", "x", 10, "h", 1⟩], ⟨⟨.hash, "h"⟩, 1, some ⟨10, "a"⟩, false⟩) := rfl
  have hround : call? backdated ⟨⟨.hash, "h"⟩, 1, some ⟨10, "a"⟩, false⟩ =
      some ([⟨"a", "x", 10, "h", 1⟩], ⟨⟨.hash, "h"⟩, 1, some ⟨10, "a"⟩, false⟩) := rfl
  have hpages : ∀ n, pages backdated n ⟨⟨.hash, "h"⟩, 1, some ⟨10, "a"⟩, false⟩ =
      List.replicate n [⟨"a", "x", 10, "h", 1⟩] := by
    intro n
    induction n with
    | zero => rfl
    | succ n ih =>
      rw [pages, hround, List.replicate_succ]
      exact congrArg _ ih
  refine ⟨rfl, fun n => ?_, rfl⟩
  cases n with
  | zero => rfl
  | succ n =>
    rw [pages, hfirst, List.replicate_succ]
    exact congrArg _ (hpages n)

end Walk

end ObjectRegistry
