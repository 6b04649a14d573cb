import ObjectRegistry.Proofs.Independence

/-!
# Purges

A purge reads all rows and drops those that are outdated; a removal finds one row by its id; a
listing goes along an index. On a consistent store the three speak about the same resources. What a
purge takes, in order, is `expired`, and a purge is a run of removals of these, in any order
(`Registry.mapM_delete_on`, `Store.foldl_dropping_perm`).

All else is about where a second cuts lists in order. What is created at or before it comes before
everything that is created after it, so a listing is what a purge takes of it, followed by what the
purge leaves (`Consistent.listing_eq`); and what a later purge would take is what an earlier one
takes, followed by what is then left for the later one (`Consistent.expired_eq`).
-/

namespace ObjectRegistry

open Access

namespace Store

variable {s : Store} {r : Resource} {cutoff later : Int64}

/-- The resources created at or before a second, in order. -/
def expired (s : Store) (cutoff : Int64) : List Resource :=
  inOrder (outdated cutoff s.stored)

/-- The store without the resources created at or before a second. -/
def without (s : Store) (cutoff : Int64) : Store :=
  (s.expired cutoff).foldl dropping s

/-- It does not matter in which order resources are dropped. -/
theorem foldl_dropping_perm {old old' : List Resource} (h : old.Perm old') (s : Store) :
    old.foldl dropping s = old'.foldl dropping s :=
  h.foldl_eq' (fun r _ r' _ s => dropping_comm r r' s) s

namespace Consistent

theorem mem_expired (h : s.Consistent) :
    r ∈ s.expired cutoff ↔ s.Holds r ∧ r.createTime ≤ cutoff := by
  rw [expired, mem_inOrder, outdated, List.mem_filter, h.mem_stored, decide_eq_true_eq]

theorem expired_sorted (h : s.Consistent) (cutoff : Int64) :
    (s.expired cutoff).Pairwise Before :=
  inOrder_sorted (h.nodup_stored.sublist (List.filter_sublist.map _))

theorem expired_nodup (h : s.Consistent) (cutoff : Int64) : (s.expired cutoff).Nodup :=
  Walk.nodup_of_sorted (h.expired_sorted cutoff)

/-- What is left is what was created later. -/
theorem without (h : s.Consistent) (cutoff : Int64) :
    (s.without cutoff).Consistent ∧
      ∀ r, (s.without cutoff).Holds r ↔ s.Holds r ∧ cutoff < r.createTime := by
  obtain ⟨hend, hleft⟩ := h.foldl_dropping (fun r hr => (h.mem_expired.1 hr).1)
    (h.expired_nodup cutoff)
  refine ⟨hend, ?_⟩
  intro r
  rw [Store.without, hleft, h.mem_expired]
  constructor
  · rintro ⟨hr, hnot⟩
    exact ⟨hr, Int64.not_le.1 fun hle => hnot ⟨hr, hle⟩⟩
  · rintro ⟨hr, hlater⟩
    exact ⟨hr, fun hold => Int64.not_le.2 hlater hold.2⟩

end Consistent

/-! ## Lists cut at a second -/

/-- A list in order is cut at a second into two lists in order, one up to the second and one behind
it, if these have its members. -/
theorem eq_append_of_cut (cutoff : Int64) {all front back : List Resource}
    (hall : all.Pairwise Before) (hfront : front.Pairwise Before) (hback : back.Pairwise Before)
    (hearly : ∀ r ∈ front, r.createTime ≤ cutoff) (hlate : ∀ r ∈ back, cutoff < r.createTime)
    (hmem : ∀ r, r ∈ all ↔ r ∈ front ∨ r ∈ back) : all = front ++ back := by
  have hcross : ∀ x ∈ front, ∀ y ∈ back, Before x y := by
    intro x hx y hy
    have hlt : x.createTime < y.createTime := Int64.lt_of_le_of_lt (hearly x hx) (hlate y hy)
    exact before_iff.2 (Or.inl hlt)
  refine TableKey.eq_of_sorted Resource.position hall
    (List.pairwise_append.2 ⟨hfront, hback, hcross⟩) ?_
  intro r
  rw [hmem, List.mem_append]

namespace Consistent

/-- **A listing is cut in two by a purge**: what the purge takes of it comes first, and what it
leaves is the listing behind the purge. -/
theorem listing_eq (h : s.Consistent) (scope : Scope) (cutoff : Int64) :
    s.listing scope =
      ((s.expired cutoff).filter fun r => r.record.label scope.axis == scope.key) ++
        (s.without cutoff).listing scope := by
  obtain ⟨hend, hleft⟩ := h.without cutoff
  refine eq_append_of_cut cutoff (h.listing_sorted scope)
    ((h.expired_sorted cutoff).filter _) (hend.listing_sorted scope) ?early ?late ?members
  case early => exact fun r hr => (h.mem_expired.1 (List.mem_of_mem_filter hr)).2
  case late => exact fun r hr => ((hleft r).1 (hend.mem_listing.1 hr).1).2
  case members =>
    intro r
    rw [List.mem_filter, h.mem_listing, h.mem_expired, hend.mem_listing, hleft, beq_iff_eq,
      ← Int64.not_le]
    tauto

/-- **What a later purge takes** is what an earlier one takes, and then what is left for it. -/
theorem expired_eq (h : s.Consistent) (hle : cutoff ≤ later) :
    s.expired later = s.expired cutoff ++ (s.without cutoff).expired later := by
  obtain ⟨hend, hleft⟩ := h.without cutoff
  refine eq_append_of_cut cutoff (h.expired_sorted later) (h.expired_sorted cutoff)
    (hend.expired_sorted later) ?early ?late ?members
  case early => exact fun r hr => (h.mem_expired.1 hr).2
  case late => exact fun r hr => ((hleft r).1 (hend.mem_expired.1 hr).1).2
  case members =>
    intro r
    have hboth : r.createTime ≤ cutoff → r.createTime ≤ later := fun hr => Int64.le_trans hr hle
    rw [h.mem_expired, h.mem_expired, hend.mem_expired, hleft, ← Int64.not_le]
    tauto

/-- An earlier purge does not show in the store behind a later one. -/
theorem without_without (h : s.Consistent) (hle : cutoff ≤ later) :
    (s.without cutoff).without later = s.without later := by
  unfold Store.without
  rw [h.expired_eq hle, List.foldl_append]
  rfl

end Consistent

end Store

/-! ## Purges and removals -/

namespace Registry

variable {s : Store}

/-- A purge, in terms of what it takes. -/
theorem purge_expired (h : s.Consistent) (cutoff : Int64) :
    (purge cutoff).on (.embedded s) =
      (.ok (s.expired cutoff), .embedded (s.without cutoff)) := by
  have hperm : (Store.outdated cutoff s.stored).Perm (s.expired cutoff) :=
    (List.mergeSort_perm _ _).symm
  rw [purge_on h, Store.foldl_dropping_perm hperm]
  rfl

theorem delete_held (h : s.Consistent) {r : Resource} (hr : s.Holds r) :
    (delete r.id).on (.embedded s) = (.ok (some r), .embedded (s.dropping r)) := by
  rcases delete_cases h r.id with ⟨hnone, -⟩ | ⟨r', hr', hid, hdrops⟩
  · have hfound : s.find r.id = .ok (some r) := hr
    rw [hfound] at hnone
    cases hnone
  · rwa [hr'.eq_of_id_eq hr hid] at hdrops

/-- **Removals one by one** answer what they remove, and drop all of it. -/
theorem mapM_delete_on (h : s.Consistent) {gone : List Resource} (hheld : ∀ r ∈ gone, s.Holds r)
    (hnodup : gone.Nodup) :
    ((gone.map Resource.id).mapM delete).on (.embedded s) =
      (.ok (gone.map some), .embedded (gone.foldl Store.dropping s)) := by
  induction gone generalizing s with
  | nil => rfl
  | cons x rest ih =>
    obtain ⟨hnew, hrest⟩ := List.nodup_cons.1 hnodup
    obtain ⟨table, hrows⟩ := h.rowing
    have hx : s.Holds x := hheld x List.mem_cons_self
    -- the others are still there when `x` is gone
    have hothers : ∀ r ∈ rest, (s.dropping x).Holds r := fun r hr =>
      (Store.holds_dropping hrows hx).2
        ⟨hheld r (List.mem_cons_of_mem _ hr), fun he => hnew (he ▸ hr)⟩
    rw [List.map_cons, List.mapM_cons, on_bind_ok (delete_held h hx),
      on_bind_ok (ih (h.dropping hx) hothers hrest)]
    rfl

/-- Ids that lead to resources, each once, are the ids of resources. -/
theorem exists_resources {ids : List String} (h : ∀ id ∈ ids, ∃ r, s.Holds r ∧ r.id = id) :
    ∃ gone : List Resource, gone.map Resource.id = ids ∧ ∀ r ∈ gone, s.Holds r := by
  induction ids with
  | nil => exact ⟨[], rfl, nofun⟩
  | cons id rest ih =>
    obtain ⟨r, hr, rfl⟩ := h id List.mem_cons_self
    obtain ⟨gone, rfl, hheld⟩ := ih fun id hid => h id (List.mem_cons_of_mem _ hid)
    refine ⟨r :: gone, rfl, ?_⟩
    intro r' hr'
    rcases List.mem_cons.1 hr' with rfl | hrest
    · exact hr
    · exact hheld r' hrest

/-- **A purge is what removals and listings say it is.** Over every store that a run leads to, a
purge takes the resources created at or before its second, and answers them in order. Removing
these one by one, in any order, answers the same resources and ends in the same tables. What a purge
takes of a listing is its front, and the listing behind the purge is the rest. A purge followed by a
later one is the later one alone, with its answer in two parts. -/
theorem purge_eq_deletes (hs : s.Reachable) (cutoff : Int64) :
    ∃ old s', (purge cutoff).on (.embedded s) = (.ok old, .embedded s') ∧
      old.Pairwise Resource.Earlier ∧
      (∀ r, r ∈ old ↔ s.Holds r ∧ r.createTime ≤ cutoff) ∧
      (∀ ids : List String, ids.Nodup →
        (∀ id, id ∈ ids ↔ ∃ r, s.Holds r ∧ r.id = id ∧ r.createTime ≤ cutoff) →
        ∃ gone : List Resource, gone.Perm old ∧ gone.map Resource.id = ids ∧
          (ids.mapM delete).on (.embedded s) = (.ok (gone.map some), .embedded s')) ∧
      (∀ scope size, ∃ left,
        (Walk.along scope size).collect.on (.embedded s) =
          (.ok ((old.filter fun r => r.record.label scope.axis == scope.key) ++ left),
            .embedded s) ∧
        (∀ r ∈ left, cutoff < r.createTime) ∧
        (Walk.along scope size).collect.on (.embedded s') = (.ok left, .embedded s')) ∧
      ∀ later, cutoff ≤ later → ∃ more s'',
        (purge later).on (.embedded s') = (.ok more, .embedded s'') ∧
        (purge later).on (.embedded s) = (.ok (old ++ more), .embedded s'') := by
  have h := hs.consistent
  obtain ⟨hend, hleft⟩ := h.without cutoff
  refine ⟨s.expired cutoff, s.without cutoff, purge_expired h cutoff,
    (h.expired_sorted cutoff).imp Store.before_iff.1, fun r => h.mem_expired,
    ?deletes, ?listings, ?twice⟩
  case deletes =>
    intro ids hnodup hids
    obtain ⟨gone, rfl, hheld⟩ := exists_resources (s := s) fun id hid =>
      have ⟨r, hr, hrid, _⟩ := (hids id).1 hid
      ⟨r, hr, hrid⟩
    have hperm : gone.Perm (s.expired cutoff) := by
      refine (List.perm_ext_iff_of_nodup (hnodup.of_map _) (h.expired_nodup cutoff)).2 ?_
      intro r
      rw [h.mem_expired]
      constructor
      · intro hr
        obtain ⟨r', hr', hid, htime⟩ := (hids r.id).1 (List.mem_map_of_mem hr)
        obtain rfl := hr'.eq_of_id_eq (hheld r hr) hid
        exact ⟨hr', htime⟩
      · rintro ⟨hr, htime⟩
        obtain ⟨r', hr', hid⟩ := List.mem_map.1 ((hids r.id).2 ⟨r, hr, rfl, htime⟩)
        exact (hheld r' hr').eq_of_id_eq hr hid ▸ hr'
    refine ⟨gone, hperm, rfl, ?_⟩
    rw [mapM_delete_on h hheld (hnodup.of_map _), Store.foldl_dropping_perm hperm]
    rfl
  case listings =>
    intro scope size
    refine ⟨(s.without cutoff).listing scope, ?_, ?_, ?_⟩
    · rw [Walk.collect_on h, Walk.ahead_along, ← h.listing_eq]
    · exact fun r hr => ((hleft r).1 (hend.mem_listing.1 hr).1).2
    · rw [Walk.collect_on hend, Walk.ahead_along]
  case twice =>
    intro later hle
    refine ⟨_, _, purge_expired hend later, ?_⟩
    rw [purge_expired h, h.expired_eq hle, h.without_without hle]

/-- Two resources of one second behind an earlier one with a greater id. -/
def early : List Resource :=
  [⟨"c", "y", 0, "h", 3⟩, ⟨"a", "x", 5, "k", 2⟩, ⟨"b", "x", 5, "h", 1⟩]

/-- A later one. -/
def late : Resource := ⟨"d", "x", 7, "h", 4⟩

/-- All of them are created, the last ones first. -/
def seconds : List Step := (early ++ [late]).reverse.map .create

theorem purge_eq_deletes_seconds :
    ∃ s : Store, (Session.run seconds (.new .standard 0)).2.backing = .embedded s ∧
      s.Reachable ∧
      (∀ id, id ∈ ["a", "b", "c"] ↔ ∃ r, s.Holds r ∧ r.id = id ∧ r.createTime ≤ 5) ∧
      ∃ s' gone, (purge 5).on (.embedded s) = (.ok early, .embedded s') ∧
        (["a", "b", "c"].mapM delete).on (.embedded s) = (.ok (List.map some gone), .embedded s') ∧
        gone.Perm early ∧ (5 : Int64) ≤ 7 ∧
        ∃ more s'', (purge 7).on (.embedded s) = (.ok (early ++ more), .embedded s'') := by
  obtain ⟨s, hstore, hstored⟩ : ∃ s : Store,
      (Session.run seconds (.new .standard 0)).2.backing = .embedded s ∧
      s.stored.Perm (early ++ [late]) := by
    refine ⟨_, rfl, ?_⟩
    decide
  have hs : s.Reachable := ⟨.standard, 0, seconds, by simp [seconds, Step.Checked], hstore⟩
  have hheld : ∀ r, s.Holds r ∧ r.createTime ≤ 5 ↔ r ∈ early := by
    intro r
    have hcut : early = (early ++ [late]).filter fun r => r.createTime ≤ 5 := by decide
    rw [← hs.consistent.mem_stored, hstored.mem_iff, hcut, List.mem_filter, decide_eq_true_eq,
      ← hcut]
  have hids : ∀ id, id ∈ ["a", "b", "c"] ↔ ∃ r, s.Holds r ∧ r.id = id ∧ r.createTime ≤ 5 := by
    intro id
    have hperm : ["a", "b", "c"].Perm (early.map Resource.id) := by decide
    rw [hperm.mem_iff, List.mem_map]
    exact exists_congr fun r => by rw [← hheld]; tauto
  obtain ⟨old, s', hpurge, hsorted, hmem, hdeletes, -, htwice⟩ := purge_eq_deletes hs 5
  obtain rfl : old = early := by
    refine TableKey.eq_of_sorted Resource.position (hsorted.imp Store.before_iff.2) ?_
      fun r => (hmem r).trans (hheld r)
    decide
  obtain ⟨gone, hperm, -, hgone⟩ := hdeletes ["a", "b", "c"] (by decide) hids
  obtain ⟨more, s'', -, hlater⟩ := htwice 7 (by decide)
  exact ⟨s, hstore, hs, hids, s', gone, hpurge, hgone, hperm, by decide, more, s'', hlater⟩

end Registry

end ObjectRegistry
