import ObjectRegistry.Proofs.Consistent

/-!
# Listings

The resources of a scope in order are its `listing`: read off the rows, filtered by what they are
listed under, and sorted by position. An index is not mentioned. What the index gives a page is
then compared with this list. The keys of an index are in order, so a scan that is bounded below
and ends at the first entry under another label finds the entries under its label behind the
position, all of them and no other (`scan_eq_filter`). On a consistent store these are the entries
of the listing behind that position, in the same order (`Consistent.scan_eq`), because both are
sorted and have the same members. So a page is a piece of the listing (`Consistent.page_eq`).

The last part is about lists alone: what lies behind the last item of a page is what the page left
over (`filter_isAfter_getLast`).
-/

namespace ObjectRegistry

namespace Store

variable {s : Store}

/-- The resources of all rows that can be read together. -/
def stored (s : Store) : List Resource :=
  match s.readAll with
  | .ok all => all
  | .error _ => []

/-- The resources of a scope, earlier ones first and lesser ids first among those of one second. -/
def listing (s : Store) (scope : Scope) : List Resource :=
  inOrder (s.stored.filter fun r => r.record.label scope.axis == scope.key)

/-- Whether a position lies behind where a page starts. -/
def isBehind (after : Option Cursor) (position : Cursor) : Bool :=
  match after with
  | none => true
  | some c => position.isAfter c

/-- What a listing still holds behind a position. -/
def remaining (s : Store) (scope : Scope) (after : Option Cursor) : List Resource :=
  (s.listing scope).filter fun r => isBehind after r.position

/-! ## The rows of a consistent store -/

/-- Rows of which each can be read are read together, one resource for each row. -/
theorem mapM_readRecord {bs : List (String × List UInt8)}
    (h : ∀ b ∈ bs, ∃ r, readRecord b.1 b.2 = .ok r) :
    ∃ all, (bs.mapM fun b => readRecord b.1 b.2) = .ok all ∧
      all.map Resource.id = bs.map Prod.fst ∧
      ∀ r, r ∈ all ↔ ∃ b ∈ bs, readRecord b.1 b.2 = .ok r := by
  induction bs with
  | nil => exact ⟨[], rfl, rfl, by simp⟩
  | cons b rest ih =>
    obtain ⟨r, hr⟩ := h b List.mem_cons_self
    obtain ⟨all, hall, hids, hmem⟩ := ih fun c hc => h c (List.mem_cons_of_mem _ hc)
    refine ⟨r :: all, ?_, ?_, ?_⟩
    · rw [List.mapM_cons, hr, Draft.ok_bind, hall]
      rfl
    · rw [List.map_cons, List.map_cons, hids, readRecord_id hr]
    · intro r'
      simp [hmem, hr, eq_comm]

/-- All rows of a consistent store are read, and they are what the store holds. -/
theorem Consistent.readAll_eq (h : s.Consistent) :
    s.readAll = .ok s.stored ∧ s.stored.map Resource.id = s.records.keys ∧
      ∀ r, r ∈ s.stored ↔ s.Holds r := by
  obtain ⟨table, hrows⟩ := h.rowing
  have hread : ∀ b ∈ s.records.toList, ∃ r, readRecord b.1 b.2 = .ok r := by
    intro b hb
    obtain ⟨found, hfound⟩ := h.readable b.1
    rw [find_eq_load hrows, ← records_eq hrows] at hfound
    simp only [load, Table.get?_eq_some_iff.2 hb] at hfound
    cases hr : readRecord b.1 b.2 with
    | ok r => exact ⟨r, rfl⟩
    | error e => rw [hr] at hfound; cases hfound
  obtain ⟨all, hall, hids, hmem⟩ := mapM_readRecord hread
  have hstored : s.stored = all := by rw [stored, readAll, hall]
  rw [hstored]
  refine ⟨hall, hids, ?_⟩
  intro r
  rw [hmem, Holds, find_eq_load hrows, load_eq_some_iff, ← records_eq hrows]
  constructor
  · rintro ⟨b, hb, hr⟩
    rw [readRecord_id hr]
    exact ⟨b.2, Table.get?_eq_some_iff.2 hb, hr⟩
  · rintro ⟨bytes, hb, hr⟩
    exact ⟨(r.id, bytes), Table.get?_eq_some_iff.1 hb, hr⟩

theorem Consistent.mem_stored (h : s.Consistent) {r : Resource} : r ∈ s.stored ↔ s.Holds r :=
  h.readAll_eq.2.2 r

/-- No id occurs twice among the rows. -/
theorem Consistent.nodup_stored (h : s.Consistent) : (s.stored.map Resource.id).Nodup := by
  rw [h.readAll_eq.2.1]
  exact s.records.keys_sorted.imp TableKey.ne_of_lt

/-! ## The order of a listing -/

/-- A resource comes strictly before another in a listing. -/
def Before (x y : Resource) : Prop :=
  TableKey.compare x.position y.position = .lt

theorem mem_inOrder {rs : List Resource} {r : Resource} : r ∈ inOrder rs ↔ r ∈ rs :=
  List.mem_mergeSort

/-- Resources with different ids are put in strict order. -/
theorem inOrder_sorted {rs : List Resource} (h : (rs.map Resource.id).Nodup) :
    (inOrder rs).Pairwise Before := by
  have hsorted : (inOrder rs).Pairwise fun x y =>
      (TableKey.compare x.position y.position != .gt) = true := by
    refine List.pairwise_mergeSort (fun x y z hxy hyz => ?_) (fun x y => ?_) rs
    · exact bne_iff_ne.2 (TableKey.ne_gt_trans (bne_iff_ne.1 hxy) (bne_iff_ne.1 hyz))
    · rw [Bool.or_eq_true, bne_iff_ne, bne_iff_ne]
      exact TableKey.ne_gt_total _ _
  have hids : (inOrder rs).Pairwise fun x y => x.id ≠ y.id :=
    List.pairwise_map.1 (((List.mergeSort_perm rs _).map Resource.id).nodup_iff.2 h)
  refine (hsorted.and hids).imp fun {x y} hxy => ?_
  -- not behind and not at the same position, as the ids differ
  cases hcmp : TableKey.compare x.position y.position with
  | lt => exact hcmp
  | eq => exact absurd (congrArg Cursor.id (TableKey.eq_of_compare hcmp)) hxy.2
  | gt => exact absurd hcmp (bne_iff_ne.1 hxy.1)

theorem Consistent.mem_listing (h : s.Consistent) {scope : Scope} {r : Resource} :
    r ∈ s.listing scope ↔ s.Holds r ∧ r.record.label scope.axis = scope.key := by
  rw [listing, mem_inOrder, List.mem_filter, h.mem_stored, beq_iff_eq]

theorem Consistent.listing_sorted (h : s.Consistent) (scope : Scope) :
    (s.listing scope).Pairwise Before :=
  inOrder_sorted ((List.filter_sublist.map Resource.id).nodup h.nodup_stored)

theorem Consistent.remaining_sorted (h : s.Consistent) (scope : Scope) (after : Option Cursor) :
    (s.remaining scope after).Pairwise Before :=
  (h.listing_sorted scope).filter _

theorem Consistent.mem_remaining (h : s.Consistent) {scope : Scope} {after : Option Cursor}
    {r : Resource} :
    r ∈ s.remaining scope after ↔
      (s.Holds r ∧ r.record.label scope.axis = scope.key) ∧ isBehind after r.position = true := by
  rw [remaining, List.mem_filter, h.mem_listing]

/-! ## What a scan finds -/

/-- Nothing in a list in order is lost by dropping its front up to the first item in `p`, if all
that follows an item in `p` is in `p`. -/
theorem dropWhile_eq_filter {α : Type} {p : α → Bool} {xs : List α}
    (h : xs.Pairwise fun x y => p x = true → p y = true) :
    xs.dropWhile (fun x => !p x) = xs.filter p := by
  induction xs with
  | nil => rfl
  | cons x rest ih =>
    obtain ⟨hx, hrest⟩ := List.pairwise_cons.1 h
    cases hpx : p x with
    | true =>
      rw [List.dropWhile_cons_of_neg (by simp [hpx]), List.filter_cons_of_pos hpx,
        List.filter_eq_self.2 fun y hy => hx y hy hpx]
    | false =>
      rw [List.dropWhile_cons_of_pos (by simp [hpx]), List.filter_cons_of_neg (by simp [hpx])]
      exact ih hrest

/-- Nothing is lost by ending at the first item not in `p`, if all in front of an item in `p` is in
`p`. -/
theorem takeWhile_eq_filter {α : Type} {p : α → Bool} {xs : List α}
    (h : xs.Pairwise fun x y => p y = true → p x = true) :
    xs.takeWhile p = xs.filter p := by
  induction xs with
  | nil => rfl
  | cons x rest ih =>
    obtain ⟨hx, hrest⟩ := List.pairwise_cons.1 h
    cases hpx : p x with
    | true => rw [List.takeWhile_cons_of_pos hpx, List.filter_cons_of_pos hpx, ih hrest]
    | false =>
      have hnone : rest.filter p = [] := by
        rw [List.filter_eq_nil_iff]
        intro y hy hpy
        rw [hx y hy hpy] at hpx
        cases hpx
      rw [List.takeWhile_cons_of_neg (by simp [hpx]), List.filter_cons_of_neg (by simp [hpx]),
        hnone]

/-- The entries under a lesser label come first, and under one label the lesser positions. -/
theorem compare_entry_eq_lt_iff {e f : IndexEntry} :
    TableKey.compare e f = .lt ↔
      TableKey.compare e.label f.label = .lt ∨
        e.label = f.label ∧ TableKey.compare e.position f.position = .lt := by
  refine Iff.trans Ordering.then_eq_lt ?_
  exact or_congr Iff.rfl (and_congr TableKey.compare_eq_iff Iff.rfl)

/-- No position lies before that of the least entry. -/
theorem compare_leastEntry_ne_lt (label : String) (position : Cursor) :
    TableKey.compare position (leastEntry label).position ≠ .lt := by
  intro hlt
  rcases Ordering.then_eq_lt.1 hlt with htime | ⟨-, hid⟩
  · exact absurd (TableKey.compareInt64_eq_lt.1 htime) (Int64.not_lt.2 (Int64.minValue_le _))
  · exact absurd (String.lt_iff.1 (compareOfLessAndEq_eq_lt.1 hid)) (List.not_lt_nil _)

variable {label : String} {after : Option Cursor} {e f : IndexEntry}

/-- What follows an entry within the bound is within it. -/
theorem isWithin_of_lt (he : isWithin label after e = true)
    (hlt : TableKey.compare e f = .lt) : isWithin label after f = true := by
  cases after with
  | some position => exact beq_iff_eq.2 (TableKey.lt_trans (beq_iff_eq.1 he) hlt)
  | none => exact bne_iff_ne.2 fun hf => bne_iff_ne.1 he (TableKey.lt_trans hlt hf)

/-- No entry within the bound has a lesser label. -/
theorem not_lt_of_isWithin (he : isWithin label after e = true) :
    TableKey.compare e.label label ≠ .lt := by
  intro hlt
  cases after with
  | some position =>
    rcases compare_entry_eq_lt_iff.1 (beq_iff_eq.1 he) with hgt | ⟨heq, -⟩
    · exact TableKey.not_lt_of_lt hlt hgt
    · exact TableKey.ne_of_lt hlt heq.symm
  | none => exact bne_iff_ne.1 he (compare_entry_eq_lt_iff.2 (Or.inl hlt))

/-- Under the label itself, the bound is the position to start behind. -/
theorem isWithin_iff (hlabel : e.label = label) :
    isWithin label after e = isBehind after e.position := by
  subst hlabel
  cases after with
  | some position =>
    show (TableKey.compare { label := e.label, position } e == .lt) =
      (TableKey.compare position e.position == .lt)
    rw [Bool.eq_iff_iff, beq_iff_eq, beq_iff_eq, compare_entry_eq_lt_iff]
    exact ⟨fun h => (h.resolve_left (TableKey.compare_self_ne_lt _)).2, fun h => Or.inr ⟨rfl, h⟩⟩
  | none =>
    refine bne_iff_ne.2 fun hlt => ?_
    rcases compare_entry_eq_lt_iff.1 hlt with hless | ⟨-, hless⟩
    · exact TableKey.compare_self_ne_lt _ hless
    · exact compare_leastEntry_ne_lt e.label e.position hless

/-- **A scan finds what it should.** It visits a stretch of the keys, which are in order, so it
misses no entry of the label behind the position and comes upon no other. -/
theorem scan_eq_filter (index : IndexTable) (label : String) (after : Option Cursor) :
    scan index label after =
      index.keys.filter fun e => e.label == label && isBehind after e.position := by
  have hwithin : (index.keys.dropWhile fun e => !isWithin label after e) =
      index.keys.filter (isWithin label after) :=
    dropWhile_eq_filter (index.keys_sorted.imp fun hlt he => isWithin_of_lt he hlt)
  have hlabels : (index.keys.filter (isWithin label after)).Pairwise fun e f =>
      (f.label == label) = true → (e.label == label) = true := by
    refine (index.keys_sorted.filter _).imp_of_mem fun {e f} he _ hlt hf => ?_
    rw [beq_iff_eq] at hf ⊢
    rcases compare_entry_eq_lt_iff.1 hlt with hless | ⟨hsame, -⟩
    · rw [hf] at hless
      exact absurd hless (not_lt_of_isWithin (List.mem_filter.1 he).2)
    · exact hsame.trans hf
  rw [scan, hwithin, takeWhile_eq_filter hlabels, List.filter_filter]
  refine List.filter_congr fun e _ => ?_
  cases hlabel : e.label == label with
  | true => rw [Bool.true_and, Bool.true_and, isWithin_iff (beq_iff_eq.1 hlabel)]
  | false => rw [Bool.false_and, Bool.false_and]

theorem mem_scan {index : IndexTable} :
    e ∈ scan index label after ↔
      index.contains e = true ∧ e.label = label ∧ isBehind after e.position = true := by
  rw [scan_eq_filter, List.mem_filter, Table.mem_keys, Bool.and_eq_true, beq_iff_eq]

/-- What a scan finds is in the order of the index. -/
theorem scan_sorted (index : IndexTable) (label : String) (after : Option Cursor) :
    (scan index label after).Pairwise fun e f => TableKey.compare e f = .lt := by
  rw [scan_eq_filter]
  exact index.keys_sorted.filter _

/-! ## A page is a piece of the listing -/

/-- The entries of a scope behind a position are those of what the listing still holds there. -/
theorem Consistent.scan_eq (h : s.Consistent) {scope : Scope} {index : IndexTable}
    (hindex : s.index scope.axis = some index) (after : Option Cursor) :
    scan index scope.key after =
      (s.remaining scope after).map fun r => r.entry scope.axis := by
  obtain ⟨index', hindex', -, hentries⟩ := h.index_eq scope.axis
  obtain rfl : index = index' := Option.some.inj (hindex.symm.trans hindex')
  have hright : ((s.remaining scope after).map fun r => r.entry scope.axis).Pairwise fun a b =>
      TableKey.compare a b = .lt := by
    rw [List.pairwise_map]
    refine (h.remaining_sorted scope after).imp_of_mem fun {x y} hx hy hxy => ?_
    -- under one label, entries go by their positions
    have hlabels : (x.entry scope.axis).label = (y.entry scope.axis).label :=
      ((h.mem_remaining.1 hx).1.2).trans ((h.mem_remaining.1 hy).1.2).symm
    exact compare_entry_eq_lt_iff.2 (Or.inr ⟨hlabels, hxy⟩)
  apply TableKey.eq_of_sorted id (scan_sorted index scope.key after) hright
  intro e
  rw [mem_scan, hentries, List.mem_map]
  constructor
  · rintro ⟨⟨r, hr, rfl⟩, hlabel, hpos⟩
    exact ⟨r, h.mem_remaining.2 ⟨⟨hr, hlabel⟩, hpos⟩, rfl⟩
  · rintro ⟨r, hr, rfl⟩
    obtain ⟨⟨hheld, hlabel⟩, hpos⟩ := h.mem_remaining.1 hr
    exact ⟨⟨r, hheld, rfl⟩, hlabel, hpos⟩

/-- The entries of held resources lead back to them. -/
theorem mapM_follow {table : ResourceTable} (hrows : s.resources = some table) (axis : Axis)
    (rs : List Resource) (h : ∀ r ∈ rs, s.Holds r) :
    ((rs.map fun r => r.entry axis).mapM (follow table)) = .ok rs := by
  refine Draft.mapM_eq_ok_iff.2 (List.forall₂_map_left_iff.2 (List.forall₂_same.2 fun r hr => ?_))
  have hload : load table r.id = .ok (some r) := by
    rw [← find_eq_load hrows]
    exact h r hr
  unfold follow
  rw [show (r.entry axis).position.id = r.id from rfl, hload]
  rfl

/-- One row more than a page holds decides whether another page follows. -/
theorem ofRows_take (rs : List Resource) (limit : UInt32) :
    Page.ofRows (rs.take (limit.toNat + 1)) limit =
      { items := rs.take limit.toNat
        next :=
          if limit.toNat < rs.length then
            (rs.take limit.toNat).getLast?.map Resource.position
          else none } := by
  have hitems : (rs.take (limit.toNat + 1)).take limit.toNat = rs.take limit.toNat := by
    rw [List.take_take]
    congr 1
    omega
  have hmore : limit.toNat < (rs.take (limit.toNat + 1)).length ↔ limit.toNat < rs.length := by
    rw [List.length_take]
    omega
  simp only [Page.ofRows, hitems, hmore]

/-- **A page of a consistent store** is the front of what the listing still holds, and it names a
place to go on from exactly if something is left over. -/
theorem Consistent.page_eq (h : s.Consistent) (scope : Scope) (after : Option Cursor)
    (limit : UInt32) :
    s.page scope after limit =
      .ok {
        items := (s.remaining scope after).take limit.toNat
        next :=
          if limit.toNat < (s.remaining scope after).length then
            ((s.remaining scope after).take limit.toNat).getLast?.map Resource.position
          else none } := by
  obtain ⟨table, hrows⟩ := h.rowing
  obtain ⟨index, hindex, -⟩ := h.indexed scope.axis
  have hfollow := mapM_follow hrows scope.axis
    ((s.remaining scope after).take (limit.toNat + 1))
    fun r hr => (h.mem_remaining.1 (List.mem_of_mem_take hr)).1.1
  unfold page
  rw [hindex, hrows]
  simp only [h.scan_eq hindex, ← List.map_take, hfollow, Draft.ok_bind, ofRows_take]
  rfl

/-- The entries of a scope are as many as its resources. -/
theorem Consistent.scopeSize_eq (h : s.Consistent) (scope : Scope) :
    s.scopeSize scope = (s.listing scope).length := by
  obtain ⟨index, hindex, -⟩ := h.indexed scope.axis
  have hall : s.remaining scope none = s.listing scope :=
    List.filter_eq_self.2 fun _ _ => rfl
  unfold scopeSize
  rw [hindex]
  simp only [h.scan_eq hindex, List.length_map, hall]

/-! ## What a page leaves over -/

/-- Behind the last of some items in order lies what follows them. -/
theorem filter_isAfter_getLast {xs ys : List Resource} {x : Resource}
    (h : (xs ++ ys).Pairwise Before) (hx : xs.getLast? = some x) :
    ((xs ++ ys).filter fun r => r.position.isAfter x.position) = ys := by
  obtain ⟨front, rfl⟩ := List.getLast?_eq_some_iff.1 hx
  obtain ⟨hxs, -, hcross⟩ := List.pairwise_append.1 h
  obtain ⟨-, -, hfront⟩ := List.pairwise_append.1 hxs
  have hgone : ((front ++ [x]).filter fun r => r.position.isAfter x.position) = [] := by
    rw [List.filter_eq_nil_iff]
    intro r hr
    rw [Cursor.isAfter, beq_iff_eq]
    rcases List.mem_append.1 hr with hr | hr
    · exact TableKey.not_lt_of_lt (hfront r hr x (List.mem_singleton.2 rfl))
    · rw [List.mem_singleton.1 hr]
      exact TableKey.compare_self_ne_lt _
  have hkept : (ys.filter fun r => r.position.isAfter x.position) = ys := by
    rw [List.filter_eq_self]
    intro r hr
    rw [Cursor.isAfter, beq_iff_eq]
    exact hcross x (List.mem_append_right _ (List.mem_singleton.2 rfl)) r hr
  rw [List.filter_append, hgone, hkept, List.nil_append]

/-- Going on from the last item of a page, the listing still holds what the page left over. -/
theorem Consistent.remaining_getLast (h : s.Consistent) {scope : Scope} {after : Option Cursor}
    {n : Nat} {x : Resource} (hx : ((s.remaining scope after).take n).getLast? = some x) :
    s.remaining scope (some x.position) = (s.remaining scope after).drop n := by
  have hsplit : (s.remaining scope after).take n ++ (s.remaining scope after).drop n =
      s.remaining scope after := List.take_append_drop n _
  have hfilter : s.remaining scope (some x.position) =
      (s.remaining scope after).filter fun r => r.position.isAfter x.position := by
    have hbehind := (h.mem_remaining.1 (List.mem_of_mem_take (List.mem_of_getLast? hx))).2
    unfold remaining
    rw [List.filter_filter]
    apply List.filter_congr
    intro r _
    -- behind the last item is behind where the page started
    by_cases hr : r.position.isAfter x.position = true
    · have hafter : isBehind after r.position = true := by
        cases after with
        | none => rfl
        | some c =>
          exact beq_iff_eq.2 (TableKey.lt_trans (beq_iff_eq.1 hbehind) (beq_iff_eq.1 hr))
      rw [hafter, Bool.and_true]
      rfl
    · rw [show isBehind (some x.position) r.position = r.position.isAfter x.position from rfl,
        Bool.eq_false_iff.2 hr, Bool.false_and]
  rw [hfilter]
  have hsorted := h.remaining_sorted scope after
  rw [← hsplit] at hsorted
  have hlast := filter_isAfter_getLast hsorted hx
  rwa [hsplit] at hlast

end Store

end ObjectRegistry
