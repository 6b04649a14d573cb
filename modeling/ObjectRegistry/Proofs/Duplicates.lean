import ObjectRegistry.Proofs.Visits

/-!
# Duplicates

Content is known by its hash, and a bucket has it if it holds a resource with that hash. Of several
the first by creation time and id stands for the content (`Store.Earliest`).

The search for it goes along the listing of the hash, across all buckets, page by page, and stops at
the first resource of the bucket. Any list in order serves as well, as long as the wanted resources
on it are the matches (`Store.find?_eq_some_iff`); the listing of the bucket is another one, and so
the first resource on it with the hash is the same.
-/

namespace ObjectRegistry

namespace Store

variable {s : Store} {bucket hash : String} {r r' : Resource} {rs : List Resource}
  {wanted : Resource → Bool}

/-- A resource of a bucket with a content hash. -/
structure Matches (s : Store) (bucket hash : String) (r : Resource) : Prop where
  held : s.Holds r
  bucket : r.bucket = bucket
  hash : r.hash = hash

/-- The first resource of a bucket with a content hash, by creation time and id. -/
structure Earliest (s : Store) (bucket hash : String) (r : Resource) : Prop where
  isMatch : s.Matches bucket hash r
  first : ∀ other, s.Matches bucket hash other → other = r ∨ r.Earlier other

/-- There is one earliest resource at most. -/
theorem Earliest.unique (h : s.Earliest bucket hash r) (h' : s.Earliest bucket hash r') :
    r = r' := by
  rcases h.first r' h'.isMatch with rfl | hless
  · rfl
  · rcases h'.first r h.isMatch with rfl | hgreater
    · rfl
    · exact absurd (before_iff.2 hgreater) (TableKey.not_lt_of_lt (before_iff.2 hless))

/-! ## The first of a list in order -/

/-- What is found in a list in order comes before all else that is wanted. -/
theorem eq_or_before_of_find? (hrs : rs.Pairwise Before) (hfound : rs.find? wanted = some r)
    {other : Resource} (hother : other ∈ rs) (hwanted : wanted other = true) :
    other = r ∨ Before r other := by
  induction rs with
  | nil => cases hother
  | cons x rest ih =>
    obtain ⟨hx, hrest⟩ := List.pairwise_cons.1 hrs
    cases hhead : wanted x with
    | true =>
      rw [List.find?_cons_of_pos hhead] at hfound
      obtain rfl := Option.some.inj hfound
      rcases List.mem_cons.1 hother with rfl | hlater
      · exact Or.inl rfl
      · exact Or.inr (hx other hlater)
    | false =>
      rw [List.find?_cons_of_neg (by simp [hhead])] at hfound
      rcases List.mem_cons.1 hother with rfl | hlater
      · rw [hwanted] at hhead
        cases hhead
      · exact ih hrest hfound hlater

/-- **The first match is the earliest one** on every list in order that has all matches. -/
theorem find?_eq_some_iff (hrs : rs.Pairwise Before)
    (hmem : ∀ r, s.Matches bucket hash r ↔ r ∈ rs ∧ wanted r = true) :
    rs.find? wanted = some r ↔ s.Earliest bucket hash r := by
  have hearliest : ∀ {x}, rs.find? wanted = some x → s.Earliest bucket hash x := by
    intro x hfound
    refine ⟨(hmem x).2 ⟨List.mem_of_find?_eq_some hfound, List.find?_some hfound⟩, ?_⟩
    intro other hother
    obtain ⟨hlisted, hwanted⟩ := (hmem other).1 hother
    exact (eq_or_before_of_find? hrs hfound hlisted hwanted).imp_right before_iff.1
  refine ⟨hearliest, ?_⟩
  intro hr
  cases hfound : rs.find? wanted with
  | some x => rw [(hearliest hfound).unique hr]
  | none =>
    obtain ⟨hlisted, hwanted⟩ := (hmem r).1 hr.isMatch
    exact absurd hwanted (List.find?_eq_none.1 hfound r hlisted)

/-- Nothing is found on a list that has all matches only if there is none. -/
theorem find?_eq_none_iff (hmem : ∀ r, s.Matches bucket hash r ↔ r ∈ rs ∧ wanted r = true) :
    rs.find? wanted = none ↔ ¬ ∃ r, s.Matches bucket hash r := by
  rw [List.find?_eq_none, not_exists]
  refine forall_congr' fun r => ?_
  rw [hmem, not_and]

namespace Consistent

/-- The matches are those of the listing of the hash that are in the bucket. -/
theorem matches_iff_of_hash (h : s.Consistent) (r : Resource) :
    s.Matches bucket hash r ↔ r ∈ s.listing ⟨.hash, hash⟩ ∧ (r.bucket == bucket) = true := by
  rw [h.mem_listing, beq_iff_eq]
  exact ⟨fun hr => ⟨⟨hr.held, hr.hash⟩, hr.bucket⟩, fun hr => ⟨hr.1.1, hr.2, hr.1.2⟩⟩

/-- The matches are those of the listing of the bucket that have the hash. -/
theorem matches_iff_of_bucket (h : s.Consistent) (r : Resource) :
    s.Matches bucket hash r ↔ r ∈ s.listing ⟨.bucket, bucket⟩ ∧ (r.hash == hash) = true := by
  rw [h.mem_listing, beq_iff_eq]
  exact ⟨fun hr => ⟨⟨hr.held, hr.bucket⟩, hr.hash⟩, fun hr => ⟨hr.1.1, hr.1.2, hr.2⟩⟩

/-- The first resource of the bucket on the listing of the hash is the first with the hash on the
listing of the bucket. -/
theorem find?_hash_eq_find?_bucket (h : s.Consistent) (bucket hash : String) :
    ((s.listing ⟨.hash, hash⟩).find? fun r => r.bucket == bucket) =
      (s.listing ⟨.bucket, bucket⟩).find? fun r => r.hash == hash := by
  refine Option.ext fun r => ?_
  rw [find?_eq_some_iff (h.listing_sorted _) h.matches_iff_of_hash,
    find?_eq_some_iff (h.listing_sorted _) h.matches_iff_of_bucket]

/-- **The search for a duplicate is complete**: it finds the earliest match, and nothing only if
there is none. -/
theorem findDuplicate_cases (h : s.Consistent) (bucket hash : String) :
    (∃ r, s.Earliest bucket hash r ∧
      (Registry.findDuplicate bucket hash).on (.embedded s) = (.ok (some r), .embedded s)) ∨
    ((¬ ∃ r, s.Matches bucket hash r) ∧
      (Registry.findDuplicate bucket hash).on (.embedded s) = (.ok none, .embedded s)) := by
  have hsearch := Registry.findDuplicate_on h bucket hash
  cases hfound : (s.listing ⟨.hash, hash⟩).find? fun r => r.bucket == bucket with
  | some r =>
    rw [hfound] at hsearch
    exact Or.inl ⟨r, (find?_eq_some_iff (h.listing_sorted _) h.matches_iff_of_hash).1 hfound,
      hsearch⟩
  | none =>
    rw [hfound] at hsearch
    exact Or.inr ⟨(find?_eq_none_iff h.matches_iff_of_hash).1 hfound, hsearch⟩

end Consistent

end Store

namespace Registry

variable {s : Store}

/-- **A duplicate is the earliest match**, however many other resources share its hash. Over every
store that a run leads to, the search for content in a bucket answers the resource of the bucket
with that hash that comes first by creation time and id, and none exactly if there is none. It is
the first with that hash on the listing of the bucket. The search needs no bound: with pages of any
size, as soon as it may visit more pages than resources have the hash, it ends with that answer. -/
theorem earliest_duplicate (hs : s.Reachable) (bucket hash : String) :
    ∃ found, (findDuplicate bucket hash).on (.embedded s) = (.ok found, .embedded s) ∧
      (∀ r, found = some r ↔ s.Earliest bucket hash r) ∧
      (found = none ↔ ¬ ∃ r, s.Matches bucket hash r) ∧
      (∀ size, ∃ all,
        (Walk.along ⟨.bucket, bucket⟩ size).collect.on (.embedded s) = (.ok all, .embedded s) ∧
        found = all.find? fun r => r.hash == hash) ∧
      ∀ size fuel, s.scopeSize ⟨.hash, hash⟩ < fuel →
        (Walk.search (fun items => items.find? fun r => r.bucket == bucket) fuel
          (Walk.along ⟨.hash, hash⟩ size)).on (.embedded s) = (.ok found, .embedded s) := by
  have h := hs.consistent
  refine ⟨_, findDuplicate_on h bucket hash,
    fun r => Store.find?_eq_some_iff (h.listing_sorted _) h.matches_iff_of_hash,
    Store.find?_eq_none_iff h.matches_iff_of_hash, ?other_index,
    fun size fuel => Walk.search_along h size _⟩
  case other_index =>
    intro size
    refine ⟨_, Walk.collect_on h _, ?_⟩
    rw [Walk.ahead_along, h.find?_hash_eq_find?_bucket]

/-- Three resources of another bucket with the hash, all earlier than the two of the bucket, and one
of the bucket with another hash that is earlier still. -/
def shadowing : List Step :=
  [.create ⟨"b", "x", 7, "h", 1⟩, .create ⟨"y1", "y", 4, "h", 2⟩, .create ⟨"a", "x", 7, "h", 3⟩,
    .create ⟨"y2", "y", 5, "h", 4⟩, .create ⟨"y0", "y", 6, "h", 5⟩, .create ⟨"c", "x", 3, "k", 6⟩]

/-- The store that holds them. -/
def shadowed : Store :=
  match (Session.run shadowing (Session.new .standard 0)).2.backing with
  | .embedded s => s
  | .unreachable => .blank

/-- With pages of one resource, the search goes over three pages of the other bucket. -/
theorem earliest_duplicate_shadowed :
    shadowed.Reachable ∧ shadowed.scopeSize ⟨.hash, "h"⟩ < 6 ∧
      shadowed.Earliest "x" "h" ⟨"a", "x", 7, "h", 3⟩ ∧
      (¬ ∃ r, shadowed.Matches "y" "k" r) ∧
      (Walk.search (fun items => items.find? fun r => r.bucket == "x") 6
        (Walk.along ⟨.hash, "h"⟩ 1)).on (.embedded shadowed) =
          (.ok (some ⟨"a", "x", 7, "h", 3⟩), .embedded shadowed) := by
  have hreachable : shadowed.Reachable :=
    ⟨.standard, 0, shadowing, by simp [shadowing, Step.Checked], rfl⟩
  have hsize : shadowed.scopeSize ⟨.hash, "h"⟩ < 6 := by decide
  have hfinds : (findDuplicate "x" "h").on (.embedded shadowed) =
      (.ok (some ⟨"a", "x", 7, "h", 3⟩), .embedded shadowed) := rfl
  have hmisses : (findDuplicate "y" "k").on (.embedded shadowed) =
      (.ok none, .embedded shadowed) := rfl
  obtain ⟨found, hfound, hearliest, -, -, hpages⟩ := earliest_duplicate hreachable "x" "h"
  rw [hfinds] at hfound
  cases hfound
  obtain ⟨missed, hmissed, -, hnone, -⟩ := earliest_duplicate hreachable "y" "k"
  rw [hmisses] at hmissed
  cases hmissed
  exact ⟨hreachable, hsize, (hearliest _).1 rfl, hnone.1 rfl, hpages 1 6 hsize⟩

end Registry

end ObjectRegistry
