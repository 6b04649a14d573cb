import ObjectRegistry.Proofs.Calls
import ObjectRegistry.Proofs.Methods

/-!
# Walks over a consistent store

What a walk would still return is a piece of the listing, `ahead`. One step of a walk takes the
front of it and leaves a walk that goes on behind the last resource taken, or is over because
nothing is left (`Fetched`, `Walk.next_on`). Nothing more about pages is needed: that a walk reads
the listing to its end, in the number of pages that the library allows for it, is an induction on
the length of `ahead` (`collectFrom_on`, `search_on`).
-/

namespace ObjectRegistry

/-- The size of a page, spelled out. -/
theorem PageRequest.effectiveLimit_eq (request : PageRequest) :
    request.effectiveLimit.toNat =
      if request.limit = 0 then 100 else min request.limit.toNat 1000 := by
  have hgreatest : Page.greatestSize.toNat = 1000 := rfl
  unfold effectiveLimit
  split
  next => rfl
  next =>
    split
    next hle =>
      have hle : request.limit.toNat ≤ Page.greatestSize.toNat := hle
      omega
    next hgt =>
      have hgt : ¬ request.limit.toNat ≤ Page.greatestSize.toNat := hgt
      omega

/-- A page holds one item at least and 1000 at most. -/
theorem PageRequest.effectiveLimit_bounds (request : PageRequest) :
    1 ≤ request.effectiveLimit.toNat ∧ request.effectiveLimit.toNat ≤ 1000 := by
  rw [effectiveLimit_eq]
  split
  next => decide
  next hsome =>
    have hne : request.limit.toNat ≠ 0 := fun hzero => hsome (UInt32.toNat_inj.1 hzero)
    omega

namespace Walk

/-! ## Walks only look -/

theorem next_looks (w : Walk) : Access.Looks w.next := by
  rw [next_eq]
  split
  next => exact Access.Looks.pure _
  next => exact Access.Looks.bind (Registry.page_looks _ _) fun _ => Access.Looks.pure _

theorem collectFrom_looks (fuel : Nat) (collected : List Resource) (w : Walk) :
    Access.Looks (collectFrom fuel collected w) := by
  induction fuel generalizing collected w with
  | zero => exact Access.Looks.throw _
  | succ fuel ih =>
    apply Access.Looks.bind w.next_looks
    intro page
    obtain ⟨items?, behind⟩ := page
    cases items? with
    | none => exact Access.Looks.pure _
    | some items => exact ih (collected ++ items) behind

theorem search_looks {α : Type} (pick : List Resource → Option α) (fuel : Nat) (w : Walk) :
    Access.Looks (search pick fuel w) := by
  induction fuel generalizing w with
  | zero => exact Access.Looks.throw _
  | succ fuel ih =>
    apply Access.Looks.bind w.next_looks
    intro page
    obtain ⟨items?, behind⟩ := page
    cases items? with
    | none => exact Access.Looks.pure _
    | some items =>
      cases hfound : pick items with
      | none => simpa [hfound] using ih behind
      | some found => simpa [hfound] using Access.Looks.pure _

theorem bound_looks (w : Walk) : Access.Looks w.bound
  | .embedded _ => rfl
  | .unreachable => rfl

theorem collect_looks (w : Walk) : Access.Looks w.collect :=
  Access.Looks.bind w.bound_looks fun _ => collectFrom_looks _ _ _

/-! ## One step of a walk -/

variable {s : Store}

/-- What a walk would still return from a store. -/
def ahead (w : Walk) (s : Store) : List Resource :=
  if w.finished then [] else s.remaining w.scope w.after

/-- The number of items that the next page may hold. -/
def size (w : Walk) : Nat :=
  (PageRequest.effectiveLimit { after := w.after, limit := w.pageSize }).toNat

theorem size_pos (w : Walk) : 0 < w.size := (PageRequest.effectiveLimit_bounds _).1

theorem ahead_finished {w : Walk} (hover : w.finished = true) : w.ahead s = [] := by
  rw [ahead, if_pos hover]

theorem ahead_running {w : Walk} (hon : w.finished = false) :
    w.ahead s = s.remaining w.scope w.after := by
  rw [ahead, hon]
  rfl

/-- A walk with something ahead is not over. -/
theorem running_of_ahead {w : Walk} (hsome : w.ahead s ≠ []) : w.finished = false := by
  by_contra hover
  exact hsome (ahead_finished (by simpa using hover))

/-- A step of a walk: the front of what is ahead was returned, and the walk behind it is over with
nothing left or goes on from the last resource returned. -/
structure Fetched (w : Walk) (s : Store) (items : Option (List Resource)) (behind : Walk) :
    Prop where
  scope : behind.scope = w.scope
  returned : items.getD [] = (w.ahead s).take w.size
  none_iff : items = none ↔ w.ahead s = []
  goesOn : (behind.finished = true ∧ (w.ahead s).drop w.size = []) ∨
    (behind.finished = false ∧ ∃ x, ((w.ahead s).take w.size).getLast? = some x ∧
      behind.after = some x.position)

/-- A walk that is over stays over. -/
theorem next_on_finished {w : Walk} (hover : w.finished = true) (b : Backing) :
    w.next.on b = (.ok (none, w), b) := by
  rw [next_eq, if_pos hover]
  rfl

/-- A walk that is not over answers with the next page, or fails with it. -/
theorem next_on_running {w : Walk} (hon : w.finished = false) (s : Store) :
    w.next.on (.embedded s) =
      ((s.page w.scope w.after (PageRequest.effectiveLimit
          { after := w.after, limit := w.pageSize })).map fun page =>
        (if page.items.isEmpty then none else some page.items,
          { w with after := page.next, finished := page.next.isNone }), .embedded s) := by
  rw [next_eq, hon, if_neg Bool.false_ne_true]
  have hread : (Registry.page w.scope { after := w.after, limit := w.pageSize }).on (.embedded s) =
      (s.page w.scope w.after (PageRequest.effectiveLimit
        { after := w.after, limit := w.pageSize }), .embedded s) := rfl
  rw [Access.on_bind, hread]
  cases s.page w.scope w.after (PageRequest.effectiveLimit
    { after := w.after, limit := w.pageSize }) <;> rfl

/-- The walk behind a page goes on where the page says, if it does. -/
theorem next_on_page {w : Walk} {s : Store} {page : Page} (hon : w.finished = false)
    (hpage : s.page w.scope w.after (PageRequest.effectiveLimit
      { after := w.after, limit := w.pageSize }) = .ok page) :
    w.next.on (.embedded s) =
      (.ok (if page.items.isEmpty then none else some page.items,
        { w with after := page.next, finished := page.next.isNone }), .embedded s) := by
  rw [next_on_running hon, hpage]
  rfl

/-- **One step of a walk** over a consistent store succeeds, changes nothing and takes the front
of what is ahead. -/
theorem next_on (h : s.Consistent) (w : Walk) :
    ∃ items behind, w.next.on (.embedded s) = (.ok (items, behind), .embedded s) ∧
      w.Fetched s items behind := by
  cases hover : w.finished with
  | true =>
    have hahead : w.ahead s = [] := ahead_finished hover
    refine ⟨none, w, next_on_finished hover _, rfl, ?_, ?_, Or.inl ⟨hover, ?_⟩⟩
    · rw [hahead, List.take_nil]
      rfl
    · simp [hahead]
    · rw [hahead, List.drop_nil]
  | false =>
    have hahead : w.ahead s = s.remaining w.scope w.after := ahead_running hover
    obtain ⟨page, hpage, hitems, hgoesOn⟩ : ∃ page,
        s.page w.scope w.after (PageRequest.effectiveLimit
          { after := w.after, limit := w.pageSize }) = .ok page ∧
        page.items = (w.ahead s).take w.size ∧
        page.next = if w.size < (w.ahead s).length then
          ((w.ahead s).take w.size).getLast?.map Resource.position else none := by
      rw [hahead]
      exact ⟨_, h.page_eq _ _ _, rfl, rfl⟩
    refine ⟨_, _, next_on_page hover hpage, rfl, ?_, ?_, ?_⟩
    · rw [hitems]
      by_cases hnil : (w.ahead s).take w.size = []
      · simp [hnil]
      · simp [hnil]
    · have hpos := Nat.pos_iff_ne_zero.1 w.size_pos
      simp [hitems, hpos]
    · rw [hgoesOn]
      by_cases hmore : w.size < (w.ahead s).length
      · -- the page is full and has a last resource, behind which the walk goes on
        right
        have hne : (w.ahead s).take w.size ≠ [] := by
          rw [ne_eq, List.take_eq_nil_iff, not_or]
          exact ⟨Nat.pos_iff_ne_zero.1 w.size_pos,
            List.length_pos_iff.1 (Nat.lt_of_le_of_lt (Nat.zero_le _) hmore)⟩
        have hlast := List.getLast?_eq_some_getLast hne
        rw [if_pos hmore, hlast]
        exact ⟨rfl, _, rfl, rfl⟩
      · left
        rw [if_neg hmore]
        exact ⟨rfl, List.drop_eq_nil_of_le (Nat.le_of_not_lt hmore)⟩

/-- On the same store, what is ahead of the walk behind a page is what the page left over. -/
theorem Fetched.ahead_eq {w behind : Walk} {items : Option (List Resource)} (h : s.Consistent)
    (hfetched : w.Fetched s items behind) : behind.ahead s = (w.ahead s).drop w.size := by
  rcases hfetched.goesOn with ⟨hover, hnil⟩ | ⟨hon, x, hx, hafter⟩
  · rw [ahead_finished hover, hnil]
  · have hsome : w.ahead s ≠ [] := by
      intro hnil
      rw [hnil, List.take_nil] at hx
      cases hx
    rw [ahead_running (running_of_ahead hsome)] at hx ⊢
    rw [ahead_running hon, hafter, hfetched.scope]
    exact h.remaining_getLast hx

theorem Fetched.items_eq {w behind : Walk} {items : List Resource}
    (hfetched : w.Fetched s (some items) behind) :
    items = (w.ahead s).take w.size ∧ w.ahead s ≠ [] :=
  ⟨hfetched.returned, fun h => nomatch hfetched.none_iff.2 h⟩

/-- A page that returns something leaves less. -/
theorem Fetched.length_lt {w behind : Walk} {items : List Resource} (h : s.Consistent)
    (hfetched : w.Fetched s (some items) behind) :
    (behind.ahead s).length < (w.ahead s).length := by
  have hpos := w.size_pos
  have hsome := List.length_pos_iff.2 hfetched.items_eq.2
  rw [hfetched.ahead_eq h, List.length_drop]
  omega

/-! ## Walks read to their end -/

/-- Reading a walk to its end collects what is ahead, in one page more than it has items at most. -/
theorem collectFrom_on (h : s.Consistent) {fuel : Nat} {w : Walk} (collected : List Resource)
    (hfuel : (w.ahead s).length < fuel) :
    (collectFrom fuel collected w).on (.embedded s) =
      (.ok (collected ++ w.ahead s), .embedded s) := by
  induction fuel generalizing w collected with
  | zero => exact absurd hfuel (Nat.not_lt_zero _)
  | succ fuel ih =>
    obtain ⟨items, behind, hnext, hfetched⟩ := next_on h w
    unfold collectFrom
    rw [Access.on_bind_ok hnext]
    cases items with
    | none => simp [hfetched.none_iff.1 rfl]
    | some items =>
      have hless := hfetched.length_lt h
      have hrest := ih (collected ++ items) (w := behind) (by omega)
      -- the page and what is ahead of the walk behind it make up what was ahead
      have hwhole : items ++ behind.ahead s = w.ahead s := by
        rw [hfetched.items_eq.1, hfetched.ahead_eq h, List.take_append_drop]
      rw [List.append_assoc, hwhole] at hrest
      exact hrest

/-- Searching a walk finds the first match ahead. -/
theorem search_on (h : s.Consistent) {fuel : Nat} {w : Walk} (wanted : Resource → Bool)
    (hfuel : (w.ahead s).length < fuel) :
    (search (fun items => items.find? wanted) fuel w).on (.embedded s) =
      (.ok ((w.ahead s).find? wanted), .embedded s) := by
  induction fuel generalizing w with
  | zero => exact absurd hfuel (Nat.not_lt_zero _)
  | succ fuel ih =>
    obtain ⟨items, behind, hnext, hfetched⟩ := next_on h w
    unfold search
    rw [Access.on_bind_ok hnext]
    cases items with
    | none => simp [hfetched.none_iff.1 rfl]
    | some items =>
      have hless := hfetched.length_lt h
      have hrest := ih (w := behind) (by omega)
      have hwhole : (w.ahead s).find? wanted =
          (items.find? wanted).or ((behind.ahead s).find? wanted) := by
        rw [hfetched.items_eq.1, hfetched.ahead_eq h, ← List.find?_append,
          List.take_append_drop]
      rw [hwhole]
      cases hfound : items.find? wanted with
      | none => simpa [hfound] using hrest
      | some r => simp [hfound]

/-- No walk has more ahead than its scope lists. -/
theorem length_ahead_le (h : s.Consistent) (w : Walk) :
    (w.ahead s).length ≤ s.scopeSize w.scope := by
  rw [h.scopeSize_eq]
  unfold ahead
  split
  next => exact Nat.zero_le _
  next => exact List.length_filter_le _ _

theorem collect_on (h : s.Consistent) (w : Walk) :
    w.collect.on (.embedded s) = (.ok (w.ahead s), .embedded s) := by
  have hbound : w.bound.on (.embedded s) = (.ok (s.scopeSize w.scope + 2), .embedded s) := rfl
  have hlength := length_ahead_le h w
  unfold collect
  rw [Access.on_bind_ok hbound, collectFrom_on h [] (by omega), List.nil_append]

/-- A walk that has not begun has its whole scope ahead. -/
theorem ahead_along (scope : Scope) (pageSize : UInt32) :
    (along scope pageSize).ahead s = s.listing scope :=
  List.filter_eq_self.2 fun _ _ => rfl

/-- Searching a whole scope finds the first match of its listing, with any size of pages. -/
theorem search_along (h : s.Consistent) {scope : Scope} {fuel : Nat} (pageSize : UInt32)
    (wanted : Resource → Bool) (hfuel : s.scopeSize scope < fuel) :
    (search (fun items => items.find? wanted) fuel (along scope pageSize)).on (.embedded s) =
      (.ok ((s.listing scope).find? wanted), .embedded s) := by
  have hlength := length_ahead_le h (along scope pageSize)
  rw [search_on h wanted (Nat.lt_of_le_of_lt hlength hfuel), ahead_along]

end Walk

/-- The earliest match is searched in the listing of the hash. -/
theorem Registry.findDuplicate_on {s : Store} (h : s.Consistent) (bucket hash : String) :
    (findDuplicate bucket hash).on (.embedded s) =
      (.ok ((s.listing ⟨.hash, hash⟩).find? fun r => r.bucket == bucket), .embedded s) := by
  have hbound : (Walk.along ⟨.hash, hash⟩ 0).bound.on (.embedded s) =
      (.ok (s.scopeSize ⟨.hash, hash⟩ + 2), .embedded s) := rfl
  unfold findDuplicate
  rw [Access.on_bind_ok hbound]
  exact Walk.search_along h 0 _ (by omega)

theorem Registry.findDuplicate_looks (bucket hash : String) :
    Access.Looks (findDuplicate bucket hash) :=
  Access.Looks.bind (Walk.bound_looks _) fun _ => Walk.search_looks _ _ _

end ObjectRegistry
