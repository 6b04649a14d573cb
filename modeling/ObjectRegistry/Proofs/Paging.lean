import ObjectRegistry.Command.Perform
import ObjectRegistry.Proofs.Tokens
import ObjectRegistry.Proofs.Visits

/-!
# Paging

One page is the front of what lies in its scope behind its position, and it names a place to go on
from if something is left over (`Registry.page_exact`).

A caller who keeps nothing but a token between two pages sees what a walk sees: the same pages, and
the end at the same time (`Paging.pages_eq`). The token is a text, so this needs that a position can
be read back from its token. It can if its id is not empty (`Cursor.decode_encode`); and the
position behind a page is that of a resource of the store, which has an id.

The caller and the walk are in step when the token is that of the position of the walk
(`Paging.beside`). A page keeps them in step, whatever storage it is fetched from, because both ask
for it in the same way (`next_beside`); and what others do to the storage between two pages is no
concern of either.
-/

namespace ObjectRegistry

open Access

/-- The position behind a page is that of a resource, which has an id. -/
theorem Store.Consistent.next_id_ne {s : Store} (h : s.Consistent) {scope : Scope}
    {after : Option Cursor} {limit : UInt32} {page : Page} {c : Cursor}
    (hpage : s.page scope after limit = .ok page) (hnext : page.next = some c) : c.id ≠ "" := by
  rw [h.page_eq] at hpage
  injection hpage with hpage
  subst hpage
  obtain ⟨x, hx, rfl⟩ : ∃ x, x ∈ s.remaining scope after ∧ x.position = c := by
    simp only at hnext
    split at hnext
    next =>
      obtain ⟨x, hlast, hx⟩ := Option.map_eq_some_iff.1 hnext
      exact ⟨x, List.mem_of_mem_take (List.mem_of_getLast? hlast), hx⟩
    next => cases hnext
  exact (h.wellFormed x (h.mem_remaining.1 hx).1.1).1

/-! ## What a page shows -/

namespace Registry

/-- **One page is exactly right.** Over every store that a run leads to, for every scope, every
position to start behind (be there a resource or not) and every size asked for, the page shows the
first of the resources that lie in the scope and behind the position, in the order of their
positions, with all their fields and as many as the size allows. It names the position of its last
item if there are more, and nothing otherwise. The size is that asked for, 100 if none is, and
1000 at most. A resource whose label continues the key of the scope, or is continued by it, is not
on the page. -/
theorem page_exact {s : Store} (hs : s.Reachable) (scope : Scope) (request : PageRequest) :
    ∃ (rows : List Resource) (page : Page) (size : Nat),
      (Registry.page scope request).on (.embedded s) = (.ok page, .embedded s) ∧
      size = request.effectiveLimit.toNat ∧
      size = (if request.limit = 0 then 100 else min request.limit.toNat 1000) ∧
      1 ≤ size ∧ size ≤ 1000 ∧
      rows.Pairwise Resource.Earlier ∧
      (∀ r, r ∈ rows ↔ s.Holds r ∧ r.record.label scope.axis = scope.key ∧
        ∀ c, request.after = some c → c.Precedes r.position) ∧
      page.items = rows.take size ∧
      (size < rows.length → ∃ last, page.items.getLast? = some last ∧
        page.next = some last.position) ∧
      (rows.length ≤ size → page.next = none) ∧
      ∀ r ∈ page.items, ∀ more, more ≠ "" →
        r.record.label scope.axis ≠ scope.key ++ more ∧
        r.record.label scope.axis ++ more ≠ scope.key := by
  have h : s.Consistent := hs.consistent
  obtain ⟨hpos, hgreatest⟩ := request.effectiveLimit_bounds
  have hrows : ∀ r, r ∈ s.remaining scope request.after ↔
      s.Holds r ∧ r.record.label scope.axis = scope.key ∧
        ∀ c, request.after = some c → c.Precedes r.position := by
    intro r
    rw [h.mem_remaining, and_assoc, Store.isBehind_iff]
  refine ⟨s.remaining scope request.after, _, request.effectiveLimit.toNat,
    congrArg (fun answer => (answer, Backing.embedded s)) (h.page_eq scope request.after _), rfl,
    request.effectiveLimit_eq, hpos, hgreatest,
    (h.remaining_sorted scope request.after).imp Store.before_iff.1, hrows, rfl, ?more, ?last,
    ?labels⟩
  case more =>
    intro hmore
    -- a page of one item at least that leaves something over has a last item
    have hne : (s.remaining scope request.after).take request.effectiveLimit.toNat ≠ [] := by
      intro hnil
      have hlength := congrArg List.length hnil
      rw [List.length_take, List.length_nil] at hlength
      omega
    have hlast := List.getLast?_eq_some_getLast hne
    refine ⟨_, hlast, ?_⟩
    show (if _ then _ else none) = _
    rw [if_pos hmore, hlast]
    rfl
  case last =>
    intro hall
    exact if_neg (Nat.not_lt_of_le hall)
  case labels =>
    intro r hr more hmore
    have hlabel := ((hrows r).1 (List.mem_of_mem_take hr)).2.1
    have hlonger : scope.key ++ more ≠ scope.key := by
      intro hsame
      have hlength := congrArg String.length hsame
      rw [String.length_append] at hlength
      exact hmore (String.length_eq_zero_iff.1 (by omega))
    rw [hlabel]
    exact ⟨hlonger.symm, hlonger⟩

/-- Resources of one second under the hash `aa`, one of which is removed again, and others under
hashes that continue it or are continued by it. -/
def crowding : List Step :=
  [.create ⟨"p", "x", 5, "aa", 1⟩, .create ⟨"s", "y", 5, "aa", 2⟩, .create ⟨"q", "x", 5, "aab", 3⟩,
    .create ⟨"r", "x", 5, "aa", 4⟩, .create ⟨"t", "x", 5, "a", 5⟩, .delete "p"]

/-- The store that holds them. -/
def crowded : Store :=
  match (Session.run crowding (Session.new .standard 0)).2.backing with
  | .embedded s => s
  | .unreachable => .blank

/-- Behind the position of the removed resource lie two more: a page of one names the place to go on
from, and a page of two does not. -/
theorem page_exact_crowded :
    crowded.Reachable ∧
      (Registry.page ⟨.hash, "aa"⟩ ⟨some ⟨5, "p"⟩, 1⟩).on (.embedded crowded) =
        (.ok ⟨[⟨"r", "x", 5, "aa", 4⟩], some ⟨5, "r"⟩⟩, .embedded crowded) ∧
      (Registry.page ⟨.hash, "aa"⟩ ⟨some ⟨5, "p"⟩, 2⟩).on (.embedded crowded) =
        (.ok ⟨[⟨"r", "x", 5, "aa", 4⟩, ⟨"s", "y", 5, "aa", 2⟩], none⟩, .embedded crowded) ∧
      ∃ rows : List Resource, rows.Pairwise Resource.Earlier ∧
        (∀ r, r ∈ rows ↔ crowded.Holds r ∧ r.hash = "aa" ∧
          ∀ c : Cursor, some ⟨5, "p"⟩ = some c → c.Precedes r.position) ∧
        rows.take 1 = [⟨"r", "x", 5, "aa", 4⟩] := by
  have hreachable : crowded.Reachable :=
    ⟨.standard, 0, crowding, by simp [crowding, Step.Checked], rfl⟩
  have hone : (Registry.page ⟨.hash, "aa"⟩ ⟨some ⟨5, "p"⟩, 1⟩).on (.embedded crowded) =
      (.ok ⟨[⟨"r", "x", 5, "aa", 4⟩], some ⟨5, "r"⟩⟩, .embedded crowded) := rfl
  obtain ⟨rows, page, size, hpage, -, hsize, -, -, hsorted, hrows, hitems, -⟩ :=
    page_exact hreachable ⟨.hash, "aa"⟩ ⟨some ⟨5, "p"⟩, 1⟩
  rw [hone] at hpage
  cases hpage
  obtain rfl : size = 1 := hsize
  exact ⟨hreachable, hone, rfl, rows, hsorted, hrows, hitems.symm⟩

end Registry

/-! ## Callers with a token -/

/-- A caller who reads a scope page by page and keeps the token of the last page. -/
structure Paging where
  scope : Scope
  /-- The size asked for, 0 for the default. -/
  limit : UInt32
  token : Option String
  /-- The last page had no token, so there is nothing more to ask for. -/
  ended : Bool

namespace Paging

/-- A caller at the beginning. -/
def along (scope : Scope) (limit : UInt32) : Paging where
  scope
  limit
  token := none
  ended := false

/-- Where the page for a token starts. -/
def start : Option String → Start
  | none => .beginning
  | some token => .token token

/-- Asks for the page behind the token, unless the caller is through. -/
def next (p : Paging) : Access (Option (List Resource) × Paging) := do
  if p.ended then return (none, p)
  let page ← Session.listPage p.scope (start p.token) p.limit
  let behind := { p with token := page.next.map Cursor.encode, ended := page.next.isNone }
  return (if page.items.isEmpty then none else some page.items, behind)

/-- The pages that the caller reads in the course of some turns, and the caller behind them. -/
def read : List Turn → Backing → Paging → List Visit × Paging
  | [], _, p => ([], p)
  | .fetch :: rest, b, p =>
    match p.next.on b with
    | (.ok (items, p), b') =>
      let (visits, p) := read rest b' p
      (⟨b, .ok items⟩ :: visits, p)
    | (.error e, b') =>
      let (visits, p) := read rest b' p
      (⟨b, .error e⟩ :: visits, p)
  | .resize limit :: rest, b, p => read rest b { p with limit }
  | .change change :: rest, b, p => read rest (change.on b) p

/-- The walk behind some turns. -/
def walked : List Turn → Backing → Walk → Walk
  | [], _, w => w
  | .fetch :: rest, b, w =>
    match w.next.on b with
    | (.ok (_, w), b) => walked rest b w
    | (.error _, b) => walked rest b w
  | .resize pageSize :: rest, b, w => walked rest b (w.resize pageSize)
  | .change change :: rest, b, w => walked rest (change.on b) w

/-- The caller in step with a walk. -/
def beside (w : Walk) : Paging where
  scope := w.scope
  limit := w.pageSize
  token := w.after.map Cursor.encode
  ended := w.finished

/-- A walk whose position has a token that can be read back. -/
def Tokened (w : Walk) : Prop := ∀ c, w.after = some c → c.id ≠ ""

variable {w : Walk} {s : Store}

theorem startPosition_beside (h : Tokened w) :
    Session.startPosition (start (beside w).token) = .ok w.after := by
  cases hafter : w.after with
  | none =>
    unfold beside
    rw [hafter]
    rfl
  | some c =>
    unfold beside
    rw [hafter]
    show (Cursor.decode c.encode).map some = .ok (some c)
    rw [Cursor.decode_encode (h c hafter)]
    rfl

/-- **One page keeps the caller in step**, whatever storage it is read from. -/
theorem next_beside (h : Tokened w) (b : Backing) :
    (beside w).next.on b =
      ((w.next.on b).1.map fun (items, behind) => (items, beside behind), (w.next.on b).2) := by
  unfold next
  rw [Walk.next_eq]
  by_cases hover : w.finished = true
  · rw [if_pos hover, if_pos (show (beside w).ended = true from hover)]
    rfl
  · rw [if_neg hover, if_neg (show ¬ (beside w).ended = true from hover)]
    unfold Session.listPage
    rw [startPosition_beside h]
    have hsame : (check (.ok w.after) >>= fun after =>
        Registry.page (beside w).scope { after, limit := (beside w).limit }).on b =
        (Registry.page w.scope { after := w.after, limit := w.pageSize }).on b :=
      on_bind_ok (on_check _ _) _
    rcases hpage : (Registry.page w.scope { after := w.after, limit := w.pageSize }).on b with
      ⟨e | page, b'⟩
    · rw [hpage] at hsame
      rw [on_bind_error hsame, on_bind_error hpage]
      rfl
    · rw [hpage] at hsame
      rw [on_bind_ok hsame, on_bind_ok hpage]
      rfl

/-- Over a consistent store, a walk goes on from a position with an id. -/
theorem tokened_next (h : s.Consistent) (hw : Tokened w) {items : Option (List Resource)}
    {behind : Walk} {b : Backing}
    (hnext : w.next.on (.embedded s) = (.ok (items, behind), b)) : Tokened behind := by
  rw [Walk.next_eq] at hnext
  by_cases hover : w.finished = true
  · rw [if_pos hover] at hnext
    cases hnext
    exact hw
  · rw [if_neg hover] at hnext
    rcases hpage : (Registry.page w.scope { after := w.after, limit := w.pageSize }).on
      (.embedded s) with ⟨e | page, b'⟩
    · rw [on_bind_error hpage] at hnext
      cases hnext
    · rw [on_bind_ok hpage] at hnext
      cases hnext
      intro c hc
      exact h.next_id_ne (congrArg Prod.fst hpage) hc

/-- **The caller stays in step** in the course of any turns. -/
theorem read_beside (turns : List Turn) :
    ∀ {s : Store} {w : Walk}, s.Consistent → Tokened w →
      read turns (.embedded s) (beside w) =
        (Walk.visits turns (.embedded s) w, beside (walked turns (.embedded s) w)) := by
  induction turns with
  | nil => exact fun _ _ => rfl
  | cons turn rest ih =>
    intro s w h hw
    cases turn with
    | fetch =>
      obtain ⟨items, behind, hnext, -⟩ := Walk.next_on h w
      have hpage := next_beside hw (.embedded s)
      rw [hnext] at hpage
      have hrest := ih h (tokened_next h hw hnext)
      unfold read Walk.visits walked
      rw [hpage, hnext]
      show (_ :: (read rest (.embedded s) (beside behind)).1,
        (read rest (.embedded s) (beside behind)).2) = _
      rw [hrest]
    | resize limit => exact ih (w := w.resize limit) h hw
    | change change =>
      obtain ⟨s', hon, hs'⟩ := Walk.Change.on_consistent change h
      unfold read Walk.visits walked
      rw [hon]
      exact ih hs' hw

/-- The list command replies with the page that a caller with its token asks for. -/
theorem list_on (limits : Limits) (now : Int64) (content : ByteArray) (bucket : String)
    (token : Option String) (limit : UInt32) (b : Backing) :
    ((Command.list bucket token limit).perform limits now content).on b =
      (((Session.listPage ⟨.bucket, bucket⟩ (start token) limit).on b).1.map .page, b) := by
  have hstart : Command.startPosition token = Session.startPosition (start token) := by
    cases token <;> rfl
  unfold Command.perform Session.listPage
  simp only [hstart]
  cases hposition : Session.startPosition (start token) with
  | error e => rfl
  | ok after =>
    simp only [on_bind_ok (on_check _ _)]
    have hsame := Registry.page_looks ⟨.bucket, bucket⟩ { after, limit } b
    rcases hpage : (Registry.page ⟨.bucket, bucket⟩ { after, limit }).on b with ⟨e | page, b'⟩
    · rw [hpage] at hsame
      rw [on_bind_error hpage, show b' = b from hsame]
      rfl
    · rw [hpage] at hsame
      rw [on_bind_ok hpage, show b' = b from hsame]
      rfl

/-- **Paging with tokens is walking.** Over every store that a run leads to, in every scope, and
whatever sizes are asked for and whatever is done to the store between the pages, a caller with a
token reads the pages that a walk returns, and is through when the walk is over, with its token that
of the position of the walk. Every position that a page names is read back from its token. The list
command serves the same pages for the same tokens. -/
theorem pages_eq (hs : s.Reachable) (scope : Scope) (limit : UInt32) (turns : List Turn) :
    (read turns (.embedded s) (along scope limit)).1 =
      Walk.visits turns (.embedded s) (Walk.along scope limit) ∧
    (let p := (read turns (.embedded s) (along scope limit)).2
      let w := walked turns (.embedded s) (Walk.along scope limit)
      p.ended = w.finished ∧ p.token = w.after.map Cursor.encode) ∧
    (∀ request page c, (Registry.page scope request).on (.embedded s) = (.ok page, .embedded s) →
      page.next = some c → Cursor.decode c.encode = .ok c) ∧
    ∀ limits now content bucket token size b,
      ((Command.list bucket token size).perform limits now content).on b =
        (((Session.listPage ⟨.bucket, bucket⟩ (start token) size).on b).1.map .page, b) := by
  have h := hs.consistent
  have hstart : Tokened (Walk.along scope limit) := fun c hc => by cases hc
  have hread := read_beside turns h hstart
  rw [show along scope limit = beside (Walk.along scope limit) from rfl, hread]
  refine ⟨rfl, ⟨rfl, rfl⟩, ?_, list_on⟩
  intro request page c hpage hnext
  exact Cursor.decode_encode (h.next_id_ne (congrArg Prod.fst hpage) hnext)

/-- Ids with a colon, a line break and letters beyond ASCII, read in pages of one and of two while
one of them is removed and others come to be. -/
def disturbed : List Turn :=
  [.change (.create ⟨"a:b", "x", -0, "h", 1⟩), .change (.create ⟨":\n", "x", 5, "h", 1⟩),
    .change (.create ⟨"é", "x", 5, "h", 1⟩), .fetch, .resize 2, .change (.delete "a:b"), .fetch,
    .change (.purge 5), .fetch, .fetch]

theorem pages_eq_disturbed :
    Store.fresh.Reachable ∧
      (read disturbed (.embedded .fresh) (along ⟨.bucket, "x"⟩ 1)).1 =
        Walk.visits disturbed (.embedded .fresh) (Walk.along ⟨.bucket, "x"⟩ 1) ∧
      (read disturbed (.embedded .fresh) (along ⟨.bucket, "x"⟩ 1)).2.ended =
        (walked disturbed (.embedded .fresh) (Walk.along ⟨.bucket, "x"⟩ 1)).finished := by
  have hfresh : Store.fresh.Reachable := ⟨.standard, 0, [], by simp, rfl⟩
  obtain ⟨hpages, ⟨hover, -⟩, -⟩ := pages_eq hfresh ⟨.bucket, "x"⟩ 1 disturbed
  exact ⟨hfresh, hpages, hover⟩

end Paging

end ObjectRegistry
