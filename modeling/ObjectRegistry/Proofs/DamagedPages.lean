import ObjectRegistry.Proofs.Visits

/-!
# Pages of damaged stores

An entry of an index may name an id that has no row, or a row whose bytes are no record. Such an
entry leads astray (`Store.Astray`), while every other one leads to a resource (`Store.Leads`).

A page looks at the entries of its scope behind its position, one more than it may show. It fails
exactly if one of these leads astray, in the way of the first that does
(`Store.page_over_damage`). What else is wrong with the store does not matter to it: a store that
agrees with this one where the page looks (`Store.AgreesAt`) serves the same page.
-/

namespace ObjectRegistry

/-- The front of a list in order is that of every list in order that has the members of the front,
and others only behind them. -/
theorem TableKey.take_eq_of_front {α κ : Type} [TableKey κ] [DecidableEq α] (key : α → κ)
    {xs ys : List α} {n : Nat} (hx : xs.Pairwise fun a b => compare (key a) (key b) = .lt)
    (hy : ys.Pairwise fun a b => compare (key a) (key b) = .lt)
    (hfront : ∀ a ∈ xs.take n, a ∈ ys)
    (hbehind : ∀ a ∈ ys, a ∉ xs.take n →
      n ≤ (xs.take n).length ∧ ∀ b ∈ xs.take n, compare (key b) (key a) = .lt) :
    ys.take n = xs.take n := by
  have hsplit : ys = xs.take n ++ ys.filter (· ∉ xs.take n) := by
    refine TableKey.eq_of_sorted key hy ?_ fun a => ?_
    · refine List.pairwise_append.2 ⟨hx.sublist (List.take_sublist _ _), hy.filter _, ?_⟩
      intro b hb a ha
      obtain ⟨ha, hnot⟩ := List.mem_filter.1 ha
      exact (hbehind a ha (of_decide_eq_true hnot)).2 b hb
    · rw [List.mem_append, List.mem_filter, decide_eq_true_iff]
      constructor
      · exact fun ha => or_iff_not_imp_left.2 fun hnot => ⟨ha, hnot⟩
      · exact fun ha => ha.elim (hfront a) And.left
  have hshort : (xs.take n).length ≤ n := List.length_take_le _ _
  cases hrest : ys.filter (· ∉ xs.take n) with
  | nil =>
    rw [hrest, List.append_nil] at hsplit
    rw [hsplit, List.take_take, Nat.min_self]
  | cons a rest =>
    have ha : a ∈ ys.filter (· ∉ xs.take n) := hrest ▸ List.mem_cons_self
    obtain ⟨ha, hnot⟩ := List.mem_filter.1 ha
    have hlong := (hbehind a ha (of_decide_eq_true hnot)).1
    rw [hsplit]
    exact List.take_left' (Nat.le_antisymm hshort hlong)

namespace Store

variable {s : Store} {rows : ResourceTable} {e : IndexEntry} {r : Resource} {error : Error}

/-! ## Where an entry leads -/

/-- An entry leads to the resource whose record is stored under its id. -/
def Leads (rows : ResourceTable) (e : IndexEntry) (r : Resource) : Prop :=
  ∃ bytes record, rows.get? e.position.id = some bytes ∧ Record.decode bytes = .ok record ∧
    r = record.named e.position.id

/-- An entry leads astray, and how this is reported. -/
inductive Astray (rows : ResourceTable) (e : IndexEntry) : Error → Prop where
  | dangling (hrow : rows.get? e.position.id = none) :
      Astray rows e (.storage (.corrupt (.danglingEntry e.position.id)))
  | unreadable {bytes : List UInt8} {fault : RecordFault}
      (hrow : rows.get? e.position.id = some bytes) (hbytes : Record.decode bytes = .error fault) :
      Astray rows e (.storage (.unreadable fault))

/-- The report of an entry without a row names its id. -/
theorem Astray.message (h : Astray rows e error) (hrow : rows.get? e.position.id = none) :
    error.message =
      "Storage unavailable: Corrupt record: index entry without resource: " ++ e.position.id := by
  cases h with
  | dangling => rfl
  | unreadable hrow' =>
    rw [hrow] at hrow'
    cases hrow'

theorem follow_eq (rows : ResourceTable) (e : IndexEntry) :
    follow rows e =
      match rows.get? e.position.id with
      | none => .error (.storage (.corrupt (.danglingEntry e.position.id)))
      | some bytes => readRecord e.position.id bytes := by
  unfold follow load
  cases rows.get? e.position.id with
  | none => rfl
  | some bytes =>
    show ((readRecord e.position.id bytes).map some >>= _) = readRecord e.position.id bytes
    cases readRecord e.position.id bytes <;> rfl

theorem readRecord_eq_ok_iff {id : String} {bytes : List UInt8} :
    readRecord id bytes = .ok r ↔
      ∃ record, Record.decode bytes = .ok record ∧ r = record.named id := by
  unfold readRecord
  cases Record.decode bytes with
  | ok record => exact ⟨fun h => by cases h; exact ⟨record, rfl, rfl⟩, by rintro ⟨_, ⟨⟩, rfl⟩; rfl⟩
  | error fault => exact ⟨nofun, fun ⟨_, h, _⟩ => by cases h⟩

theorem readRecord_eq_error_iff {id : String} {bytes : List UInt8} :
    readRecord id bytes = .error error ↔
      ∃ fault, Record.decode bytes = .error fault ∧ error = .storage (.unreadable fault) := by
  unfold readRecord
  cases Record.decode bytes with
  | ok record => exact ⟨nofun, fun ⟨_, h, _⟩ => by cases h⟩
  | error fault => exact ⟨fun h => by cases h; exact ⟨fault, rfl, rfl⟩, by rintro ⟨_, ⟨⟩, rfl⟩; rfl⟩

/-- An entry is followed to where it leads. -/
theorem follow_eq_ok_iff : follow rows e = .ok r ↔ Leads rows e r := by
  rw [follow_eq]
  unfold Leads
  cases rows.get? e.position.id with
  | none => exact ⟨nofun, fun ⟨_, _, h, _⟩ => by cases h⟩
  | some bytes =>
    show readRecord e.position.id bytes = .ok r ↔ _
    rw [readRecord_eq_ok_iff]
    constructor
    · rintro ⟨record, hbytes, rfl⟩
      exact ⟨bytes, record, rfl, hbytes, rfl⟩
    · rintro ⟨_, record, ⟨⟩, hbytes, rfl⟩
      exact ⟨record, hbytes, rfl⟩

/-- An entry that cannot be followed leads astray. -/
theorem follow_eq_error_iff : follow rows e = .error error ↔ Astray rows e error := by
  rw [follow_eq]
  cases hrow : rows.get? e.position.id with
  | none =>
    constructor
    · intro h
      cases h
      exact .dangling hrow
    · intro h
      cases h with
      | dangling => rfl
      | unreadable hrow' =>
        rw [hrow] at hrow'
        cases hrow'
  | some bytes =>
    show readRecord e.position.id bytes = .error error ↔ _
    rw [readRecord_eq_error_iff]
    constructor
    · rintro ⟨fault, hbytes, rfl⟩
      exact .unreadable hrow hbytes
    · intro h
      cases h with
      | dangling hrow' =>
        rw [hrow] at hrow'
        cases hrow'
      | unreadable hrow' hbytes =>
        rw [hrow] at hrow'
        cases hrow'
        exact ⟨_, hbytes, rfl⟩

/-- What an entry leads to depends on the row of its id alone. -/
theorem follow_congr {rows' : ResourceTable}
    (h : rows'.get? e.position.id = rows.get? e.position.id) : follow rows' e = follow rows e := by
  rw [follow_eq, follow_eq, h]

/-- Entries that lead to some resources lead to one each. -/
theorem forall_leads {entries : List IndexEntry} {rs : List Resource}
    (h : List.Forall₂ (Leads rows) entries rs) : ∀ e ∈ entries, ∃ r, Leads rows e r := by
  induction h with
  | nil => nofun
  | cons hlead _ ih => exact List.forall_mem_cons.2 ⟨⟨_, hlead⟩, ih⟩

/-! ## The page -/

variable {scope : Scope} {index : IndexTable} {after : Option Cursor} {limit : UInt32}

/-- The entries that a page looks at. -/
def touched (index : IndexTable) (key : String) (after : Option Cursor) (limit : UInt32) :
    List IndexEntry :=
  (scan index key after).take (limit.toNat + 1)

/-- The entries that a page shows. -/
theorem take_touched (index : IndexTable) (key : String) (after : Option Cursor) (limit : UInt32) :
    (touched index key after limit).take limit.toNat =
      (scan index key after).take limit.toNat := by
  rw [touched, List.take_take, Nat.min_eq_left (Nat.le_succ _)]

theorem page_eq_touched (hindex : s.index scope.axis = some index) (hrows : s.resources = some rows)
    (after : Option Cursor) (limit : UInt32) :
    s.page scope after limit =
      ((touched index scope.key after limit).mapM (follow rows) >>= fun rs =>
        .ok (Page.ofRows rs limit)) := by
  unfold page
  rw [hindex, hrows]
  rfl

/-- A page is read from tables that exist. -/
theorem tables_of_page {page : Page} (h : s.page scope after limit = .ok page) :
    ∃ index rows, s.index scope.axis = some index ∧ s.resources = some rows := by
  unfold Store.page at h
  split at h
  next index rows hindex hrows => exact ⟨index, rows, hindex, hrows⟩
  next => cases h

/-- A page is made of what the touched entries lead to. -/
theorem page_eq_ok_iff (hindex : s.index scope.axis = some index)
    (hrows : s.resources = some rows) {page : Page} :
    s.page scope after limit = .ok page ↔
      ∃ rs, List.Forall₂ (Leads rows) (touched index scope.key after limit) rs ∧
        page = Page.ofRows rs limit := by
  rw [page_eq_touched hindex hrows]
  have hall : ∀ rs, (touched index scope.key after limit).mapM (follow rows) = .ok rs ↔
      List.Forall₂ (Leads rows) (touched index scope.key after limit) rs := by
    intro rs
    simp only [Draft.mapM_eq_ok_iff, follow_eq_ok_iff]
  cases hread : (touched index scope.key after limit).mapM (follow rows) with
  | error e =>
    refine ⟨nofun, fun ⟨rs, hrs, _⟩ => ?_⟩
    rw [(hall rs).2 hrs] at hread
    cases hread
  | ok rs =>
    constructor
    · intro h
      cases h
      exact ⟨rs, (hall rs).1 hread, rfl⟩
    · rintro ⟨rs', hrs', rfl⟩
      rw [(hall rs').2 hrs'] at hread
      cases hread
      rfl

/-- A page fails with the first touched entry that leads astray. -/
theorem page_eq_error_iff (hindex : s.index scope.axis = some index)
    (hrows : s.resources = some rows) :
    s.page scope after limit = .error error ↔
      ∃ front e rest, touched index scope.key after limit = front ++ e :: rest ∧
        (∀ f ∈ front, ∃ r, Leads rows f r) ∧ Astray rows e error := by
  have hbind : ∀ x : Except Error (List Resource),
      (x >>= fun rs => Except.ok (Page.ofRows rs limit)) = .error error ↔ x = .error error := by
    intro x
    cases x with
    | error e => exact ⟨fun h => by cases h; rfl, fun h => by cases h; rfl⟩
    | ok rs => exact ⟨nofun, nofun⟩
  rw [page_eq_touched hindex hrows, hbind, Draft.mapM_eq_error_iff]
  simp only [follow_eq_ok_iff, follow_eq_error_iff]

/-- Other tables that agree with these in all that a page looks at: what it touches is there with
the same rows, and nothing else of the scope comes behind the position and not behind what the page
touches. -/
structure AgreesAt (scope : Scope) (after : Option Cursor) (size : Nat)
    (touched : List IndexEntry) (rows : ResourceTable) (index' : IndexTable)
    (rows' : ResourceTable) : Prop where
  kept : ∀ e ∈ touched, index'.contains e = true
  row : ∀ e ∈ touched, rows'.get? e.position.id = rows.get? e.position.id
  behind : ∀ e, index'.contains e = true → e.label = scope.key →
    (∀ c, after = some c → c.Precedes e.position) → e ∉ touched →
      size < touched.length ∧ ∀ f ∈ touched, f.position.Precedes e.position

/-- The entries of a scope are in the order of their positions. -/
theorem scan_precedes (index : IndexTable) (key : String) (after : Option Cursor) :
    (scan index key after).Pairwise fun e f => e.position.Precedes f.position := by
  refine (scan_sorted index key after).imp_of_mem fun {e f} he hf hlt => ?_
  have hlabel : e.label = f.label := (mem_scan.1 he).2.1.trans (mem_scan.1 hf).2.1.symm
  rcases compare_entry_eq_lt_iff.1 hlt with hless | ⟨-, hless⟩
  · rw [hlabel] at hless
    exact absurd hless (TableKey.compare_self_ne_lt _)
  · exact Cursor.compare_eq_lt_iff.1 hless

/-- Tables that agree with these where a page looks serve the same page. -/
theorem page_congr {t : Store} {index' : IndexTable} {rows' : ResourceTable}
    (hindex : s.index scope.axis = some index) (hrows : s.resources = some rows)
    (hindex' : t.index scope.axis = some index') (hrows' : t.resources = some rows')
    (h : AgreesAt scope after limit.toNat (touched index scope.key after limit) rows index' rows') :
    t.page scope after limit = s.page scope after limit := by
  have hsame : touched index' scope.key after limit = touched index scope.key after limit := by
    refine TableKey.take_eq_of_front id (scan_sorted _ _ _) (scan_sorted _ _ _)
      (fun e he => ?_) (fun e he hnot => ?_)
    · exact mem_scan.2 ⟨h.kept e he, (mem_scan.1 (List.mem_of_mem_take he)).2⟩
    · obtain ⟨hcontained, hlabel, hafter⟩ := mem_scan.1 he
      obtain ⟨hlong, hbehind⟩ := h.behind e hcontained hlabel (isBehind_iff.1 hafter) hnot
      refine ⟨hlong, fun f hf => ?_⟩
      have hlabels := (mem_scan.1 (List.mem_of_mem_take hf)).2.1.trans hlabel.symm
      exact compare_entry_eq_lt_iff.2
        (Or.inr ⟨hlabels, Cursor.compare_eq_lt_iff.2 (hbehind f hf)⟩)
  have hfollow : (touched index scope.key after limit).mapM (follow rows') =
      (touched index scope.key after limit).mapM (follow rows) :=
    Draft.mapM_congr fun e he => follow_congr (h.row e he)
  rw [page_eq_touched hindex hrows, page_eq_touched hindex' hrows', hsame, hfollow]

/-- **Damage is reported exactly where a page touches it.** Whatever the tables hold, let `entries`
be those of the scope behind the position in order, and let a page touch one more of them than it
may show. It is served if and only if each touched entry has a row that can be read, and is made of
what these entries lead to. Otherwise it fails with the first touched entry that leads astray:
without a row, it is named as dangling, and with a row that cannot be read, the fault of its bytes
is reported. Tables that agree with these ones on what is touched, with any other entries behind
that, any entries of other scopes or in front of the position and any other rows, serve the same
page or fail in the same way. -/
theorem page_over_damage (hindex : s.index scope.axis = some index)
    (hrows : s.resources = some rows) (after : Option Cursor) (limit : UInt32) :
    ∃ entries : List IndexEntry,
      entries.Pairwise (fun e f => e.position.Precedes f.position) ∧
      (∀ e, e ∈ entries ↔ index.contains e = true ∧ e.label = scope.key ∧
        ∀ c, after = some c → c.Precedes e.position) ∧
      let touched := entries.take (limit.toNat + 1)
      ((∃ page, s.page scope after limit = .ok page) ↔ ∀ e ∈ touched, ∃ r, Leads rows e r) ∧
      (∀ page, s.page scope after limit = .ok page ↔
        ∃ rs, List.Forall₂ (Leads rows) touched rs ∧ page = Page.ofRows rs limit) ∧
      (∀ error, s.page scope after limit = .error error ↔
        ∃ front e rest, touched = front ++ e :: rest ∧ (∀ f ∈ front, ∃ r, Leads rows f r) ∧
          Astray rows e error) ∧
      (∀ e error, Astray rows e error → rows.get? e.position.id = none → error.message =
        "Storage unavailable: Corrupt record: index entry without resource: " ++ e.position.id) ∧
      ∀ (t : Store) (index' : IndexTable) (rows' : ResourceTable),
        t.index scope.axis = some index' → t.resources = some rows' →
          AgreesAt scope after limit.toNat touched rows index' rows' →
            t.page scope after limit = s.page scope after limit := by
  refine ⟨scan index scope.key after, scan_precedes index scope.key after, fun e => ?members,
    ?served, fun page => page_eq_ok_iff hindex hrows, fun error => page_eq_error_iff hindex hrows,
    fun e error => Astray.message, fun t index' rows' => page_congr hindex hrows⟩
  case members => rw [mem_scan, isBehind_iff]
  case served =>
    constructor
    · rintro ⟨page, hpage⟩
      obtain ⟨rs, hrs, -⟩ := (page_eq_ok_iff hindex hrows).1 hpage
      exact forall_leads hrs
    · intro hall
      cases hpage : s.page scope after limit with
      | ok page => exact ⟨page, rfl⟩
      | error error =>
        obtain ⟨front, e, rest, hsplit, -, hastray⟩ := (page_eq_error_iff hindex hrows).1 hpage
        have he : e ∈ touched index scope.key after limit := by
          rw [hsplit]
          exact List.mem_append_right front List.mem_cons_self
        obtain ⟨r, hr⟩ := hall e he
        rw [← follow_eq_ok_iff, follow_eq_error_iff.2 hastray] at hr
        cases hr

/-- An index with four entries of one hash and one of another. -/
def wornIndex : IndexTable :=
  [(⟨"h", ⟨1, "a"⟩⟩ : IndexEntry), ⟨"h", ⟨2, "b"⟩⟩, ⟨"h", ⟨3, "c"⟩⟩, ⟨"h", ⟨4, "d"⟩⟩,
    ⟨"k", ⟨1, "e"⟩⟩].foldl (fun index e => index.insert e ()) .empty

/-- Rows of which one is missing and two cannot be read. -/
def wornRows : ResourceTable :=
  (((Table.empty.insert "a" (Record.encode ⟨"x", 1, "h", 1⟩)).insert "c" []).insert "d"
    (Record.encode ⟨"x", 4, "h", 1⟩)).insert "z" [255]

/-- A store with these tables. -/
def worn : Store :=
  { Store.fresh with byHash := some wornIndex, resources := some wornRows }

/-- A store that has nothing but the last entry of the hash and its row. -/
def stripped : Store :=
  { Store.blank with
    byHash := some (Table.empty.insert ⟨"h", ⟨4, "d"⟩⟩ ())
    resources := some (Table.empty.insert "d" (Record.encode ⟨"x", 4, "h", 1⟩)) }

/-- A page of one item is spoilt by the entry behind it; the page behind the damage is served, also
from a store in which nothing else is left. -/
theorem page_over_damage_worn :
    worn.index .hash = some wornIndex ∧ worn.resources = some wornRows ∧
      worn.page ⟨.hash, "h"⟩ none 1 = .error (.storage (.corrupt (.danglingEntry "b"))) ∧
      (∃ page, worn.page ⟨.hash, "h"⟩ (some ⟨3, "c"⟩) 1 = .ok page) ∧
      stripped.page ⟨.hash, "h"⟩ (some ⟨3, "c"⟩) 1 =
        worn.page ⟨.hash, "h"⟩ (some ⟨3, "c"⟩) 1 := by
  have hindex : worn.index (Scope.mk .hash "h").axis = some wornIndex := rfl
  have hrows : worn.resources = some wornRows := rfl
  -- entries in order are those that a scan finds
  have hscan : ∀ {entries : List IndexEntry} {after : Option Cursor},
      entries.Pairwise (fun e f => e.position.Precedes f.position) →
      (∀ e, e ∈ entries ↔ wornIndex.contains e = true ∧ e.label = "h" ∧
        ∀ c, after = some c → c.Precedes e.position) → entries = scan wornIndex "h" after := by
    intro entries after hsorted hmem
    refine TableKey.eq_of_sorted IndexEntry.position
      (hsorted.imp Cursor.compare_eq_lt_iff.2)
      ((scan_precedes _ _ _).imp Cursor.compare_eq_lt_iff.2) fun e => ?_
    rw [hmem, mem_scan, isBehind_iff]
  refine ⟨hindex, hrows, ?spoilt, ?served⟩
  case spoilt =>
    obtain ⟨entries, hsorted, hmem, -, -, hfails, -⟩ :=
      page_over_damage hindex hrows none 1
    obtain rfl := hscan hsorted hmem
    refine (hfails _).2 ⟨[⟨"h", ⟨1, "a"⟩⟩], ⟨"h", ⟨2, "b"⟩⟩, [], rfl, ?_, .dangling rfl⟩
    intro f hf
    rw [List.mem_singleton.1 hf]
    exact ⟨_, _, ⟨"x", 1, "h", 1⟩, rfl, rfl, rfl⟩
  case served =>
    obtain ⟨entries, hsorted, hmem, hserved, -, -, -, hagree⟩ :=
      page_over_damage hindex hrows (some ⟨3, "c"⟩) 1
    obtain rfl := hscan hsorted hmem
    refine ⟨hserved.2 fun e he => ?_, hagree stripped _ _ rfl rfl ⟨?_, ?_, ?_⟩⟩
    · obtain rfl : e = ⟨"h", ⟨4, "d"⟩⟩ := List.mem_singleton.1 he
      exact ⟨_, _, ⟨"x", 4, "h", 1⟩, rfl, rfl, rfl⟩
    · intro e he
      obtain rfl : e = ⟨"h", ⟨4, "d"⟩⟩ := List.mem_singleton.1 he
      rfl
    · intro e he
      obtain rfl : e = ⟨"h", ⟨4, "d"⟩⟩ := List.mem_singleton.1 he
      rfl
    · intro e he _ _ hnot
      exact absurd (Table.mem_keys.2 he) hnot

end Store

end ObjectRegistry
