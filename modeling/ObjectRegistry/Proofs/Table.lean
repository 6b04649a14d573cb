import Mathlib.Data.List.Pairwise
import Mathlib.Data.List.Sort
import ObjectRegistry.Table

/-!
# Tables as maps

A table is a sorted list of bindings, and `get?` searches that list. This file turns the list view
into a map view: `get?_insert` and `get?_erase` say what a changed table answers, `mem_keys` ties
the listed keys to `contains`, and `ext_get?` says that the answers determine the table. Proofs
about stores use these facts and never open the list.

Two lists sorted by a key that have the same members are the same list
(`TableKey.eq_of_sorted`); every statement about the *order* of an answer goes through that.
-/

namespace ObjectRegistry

namespace TableKey

variable {κ α : Type} [TableKey κ]

theorem compare_eq_iff {a b : κ} : compare a b = .eq ↔ a = b :=
  ⟨eq_of_compare, fun h => h ▸ compare_self a⟩

/-- No key lies before itself. -/
theorem compare_self_ne_lt (a : κ) : compare a a ≠ .lt := by
  rw [compare_self]
  decide

theorem ne_of_lt {a b : κ} (h : compare a b = .lt) : a ≠ b := by
  rintro rfl
  exact compare_self_ne_lt a h

theorem compare_eq_gt_iff {a b : κ} : compare a b = .gt ↔ compare b a = .lt := by
  rw [compare_swap a b]
  cases compare b a <;> decide

/-- Two keys do not lie before each other. -/
theorem not_lt_of_lt {a b : κ} (h : compare a b = .lt) : compare b a ≠ .lt := fun h' =>
  compare_self_ne_lt a (lt_trans h h')

/-- Of two keys that differ, one lies before the other. -/
theorem lt_or_lt_of_ne {a b : κ} (h : a ≠ b) : compare a b = .lt ∨ compare b a = .lt := by
  cases hab : compare a b with
  | lt => exact Or.inl rfl
  | eq => exact absurd (eq_of_compare hab) h
  | gt => exact Or.inr (compare_eq_gt_iff.1 hab)

/-- Not lying behind is transitive. -/
theorem ne_gt_trans {a b c : κ} (hab : compare a b ≠ .gt) (hbc : compare b c ≠ .gt) :
    compare a c ≠ .gt := by
  intro hac
  rw [compare_eq_gt_iff] at hac
  cases h : compare a b with
  | lt => exact hbc (compare_eq_gt_iff.2 (lt_trans hac h))
  | eq => exact hbc (compare_eq_gt_iff.2 (eq_of_compare h ▸ hac))
  | gt => exact hab h

/-- Of two keys, one does not lie behind the other. -/
theorem ne_gt_total (a b : κ) : compare a b ≠ .gt ∨ compare b a ≠ .gt := by
  by_cases h : compare a b = .gt
  · exact Or.inr fun h' => not_lt_of_lt (compare_eq_gt_iff.1 h) (compare_eq_gt_iff.1 h')
  · exact Or.inl h

/-- **Order and members determine a list**: two lists that strictly increase in a key and have the
same members are equal. -/
theorem eq_of_sorted (key : α → κ) {xs ys : List α}
    (hx : xs.Pairwise fun a b => compare (key a) (key b) = .lt)
    (hy : ys.Pairwise fun a b => compare (key a) (key b) = .lt)
    (h : ∀ a, a ∈ xs ↔ a ∈ ys) : xs = ys := by
  have : Std.Irrefl fun a b : α => compare (key a) (key b) = .lt :=
    ⟨fun a => compare_self_ne_lt (key a)⟩
  have : Std.Antisymm fun a b : α => compare (key a) (key b) = .lt :=
    ⟨fun _ _ h₁ h₂ => absurd h₂ (not_lt_of_lt h₁)⟩
  exact hx.eq_of_mem_iff hy h

end TableKey

namespace Table

variable {κ ν : Type} [TableKey κ]

/-! ## The bindings of a table -/

/-- A table binds a key once. -/
theorem eq_of_mem_of_key_eq {t : Table κ ν} {b c : κ × ν} (hb : b ∈ t.toList)
    (hc : c ∈ t.toList) (hkey : b.1 = c.1) : b = c := by
  have hall : t.toList.Pairwise fun a b => a.1 = b.1 → a = b :=
    t.sorted.imp fun h he => absurd he (TableKey.ne_of_lt h)
  have hsymm : Std.Symm fun a b : κ × ν => a.1 = b.1 → a = b :=
    ⟨fun _ _ h he => (h he.symm).symm⟩
  exact hall.forall_of_forall (fun _ _ _ => rfl) hb hc hkey

theorem get?_eq_some_iff {t : Table κ ν} {key : κ} {value : ν} :
    t.get? key = some value ↔ (key, value) ∈ t.toList := by
  unfold get?
  constructor
  · intro h
    obtain ⟨b, hb, rfl⟩ := Option.map_eq_some_iff.1 h
    have hkey : key = b.1 := TableKey.eq_of_compare (by simpa using List.find?_some hb)
    rw [hkey]
    exact List.mem_of_find?_eq_some hb
  · intro h
    have hfound : (t.toList.find? fun b => TableKey.compare key b.1 == .eq).isSome := by
      rw [List.find?_isSome]
      exact ⟨(key, value), h, by simp [TableKey.compare_self]⟩
    obtain ⟨b, hb⟩ := Option.isSome_iff_exists.1 hfound
    have hkey : key = b.1 := TableKey.eq_of_compare (by simpa using List.find?_some hb)
    have hsame := eq_of_mem_of_key_eq (List.mem_of_find?_eq_some hb) h hkey.symm
    rw [hb, hsame]
    rfl

theorem contains_iff {t : Table κ ν} {key : κ} :
    t.contains key = true ↔ ∃ value, t.get? key = some value :=
  Option.isSome_iff_exists

theorem mem_keys {t : Table κ ν} {key : κ} : key ∈ t.keys ↔ t.contains key = true := by
  rw [contains_iff]
  simp only [get?_eq_some_iff, keys, List.mem_map]
  constructor
  · rintro ⟨b, hb, rfl⟩
    exact ⟨b.2, hb⟩
  · rintro ⟨value, h⟩
    exact ⟨(key, value), h, rfl⟩

theorem keys_sorted (t : Table κ ν) :
    t.keys.Pairwise fun a b => TableKey.compare a b = .lt :=
  List.pairwise_map.2 t.sorted

/-- What a table answers determines it. -/
theorem ext_get? {t u : Table κ ν} (h : ∀ key, t.get? key = u.get? key) : t = u := by
  have hlist : t.toList = u.toList := by
    apply TableKey.eq_of_sorted Prod.fst t.sorted u.sorted
    intro b
    rw [show b = (b.1, b.2) from rfl, ← get?_eq_some_iff, ← get?_eq_some_iff, h]
  cases t
  cases u
  cases hlist
  rfl

@[simp] theorem get?_empty (key : κ) : (empty : Table κ ν).get? key = none := rfl

@[simp] theorem contains_empty (key : κ) : (empty : Table κ ν).contains key = false := rfl

/-! ## Changed tables -/

theorem mem_insertInto_self (key : κ) (value : ν) (bs : List (κ × ν)) :
    (key, value) ∈ insertInto key value bs := by
  induction bs with
  | nil => exact List.mem_singleton.2 rfl
  | cons c rest ih =>
    unfold insertInto
    split
    · exact List.mem_cons_self
    · exact List.mem_cons_self
    · exact List.mem_cons_of_mem _ ih

theorem mem_insertInto_of_ne {key : κ} {value : ν} {b : κ × ν} {bs : List (κ × ν)}
    (hb : b ∈ bs) (hne : b.1 ≠ key) : b ∈ insertInto key value bs := by
  induction bs with
  | nil => exact absurd hb List.not_mem_nil
  | cons c rest ih =>
    unfold insertInto
    split
    case h_1 => exact List.mem_cons_of_mem _ hb
    case h_2 heq =>
      -- the binding in place of which the new one stands has its key
      rcases List.mem_cons.1 hb with rfl | hrest
      · exact absurd (TableKey.eq_of_compare heq).symm hne
      · exact List.mem_cons_of_mem _ hrest
    case h_3 =>
      rcases List.mem_cons.1 hb with rfl | hrest
      · exact List.mem_cons_self
      · exact List.mem_cons_of_mem _ (ih hrest)

theorem get?_insert_self (t : Table κ ν) (key : κ) (value : ν) :
    (t.insert key value).get? key = some value :=
  get?_eq_some_iff.2 (mem_insertInto_self key value t.toList)

theorem get?_insert_of_ne (t : Table κ ν) {key other : κ} (value : ν) (hne : other ≠ key) :
    (t.insert key value).get? other = t.get? other := by
  apply Option.ext
  intro v
  rw [get?_eq_some_iff, get?_eq_some_iff]
  constructor
  · intro h
    rcases mem_insertInto h with heq | hmem
    · exact absurd (congrArg Prod.fst heq) hne
    · exact hmem
  · intro h
    exact mem_insertInto_of_ne h hne

theorem get?_insert [DecidableEq κ] (t : Table κ ν) (key other : κ) (value : ν) :
    (t.insert key value).get? other = if other = key then some value else t.get? other := by
  by_cases h : other = key
  · rw [if_pos h, h, get?_insert_self]
  · rw [if_neg h, get?_insert_of_ne t value h]

theorem mem_erase {t : Table κ ν} {key : κ} {b : κ × ν} :
    b ∈ (t.erase key).toList ↔ b ∈ t.toList ∧ b.1 ≠ key := by
  unfold erase
  rw [List.mem_filter, bne_iff_ne, ne_eq, TableKey.compare_eq_iff, eq_comm]

theorem get?_erase [DecidableEq κ] (t : Table κ ν) (key other : κ) :
    (t.erase key).get? other = if other = key then none else t.get? other := by
  apply Option.ext
  intro v
  rw [get?_eq_some_iff, mem_erase]
  by_cases h : other = key
  · simp [h]
  · simp [h, get?_eq_some_iff]

theorem contains_insert [DecidableEq κ] (t : Table κ ν) (key other : κ) (value : ν) :
    (t.insert key value).contains other = true ↔ other = key ∨ t.contains other = true := by
  unfold contains
  rw [get?_insert]
  split <;> simp_all

theorem contains_erase [DecidableEq κ] (t : Table κ ν) (key other : κ) :
    (t.erase key).contains other = true ↔ other ≠ key ∧ t.contains other = true := by
  unfold contains
  rw [get?_erase]
  split <;> simp_all

/-- A key that is bound to the value it has stays as it is. -/
theorem insert_eq_self [DecidableEq κ] {t : Table κ ν} {key : κ} {value : ν}
    (h : t.get? key = some value) : t.insert key value = t := by
  apply ext_get?
  intro other
  rw [get?_insert]
  split
  next hsame => rw [hsame, h]
  next => rfl

/-! ## Changes at different keys -/

variable [DecidableEq κ] {x y : κ}

theorem insert_comm (t : Table κ ν) (h : x ≠ y) (v w : ν) :
    (t.insert x v).insert y w = (t.insert y w).insert x v := by
  apply ext_get?
  intro key
  simp only [get?_insert]
  by_cases hx : key = x
  · simp [hx, h]
  · simp [hx]

theorem erase_comm (t : Table κ ν) (x y : κ) : (t.erase x).erase y = (t.erase y).erase x := by
  apply ext_get?
  intro key
  simp only [get?_erase]
  by_cases hx : key = x <;> simp [hx]

theorem insert_erase_comm (t : Table κ ν) (h : x ≠ y) (v : ν) :
    (t.insert x v).erase y = (t.erase y).insert x v := by
  apply ext_get?
  intro key
  simp only [get?_insert, get?_erase]
  by_cases hx : key = x
  · simp [hx, h]
  · simp [hx]

end Table

end ObjectRegistry
