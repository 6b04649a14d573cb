import ObjectRegistry.Proofs.Numerals
import ObjectRegistry.Proofs.Table
import ObjectRegistry.Store.File

/-!
# The file of a store is read back

A store is read back from its file, whatever its tables hold and whichever of them exist
(`Store.ofFile?_file`). A file is a text, a text is lines, a line is words and a row is told by its
words; each of these is undone in turn. Lines and words come apart where they were joined because no
word holds a blank or a line break, so what has to be known about the words is which characters
they are made of (`Plain`). The rows of a table are in the order of its keys, so adding one after
the other builds the table from front to back.
-/

namespace ObjectRegistry

/-- A text without the two separators of a file. -/
def Plain (text : List Char) : Prop := ' ' ∉ text ∧ '\n' ∉ text

instance (text : List Char) : Decidable (Plain text) := inferInstanceAs (Decidable (_ ∧ _))

/-! ## Words -/

namespace Text

theorem Hex.digit_plain {n : Nat} (h : n < 16) : Hex.digit n ≠ ' ' ∧ Hex.digit n ≠ '\n' := by
  have table : ∀ i : Fin 16, Hex.digit i.val ≠ ' ' ∧ Hex.digit i.val ≠ '\n' := by decide
  exact table ⟨n, h⟩

theorem Hex.digits_plain (bytes : List UInt8) : Plain (Hex.digits bytes) := by
  have hdigit : ∀ c ∈ Hex.digits bytes, c ≠ ' ' ∧ c ≠ '\n' := by
    intro c hc
    obtain ⟨b, -, hb⟩ := List.mem_flatMap.1 hc
    have hbyte := b.toNat_lt
    simp only [Hex.pair, List.mem_cons, List.not_mem_nil, or_false] at hb
    rcases hb with rfl | rfl
    · exact Hex.digit_plain (by omega)
    · exact Hex.digit_plain (Nat.mod_lt _ (by decide))
  exact ⟨fun h => (hdigit _ h).1 rfl, fun h => (hdigit _ h).2 rfl⟩

theorem Numeral.ofInt64_plain (n : Int64) : Plain (Numeral.ofInt64 n).toList := by
  constructor
  · intro h
    rcases Numeral.mem_ofInt64 h with hsign | hdigit
    · cases hsign
    · cases hdigit
  · intro h
    rcases Numeral.mem_ofInt64 h with hsign | hdigit
    · cases hsign
    · cases hdigit

end Text

namespace StoreRow

theorem ofTextWord?_textWord (text : String) : ofTextWord? (textWord text) = some text := by
  unfold ofTextWord? textWord
  rw [Text.Hex.ofDigits?_digits]
  exact Text.ofBytes?_bytes text

theorem int64?_numberWord (n : Int64) : Text.Numeral.int64? (numberWord n) = some n :=
  Text.Numeral.int64?_ofInt64 n

theorem ofWord?_word (name : TableName) : TableName.ofWord? name.word = some name := by
  cases name <;> decide

theorem axisOfWord?_word (axis : Axis) : Axis.ofWord? axis.word = some axis := by
  cases axis <;> decide

/-- A row is told by its words. -/
theorem ofWords?_words (row : StoreRow) : ofWords? row.words = some row := by
  cases row with
  | table name =>
    rw [words, ofWords?, if_pos rfl, ofWord?_word]
    rfl
  | counter name value =>
    rw [words, ofWords?, if_pos rfl, ofTextWord?_textWord, int64?_numberWord]
    rfl
  | record id bytes =>
    rw [words, ofWords?, if_neg (by decide), if_pos rfl, ofTextWord?_textWord,
      Text.Hex.ofDigits?_digits]
    rfl
  | entry axis e =>
    rw [words, ofWords?, if_pos rfl, int64?_numberWord, ofTextWord?_textWord, axisOfWord?_word,
      ofTextWord?_textWord]
    rfl

theorem words_plain (row : StoreRow) : ∀ word ∈ row.words, Plain word := by
  cases row with
  | table name =>
    cases name
    all_goals decide
  | counter name value =>
    simp only [words, List.forall_mem_cons, List.not_mem_nil, false_implies, implies_true, and_true]
    exact ⟨by decide, Text.Hex.digits_plain _, Text.Numeral.ofInt64_plain _⟩
  | record id bytes =>
    simp only [words, List.forall_mem_cons, List.not_mem_nil, false_implies, implies_true, and_true]
    exact ⟨by decide, Text.Hex.digits_plain _, Text.Hex.digits_plain _⟩
  | entry axis e =>
    have haxis : Plain axis.word := by cases axis <;> decide
    simp only [words, List.forall_mem_cons, List.not_mem_nil, false_implies, implies_true, and_true]
    exact ⟨by decide, haxis, Text.Hex.digits_plain _, Text.Numeral.ofInt64_plain _,
      Text.Hex.digits_plain _⟩

theorem words_ne_nil (row : StoreRow) : row.words ≠ [] := by
  cases row <;> exact List.cons_ne_nil _ _

end StoreRow

/-! ## Lines -/

theorem Text.mem_join {separator c : Char} {pieces : List (List Char)}
    (h : c ∈ join separator pieces) : c = separator ∨ ∃ piece ∈ pieces, c ∈ piece := by
  induction pieces with
  | nil => cases h
  | cons piece rest ih =>
    by_cases hrest : rest = []
    · subst hrest
      exact Or.inr ⟨piece, List.mem_cons_self, h⟩
    · rw [join_cons hrest] at h
      rcases List.mem_append.1 h with hpiece | hlater
      · exact Or.inr ⟨piece, List.mem_cons_self, hpiece⟩
      · rcases List.mem_cons.1 hlater with heq | hlater
        · exact Or.inl heq
        · rcases ih hlater with heq | ⟨other, hother, hc⟩
          · exact Or.inl heq
          · exact Or.inr ⟨other, List.mem_cons_of_mem _ hother, hc⟩

namespace StoreRow

/-- The line of a row. -/
def line (row : StoreRow) : List Char := Text.join ' ' row.words

theorem ofWords?_line (row : StoreRow) : ofWords? (Text.split ' ' row.line) = some row := by
  rw [line, Text.split_join row.words_ne_nil fun word hword => (row.words_plain word hword).1,
    ofWords?_words]

theorem line_unbroken (row : StoreRow) : '\n' ∉ row.line := by
  intro h
  rcases Text.mem_join h with heq | ⟨word, hword, hc⟩
  · cases heq
  · exact (row.words_plain word hword).2 hc

end StoreRow

/-! ## Tables -/

namespace Table

variable {κ ν : Type} [TableKey κ]

theorem eq_of_toList {t u : Table κ ν} (h : t.toList = u.toList) : t = u := by
  cases t
  cases u
  cases h
  rfl

theorem insertInto_last {key : κ} {value : ν} {bs : List (κ × ν)}
    (h : ∀ b ∈ bs, TableKey.compare b.1 key = .lt) :
    insertInto key value bs = bs ++ [(key, value)] := by
  induction bs with
  | nil => rfl
  | cons b rest ih =>
    have hgt : TableKey.compare key b.1 = .gt :=
      TableKey.compare_eq_gt_iff.2 (h b List.mem_cons_self)
    rw [insertInto, hgt]
    exact congrArg (b :: ·) (ih fun x hx => h x (List.mem_cons_of_mem _ hx))

/-- Binding keys in their order builds a table from front to back. -/
theorem foldl_insert (bs : List (κ × ν)) (t : Table κ ν)
    (h : (t.toList ++ bs).Pairwise fun a b => TableKey.compare a.1 b.1 = .lt) :
    (bs.foldl (fun t b => t.insert b.1 b.2) t).toList = t.toList ++ bs := by
  induction bs generalizing t with
  | nil => exact (List.append_nil _).symm
  | cons b rest ih =>
    have hlast : (t.insert b.1 b.2).toList = t.toList ++ [b] :=
      insertInto_last fun x hx => (List.pairwise_append.1 h).2.2 x hx b List.mem_cons_self
    have hsplit : t.toList ++ b :: rest = (t.insert b.1 b.2).toList ++ rest := by
      rw [hlast, List.append_assoc, List.singleton_append]
    rw [List.foldl_cons, ih _ (hsplit ▸ h), ← hsplit]

end Table

namespace Store

/-- Adding the rows of a table builds the table, wherever in the store it has its place. -/
theorem foldl_rows {κ ν : Type} [TableKey κ] (place : Table κ ν → Store) (row : κ × ν → StoreRow)
    (h : ∀ t b, addRow (place t) (row b) = place (t.insert b.1 b.2)) (table : Table κ ν) :
    (table.toList.map row).foldl addRow (place .empty) = place table := by
  have hfold : ∀ (bs : List (κ × ν)) (t : Table κ ν), (bs.map row).foldl addRow (place t) =
      place (bs.foldl (fun t b => t.insert b.1 b.2) t) := by
    intro bs
    induction bs with
    | nil => exact fun t => rfl
    | cons b rest ih =>
      intro t
      rw [List.map_cons, List.foldl_cons, h, ih, List.foldl_cons]
  rw [hfold]
  exact congrArg place (Table.eq_of_toList (Table.foldl_insert table.toList .empty table.sorted))

theorem foldl_entries (place : IndexTable → Store) (axis : Axis)
    (h : ∀ t e, addRow (place t) (.entry axis e) = place (t.insert e ())) (table : IndexTable) :
    (table.keys.map (StoreRow.entry axis)).foldl addRow (place .empty) = place table := by
  rw [Table.keys, List.map_map]
  exact foldl_rows place (fun b => .entry axis b.1) (fun t b => h t b.1) table

/-- The rows of a table that may be missing. -/
def rowsOf {ρ : Type} (marker : StoreRow) (bindings : ρ → List StoreRow) : Option ρ → List StoreRow
  | some table => marker :: bindings table
  | none => []

theorem rows_eq (s : Store) :
    s.rows =
      rowsOf (.table .sequences) (fun t => t.toList.map fun b => .counter b.1 b.2) s.sequences ++
      rowsOf (.table .resources) (fun t => t.toList.map fun b => .record b.1 b.2) s.resources ++
      rowsOf (.table .byHash) (fun t => t.keys.map (.entry .hash)) s.byHash ++
      rowsOf (.table .byBucket) (fun t => t.keys.map (.entry .bucket)) s.byBucket := by
  obtain ⟨sequences, resources, byHash, byBucket⟩ := s
  cases sequences <;> cases resources <;> cases byHash <;> cases byBucket <;> rfl

theorem foldl_rowsOf {ρ : Type} {marker : StoreRow} {bindings : ρ → List StoreRow}
    (place : Option ρ → Store)
    (h : ∀ table, (bindings table).foldl addRow (addRow (place none) marker) = place (some table))
    (table? : Option ρ) :
    (rowsOf marker bindings table?).foldl addRow (place none) = place table? := by
  cases table? with
  | none => rfl
  | some table => exact h table

/-- The rows of a store describe it. -/
theorem ofRows_rows (s : Store) : ofRows s.rows = s := by
  obtain ⟨sequences, resources, byHash, byBucket⟩ := s
  rw [ofRows, rows_eq, List.foldl_append, List.foldl_append, List.foldl_append]
  -- one table after the other, when those before it are in place
  have hsequences : (rowsOf (.table .sequences) (fun t => t.toList.map fun b => .counter b.1 b.2)
      sequences).foldl addRow blank = ⟨sequences, none, none, none⟩ := by
    refine foldl_rowsOf (fun t => ⟨t, none, none, none⟩) ?_ sequences
    exact foldl_rows (fun t => ⟨some t, none, none, none⟩) _ fun _ _ => rfl
  have hresources : (rowsOf (.table .resources) (fun t => t.toList.map fun b => .record b.1 b.2)
      resources).foldl addRow ⟨sequences, none, none, none⟩ =
      ⟨sequences, resources, none, none⟩ := by
    refine foldl_rowsOf (fun t => ⟨sequences, t, none, none⟩) ?_ resources
    exact foldl_rows (fun t => ⟨sequences, some t, none, none⟩) _ fun _ _ => rfl
  have hhash : (rowsOf (.table .byHash) (fun t => t.keys.map (.entry .hash)) byHash).foldl addRow
      ⟨sequences, resources, none, none⟩ = ⟨sequences, resources, byHash, none⟩ := by
    refine foldl_rowsOf (fun t => ⟨sequences, resources, t, none⟩) ?_ byHash
    exact foldl_entries (fun t => ⟨sequences, resources, some t, none⟩) _ fun _ _ => rfl
  have hbucket : (rowsOf (.table .byBucket) (fun t => t.keys.map (.entry .bucket))
      byBucket).foldl addRow ⟨sequences, resources, byHash, none⟩ =
      ⟨sequences, resources, byHash, byBucket⟩ := by
    refine foldl_rowsOf (fun t => ⟨sequences, resources, byHash, t⟩) ?_ byBucket
    exact foldl_entries (fun t => ⟨sequences, resources, byHash, some t⟩) _ fun _ _ => rfl
  rw [hsequences, hresources, hhash, hbucket]

/-! ## Files -/

theorem lines_eq (s : Store) : s.lines = heading :: (s.rows.map StoreRow.line ++ [[]]) := rfl

theorem lines_unbroken (s : Store) : ∀ line ∈ s.lines, '\n' ∉ line := by
  intro line hline
  rw [lines_eq] at hline
  rcases List.mem_cons.1 hline with rfl | hline
  · decide
  · rcases List.mem_append.1 hline with hrow | hlast
    · obtain ⟨row, -, rfl⟩ := List.mem_map.1 hrow
      exact row.line_unbroken
    · rw [List.mem_singleton.1 hlast]
      exact List.not_mem_nil

theorem ofLines?_lines (s : Store) : ofLines? s.lines = some s := by
  have hrows : (s.rows.map StoreRow.line).mapM
      (fun line => StoreRow.ofWords? (Text.split ' ' line)) = some s.rows := by
    induction s.rows with
    | nil => rfl
    | cons row rest ih =>
      rw [List.map_cons, List.mapM_cons, row.ofWords?_line, ih]
      rfl
  rw [lines_eq, ofLines?, if_pos ⟨rfl, List.getLast?_concat ..⟩, List.dropLast_concat, hrows,
    Option.map_some, ofRows_rows]

/-- **A store is read back from its file.** -/
theorem ofFile?_file (s : Store) : ofFile? s.file = some s := by
  have hfile : s.file = (String.ofList (Text.join '\n' s.lines)).toUTF8 := rfl
  have htext : String.fromUTF8? s.file = some (String.ofList (Text.join '\n' s.lines)) := by
    generalize String.ofList (Text.join '\n' s.lines) = text at hfile ⊢
    rw [hfile, String.toUTF8, String.fromUTF8?, dif_pos text.isValidUTF8]
    rfl
  have hlines : Text.split '\n' (Text.join '\n' s.lines) = s.lines :=
    Text.split_join (List.cons_ne_nil _ _) s.lines_unbroken
  have hsome : ¬ s.file.isEmpty = true := by
    intro hempty
    have hsize : (String.ofList (Text.join '\n' s.lines)).utf8ByteSize = 0 := beq_iff_eq.1 hempty
    have hjoin := congrArg String.toList (String.utf8ByteSize_eq_zero_iff.1 hsize)
    rw [String.toList_ofList] at hjoin
    rw [hjoin] at hlines
    cases hlines
  rw [ofFile?, if_neg hsome, htext, Option.bind_some, String.toList_ofList, hlines,
    ofLines?_lines]

end Store

end ObjectRegistry
