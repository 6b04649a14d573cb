/-!
# Texts cut at a separator

A text falls into pieces at every occurrence of a separator, so there is one piece more than there
are separators, and pieces may be empty. Joining puts the separators back, and pieces that were
joined come back as they were if none of them holds a separator (`split_join`).
-/

namespace ObjectRegistry.Text

/-- The pieces of a text, of which `front` is the first piece so far, in reverse. -/
def splitFrom (separator : Char) (front : List Char) : List Char → List (List Char)
  | [] => [front.reverse]
  | c :: rest =>
    if c = separator then front.reverse :: splitFrom separator [] rest
    else splitFrom separator (c :: front) rest

/-- The pieces of a text between the occurrences of a separator. -/
def split (separator : Char) (text : List Char) : List (List Char) :=
  splitFrom separator [] text

/-- Pieces with a separator between each two. -/
def join (separator : Char) : List (List Char) → List Char
  | [] => []
  | [piece] => piece
  | piece :: next :: rest => piece ++ separator :: join separator (next :: rest)

theorem join_cons {separator : Char} {piece : List Char} {rest : List (List Char)}
    (h : rest ≠ []) :
    join separator (piece :: rest) = piece ++ separator :: join separator rest := by
  cases rest with
  | nil => exact absurd rfl h
  | cons => rfl

theorem splitFrom_append {separator : Char} {piece : List Char} (h : separator ∉ piece)
    (front rest : List Char) :
    splitFrom separator front (piece ++ separator :: rest) =
      (front.reverse ++ piece) :: splitFrom separator [] rest := by
  induction piece generalizing front with
  | nil => simp [splitFrom]
  | cons c more ih =>
    have differs : c ≠ separator := fun e => h (e ▸ List.mem_cons_self)
    have later : separator ∉ more := fun m => h (List.mem_cons_of_mem _ m)
    simp [splitFrom, differs, ih later]

theorem splitFrom_piece {separator : Char} {piece : List Char} (h : separator ∉ piece)
    (front : List Char) : splitFrom separator front piece = [front.reverse ++ piece] := by
  induction piece generalizing front with
  | nil => simp [splitFrom]
  | cons c more ih =>
    have differs : c ≠ separator := fun e => h (e ▸ List.mem_cons_self)
    have later : separator ∉ more := fun m => h (List.mem_cons_of_mem _ m)
    simp [splitFrom, differs, ih later]

/-- Pieces without a separator come back as they were. -/
theorem split_join {separator : Char} {pieces : List (List Char)} (some_piece : pieces ≠ [])
    (h : ∀ piece ∈ pieces, separator ∉ piece) :
    split separator (join separator pieces) = pieces := by
  induction pieces with
  | nil => exact absurd rfl some_piece
  | cons piece rest ih =>
    have first := h piece List.mem_cons_self
    cases rest with
    | nil => simp [split, join, splitFrom_piece first]
    | cons next more =>
      have others := ih (by simp) fun p m => h p (List.mem_cons_of_mem _ m)
      unfold split at others ⊢
      rw [join_cons (by simp), splitFrom_append first, others]
      rfl

end ObjectRegistry.Text
