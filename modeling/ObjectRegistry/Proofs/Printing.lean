import ObjectRegistry.Json.Fields
import ObjectRegistry.Proofs.Processes

/-!
# What a run prints

A string is printed in quotes, with escapes for the characters that JSON does not let stand for
themselves, and reading what is printed gives the string back (`Json.readString_escape`). So an
array of strings, printed an item to a line, shows these strings and no others (`Json.Shows`): the
reader of arrays finds them in it, by induction on the lines below the first.

A run of the program whose command line and settings make sense performs its command, and ends with
the reply or with the failure (`Shell.run_performs`). It prints the reply; a failure prints nothing.
-/

namespace ObjectRegistry

namespace Json

/-! ## Strings in quotes -/

theorem hexValue?_hexDigit {n : Nat} (h : n < 16) : hexValue? (escape.hexDigit n) = some n := by
  have hall : ∀ n < 16, hexValue? (escape.hexDigit n) = some n := by decide
  exact hall n h

/-- A character with a number below 256 is read back from its four digits. -/
theorem readEscape_digits {c : Char} (h : c.toNat < 256) (rest : List Char) :
    readEscape ('u' :: '0' :: '0' :: escape.hexDigit (c.toNat / 16) ::
      escape.hexDigit (c.toNat % 16) :: rest) = .ok (c, rest) := by
  have hzero : hexValue? '0' = some 0 := rfl
  have hhigh := hexValue?_hexDigit (n := c.toNat / 16) (by omega)
  have hlow := hexValue?_hexDigit (n := c.toNat % 16) (by omega)
  have hcode : 4096 * 0 + 256 * 0 + 16 * (c.toNat / 16) + c.toNat % 16 = c.toNat := by omega
  have hdigits : readFourDigits ('0' :: '0' :: escape.hexDigit (c.toNat / 16) ::
      escape.hexDigit (c.toNat % 16) :: rest) = .ok (c.toNat, rest) := by
    simp only [readFourDigits, hzero, hhigh, hlow, hcode]
  have hlowHalf : ¬ (0xDC00 ≤ c.toNat ∧ c.toNat ≤ 0xDFFF) := by omega
  have hhighHalf : ¬ (0xD800 ≤ c.toNat ∧ c.toNat ≤ 0xDBFF) := by omega
  rw [readEscape, hdigits]
  show (if 0xDC00 ≤ c.toNat ∧ c.toNat ≤ 0xDFFF then _ else _) = _
  rw [if_neg hlowHalf]
  show (if 0xD800 ≤ c.toNat ∧ c.toNat ≤ 0xDBFF then _ else _) = _
  rw [if_neg hhighHalf, Char.ofNat_toNat]
  rfl

/-- An escape stands for its character in the string. -/
theorem readStringFrom_readEscape {rest left : List Char} {c : Char}
    (h : readEscape rest = .ok (c, left)) (step : Char) (steps front : List Char) :
    readStringFrom (step :: steps) front ('\\' :: rest) =
      readStringFrom steps (c :: front) left := by
  rw [readStringFrom, h]
  rfl

/-- **A character is read back** from what it is escaped to, in one step. -/
theorem readStringFrom_escape (step : Char) (steps front : List Char) (c : Char)
    (rest : List Char) :
    readStringFrom (step :: steps) front (escape c ++ rest) =
      readStringFrom steps (c :: front) rest := by
  -- an escape with a letter stands for the character of one number
  have hshort : ∀ {n : Nat} {letter : Char}, c.toNat = n →
      readEscape (letter :: rest) = .ok (Char.ofNat n, rest) →
      readStringFrom (step :: steps) front ('\\' :: letter :: rest) =
        readStringFrom steps (c :: front) rest := by
    intro n letter hn hread
    have hc : c = Char.ofNat n := by rw [← hn, Char.ofNat_toNat]
    rw [readStringFrom_readEscape hread, hc]
  unfold escape
  split
  next hquote => exact hshort (congrArg Char.toNat hquote) rfl
  next hquote =>
  split
  next hbackslash => exact hshort (congrArg Char.toNat hbackslash) rfl
  next hbackslash =>
  split
  next hbackspace => exact hshort hbackspace rfl
  split
  next htab => exact hshort htab rfl
  split
  next hline => exact hshort hline rfl
  split
  next hform => exact hshort hform rfl
  split
  next hreturn => exact hshort hreturn rfl
  split
  next hcontrol =>
    exact readStringFrom_readEscape (readEscape_digits (by omega) rest) step steps front
  next hcontrol =>
    show readStringFrom (step :: steps) front (c :: rest) = _
    rw [readStringFrom, if_neg hcontrol]
    · exact hquote
    · exact hbackslash

theorem escape_ne_nil (c : Char) : escape c ≠ [] := by
  unfold escape
  repeat' split
  all_goals exact List.cons_ne_nil _ _

theorem length_le_flatMap_escape (cs : List Char) : cs.length ≤ (cs.flatMap escape).length := by
  induction cs with
  | nil => exact Nat.le_refl _
  | cons c rest ih =>
    have hpos : 0 < (escape c).length := List.length_pos_iff.2 (escape_ne_nil c)
    rw [List.flatMap_cons, List.length_append, List.length_cons]
    omega

theorem readStringFrom_flatMap (cs : List Char) :
    ∀ {steps : List Char} (front rest : List Char), cs.length < steps.length →
      readStringFrom steps front (cs.flatMap escape ++ '"' :: rest) =
        .ok (String.ofList (front.reverse ++ cs), rest) := by
  induction cs with
  | nil =>
    intro steps front rest hsteps
    cases steps with
    | nil => exact absurd hsteps (Nat.lt_irrefl 0)
    | cons step more => rw [List.append_nil]; rfl
  | cons c more ih =>
    intro steps front rest hsteps
    cases steps with
    | nil => exact absurd hsteps (Nat.not_lt_zero _)
    | cons step left =>
      rw [List.flatMap_cons, List.append_assoc, readStringFrom_escape,
        ih (c :: front) rest (Nat.lt_of_succ_lt_succ hsteps), List.reverse_cons, List.append_assoc]
      rfl

/-- **A string is read back** from what stands behind its opening quote, whatever follows. -/
theorem readString_escape (t : String) (rest : List Char) :
    readString (t.toList.flatMap escape ++ '"' :: rest) = .ok (t, rest) := by
  have hlength := length_le_flatMap_escape t.toList
  rw [readString, readStringFrom_flatMap]
  · rw [List.reverse_nil, List.nil_append, String.ofList_toList]
  · rw [List.length_append, List.length_cons]
    omega

theorem toList_quote (t : String) :
    (quote t).toList = '"' :: (t.toList.flatMap escape ++ ['"']) := by
  simp only [quote, String.toList_append, String.toList_ofList]
  rfl

/-- A string in quotes is read where a text is wanted. -/
theorem readPlain_quote (t : String) (rest : List Char) :
    readPlain .text ((quote t).toList ++ rest) = .ok (.string t, rest) := by
  rw [toList_quote, List.cons_append, List.append_assoc]
  show (readString (t.toList.flatMap escape ++ '"' :: rest)).map
    (fun read => (Value.string read.1, read.2)) = _
  rw [readString_escape]
  rfl

/-! ## Arrays of strings -/

/-- The shape of an array of as many texts as a list has items. -/
def textsLike (texts : List String) : Shape := texts.map fun _ => ("", .text)

/-- A text that shows some strings: an array over several lines with an item to a line, or in one
line if there are no items. These strings and no others are read from it. -/
structure Shows (printed : String) (texts : List String) : Prop where
  nothing : texts = [] → printed = "[]\n"
  lines : texts ≠ [] → printed = "[\n  " ++ ",\n  ".intercalate (texts.map quote) ++ "\n]\n"
  read : ∃ items, printed.toList = '[' :: items ∧
    readItems (textsLike texts) true items = .ok (texts.map fun t => ("", .string t), ['\n'])

/-- What stands in front of an item on a line of its own: the line break behind the bracket, or
behind the comma that ends the line above. -/
def itemFront (first : Bool) : List Char :=
  if first then "\n  ".toList else ",\n  ".toList

/-- Strings as the lines of an array below its first item. -/
def furtherLines (texts : List String) : List Char :=
  texts.flatMap fun t => itemFront false ++ (quote t).toList

/-- **An item is read** in front of the items that are left. -/
theorem readItems_quote {t : String} {texts : List String} {rest left : List Char}
    (h : readItems (textsLike texts) false rest = .ok (texts.map fun t => ("", .string t), left))
    (first : Bool) :
    readItems (textsLike (t :: texts)) first (itemFront first ++ (quote t).toList ++ rest) =
      .ok ((t :: texts).map fun t => ("", .string t), left) := by
  have hread := readPlain_quote t rest
  rw [toList_quote] at hread ⊢
  cases first
  all_goals
    show (readPlain .text ('"' :: (t.toList.flatMap escape ++ ['"']) ++ rest) >>= _ :
      Except Fault (List (String × Value) × List Char)) = _
    rw [hread]
    show (readItems (textsLike texts) false rest >>= _ :
      Except Fault (List (String × Value) × List Char)) = _
    rw [h]
    rfl

/-- The lines of an array are read to its end. -/
theorem readItems_furtherLines (texts : List String) :
    readItems (textsLike texts) false (furtherLines texts ++ "\n]\n".toList) =
      .ok (texts.map fun t => ("", .string t), ['\n']) := by
  induction texts with
  | nil => rfl
  | cons t rest ih =>
    rw [furtherLines, List.flatMap_cons, List.append_assoc]
    exact readItems_quote ih false

theorem indentedItems_strings (front t : String) (rest : List String) :
    indentedItems 1 (front ++ quote t) (rest.map .string) =
      front ++ ",\n  ".intercalate ((t :: rest).map quote) := by
  induction rest generalizing front t with
  | nil =>
    rw [List.map_singleton, String.intercalate_singleton]
    rfl
  | cons u more ih =>
    have hline : "," ++ newLine 1 = ",\n  " := rfl
    show indentedItems 1 ((front ++ quote t ++ "," ++ newLine 1) ++ quote u) (more.map .string) = _
    rw [ih]
    simp only [List.map_cons, String.intercalate_cons_cons, String.append_assoc, ← hline]

theorem toList_intercalate_quote (t : String) (rest : List String) :
    (",\n  ".intercalate ((t :: rest).map quote)).toList =
      (quote t).toList ++ furtherLines rest := by
  induction rest generalizing t with
  | nil => rw [List.map_singleton, String.intercalate_singleton, furtherLines, List.flatMap_nil,
      List.append_nil]
  | cons u more ih =>
    rw [List.map_cons, List.map_cons, String.intercalate_cons_cons, ← List.map_cons,
      String.toList_append, String.toList_append, ih, furtherLines, furtherLines,
      List.flatMap_cons, List.append_assoc, List.append_assoc]
    rfl

end Json

/-- **A reply that is a list of ids** is printed as an array that shows them. -/
theorem Reply.text_ids (ids : List String) : Json.Shows (Reply.ids ids).text ids := by
  cases ids with
  | nil => exact ⟨fun _ => rfl, fun hsome => absurd rfl hsome, [']', '\n'], rfl, rfl⟩
  | cons t rest =>
    have hlines : (Reply.ids (t :: rest)).text =
        "[\n  " ++ ",\n  ".intercalate ((t :: rest).map Json.quote) ++ "\n]\n" := by
      have hitems := Json.indentedItems_strings ("[" ++ Json.newLine 1) t rest
      show (Json.indentedItems 1 ("" ++ "[" ++ Json.newLine 1 ++ Json.quote t)
        (rest.map .string) ++ Json.newLine 0 ++ "]") ++ "\n" = _
      rw [show "" ++ "[" = "[" from rfl, hitems]
      simp only [String.append_assoc]
      rfl
    refine ⟨fun hnone => absurd hnone (List.cons_ne_nil t rest), fun _ => hlines, _, ?_,
      Json.readItems_quote (Json.readItems_furtherLines rest) true⟩
    rw [hlines, String.toList_append, String.toList_append, Json.toList_intercalate_quote,
      List.append_assoc, List.append_assoc, List.append_assoc]
    rfl

/-! ## Runs -/

namespace Shell

open FileTree (on files run_bind run_read)

variable {environment : Environment} {arguments : List String} {command : Command}
  {config : Config} {tree : FileTree}

/-- The environment file is read and nothing is written. -/
theorem loadEnvironment_looks (environment : Environment) (tree : FileTree) :
    ((loadEnvironment files environment).run tree).2 = tree := by
  unfold loadEnvironment
  rw [run_bind, run_read]
  cases tree.read ".env" <;> rfl

/-- How a performed command ends a run. -/
def Report.ofAnswer : Except Failure Reply → Report
  | .ok answered => .reply answered
  | .error fault => .failure fault

/-- **A run performs its command** if its command line and its settings make sense. -/
theorem run_performs {answer : Except Failure Reply} {tree' : FileTree} {now : Int64}
    (harguments : CommandLine.read arguments = .ok command)
    (hsettings : Config.ofEnvironment ((loadEnvironment files environment).run tree).1 =
      .ok config)
    (hperform : on (perform files config now command) tree = (answer, tree')) :
    (run files environment now arguments).run tree = (.ofAnswer answer, tree') := by
  have hlooks := loadEnvironment_looks environment tree
  rcases hloaded : (loadEnvironment files environment).run tree with ⟨loaded, after⟩
  rw [hloaded] at hlooks hsettings
  subst hlooks
  unfold run
  rw [harguments]
  show (loadEnvironment files environment >>= _ : StateM FileTree Report).run after = _
  rw [run_bind, hloaded]
  simp only [hsettings]
  rw [run_bind]
  unfold on at hperform
  rw [hperform]
  cases answer with
  | error fault => rfl
  | ok reply => rfl

end Shell

end ObjectRegistry
