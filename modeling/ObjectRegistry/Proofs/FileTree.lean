import ObjectRegistry.FileTree

/-!
# What writing a file does to a tree

A file that was written is found again by the path it was written under, and no other path leads to
anything new (`FileTree.follow_written`). Paths are followed name by name and may lead over any
directory on the way to the file, so this rests on a statement about all locations: putting
something at one location changes what is there and nothing of what can be told of any other
(`FileNode.content?_put`). In particular directories stay directories.

The same statement says that directories made along a path are there in the end
(`FileTree.makeAlong_follow`).
-/

namespace ObjectRegistry

namespace FileNode

/-- What can be told of a node without looking below it: the content of a file. -/
def content? : FileNode → Option ByteArray
  | .file content => some content
  | .directory _ => none

/-- Nothing is below the node. -/
def Bare (node : FileNode) : Prop := ∀ l, l ≠ [] → node.at? l = none

theorem bare_file (content : ByteArray) : Bare (.file content)
  | [], h => absurd rfl h
  | _ :: _, _ => rfl

theorem bare_emptyDirectory : Bare emptyDirectory
  | [], h => absurd rfl h
  | _ :: _, _ => rfl

@[simp] theorem at?_directory (entries : List (String × FileNode)) (name : String)
    (rest : List String) :
    (directory entries).at? (name :: rest) =
      (entries.lookup name).bind fun below => below.at? rest := rfl

/-- A node with something below it is a directory. -/
theorem eq_directory_of_at? {node found : FileNode} {name : String} {rest : List String}
    (h : node.at? (name :: rest) = some found) :
    ∃ entries below, node = .directory entries ∧ entries.lookup name = some below ∧
      below.at? rest = some found := by
  cases node with
  | file content => cases h
  | directory entries =>
    obtain ⟨below, hbelow, hrest⟩ := Option.bind_eq_some_iff.1 h
    exact ⟨entries, below, rfl, hbelow, hrest⟩

theorem at?_append (node : FileNode) (l m : List String) :
    node.at? (l ++ m) = (node.at? l).bind fun below => below.at? m := by
  induction l generalizing node with
  | nil => rfl
  | cons name rest ih =>
    cases node with
    | file content => rfl
    | directory entries =>
      rw [List.cons_append, at?_directory, at?_directory]
      cases entries.lookup name with
      | none => rfl
      | some below => exact ih below

theorem lookup_put (entries : List (String × FileNode)) (name other : String) (new : FileNode) :
    ((name, new) :: entries.filter fun entry => entry.1 != name).lookup other =
      if other = name then some new else entries.lookup other := by
  by_cases hsame : other = name
  · rw [if_pos hsame, hsame, List.lookup_cons_self]
  · rw [if_neg hsame, List.lookup_cons, beq_false_of_ne hsame]
    show List.lookup other (entries.filter fun entry => entry.1 != name) = entries.lookup other
    induction entries with
    | nil => rfl
    | cons entry rest ih =>
      obtain ⟨key, node⟩ := entry
      by_cases hkey : key = name
      · -- an entry that makes room is not the one looked for
        have hdropped : (key != name) = false := by simp [hkey]
        rw [List.filter_cons_of_neg (by simp [hdropped]), ih, List.lookup_cons,
          beq_false_of_ne (hkey ▸ hsame)]
      · rw [List.filter_cons_of_pos (by simp [hkey]), List.lookup_cons, List.lookup_cons, ih]

/-- One name down, a directory in which something was put is another at that name only. -/
theorem at?_put_cons (new : FileNode) (entries : List (String × FileNode)) (name x : String)
    (l m : List String) :
    (new.put (name :: l) (.directory entries)).at? (x :: m) =
      if x = name then (new.put l ((entries.lookup name).getD emptyDirectory)).at? m
      else (directory entries).at? (x :: m) := by
  rw [at?_directory, put, at?_directory, lookup_put]
  by_cases hx : x = name
  · rw [if_pos hx, if_pos hx]
    rfl
  · rw [if_neg hx, if_neg hx]

variable {node new : FileNode} {parent : List String} {name : String}

/-- What was put at a location is there, if the location lies in a directory. -/
theorem at?_put_self {entries : List (String × FileNode)}
    (h : node.at? parent = some (.directory entries)) :
    (new.put (parent ++ [name]) node).at? (parent ++ [name]) = some new := by
  induction parent generalizing node with
  | nil =>
    cases h
    rw [List.nil_append, at?_put_cons, if_pos rfl]
    rfl
  | cons first rest ih =>
    obtain ⟨entries', below, rfl, hlookup, hrest⟩ := eq_directory_of_at? h
    rw [List.cons_append, at?_put_cons, if_pos rfl, hlookup]
    exact ih hrest

/-- **Putting something at one location** changes nothing of what can be told of any other. -/
theorem content?_put {entries : List (String × FileNode)}
    (h : node.at? parent = some (.directory entries)) (hnew : new.Bare)
    (hold : ∀ old, node.at? (parent ++ [name]) = some old → old.Bare) {l : List String}
    (hl : l ≠ parent ++ [name]) :
    ((new.put (parent ++ [name]) node).at? l).map content? = (node.at? l).map content? := by
  induction parent generalizing node l with
  | nil =>
    cases h
    cases l with
    | nil => rfl
    | cons x rest =>
      rw [List.nil_append, at?_put_cons]
      by_cases hx : x = name
      · -- below the location nothing was, and nothing is
        subst hx
        have hrest : rest ≠ [] := by
          rintro rfl
          exact hl rfl
        have hwas : (directory entries).at? (x :: rest) = none := by
          rw [at?_directory]
          cases hlookup : entries.lookup x with
          | none => rfl
          | some old =>
            have hat : (directory entries).at? [x] = some old := by
              rw [at?_directory, hlookup]
              rfl
            exact hold old hat rest hrest
        rw [if_pos rfl, hwas]
        exact congrArg (Option.map content?) (hnew rest hrest)
      · rw [if_neg hx]
  | cons first rest ih =>
    obtain ⟨entries', below, rfl, hlookup, hrest⟩ := eq_directory_of_at? h
    cases l with
    | nil => rfl
    | cons x more =>
      rw [List.cons_append, at?_put_cons]
      by_cases hx : x = first
      · subst hx
        have hthere : ∀ m, (directory entries').at? (x :: m) = below.at? m := by
          intro m
          rw [at?_directory, hlookup]
          rfl
        rw [if_pos rfl, hlookup, hthere]
        refine ih hrest (fun old hat => hold old ?_) fun he => hl (congrArg (x :: ·) he)
        rw [List.cons_append, hthere]
        exact hat
      · rw [if_neg hx]

/-- Of two things put at one location the second counts. -/
theorem put_put (new later node : FileNode) (l : List String) :
    later.put l (new.put l node) = later.put l node := by
  induction l generalizing node with
  | nil => rfl
  | cons name rest ih =>
    cases node with
    | file content => rfl
    | directory entries =>
      show FileNode.directory _ = FileNode.directory _
      rw [lookup_put, if_pos rfl, Option.getD_some, ih,
        List.filter_cons_of_neg (by simp), List.filter_filter]
      simp

end FileNode

namespace FileTree

open FileNode (content? Bare)

/-- A directory is at a location. -/
def IsDirectory (tree : FileTree) (l : List String) : Prop :=
  ∃ entries, tree.node? l = some (.directory entries)

/-- The location lies in a directory. -/
def HasParent (tree : FileTree) (l : List String) : Prop :=
  ∃ parent name, l = parent ++ [name] ∧ tree.IsDirectory parent

variable {tree tree' : FileTree}

theorem isDirectory_iff {l : List String} :
    tree.IsDirectory l ↔ (tree.node? l).map content? = some none := by
  unfold IsDirectory
  cases tree.node? l with
  | none => simp
  | some node =>
    cases node with
    | file content => simp [content?]
    | directory entries => simp [content?]

theorem not_isDirectory_of_file {l : List String} {content : ByteArray}
    (h : tree.node? l = some (.file content)) : ¬ tree.IsDirectory l := by
  rintro ⟨entries, hentries⟩
  rw [h] at hentries
  cases hentries

theorem not_isDirectory_of_vacant {l : List String} (h : tree.node? l = none) :
    ¬ tree.IsDirectory l := by
  rintro ⟨entries, hentries⟩
  rw [h] at hentries
  cases hentries

/-- What is no directory has nothing below it. -/
theorem bare_of_not_isDirectory {l : List String} (h : ¬ tree.IsDirectory l) {old : FileNode}
    (hold : tree.node? l = some old) : old.Bare := by
  cases old with
  | file content => exact FileNode.bare_file content
  | directory entries => exact absurd ⟨entries, hold⟩ h

/-- What is above a directory is a directory. -/
theorem IsDirectory.above {l m : List String} (h : tree.IsDirectory (l ++ m)) :
    tree.IsDirectory l := by
  obtain ⟨entries, hat⟩ := h
  unfold node? at hat
  rw [FileNode.at?_append] at hat
  obtain ⟨node, hnode, hbelow⟩ := Option.bind_eq_some_iff.1 hat
  cases node with
  | directory entries' => exact ⟨entries', hnode⟩
  | file content =>
    cases m with
    | nil => cases hbelow
    | cons name rest => cases hbelow

theorem IsDirectory.dropLast {l : List String} (h : tree.IsDirectory l) :
    tree.IsDirectory l.dropLast := by
  by_cases hnil : l = []
  · subst hnil
    exact h
  · rw [← List.dropLast_concat_getLast hnil] at h
    exact h.above

/-- What a destination says is so. -/
def Found (tree : FileTree) : Destination → Prop
  | .directory l => tree.IsDirectory l
  | .file l content => tree.node? l = some (.file content) ∧ tree.HasParent l
  | .vacant l => tree.node? l = none ∧ tree.HasParent l

theorem follow_found {names : List String} {d : List String} {destination : Destination}
    (hd : tree.IsDirectory d) (h : tree.follow d names = .ok destination) :
    tree.Found destination := by
  induction names generalizing d with
  | nil =>
    cases h
    exact hd
  | cons name rest ih =>
    unfold follow at h
    split at h
    next => exact ih hd h
    next =>
      split at h
      next => exact ih hd.dropLast h
      next =>
        split at h
        next => cases h
        next =>
          have hparent : tree.HasParent (d ++ [name]) := ⟨d, name, rfl, hd⟩
          simp only at h
          split at h
          next entries hnode => exact ih ⟨entries, hnode⟩ h
          next content hnode =>
            split at h
            · cases h
              exact ⟨hnode, hparent⟩
            · cases h
          next hnode =>
            split at h
            · cases h
              exact ⟨hnode, hparent⟩
            · cases h

/-! ## One location changed -/

/-- Two trees of which the same can be told at every location but one. -/
structure Beside (l : List String) (tree tree' : FileTree) : Prop where
  working : tree'.workingDirectory = tree.workingDirectory
  alike : ∀ m, m ≠ l → (tree'.node? m).map content? = (tree.node? m).map content?

theorem Beside.isDirectory {l m : List String} (h : Beside l tree tree') (hm : m ≠ l) :
    tree'.IsDirectory m ↔ tree.IsDirectory m := by
  rw [isDirectory_iff, isDirectory_iff, h.alike m hm]

theorem put_beside {l : List String} {new : FileNode} (hparent : tree.HasParent l)
    (hnew : new.Bare) (hnot : ¬ tree.IsDirectory l) : Beside l tree (tree.put l new) where
  working := rfl
  alike m hm := by
    have hold : ∀ old, tree.node? l = some old → old.Bare :=
      fun old hold => bare_of_not_isDirectory hnot hold
    obtain ⟨parent, name, rfl, entries, hentries⟩ := hparent
    exact FileNode.content?_put hentries hnew hold hm

theorem node?_put {l : List String} {new : FileNode} (hparent : tree.HasParent l) :
    (tree.put l new).node? l = some new := by
  obtain ⟨parent, name, rfl, entries, hentries⟩ := hparent
  exact FileNode.at?_put_self hentries

theorem put_put (tree : FileTree) (l : List String) (new later : FileNode) :
    (tree.put l new).put l later = tree.put l later := by
  unfold put
  rw [FileNode.put_put]

/-! ## A file written -/

/-- Where a path leads when a file has come to be at a location, or has another content. -/
def written (l : List String) (content : ByteArray) : Destination → Destination
  | .directory m => .directory m
  | .file m c => if m = l then .file m content else .file m c
  | .vacant m => if m = l then .file m content else .vacant m

/-- **Paths lead where they led**, over all the same directories, but find the file that was
written. -/
theorem follow_written {l : List String} {content : ByteArray} (h : Beside l tree tree')
    (hnot : ¬ tree.IsDirectory l) (hfile : tree'.node? l = some (.file content))
    {names d : List String} {destination : Destination}
    (hfollow : tree.follow d names = .ok destination) :
    tree'.follow d names = .ok (written l content destination) := by
  induction names generalizing d with
  | nil =>
    cases hfollow
    rfl
  | cons name rest ih =>
    unfold follow at hfollow ⊢
    by_cases hstay : name = "" ∨ name = "."
    · rw [if_pos hstay] at hfollow ⊢
      exact ih hfollow
    rw [if_neg hstay] at hfollow ⊢
    by_cases hup : name = ".."
    · rw [if_pos hup] at hfollow ⊢
      exact ih hfollow
    rw [if_neg hup] at hfollow ⊢
    by_cases hlong : nameBound < name.utf8ByteSize
    · rw [if_pos hlong] at hfollow
      cases hfollow
    rw [if_neg hlong] at hfollow ⊢
    simp only at hfollow ⊢
    have halike := h.alike (d ++ [name])
    cases hnode : tree.node? (d ++ [name]) with
    | none =>
      rw [hnode] at hfollow halike
      simp only at hfollow
      by_cases hrest : rest.isEmpty = true
      · rw [if_pos hrest] at hfollow
        cases hfollow
        by_cases hl : d ++ [name] = l
        · rw [written, if_pos hl]
          simp only [hl, hfile, if_pos hrest]
        · rw [written, if_neg hl]
          have hnone : tree'.node? (d ++ [name]) = none := Option.map_eq_none_iff.1 (halike hl)
          simp only [hnone, if_pos hrest]
      · rw [if_neg hrest] at hfollow
        cases hfollow
    | some node =>
      rw [hnode] at hfollow halike
      cases node with
      | directory entries =>
        -- the location written is no directory, so this one is another
        have hl : d ++ [name] ≠ l := fun hl => hnot (hl ▸ ⟨entries, hnode⟩)
        obtain ⟨entries', hentries'⟩ := (h.isDirectory hl).2 ⟨entries, hnode⟩
        simp only [hentries']
        exact ih hfollow
      | file c =>
        simp only at hfollow
        by_cases hrest : rest.isEmpty = true
        · rw [if_pos hrest] at hfollow
          cases hfollow
          by_cases hl : d ++ [name] = l
          · rw [written, if_pos hl]
            simp only [hl, hfile, if_pos hrest]
          · rw [written, if_neg hl]
            obtain ⟨node', hnode', hcontent⟩ := Option.map_eq_some_iff.1 (halike hl)
            cases node' with
            | directory entries => cases hcontent
            | file c' =>
              cases hcontent
              simp only [hnode', if_pos hrest]
        · rw [if_neg hrest] at hfollow
          cases hfollow

theorem resolve_written {l : List String} {content : ByteArray} (h : Beside l tree tree')
    (hnot : ¬ tree.IsDirectory l) (hfile : tree'.node? l = some (.file content)) {path : String}
    {destination : Destination} (hresolve : tree.resolve path = .ok destination) :
    tree'.resolve path = .ok (written l content destination) := by
  have horigin : tree'.origin path = tree.origin path := by
    unfold origin
    rw [h.working]
  unfold resolve at hresolve ⊢
  rw [horigin]
  cases hcheck : checkPath path with
  | error fault =>
    rw [hcheck] at hresolve
    cases hresolve
  | ok _ =>
    rw [hcheck] at hresolve
    exact follow_written h hnot hfile hresolve

/-- A path that led somewhere still does. -/
theorem present_written {l : List String} {content : ByteArray} (h : Beside l tree tree')
    (hnot : ¬ tree.IsDirectory l) (hfile : tree'.node? l = some (.file content)) {path : String}
    (hpresent : tree.present path = true) : tree'.present path = true := by
  unfold present at hpresent ⊢
  cases hresolve : tree.resolve path with
  | error fault =>
    rw [hresolve] at hpresent
    cases hpresent
  | ok destination =>
    rw [hresolve] at hpresent
    rw [resolve_written h hnot hfile hresolve]
    cases destination with
    | directory m => rfl
    | file m c =>
      by_cases hm : m = l
      · rw [written, if_pos hm]
      · rw [written, if_neg hm]
    | vacant m => cases hpresent

/-! ## Directories made -/

/-- Every directory of one tree is one of the other. -/
def Keeps (tree tree' : FileTree) : Prop := ∀ l, tree.IsDirectory l → tree'.IsDirectory l

/-- A name that leads to a directory leads there as long as the directory is kept. -/
theorem follow_step {d l : List String} {name : String} (rest : List String)
    (h : tree.follow d [name] = .ok (.directory l)) (hkeeps : tree.Keeps tree') :
    tree'.follow d (name :: rest) = tree'.follow l rest := by
  rw [follow] at h ⊢
  by_cases hstay : name = "" ∨ name = "."
  · rw [if_pos hstay] at h ⊢
    cases h
    rfl
  rw [if_neg hstay] at h ⊢
  by_cases hup : name = ".."
  · rw [if_pos hup] at h ⊢
    cases h
    rfl
  rw [if_neg hup] at h ⊢
  by_cases hlong : nameBound < name.utf8ByteSize
  · rw [if_pos hlong] at h
    cases h
  rw [if_neg hlong] at h ⊢
  simp only at h ⊢
  split at h
  next entries hnode =>
    cases h
    obtain ⟨entries', hentries'⟩ := hkeeps _ ⟨entries, hnode⟩
    simp only [hentries']
  next => cases h
  next => cases h

theorem follow_vacant {d l : List String} {name : String}
    (h : tree.follow d [name] = .ok (.vacant l)) (hdir : tree'.IsDirectory l) :
    tree'.follow d [name] = .ok (.directory l) := by
  rw [follow] at h ⊢
  by_cases hstay : name = "" ∨ name = "."
  · rw [if_pos hstay] at h
    cases h
  rw [if_neg hstay] at h ⊢
  by_cases hup : name = ".."
  · rw [if_pos hup] at h
    cases h
  rw [if_neg hup] at h ⊢
  by_cases hlong : nameBound < name.utf8ByteSize
  · rw [if_pos hlong] at h
    cases h
  rw [if_neg hlong] at h ⊢
  simp only at h ⊢
  split at h
  next => cases h
  next => cases h
  next hnode =>
    cases h
    obtain ⟨entries', hentries'⟩ := hdir
    simp only [hentries']
    rfl

theorem emptyDirectory_keeps {l : List String} (hnode : tree.node? l = none)
    (hparent : tree.HasParent l) : tree.Keeps (tree.put l .emptyDirectory) := by
  intro m hm
  have hnot := not_isDirectory_of_vacant hnode
  have hne : m ≠ l := fun he => hnot (he ▸ hm)
  exact ((put_beside hparent FileNode.bare_emptyDirectory hnot).isDirectory hne).2 hm

/-- **Directories made along a path** are there in the end, and so are those from before. -/
theorem makeAlong_follow (names : List String) :
    ∀ {tree : FileTree} {d : List String}, tree.IsDirectory d →
      (tree.makeAlong d names).2.workingDirectory = tree.workingDirectory ∧
      tree.Keeps (tree.makeAlong d names).2 ∧
      ((tree.makeAlong d names).1 = .ok () →
        ∃ l, (tree.makeAlong d names).2.follow d names = .ok (.directory l)) := by
  induction names with
  | nil => exact fun _ => ⟨rfl, fun _ hl => hl, fun _ => ⟨_, rfl⟩⟩
  | cons name rest ih =>
    intro tree d hd
    unfold makeAlong
    cases hstep : tree.follow d [name] with
    | error fault => exact ⟨rfl, fun _ hl => hl, fun h => by cases h⟩
    | ok destination =>
      have hfound := follow_found hd hstep
      cases destination with
      | file l content => exact ⟨rfl, fun _ hl => hl, fun h => by cases h⟩
      | directory l =>
        obtain ⟨hworking, hkeeps, hmade⟩ := ih hfound
        refine ⟨hworking, hkeeps, fun h => ?_⟩
        simp only [follow_step rest hstep hkeeps]
        exact hmade h
      | vacant l =>
        -- the directory is made, and from then on the name leads to it
        have hhere : (tree.put l .emptyDirectory).IsDirectory l := ⟨[], node?_put hfound.2⟩
        obtain ⟨hworking, hkeeps, hmade⟩ := ih hhere
        refine ⟨hworking, fun m hm => hkeeps m (emptyDirectory_keeps hfound.1 hfound.2 m hm),
          fun h => ?_⟩
        simp only [follow_step rest (follow_vacant hstep hhere) hkeeps]
        exact hmade h

end FileTree

end ObjectRegistry
