import ObjectRegistry.Database
import ObjectRegistry.Proofs.FileTree
import ObjectRegistry.Proofs.Restarts
import ObjectRegistry.Proofs.StoreFile

/-!
# The file of a database

Opening a database that is an embedded store leaves a tree in which its path leads to a file with
that store, and in which everything is there that opening it again or writing it back needs
(`Database.Settled`). From then on opening it answers the same store and changes nothing at all
(`Database.connect_settled`), and writing another store back cannot fail (`Database.save_settled`).
-/

namespace ObjectRegistry

namespace FileTree

variable {ε α β : Type}

/-- What an action on the files of a tree answers, and the tree after it. -/
def on (action : ExceptT ε (StateM FileTree) α) (tree : FileTree) : Except ε α × FileTree :=
  (ExceptT.run action).run tree

variable {tree tree' : FileTree}

theorem on_bind (x : ExceptT ε (StateM FileTree) α) (f : α → ExceptT ε (StateM FileTree) β)
    (tree : FileTree) :
    on (x >>= f) tree =
      match on x tree with
      | (.ok a, tree') => on (f a) tree'
      | (.error e, tree') => (.error e, tree') := by
  unfold on
  rw [ExceptT.run_bind, StateT.run_bind]
  rcases (ExceptT.run x).run tree with ⟨_ | _, _⟩ <;> rfl

theorem on_bind_ok {x : ExceptT ε (StateM FileTree) α} {a : α} (h : on x tree = (.ok a, tree'))
    (f : α → ExceptT ε (StateM FileTree) β) : on (x >>= f) tree = on (f a) tree' := by
  rw [on_bind, h]

/-- An action made of two that succeeds is two that do. -/
theorem of_on_bind_ok {x : ExceptT ε (StateM FileTree) α} {f : α → ExceptT ε (StateM FileTree) β}
    {b : β} (h : on (x >>= f) tree = (.ok b, tree')) :
    ∃ a between, on x tree = (.ok a, between) ∧ on (f a) between = (.ok b, tree') := by
  rw [on_bind] at h
  rcases hx : on x tree with ⟨e | a, between⟩
  · rw [hx] at h
    cases h
  · rw [hx] at h
    exact ⟨a, between, rfl, h⟩

/-- What is done to the files second is done to the tree that the first leaves. -/
theorem run_bind (x : StateM FileTree α) (f : α → StateM FileTree β) (tree : FileTree) :
    (x >>= f).run tree = (f (x.run tree).1).run (x.run tree).2 := rfl

/-- What is done to the files first cannot fail by itself; the rest sees what it answered. -/
theorem on_bind_lift (action : StateM FileTree α) (f : α → ExceptT ε (StateM FileTree) β)
    (tree : FileTree) :
    on ((liftM action : ExceptT ε (StateM FileTree) α) >>= f) tree =
      on (f (action.run tree).1) (action.run tree).2 := rfl

@[simp] theorem run_read (tree : FileTree) (path : String) :
    (files.read path).run tree = (tree.read path, tree) := rfl

@[simp] theorem run_present (tree : FileTree) (path : String) :
    (files.present path).run tree = (tree.present path, tree) := rfl

@[simp] theorem run_makeDirectories (tree : FileTree) (path : String) :
    (files.makeDirectories path).run tree = tree.makeDirectories path := rfl

theorem run_write (tree : FileTree) (path : String) (content : ByteArray) :
    (files.write path content).run tree =
      match tree.write path content with
      | .ok tree' => (.ok (), tree')
      | .error fault => (.error fault, tree) := by
  unfold files
  simp only [StateT.run_bind, StateT.run_get, pure_bind]
  cases tree.write path content with
  | ok tree' => rfl
  | error fault => rfl

/-! ## Writing where a path leads -/

/-- The path leads to a file of this content, and the tree is as writing that content leaves it. -/
def Wrote (tree : FileTree) (path : String) (content : ByteArray) : Prop :=
  ∃ l, tree.resolve path = .ok (.file l content) ∧ tree.HasParent l ∧
    tree.put l (.file content) = tree

theorem Wrote.read {path : String} {content : ByteArray} (h : tree.Wrote path content) :
    tree.read path = .ok content := by
  obtain ⟨l, hresolve, -, -⟩ := h
  unfold FileTree.read
  rw [hresolve]
  rfl

theorem Wrote.write_again {path : String} {content : ByteArray} (h : tree.Wrote path content) :
    tree.write path content = .ok tree := by
  obtain ⟨l, hresolve, -, hput⟩ := h
  unfold FileTree.write
  rw [hresolve]
  exact congrArg Except.ok hput

/-- Where a file can be written, it is found afterwards, and no path is lost. -/
theorem put_wrote {path : String} {l : List String} {content : ByteArray}
    (hresolve : tree.resolve path = .ok (.vacant l) ∨
      ∃ c, tree.resolve path = .ok (.file l c))
    (hnot : ¬ tree.IsDirectory l) (hparent : tree.HasParent l) :
    (tree.put l (.file content)).Wrote path content ∧
      ∀ other, tree.present other = true → (tree.put l (.file content)).present other = true := by
  have hbeside := put_beside hparent (FileNode.bare_file content) hnot
  have hfile : (tree.put l (.file content)).node? l = some (.file content) := node?_put hparent
  refine ⟨⟨l, ?_, ?_, put_put _ _ _ _⟩, fun other => present_written hbeside hnot hfile⟩
  · rcases hresolve with hvacant | ⟨c, hthere⟩
    · rw [resolve_written hbeside hnot hfile hvacant, written, if_pos rfl]
    · rw [resolve_written hbeside hnot hfile hthere, written, if_pos rfl]
  · -- the directory around the file is not where the file is
    obtain ⟨parent, name, rfl, hdirectory⟩ := hparent
    have hne : parent ≠ parent ++ [name] := by simp
    exact ⟨parent, name, rfl, (hbeside.isDirectory hne).2 hdirectory⟩

theorem origin_isDirectory (h : tree.IsDirectory tree.workingDirectory) (path : String) :
    tree.IsDirectory (tree.origin path) := by
  unfold origin
  split
  · exact IsDirectory.above (l := []) h
  · exact h

theorem follow_of_resolve {path : String} {destination : Destination}
    (h : tree.resolve path = .ok destination) :
    tree.follow (tree.origin path) (Path.names path) = .ok destination := by
  unfold resolve at h
  cases hcheck : checkPath path with
  | error fault =>
    rw [hcheck] at h
    cases h
  | ok _ =>
    rw [hcheck] at h
    exact h

/-- A write that succeeds leaves the content where the path leads. -/
theorem write_wrote {path : String} {content : ByteArray}
    (hworking : tree.IsDirectory tree.workingDirectory)
    (h : tree.write path content = .ok tree') :
    tree'.Wrote path content ∧
      ∀ other, tree.present other = true → tree'.present other = true := by
  unfold FileTree.write at h
  cases hresolve : tree.resolve path with
  | error fault =>
    rw [hresolve] at h
    cases h
  | ok destination =>
    have hfound := follow_found (origin_isDirectory hworking path) (follow_of_resolve hresolve)
    rw [hresolve] at h
    cases destination with
    | directory l => cases h
    | file l c =>
      cases h
      exact put_wrote (Or.inr ⟨c, hresolve⟩) (not_isDirectory_of_file hfound.1) hfound.2
    | vacant l =>
      cases h
      exact put_wrote (Or.inl hresolve) (not_isDirectory_of_vacant hfound.1) hfound.2

/-- What was written can be replaced by anything. -/
theorem Wrote.rewrite {path : String} {content : ByteArray} (h : tree.Wrote path content)
    (later : ByteArray) :
    ∃ tree', tree.write path later = .ok tree' ∧ tree'.Wrote path later ∧
      ∀ other, tree.present other = true → tree'.present other = true := by
  obtain ⟨l, hresolve, hparent, hput⟩ := h
  have hnode : tree.node? l = some (.file content) := by
    rw [← hput]
    exact node?_put hparent
  refine ⟨tree.put l (.file later), ?_,
    put_wrote (Or.inr ⟨content, hresolve⟩) (not_isDirectory_of_file hnode) hparent⟩
  unfold FileTree.write
  rw [hresolve]
  rfl

/-- Directories that were made are present. -/
theorem makeDirectories_present {path : String}
    (hworking : tree.IsDirectory tree.workingDirectory)
    (h : tree.makeDirectories path = (.ok (), tree')) :
    tree'.IsDirectory tree'.workingDirectory ∧ tree'.present path = true := by
  unfold makeDirectories at h
  cases hcheck : checkPath path with
  | error fault =>
    rw [hcheck] at h
    cases h
  | ok _ =>
    rw [hcheck] at h
    simp only at h
    obtain ⟨hplace, hkeeps, hmade⟩ :=
      makeAlong_follow (Path.names path) (origin_isDirectory hworking path)
    rw [h] at hplace hkeeps hmade
    obtain ⟨l, hfollow⟩ := hmade rfl
    refine ⟨hplace.symm ▸ hkeeps _ hworking, ?_⟩
    have horigin : tree'.origin path = tree.origin path := by
      unfold origin
      rw [hplace]
    unfold present resolve
    rw [hcheck, horigin]
    simp only [bind, Except.bind, hfollow]

end FileTree

/-! ## Opening and writing back -/

namespace Database

open FileTree

variable {tree tree' : FileTree} {config : Config} {path : String} {store : Store}

/-- A tree that opening a database leaves: the path leads to a file with the store, in a directory
that is present. -/
structure Settled (tree : FileTree) (path : String) (store : Store) : Prop where
  wrote : tree.Wrote path store.file
  parent : ∀ directory, Path.parent? path = some directory → tree.present directory = true

theorem makeParent_present (h : ∀ directory, Path.parent? path = some directory →
    tree.present directory = true) : on (makeParent files path) tree = (.ok (), tree) := by
  unfold makeParent
  cases hparent : Path.parent? path with
  | none => rfl
  | some directory =>
    simp only [on_bind_lift, run_present, h directory hparent, if_true]
    rfl

theorem makeParent_ok (hworking : tree.IsDirectory tree.workingDirectory)
    (h : on (makeParent files path) tree = (.ok (), tree')) :
    tree'.IsDirectory tree'.workingDirectory ∧
      ∀ directory, Path.parent? path = some directory → tree'.present directory = true := by
  unfold makeParent at h
  cases hparent : Path.parent? path with
  | none =>
    rw [hparent] at h
    cases h
    exact ⟨hworking, fun directory hd => by cases hd⟩
  | some directory =>
    rw [hparent] at h
    suffices hmade : tree'.IsDirectory tree'.workingDirectory ∧ tree'.present directory = true by
      refine ⟨hmade.1, fun other hother => ?_⟩
      cases hother
      exact hmade.2
    cases hthere : tree.present directory with
    | true =>
      simp only [on_bind_lift, run_present, hthere, if_true] at h
      cases h
      exact ⟨hworking, hthere⟩
    | false =>
      simp only [on_bind_lift, run_present, run_makeDirectories, hthere, Bool.false_eq_true,
        if_false] at h
      rcases hmake : tree.makeDirectories directory with ⟨fault | _, made⟩
      · rw [hmake] at h
        cases h
      · rw [hmake] at h
        cases h
        exact makeDirectories_present hworking hmake

/-- Loading looks at the file only. -/
theorem load_looks (path : String) (tree : FileTree) : (on (load files path) tree).2 = tree := by
  unfold load
  simp only [on_bind_lift, run_read]
  cases tree.read path with
  | error fault => cases fault <;> rfl
  | ok content =>
    simp only
    cases Store.ofFile? content <;> rfl

theorem load_wrote (h : tree.Wrote path store.file) :
    on (load files path) tree = (.ok store, tree) := by
  unfold load
  simp only [on_bind_lift, run_read, h.read, Store.ofFile?_file]
  rfl

/-- **Opening a database** that can be opened leaves an open store, and a tree that holds it. -/
theorem connect_ok {backing : Backing} (hworking : tree.IsDirectory tree.workingDirectory)
    (h : on (connect files config) tree = (.ok backing, tree')) :
    config.backend = .embedded ∧ ∃ store : Store, backing = .embedded store ∧ store.Open ∧
      Settled tree' config.databasePath store := by
  unfold connect at h
  cases hbackend : config.backend with
  | postgres =>
    -- a server is never reached
    rw [hbackend] at h
    by_cases hurl : config.databaseUrl.isNone = true
    · simp only [if_pos hurl] at h
      cases h
    · simp only [if_neg hurl] at h
      cases h
  | embedded =>
    rw [hbackend] at h
    obtain ⟨_, made, hmake, hrest⟩ := of_on_bind_ok h
    obtain ⟨hworking, hparent⟩ := makeParent_ok hworking hmake
    obtain ⟨loaded, looked, hload, hlast⟩ := of_on_bind_ok hrest
    have hsame : looked = made := by
      have hlooks := load_looks config.databasePath made
      rwa [hload] at hlooks
    subst hsame
    simp only [on_bind_lift, run_write] at hlast
    cases hwrite : FileTree.write looked config.databasePath loaded.opened.file with
    | error fault =>
      rw [hwrite] at hlast
      cases hlast
    | ok after =>
      rw [hwrite] at hlast
      cases hlast
      obtain ⟨hwrote, hpresent⟩ := write_wrote hworking hwrite
      exact ⟨rfl, loaded.opened, rfl, loaded.opened_open, hwrote,
        fun directory hd => hpresent directory (hparent directory hd)⟩

/-- **Opening it again** answers the same store and leaves the tree as it is. -/
theorem connect_settled (hbackend : config.backend = .embedded) (hopen : store.Open)
    (h : Settled tree config.databasePath store) :
    on (connect files config) tree = (.ok (.embedded store), tree) := by
  unfold connect
  rw [hbackend]
  simp only
  rw [on_bind_ok (makeParent_present h.parent), on_bind_ok (load_wrote h.wrote)]
  simp only [on_bind_lift, run_write, hopen.opened_eq, h.wrote.write_again]
  rfl

/-- **Writing back** succeeds, and the tree holds what was written. -/
theorem save_settled (h : Settled tree config.databasePath store) (later : Store) :
    ∃ tree', on (save files config (.embedded later)) tree = (.ok (), tree') ∧
      Settled tree' config.databasePath later := by
  obtain ⟨tree', hwrite, hwrote, hpresent⟩ := h.wrote.rewrite later.file
  refine ⟨tree', ?_, hwrote, fun directory hd => hpresent directory (h.parent directory hd)⟩
  unfold save
  simp only [on_bind_lift, run_write, hwrite]
  rfl

end Database

end ObjectRegistry
