import ObjectRegistry.Proofs.DatabaseFile
import ObjectRegistry.Proofs.Refusals
import ObjectRegistry.Shell

/-!
# One process for each command

Every run of the program opens the database, performs one command and writes the database back. A
registry that stays open instead keeps its store in memory and only writes it back (`Shell.serve`).
Both answer every list of commands alike and leave the same files (`Shell.apart_eq_together`),
because between two commands the file holds the store of the registry that stayed open, and that
store is open: no command takes away what opening would have to add (`Command.perform_keeps`).
-/

namespace ObjectRegistry

/-! ## What commands keep -/

section Commands

open Access

variable {P : Backing → Prop}

theorem Registry.drawIds_keeps (h : Backing.OnReserve P) (n : Nat) :
    ∀ (drawn : List String) (g : Generator), Keeps P (fun _ => True) (drawIds n drawn g) := by
  induction n with
  | zero => exact fun drawn g => Keeps.pure _
  | succ n ih => exact fun drawn g => Keeps.bind (h.nextId g) fun drawnNow => ih _ _

theorem Registry.register_keeps (hreserve : Backing.OnReserve P) (hchange : Backing.OnChange P)
    (limit : Nat) (now : Int64) (content : ByteArray) (registration : Registration) :
    Keeps P (fun _ => True) (register limit now content registration) := by
  refine Keeps.bind ((earlier_looks registration _).keeps P) fun found => ?_
  cases found with
  | some resource => exact Keeps.pure _
  | none =>
    refine Keeps.bind (hreserve.allocateNext _ _) fun value => ?_
    exact Keeps.bind (hchange.create _) fun resource => Keeps.pure _

/-- **A command keeps** what reserving and changes to resources keep. -/
theorem Command.perform_keeps (hreserve : Backing.OnReserve P) (hchange : Backing.OnChange P)
    (limits : Limits) (now : Int64) (content : ByteArray) (command : Command) :
    Keeps P (fun _ => True) (command.perform limits now content) := by
  have hlooks : ∀ {α : Type} {access : Access α}, Looks access →
      ∀ reply : α → Reply, Keeps P (fun _ => True) (access >>= fun a => pure (reply a)) :=
    fun hl reply => Keeps.bind (hl.keeps P) fun a => Keeps.pure _
  cases command with
  | migrate => exact fun b hb => ⟨hb, fun _ _ => trivial⟩
  | health => exact hlooks Registry.health_looks _
  | allocate name count => exact Keeps.bind (hreserve.allocateBlock _ _ _) fun block => Keeps.pure _
  | peek name => exact hlooks (Sequence.current_looks _ _) _
  | mint sequence count format =>
    refine Keeps.bind ?_ fun ids => Keeps.pure _
    exact Keeps.bind (Keeps.check fun _ _ => trivial) fun g =>
      Registry.drawIds_keeps hreserve _ _ _
  | register file registration =>
    exact Keeps.bind (Registry.register_keeps hreserve hchange _ _ _ _) fun registered =>
      Keeps.pure _
  | create id bucket hash size createTime =>
    exact Keeps.bind (hchange.create _) fun resource => Keeps.pure _
  | get id => exact hlooks (Registry.get_looks id) _
  | findHash hash => exact hlooks (Walk.collect_looks _) _
  | list bucket after limit =>
    exact Keeps.bind (Keeps.check fun _ _ => trivial) fun position =>
      hlooks (Registry.page_looks _ _) _
  | delete id => exact Keeps.bind (hchange.delete id) fun resource => Keeps.pure _
  | purge cutoff => exact Keeps.bind (hchange.purge cutoff) fun resources => Keeps.pure _

end Commands

/-! ## Commands one after the other -/

namespace Shell

open FileTree (on on_bind on_bind_ok files)

/-- A command and the second at which it is run. -/
structure Job where
  command : Command
  now : Int64

/-- Runs a process of its own for each command. -/
def apart (config : Config) : List Job → FileTree → List (Except Failure Reply) × FileTree
  | [], tree => ([], tree)
  | job :: rest, tree =>
    let (answer, tree) := on (perform files config job.now job.command) tree
    let (answers, tree) := apart config rest tree
    (answer :: answers, tree)

/-- Performs a command on a registry that is open and stays open. -/
def serve (config : Config) (job : Job) (backing : Backing) (tree : FileTree) :
    Except Failure Reply × Backing × FileTree :=
  match on (content files job.command) tree with
  | (.error failure, tree) => (.error failure, backing, tree)
  | (.ok content, tree) =>
    let (answer, backing) := (job.command.perform config.limits job.now content).on backing
    match on (lift (Database.save files config backing)) tree with
    | (.error failure, tree) => (.error failure, backing, tree)
    | (.ok (), tree) => (answer.mapError .registry, backing, tree)

/-- Performs commands on a registry that is open and stays open. -/
def together (config : Config) :
    List Job → Backing → FileTree → List (Except Failure Reply) × Backing × FileTree
  | [], backing, tree => ([], backing, tree)
  | job :: rest, backing, tree =>
    let (answer, backing, tree) := serve config job backing tree
    let (answers, backing, tree) := together config rest backing tree
    (answer :: answers, backing, tree)

variable {config : Config} {tree tree' : FileTree}

theorem on_lift {α : Type} (action : ExceptT Error (StateM FileTree) α) (tree : FileTree) :
    on (lift action) tree = ((on action tree).1.mapError .registry, (on action tree).2) := rfl

/-- A process opens the database and then does what a registry does that is open. -/
theorem perform_eq_serve {backing : Backing} (job : Job)
    (h : on (Database.connect files config) tree = (.ok backing, tree')) :
    on (perform files config job.now job.command) tree =
      ((serve config job backing tree').1, (serve config job backing tree').2.2) := by
  have hconnect : on (lift (Database.connect files config)) tree = (.ok backing, tree') := by
    rw [on_lift, h]
    rfl
  unfold perform serve
  rw [on_bind_ok hconnect, on_bind]
  rcases on (content files job.command) tree' with ⟨failure | content, read⟩
  · rfl
  simp only
  rcases (job.command.perform config.limits job.now content).on backing with ⟨answer, after⟩
  simp only
  rw [on_bind]
  rcases on (lift (Database.save files config after)) read with ⟨failure | _, saved⟩
  · rfl
  cases answer with
  | error e => rfl
  | ok reply => rfl

/-- The content of a file is read and nothing is written. -/
theorem content_looks (command : Command) (tree : FileTree) :
    (on (content files command) tree).2 = tree := by
  unfold content
  cases command.file? with
  | none => rfl
  | some path =>
    simp only [FileTree.on_bind_lift, FileTree.run_read]
    cases tree.read path <;> rfl

/-- **A process on a file that holds a store** answers what its command answers over the store, and
its file then holds what the command leaves. -/
theorem perform_settled {store store' : Store} (hbackend : config.backend = .embedded)
    (hopen : store.Open) (h : Database.Settled tree config.databasePath store) (job : Job)
    (hfile : job.command.file? = none) {answer : Except Error Reply}
    (hperform : (job.command.perform config.limits job.now .empty).on (.embedded store) =
      (answer, .embedded store')) :
    ∃ tree', on (perform files config job.now job.command) tree =
        (answer.mapError .registry, tree') ∧
      Database.Settled tree' config.databasePath store' := by
  have hcontent : on (content files job.command) tree = (.ok .empty, tree) := by
    unfold content
    rw [hfile]
    rfl
  obtain ⟨saved, hsave, hsettled⟩ := Database.save_settled h store'
  refine ⟨saved, ?_, hsettled⟩
  rw [perform_eq_serve job (Database.connect_settled hbackend hopen h)]
  unfold serve
  simp only [hcontent, hperform, on_lift, hsave]
  rfl

/-- **An open registry** that serves a command keeps its store open, and its file holds it. -/
theorem serve_settled {store : Store} (hopen : store.Open)
    (h : Database.Settled tree config.databasePath store) (job : Job) :
    ∃ store' : Store, (serve config job (.embedded store) tree).2.1 = .embedded store' ∧
      store'.Open ∧
      Database.Settled (serve config job (.embedded store) tree).2.2 config.databasePath
        store' := by
  unfold serve
  have hlooks := content_looks job.command tree
  rcases hcontent : on (content files job.command) tree with ⟨failure | content, read⟩
  · rw [hcontent] at hlooks
    subst hlooks
    exact ⟨store, rfl, hopen, h⟩
  rw [hcontent] at hlooks
  subst hlooks
  simp only
  have hkeeps := Command.perform_keeps Backing.Open.onReserve Backing.Open.onChange config.limits
    job.now content job.command (.embedded store) ⟨store, rfl, hopen⟩
  rcases hperform : (job.command.perform config.limits job.now content).on (.embedded store) with
    ⟨answer, after⟩
  rw [hperform] at hkeeps
  obtain ⟨store', rfl, hopen'⟩ := hkeeps.1
  obtain ⟨saved, hsave, hsettled⟩ := Database.save_settled h store'
  simp only [on_lift, hsave]
  exact ⟨store', rfl, hopen', hsettled⟩

/-- **Processes answer like a registry that stays open**, as long as they find its store. -/
theorem apart_eq_together (hbackend : config.backend = .embedded) (jobs : List Job) :
    ∀ {tree : FileTree} {store : Store}, store.Open →
      Database.Settled tree config.databasePath store →
      apart config jobs tree =
          ((together config jobs (.embedded store) tree).1,
            (together config jobs (.embedded store) tree).2.2) ∧
        on (Database.connect files config) (together config jobs (.embedded store) tree).2.2 =
          (.ok (together config jobs (.embedded store) tree).2.1,
            (together config jobs (.embedded store) tree).2.2) := by
  induction jobs with
  | nil =>
    intro tree store hopen hsettled
    exact ⟨rfl, Database.connect_settled hbackend hopen hsettled⟩
  | cons job rest ih =>
    intro tree store hopen hsettled
    have hperform := perform_eq_serve job (Database.connect_settled hbackend hopen hsettled)
    obtain ⟨store', hstore', hopen', hsettled'⟩ := serve_settled hopen hsettled job
    rcases hserve : serve config job (.embedded store) tree with ⟨answer, after, served⟩
    rw [hserve] at hperform hstore' hsettled'
    subst hstore'
    obtain ⟨hanswers, hconnect⟩ := ih hopen' hsettled'
    simp only [apart, together, hperform, hserve, hanswers]
    exact ⟨trivial, hconnect⟩

/-- **Restarts are invisible.** Where a database can be opened, closing and opening it again between
the steps of a session changes no answer to a later step and nothing in the store; and processes
that each open it for one command answer like a registry that stays open, and leave the files it
leaves, in which opening finds its store. -/
theorem restarts_unseen {config : Config} {tree opened : FileTree} {backing : Backing}
    (hworking : tree.IsDirectory tree.workingDirectory)
    (hconnect : on (Database.connect files config) tree = (.ok backing, opened)) :
    (∀ (now : Int64) (turns : List (Option Step)),
      (∀ step, some step ∈ turns → step.Standalone) →
        (Session.interrupted turns (.start backing config.limits now)).1 =
            (Session.run turns.reduceOption (.start backing config.limits now)).1 ∧
          (Session.interrupted turns (.start backing config.limits now)).2.backing =
            (Session.run turns.reduceOption (.start backing config.limits now)).2.backing) ∧
      ∀ jobs : List Job,
        (apart config jobs tree).1 = (together config jobs backing opened).1 ∧
          on (Database.connect files config) (apart config jobs tree).2 =
            (.ok (together config jobs backing opened).2.1,
              (together config jobs backing opened).2.2) := by
  obtain ⟨hbackend, store, rfl, hopen, hsettled⟩ := Database.connect_ok hworking hconnect
  refine ⟨fun now turns hturns => ?_, fun jobs => ?_⟩
  · obtain ⟨hanswers, hend⟩ := Session.interrupted_agree hturns
      (Session.Agree.refl (.start (.embedded store) config.limits now)) ⟨store, rfl, hopen⟩
    exact ⟨hanswers, hend.backing⟩
  cases jobs with
  | nil => exact ⟨rfl, hconnect⟩
  | cons job rest =>
    -- the first process finds what a process on the opened database would find
    have hfirst : apart config (job :: rest) tree = apart config (job :: rest) opened := by
      have hagain := Database.connect_settled hbackend hopen hsettled
      simp only [apart, perform_eq_serve job hconnect, perform_eq_serve job hagain]
    obtain ⟨heq, hfound⟩ := apart_eq_together hbackend (job :: rest) hopen hsettled
    rw [hfirst, heq]
    exact ⟨rfl, hfound⟩

/-- Settings for a database in a directory of its own. -/
def settings : Config := .embedded "data/registry.db"

/-- Two values with restarts around them. -/
def restarts : List (Option Step) :=
  [none, some (.allocateNext "orders"), none, none, some (.allocateNext "orders")]

/-- A value drawn, a resource removed that never was, and a counter looked at. -/
def errands : List Job :=
  [⟨.allocate "orders" 2, 5⟩, ⟨.delete "absent", 6⟩, ⟨.peek "orders", 7⟩]

/-- The database is made along with its directory, and opened again by every process. -/
theorem restarts_unseen_errands :
    (Session.interrupted restarts (.start (.embedded .fresh) settings.limits 0)).1 =
        (Session.run restarts.reduceOption (.start (.embedded .fresh) settings.limits 0)).1 ∧
      (apart settings errands .empty).1 =
        (together settings errands (.embedded .fresh)
          (on (Database.connect files settings) .empty).2).1 := by
  have hworking : FileTree.empty.IsDirectory FileTree.empty.workingDirectory := ⟨[], rfl⟩
  have hconnect : on (Database.connect files settings) .empty =
      (.ok (.embedded .fresh), (on (Database.connect files settings) .empty).2) :=
    Prod.ext rfl rfl
  have hrestarts : ∀ step, some step ∈ restarts → step.Standalone := by
    intro step hstep
    simp only [restarts, List.mem_cons, List.not_mem_nil, or_false, reduceCtorEq, false_or,
      Option.some.injEq, or_self] at hstep
    subst hstep
    trivial
  obtain ⟨hsessions, hprocesses⟩ := restarts_unseen hworking hconnect
  exact ⟨(hsessions 0 restarts hrestarts).1, (hprocesses errands).1⟩

end Shell

end ObjectRegistry
