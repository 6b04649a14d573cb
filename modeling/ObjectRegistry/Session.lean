import ObjectRegistry.Session.Batch

/-!
# Sessions

A session is a registry in use: its storage, its limits, and the generators and walks that its
user keeps under names. Two names can share one generator, and then draw from one lease; so names
point to a list of generators that only ever grows, and a generator that lost its last name keeps
the values it never handed out (`Session.generators`).

A step that fails leaves the session going. Steps of concurrent callers are served one after the
other.
-/

namespace ObjectRegistry

/-- A registry in use. -/
structure Session where
  backing : Backing
  limits : Limits
  /-- The present time, in seconds since 1970. -/
  now : Int64
  /-- Every generator that was built, also those without a name. -/
  generators : List Generator
  /-- The place of a named generator in that list. -/
  generatorNames : Table String Nat
  walks : Table String Walk

namespace Session

/-- A session that begins, over some storage. -/
def start (backing : Backing) (limits : Limits) (now : Int64) : Session where
  backing
  limits
  now
  generators := []
  generatorNames := .empty
  walks := .empty

/-- The answer to a step and the session behind it. -/
abbrev Outcome := Except Failure Answer × Session

/-- A step that is a single operation on the storage. -/
def perform (s : Session) (access : Access α) (answer : α → Answer) : Outcome :=
  match access.on s.backing with
  | (.ok a, backing) => (.ok (answer a), { s with backing })
  | (.error e, backing) => (.error (.error e), { s with backing })

/-- A step that is several operations on the storage, one after the other. -/
def performInTurn (s : Session) (goesOn : Except Error α → Bool) (calls : List (Access α))
    (answer : List (Except Error α) → Except Failure Answer) : Outcome :=
  let (answers, backing) := Access.inTurn goesOn calls s.backing
  (answer answers, { s with backing })

/-- A generator by its name, and its place. -/
def generator? (s : Session) (name : String) : Option (Nat × Generator) := do
  let place ← s.generatorNames.get? name
  let g ← s.generators[place]?
  return (place, g)

/-- Calls a method over and over, as long as it succeeds and no more than `n` times. -/
def repeatedly (method : Method σ α) :
    Nat → List α → σ → Backing → List α × Option Error × σ × Backing
  | 0, drawn, self, backing => (drawn.reverse, none, self, backing)
  | n + 1, drawn, self, backing =>
    match method.on self backing with
    | (.ok a, self, backing) => repeatedly method n (a :: drawn) self backing
    | (.error e, self, backing) => (drawn.reverse, some e, self, backing)

/-- Draws from a named generator and puts it back, as the last call left it. -/
def draw (s : Session) (name : String) (times : Nat) (one : Method Generator α)
    (answer : List α → Answer) (failure : Error → List α → Failure) : Outcome :=
  match s.generator? name with
  | none => (.error .noSuchGenerator, s)
  | some (place, g) =>
    let (drawn, error?, g, backing) := repeatedly one times [] g s.backing
    let s := { s with backing, generators := s.generators.set place g }
    match error? with
    | none => (.ok (answer drawn), s)
    | some e => (.error (failure e drawn), s)

/-- Puts a generator under a name, in place of the one that had it. -/
def keepGenerator (s : Session) (name : String) (g : Generator) : Session where
  backing := s.backing
  limits := s.limits
  now := s.now
  generators := s.generators ++ [g]
  generatorNames := s.generatorNames.insert name s.generators.length
  walks := s.walks

/-- The position that a listing starts behind. -/
def startPosition : Start → Except Error (Option Cursor)
  | .beginning => .ok none
  | .behind cursor => .ok (some cursor)
  | .token text => (Cursor.decode text).map some

/-- One page of a scope from a starting point on. -/
def listPage (scope : Scope) (start : Start) (limit : UInt32) : Access Page := do
  let after ← Access.check (startPosition start)
  Registry.page scope { after, limit }

/-- All tables of the store. -/
def dump (store : Store) : Except Error Answer :=
  match store.sequences, store.resources, store.byHash, store.byBucket with
  | some sequences, some resources, some byHash, some byBucket =>
    .ok (.tables sequences resources byHash byBucket)
  | _, _, _, _ => .error (.storage .missingTable)

/-- Closes the registry, which forgets generators and walks, and opens its store again. -/
def reopen (s : Session) (limits : Limits) : Outcome :=
  match s.backing with
  | .embedded store => (.ok .done, start (.embedded store.opened) limits s.now)
  | .unreachable => (.error (.error (.storage .unreachable)), s)

/-- Puts a walk under a name. -/
def keepWalk (s : Session) (name : String) (w : Walk) : Session :=
  { s with walks := s.walks.insert name w }

/-- Does something with a named walk. -/
def withWalk (s : Session) (name : String) (act : Walk → Outcome) : Outcome :=
  match s.walks.get? name with
  | none => (.error .noSuchWalk, s)
  | some w => act w

/-- One step of a session. -/
def step (s : Session) : Step → Outcome
  | .allocateNext name => s.perform (Sequence.allocateNext s.limits.nameLimit name) .value
  | .allocateBlock name count =>
    s.perform (Sequence.allocateBlock s.limits.nameLimit name count) .block
  | .current name => s.perform (Sequence.current s.limits.nameLimit name) .maybeValue
  | .nameLimit => (.ok (.length s.limits.nameLimit), s)
  | .allocateTogether name callers =>
    s.performInTurn (fun _ => true)
      (List.replicate callers (Sequence.allocateNext s.limits.nameLimit name)) fun answers =>
        together answers .values fun e _ => .error e
  | .makeGenerator as sequence format blockSize =>
    match Generator.make s.limits.nameLimit sequence format
        (blockSize.getD s.limits.blockSize) with
    | .ok g => (.ok (.generator g.sequence g.format.describe), s.keepGenerator as g)
    | .error e => (.error (.error e), s)
  | .shareGenerator name as =>
    match s.generator? name with
    | none => (.error .noSuchGenerator, s)
    | some (place, _) =>
      (.ok .done, { s with generatorNames := s.generatorNames.insert as place })
  | .dropGenerator name =>
    (.ok (.existed (s.generatorNames.contains name)),
      { s with generatorNames := s.generatorNames.erase name })
  | .nextValues name times => s.draw name times Generator.nextValue .values .afterValues
  | .nextIds name times => s.draw name times Generator.nextId .ids .afterIds
  | .create r => s.perform (Registry.create r) .resource
  | .createNow r => s.perform (Registry.create { r with createTime := s.now }) .resource
  | .createSeries series =>
    s.performInTurn Except.isOk ((members series).map Registry.create) fun answers =>
      together answers (fun rs => .created rs.length) fun e rs => .afterCreating e rs.length
  | .createTogether id callers =>
    s.performInTurn (fun _ => true) ((contenders id callers).map Registry.create) fun answers =>
      together (answers.filter fun a => !isTaken a)
        (fun rs => .raced rs.length (answers.countP isTaken)) fun e _ => .error e
  | .get id => s.perform (Registry.get id) .maybeResource
  | .delete id => s.perform (Registry.delete id) .maybeResource
  | .purge cutoff => s.perform (Registry.purge cutoff) .resources
  | .findDuplicate bucket hash => s.perform (Registry.findDuplicate bucket hash) .maybeResource
  | .listAll scope => s.perform (Walk.along scope 0).collect .resources
  | .listPage scope start limit => s.perform (listPage scope start limit) .page
  | .beginWalk as scope pageSize => (.ok .done, s.keepWalk as (.along scope pageSize))
  | .copyWalk name as => s.withWalk name fun w => (.ok .done, s.keepWalk as w)
  | .resizeWalk name pageSize =>
    s.withWalk name fun w => (.ok .done, s.keepWalk name (w.resize pageSize))
  | .restartWalk name => s.withWalk name fun w => (.ok .done, s.keepWalk name w.restart)
  | .walkOn name => s.withWalk name fun w =>
    let (answer, w, backing) := Walk.nextPage.on w s.backing
    let s := { s with backing, walks := s.walks.insert name w }
    match answer with
    | .ok items => (.ok (.maybeResources items), s)
    | .error e => (.error (.error e), s)
  | .collectWalk name => s.withWalk name fun w =>
    { s with walks := s.walks.erase name }.perform w.collect .resources
  | .health => s.perform Registry.health fun _ => .done
  | .backend => (.ok (.backend s.backing.backend), s)
  | .openAgain => (.error (.error (.storage .unopenable)), s)
  | .reopen nameLimit blockSize =>
    s.reopen
      { nameLimit := nameLimit.getD s.limits.nameLimit
        blockSize := blockSize.getD s.limits.blockSize }
  | .dump => s.perform (Access.read dump) id
  | .reserve name count => s.perform (Access.write (Store.reserve name count)) .block
  | .counter name => s.perform (Access.read fun store => store.counter name) .maybeValue
  | .insert r => s.perform (Access.write (Store.insert r)) fun _ => .done
  | .storedPage scope after limit =>
    s.perform (Access.read fun store => store.page scope after limit) .page
  | .putBytes id bytes => s.perform (Access.write (Store.putBytes id bytes)) fun _ => .done
  | .putEntry axis entry => s.perform (Access.write (Store.putEntry axis entry)) fun _ => .done
  | .dropBytes id => s.perform (Access.write (Store.dropBytes id)) fun _ => .done
  | .dropTable name => s.perform (Access.write (Store.dropTable name)) fun _ => .done

/-- The answers to steps taken one after the other, and the session behind the last. -/
def run : List Step → Session → List (Except Failure Answer) × Session
  | [], s => ([], s)
  | step :: rest, s =>
    let (answer, s) := s.step step
    let (answers, s) := run rest s
    (answer :: answers, s)

end Session

end ObjectRegistry
