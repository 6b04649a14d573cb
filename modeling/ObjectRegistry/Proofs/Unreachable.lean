import ObjectRegistry.Proofs.Refusals

/-!
# Refusals on either kind of storage

A call is refused on a server that cannot be reached exactly if it is refused over a store, whatever
the store holds (`Session.refused_alike`). Every operation looks at its arguments first and then
turns to the storage (`Access.Upfront`): what is refused is refused in front of the storage, so
alike on both kinds; and behind that point a server that does not answer fails the call, while a
store may fail it for many reasons, but none of them is a refusal (`Access.Consults`).

That a store never refuses is no matter of invariants. Bytes that spell no record, entries that lead
nowhere and tables that are missing fail a call as faults of the storage (`Unrefused`).
-/

namespace ObjectRegistry

/-! ## Stores do not refuse -/

/-- The result is no refusal. -/
def Unrefused {α : Type} (result : Except Error α) : Prop :=
  ∀ e, result = .error e → ¬ e.IsRefusal

namespace Unrefused

variable {α β : Type}

theorem ok (a : α) : Unrefused (.ok a) := fun _ he => by cases he

theorem error {e : Error} (h : ¬ e.IsRefusal) : Unrefused (.error e : Except Error α) := by
  intro e' he
  cases he
  exact h

theorem storage (fault : StorageFault) : Unrefused (.error (.storage fault) : Except Error α) :=
  error id

theorem bind {x : Except Error α} {f : α → Except Error β} (hx : Unrefused x)
    (hf : ∀ a, Unrefused (f a)) : Unrefused (x >>= f) := by
  cases x with
  | ok a => exact hf a
  | error e => exact error (hx e rfl)

theorem mapM {f : α → Except Error β} (hf : ∀ a, Unrefused (f a)) (xs : List α) :
    Unrefused (xs.mapM f) := by
  intro e he
  obtain ⟨_, x, _, _, _, hx⟩ := Draft.mapM_eq_error_iff.1 he
  exact hf x e hx

end Unrefused

namespace Store

theorem readRecord_unrefused (id : String) (bytes : List UInt8) :
    Unrefused (readRecord id bytes) := by
  unfold readRecord
  split
  next => exact Unrefused.ok _
  next => exact Unrefused.storage _

theorem load_unrefused (resources : ResourceTable) (id : String) :
    Unrefused (load resources id) := by
  unfold load
  split
  next => exact Unrefused.ok none
  next bytes _ =>
    exact Unrefused.bind (readRecord_unrefused id bytes) fun r => Unrefused.ok (some r)

theorem find_unrefused (s : Store) (id : String) : Unrefused (s.find id) := by
  unfold find
  split
  next => exact Unrefused.storage _
  next resources _ => exact load_unrefused resources id

theorem follow_unrefused (resources : ResourceTable) (e : IndexEntry) :
    Unrefused (follow resources e) := by
  refine Unrefused.bind (load_unrefused resources e.position.id) ?_
  intro found
  cases found with
  | none => exact Unrefused.storage _
  | some r => exact Unrefused.ok r

theorem page_unrefused (s : Store) (scope : Scope) (after : Option Cursor) (limit : UInt32) :
    Unrefused (s.page scope after limit) := by
  unfold page
  split
  next => exact Unrefused.bind (Unrefused.mapM (follow_unrefused _) _) fun rows => Unrefused.ok _
  next => exact Unrefused.storage _

theorem counter_unrefused (s : Store) (name : String) : Unrefused (s.counter name) := by
  unfold counter
  split
  next => exact Unrefused.storage _
  next => exact Unrefused.ok _

theorem health_unrefused (s : Store) : Unrefused s.health := by
  unfold health
  split
  next => exact Unrefused.storage _
  next => exact Unrefused.ok _

theorem reserve_unrefused (s : Store) (name : String) (count : Int64) :
    Unrefused (s.write (reserve name count)).1 := by
  rw [write_reserve]
  split
  next => exact Unrefused.storage _
  next => exact Unrefused.ok _

theorem remove_unrefused (s : Store) (id : String) : Unrefused (s.write (remove id)).1 := by
  rw [write_remove]
  split
  next => exact Unrefused.ok none
  next bytes _ =>
    split
    next e hread => exact Unrefused.error (readRecord_unrefused id bytes e hread)
    next => exact Unrefused.ok _

theorem readAll_unrefused (s : Store) : Unrefused s.readAll := by
  unfold readAll
  exact Unrefused.mapM (fun b : String × List UInt8 => readRecord_unrefused b.1 b.2) _

theorem purge_unrefused (s : Store) (cutoff : Int64) : Unrefused (s.write (purge cutoff)).1 := by
  rw [write_purge]
  split
  next e hread => exact Unrefused.error (s.readAll_unrefused e hread)
  next => exact Unrefused.ok _

end Store

namespace Access

variable {α β : Type}

theorem Accepts.read {look : Store → Except Error α} (h : ∀ s, Unrefused (look s)) :
    Accepts (read look)
  | .embedded s => h s
  | .unreachable => Unrefused.storage _

theorem Accepts.write {work : Draft (Ending α)} (h : ∀ s : Store, Unrefused (s.write work).1) :
    Accepts (write work)
  | .embedded s => h s
  | .unreachable => Unrefused.storage _

/-- The operation turns to the storage: a server that does not answer fails it, and no storage
refuses it. -/
structure Consults (access : Access α) : Prop where
  unreachable : access.on .unreachable = (.error (.storage .unreachable), .unreachable)
  accepts : Accepts access

/-- The operation is refused in front of the storage, whatever that is, or not at all. -/
def Upfront (access : Access α) : Prop :=
  (∃ e : Error, e.IsRefusal ∧ ∀ b, access.on b = (.error e, b)) ∨ Consults access

theorem Consults.bind {x : Access α} {f : α → Access β} (hx : Consults x)
    (hf : ∀ a, Accepts (f a)) : Consults (x >>= f) where
  unreachable := on_bind_error hx.unreachable f
  accepts := Accepts.bind hx.accepts fun a _ _ _ => hf a

theorem Upfront.bind {x : Access α} {f : α → Access β} (hx : Upfront x)
    (hf : ∀ a, Accepts (f a)) : Upfront (x >>= f) := by
  rcases hx with ⟨e, hrefused, hfails⟩ | hconsults
  · exact Or.inl ⟨e, hrefused, fun b => on_bind_error (hfails b) f⟩
  · exact Or.inr (hconsults.bind hf)

/-- A check in front refuses or lets through. -/
theorem Upfront.of_check {result : Except Error α} {f : α → Access β}
    (hresult : ∀ e, result = .error e → e.IsRefusal) (hf : ∀ a, result = .ok a → Upfront (f a)) :
    Upfront (check result >>= f) := by
  cases hr : result with
  | error e => exact Or.inl ⟨e, hresult e hr, fun b => on_bind_error (on_check _ b) f⟩
  | ok a =>
    have hon : ∀ b, (check (.ok a) >>= f).on b = (f a).on b := fun b => on_bind_ok (on_check _ b) f
    rcases hf a hr with ⟨e, hrefused, hfails⟩ | hconsults
    · exact Or.inl ⟨e, hrefused, fun b => (hon b).trans (hfails b)⟩
    · refine Or.inr ⟨(hon _).trans hconsults.unreachable, ?_⟩
      intro b e he
      rw [hon] at he
      exact hconsults.accepts b e he

end Access

open Access

/-! ## Calls look at their arguments first -/

theorem Sequence.allocateBlock_upfront (limit : Nat) (name : String) (count : UInt32) :
    Upfront (allocateBlock limit name count) := by
  refine Upfront.of_check (fun e => checkName_error) fun _ _ => ?_
  refine Upfront.of_check (fun e he => ?_) fun _ _ => ?_
  · unfold checkCount at he
    split at he
    next => cases he; trivial
    next => cases he
  · exact Or.inr ⟨rfl, Accepts.write fun s => s.reserve_unrefused name _⟩

theorem Sequence.allocateNext_upfront (limit : Nat) (name : String) :
    Upfront (allocateNext limit name) :=
  (allocateBlock_upfront limit name 1).bind fun _ => Accepts.pure _

theorem Sequence.current_upfront (limit : Nat) (name : String) : Upfront (current limit name) :=
  Upfront.of_check (fun _ => checkName_error) fun _ _ =>
    Or.inr ⟨rfl, Accepts.read fun s => s.counter_unrefused name⟩

/-- A generator without a lease turns to its sequence. -/
theorem Generator.next_upfront {g : Generator} (hlease : g.lease = []) : Upfront g.next := by
  rw [next_eq, hlease]
  refine (Sequence.allocateBlock_upfront g.nameLimit g.sequence g.blockSize).bind ?_
  intro block
  cases block.values with
  | cons value rest => exact Accepts.pure _
  | nil => exact fun _ => Unrefused.storage _

theorem Generator.nextId_upfront {g : Generator} (hlease : g.lease = []) :
    Upfront (nextId.of g) := by
  rw [nextId_of]
  exact (next_upfront hlease).bind fun _ => Accepts.pure _

namespace Registry

theorem create_upfront (r : Resource) : Upfront (create r) :=
  Upfront.of_check (fun _ => Resource.validate_error) fun _ _ =>
    Or.inr (Consults.bind ⟨rfl, insert_accepts r⟩ fun _ => Accepts.pure r)

theorem get_consults (id : String) : Consults (get id) :=
  ⟨rfl, Accepts.read fun s => s.find_unrefused id⟩

theorem delete_consults (id : String) : Consults (delete id) :=
  ⟨rfl, Accepts.write fun s => s.remove_unrefused id⟩

theorem purge_consults (cutoff : Int64) : Consults (purge cutoff) :=
  ⟨rfl, Accepts.write fun s => s.purge_unrefused cutoff⟩

theorem page_consults (scope : Scope) (request : PageRequest) : Consults (page scope request) :=
  ⟨rfl, Accepts.read fun s => s.page_unrefused scope request.after request.effectiveLimit⟩

theorem health_consults : Consults health := ⟨rfl, Accepts.read Store.health_unrefused⟩

end Registry

namespace Walk

variable {w : Walk}

theorem next_accepts (w : Walk) : Accepts w.next := by
  rw [next_eq]
  split
  next => exact Accepts.pure _
  next => exact Accepts.bind (Registry.page_consults _ _).accepts fun _ _ _ _ => Accepts.pure _

/-- A walk that is not over turns to the storage for its next page. -/
theorem next_consults (hon : w.finished = false) : Consults w.next := by
  rw [next_eq, hon, if_neg Bool.false_ne_true]
  exact (Registry.page_consults _ _).bind fun _ => Accepts.pure _

theorem search_accepts {α : Type} (pick : List Resource → Option α) (fuel : Nat) (w : Walk) :
    Accepts (search pick fuel w) := by
  induction fuel generalizing w with
  | zero => exact fun _ => Unrefused.storage _
  | succ fuel ih =>
    refine Accepts.bind w.next_accepts ?_
    rintro ⟨items?, behind⟩ _ _ _
    cases items? with
    | none => exact Accepts.pure none
    | some items =>
      cases hfound : pick items with
      | none => simpa only [hfound] using ih behind
      | some found => simpa only [hfound] using Accepts.pure (some found)

theorem collectFrom_accepts (fuel : Nat) (collected : List Resource) (w : Walk) :
    Accepts (collectFrom fuel collected w) := by
  induction fuel generalizing collected w with
  | zero => exact fun _ => Unrefused.storage _
  | succ fuel ih =>
    refine Accepts.bind w.next_accepts ?_
    rintro ⟨items?, behind⟩ _ _ _
    cases items? with
    | none => exact Accepts.pure collected
    | some items => exact ih (collected ++ items) behind

/-- Counting the pages that a walk may have is never refused, and a server that does not answer
lets it have one. -/
theorem bound_accepts (w : Walk) : Accepts w.bound
  | .embedded _ => Unrefused.ok _
  | .unreachable => Unrefused.ok _

theorem collect_consults (hon : w.finished = false) : Consults w.collect where
  unreachable := by
    have hbound : w.bound.on .unreachable = (.ok 1, .unreachable) := rfl
    unfold collect
    rw [on_bind_ok hbound]
    exact on_bind_error (next_consults hon).unreachable _
  accepts := Accepts.bind w.bound_accepts fun fuel _ _ _ => collectFrom_accepts fuel [] w

end Walk

theorem Registry.findDuplicate_consults (bucket hash : String) :
    Consults (findDuplicate bucket hash) where
  unreachable := by
    have hbound : (Walk.along ⟨.hash, hash⟩ 0).bound.on .unreachable = (.ok 1, .unreachable) := rfl
    unfold findDuplicate
    rw [on_bind_ok hbound]
    exact on_bind_error (Walk.next_consults rfl).unreachable _
  accepts := Accepts.bind (Walk.bound_accepts _) fun fuel _ _ _ => Walk.search_accepts _ fuel _

/-! ## Sessions over either storage -/

/-- The calls that the library offers to make on a registry. A generator is asked for one value at a
time. -/
def Step.IsCall : Step → Prop
  | .allocateNext _ | .allocateBlock _ _ | .current _ | .makeGenerator _ _ _ _ | .create _
  | .createNow _ | .get _ | .delete _ | .purge _ | .findDuplicate _ _ | .listAll _
  | .listPage _ _ _ | .walkOn _ | .health => True
  | .nextValues _ times | .nextIds _ times => times = 1
  | _ => False

namespace Session

variable {s : Session} {α : Type}

theorem listPage_upfront (scope : Scope) (start : Start) (limit : UInt32) :
    Upfront (listPage scope start limit) :=
  Upfront.of_check (fun _ => startPosition_error) fun _ _ =>
    Or.inr (Registry.page_consults scope _)

/-- The session with other storage in place of its own. -/
def upon (s : Session) (b : Backing) : Session := { s with backing := b }

/-- A call that is rejected: it fails with a refusal. -/
def Rejects (s : Session) (call : Step) (f : Failure) : Prop :=
  (s.step call).1 = .error f ∧ ∃ e, f.cause? = some e ∧ e.IsRefusal

/-- Whether a call needs the storage. Building a generator, taking a value that is leased and going
on with a walk that is over do not, and neither does a name that no generator or walk has. -/
def NeedsStorage (s : Session) : Step → Prop
  | .makeGenerator _ _ _ _ => False
  | .nextValues name _ | .nextIds name _ =>
    ∃ place g, s.generator? name = some (place, g) ∧ g.lease = []
  | .walkOn name => ∃ w, s.walks.get? name = some w ∧ w.finished = false
  | _ => True

/-- What becomes of a call that needs the storage: it is refused alike over any; or a server that
does not answer fails it, and no storage refuses it. A call that fails leaves the session. -/
def Settled (s : Session) (call : Step) : Prop :=
  (∃ f e, f.cause? = some e ∧ e.IsRefusal ∧ ∀ b, (s.upon b).step call = (.error f, s.upon b)) ∨
  (∃ f, f.cause? = some (.storage .unreachable) ∧
    (s.upon .unreachable).step call = (.error f, s.upon .unreachable)) ∧
    ∀ b f e, ((s.upon b).step call).1 = .error f → f.cause? = some e → ¬ e.IsRefusal

/-- A call that rests on one operation: it fails where the operation does, for that cause and with
nothing changed but what the operation changed, and it answers where the operation does. -/
structure RestsOn (s : Session) (call : Step) (access : Access α) (failure : Error → Failure) :
    Prop where
  cause : ∀ e, (failure e).cause? = some e
  fails : ∀ b e b', access.on b = (.error e, b') →
    (s.upon b).step call = (.error (failure e), s.upon b')
  answers : ∀ b a b', access.on b = (.ok a, b') → ∃ answer, ((s.upon b).step call).1 = .ok answer

theorem RestsOn.settled {call : Step} {access : Access α} {failure : Error → Failure}
    (h : s.RestsOn call access failure) (haccess : Upfront access) : s.Settled call := by
  rcases haccess with ⟨e, hrefused, hfails⟩ | hconsults
  · exact Or.inl ⟨failure e, e, h.cause e, hrefused, fun b => h.fails b e b (hfails b)⟩
  · refine Or.inr ⟨⟨_, h.cause _, h.fails _ _ _ hconsults.unreachable⟩, ?_⟩
    intro b f e hf he
    have haccepts := hconsults.accepts b
    rcases hon : access.on b with ⟨e' | a, b'⟩
    · rw [hon] at haccepts
      rw [h.fails b e' b' hon] at hf
      cases hf
      rw [h.cause] at he
      cases he
      exact haccepts e rfl
    · obtain ⟨answer, hanswer⟩ := h.answers b a b' hon
      rw [hanswer] at hf
      cases hf

theorem perform_settled {call : Step} {access : Access α} (haccess : Upfront access)
    {answer : α → Answer} (hstep : ∀ b, (s.upon b).step call = (s.upon b).perform access answer) :
    s.Settled call := by
  have hrests : s.RestsOn call access .error := by
    refine ⟨fun _ => rfl, ?fails, ?answers⟩
    case fails =>
      intro b e b' hon
      rw [hstep, perform, show access.on (s.upon b).backing = (.error e, b') from hon]
      rfl
    case answers =>
      intro b a b' hon
      rw [hstep, perform, show access.on (s.upon b).backing = (.ok a, b') from hon]
      exact ⟨answer a, rfl⟩
  exact hrests.settled haccess

/-- A generator that fails to hand out its next value is put back as it was. -/
theorem draw_settled {call : Step} {name : String} {place : Nat} {g : Generator}
    (hfound : s.generator? name = some (place, g)) {one : Method Generator α}
    (hcareful : one.Careful) (hone : Upfront (one.of g)) {answer : List α → Answer}
    {failure : Error → List α → Failure}
    (hcause : ∀ e, (failure e []).cause? = some e)
    (hstep : ∀ b, (s.upon b).step call = (s.upon b).draw name 1 one answer failure) :
    s.Settled call := by
  have hplace : s.generators.set place g = s.generators := set_generator hfound
  have hnamed : ∀ b, (s.upon b).generator? name = some (place, g) := fun _ => hfound
  have hrests : s.RestsOn call (one.of g) fun e => failure e [] := by
    refine ⟨hcause, ?fails, ?answers⟩
    case fails =>
      intro b e b' hon
      rw [hstep, draw, hnamed]
      simp only [repeatedly, hcareful.on_of_error (b := (s.upon b).backing) hon]
      show (_, { s with backing := b', generators := s.generators.set place g }) = _
      rw [hplace]
      rfl
    case answers =>
      intro b drawn b' hon
      rw [hstep, draw, hnamed]
      simp only [repeatedly, Method.on_of_ok (b := (s.upon b).backing) hon]
      exact ⟨_, rfl⟩
  exact hrests.settled hone

/-- A walk that fails to go on stays where it is. -/
theorem walkOn_settled {name : String} {w : Walk} (hfound : s.walks.get? name = some w)
    (hon : w.finished = false) : s.Settled (.walkOn name) := by
  have hnamed : ∀ b, (s.upon b).walks.get? name = some w := fun _ => hfound
  have hrests : s.RestsOn (.walkOn name) w.next .error := by
    refine ⟨fun _ => rfl, ?fails, ?answers⟩
    case fails =>
      intro b e b' hnext
      obtain rfl : b' = b := (congrArg Prod.snd hnext).symm.trans (w.next_looks b)
      rw [walkOn_eq, withWalk, hnamed]
      simp only [show (s.upon b').backing = b' from rfl, hnext]
    case answers =>
      intro b next b' hnext
      rw [walkOn_eq, withWalk, hnamed]
      simp only [show (s.upon b).backing = b from rfl, hnext]
      exact ⟨_, rfl⟩
  exact hrests.settled (Or.inr (Walk.next_consults hon))

/-- **A call that needs the storage is settled.** -/
theorem step_settled {call : Step} (hcall : call.IsCall) (hneeds : s.NeedsStorage call) :
    s.Settled call := by
  cases call with
  | allocateNext name =>
    exact perform_settled (Sequence.allocateNext_upfront s.limits.nameLimit name) fun _ => rfl
  | allocateBlock name count =>
    exact perform_settled (Sequence.allocateBlock_upfront s.limits.nameLimit name count)
      fun _ => rfl
  | current name =>
    exact perform_settled (Sequence.current_upfront s.limits.nameLimit name) fun _ => rfl
  | makeGenerator as sequence format blockSize => exact hneeds.elim
  | nextValues name times =>
    obtain rfl : times = 1 := hcall
    obtain ⟨place, g, hfound, hlease⟩ := hneeds
    exact draw_settled hfound Generator.nextValue_careful (Generator.next_upfront hlease)
      (fun _ => rfl) fun _ => rfl
  | nextIds name times =>
    obtain rfl : times = 1 := hcall
    obtain ⟨place, g, hfound, hlease⟩ := hneeds
    exact draw_settled hfound Generator.nextId_careful (Generator.nextId_upfront hlease)
      (fun _ => rfl) fun _ => rfl
  | create r => exact perform_settled (Registry.create_upfront r) fun _ => rfl
  | createNow r =>
    exact perform_settled (Registry.create_upfront { r with createTime := s.now }) fun _ => rfl
  | get id => exact perform_settled (Or.inr (Registry.get_consults id)) fun _ => rfl
  | delete id => exact perform_settled (Or.inr (Registry.delete_consults id)) fun _ => rfl
  | purge cutoff => exact perform_settled (Or.inr (Registry.purge_consults cutoff)) fun _ => rfl
  | findDuplicate bucket hash =>
    exact perform_settled (Or.inr (Registry.findDuplicate_consults bucket hash)) fun _ => rfl
  | listAll scope =>
    exact perform_settled (Or.inr (Walk.collect_consults (w := .along scope 0) rfl)) fun _ => rfl
  | listPage scope start limit =>
    exact perform_settled (listPage_upfront scope start limit) fun _ => rfl
  | walkOn name =>
    obtain ⟨w, hfound, hon⟩ := hneeds
    exact walkOn_settled hfound hon
  | health => exact perform_settled (Or.inr Registry.health_consults) fun _ => rfl
  | _ => exact hcall.elim

/-- A generator with a value leased hands it out without its storage. -/
theorem draw_leased {name : String} {one : Method Generator α}
    (hone : ∀ place g, s.generator? name = some (place, g) →
      ∃ a g', ∀ b, one.on g b = (.ok a, g', b))
    (answer : List α → Answer) (failure : Error → List α → Failure) (b : Backing) :
    (s.upon b).draw name 1 one answer failure =
      (((s.upon .unreachable).draw name 1 one answer failure).1,
        ((s.upon .unreachable).draw name 1 one answer failure).2.upon b) := by
  unfold draw
  rw [show (s.upon b).generator? name = s.generator? name from rfl,
    show (s.upon .unreachable).generator? name = s.generator? name from rfl]
  cases hfound : s.generator? name with
  | none => rfl
  | some found =>
    obtain ⟨place, g⟩ := found
    obtain ⟨a, g', hon⟩ := hone place g hfound
    simp only [repeatedly, hon]
    rfl

/-- **A call that does not need the storage** is answered alike over any, and leaves it alone. -/
theorem step_unneeded {call : Step} (hcall : call.IsCall) (hneeds : ¬ s.NeedsStorage call)
    (b : Backing) :
    (s.upon b).step call =
      (((s.upon .unreachable).step call).1, ((s.upon .unreachable).step call).2.upon b) := by
  have hleased : ∀ name place g, s.generator? name = some (place, g) →
      ¬ (∃ place g, s.generator? name = some (place, g) ∧ g.lease = []) →
      ∃ value rest, g.lease = value :: rest := by
    intro name place g hfound hnone
    exact List.exists_cons_of_ne_nil fun hlease => hnone ⟨place, g, hfound, hlease⟩
  cases call with
  | makeGenerator as sequence format blockSize =>
    unfold step
    simp only [show ∀ b, (s.upon b).limits = s.limits from fun _ => rfl]
    cases Generator.make s.limits.nameLimit sequence format (blockSize.getD s.limits.blockSize) with
    | error e => rfl
    | ok g => rfl
  | nextValues name times =>
    obtain rfl : times = 1 := hcall
    refine draw_leased (fun place g hfound => ?_) _ _ b
    obtain ⟨value, rest, hlease⟩ := hleased name place g hfound hneeds
    refine ⟨value, { g with lease := rest }, fun b => ?_⟩
    rw [Generator.nextValue_on, hlease]
  | nextIds name times =>
    obtain rfl : times = 1 := hcall
    refine draw_leased (fun place g hfound => ?_) _ _ b
    obtain ⟨value, rest, hlease⟩ := hleased name place g hfound hneeds
    refine ⟨g.format.render value, { g with lease := rest }, fun b => ?_⟩
    rw [Generator.nextId_on, Generator.nextValue_on, hlease]
  | walkOn name =>
    rw [walkOn_eq, walkOn_eq]
    unfold withWalk
    cases hfound : s.walks.get? name with
    | none =>
      simp only [show ∀ b, (s.upon b).walks.get? name = none from fun _ => hfound]
      rfl
    | some w =>
      have hover : w.finished = true := by
        by_contra hon
        exact hneeds ⟨w, hfound, Bool.eq_false_iff.2 hon⟩
      simp only [show ∀ b, (s.upon b).walks.get? name = some w from fun _ => hfound,
        Walk.next_on_finished hover]
      rfl
  | _ => first | exact hcall.elim | exact absurd trivial hneeds

/-- A call that fails and leaves the session fails in the same way whenever it is made again. -/
theorem run_replicate {call : Step} {f : Failure} (h : s.step call = (.error f, s)) (n : Nat) :
    run (List.replicate n call) s = (List.replicate n (.error f), s) := by
  induction n with
  | zero => rfl
  | succ n ih =>
    rw [List.replicate_succ, List.replicate_succ, run, h]
    simp only [ih]

/-- **A call is rejected for its arguments, not for the storage.** Over whatever store, damaged ones
included, and over a server that cannot be reached, the same calls are rejected, with the same
failures. Of the other calls, those that need the storage fail over the server because it does not
answer, however often they are made, and leave generators and walks as they were; and those that do
not need it are answered alike everywhere. -/
theorem rejected_alike (s : Session) {call : Step} (hcall : call.IsCall) :
    (∀ store f, (s.upon .unreachable).Rejects call f ↔ (s.upon (.embedded store)).Rejects call f) ∧
    (s.NeedsStorage call → (¬ ∃ f, (s.upon .unreachable).Rejects call f) →
      ∃ f, f.cause? = some (.storage .unreachable) ∧ ∀ n,
        run (List.replicate n call) (s.upon .unreachable) =
          (List.replicate n (.error f), s.upon .unreachable)) ∧
    (¬ s.NeedsStorage call → ∀ b, (s.upon b).step call =
      (((s.upon .unreachable).step call).1, ((s.upon .unreachable).step call).2.upon b)) := by
  refine ⟨?alike, ?unserved, step_unneeded hcall⟩
  case alike =>
    intro store f
    by_cases hneeds : s.NeedsStorage call
    · rcases step_settled hcall hneeds with ⟨f', e, -, -, hfails⟩ | ⟨⟨f', hcause, hfails⟩, haccepts⟩
      · unfold Rejects
        rw [hfails, hfails]
      · -- neither side rejects
        constructor
        · rintro ⟨hf, e, he, hrefused⟩
          exact absurd hrefused (haccepts _ f e hf he)
        · rintro ⟨hf, e, he, hrefused⟩
          exact absurd hrefused (haccepts _ f e hf he)
    · unfold Rejects
      rw [step_unneeded hcall hneeds (.embedded store)]
  case unserved =>
    intro hneeds hnot
    rcases step_settled hcall hneeds with
      ⟨f, e, hcause, hrefused, hfails⟩ | ⟨⟨f, hcause, hfails⟩, -⟩
    · exact absurd ⟨f, congrArg Prod.fst (hfails .unreachable), e, hcause, hrefused⟩ hnot
    · exact ⟨f, hcause, run_replicate hfails⟩

/-- A session over damaged tables, with a generator that has leased nothing and a walk that has not
begun. -/
def idle : Session :=
  (damaged.keepGenerator "g" ⟨"n", .plain, 10, 64, []⟩).keepWalk "w" (.along ⟨.bucket, "x"⟩ 0)

/-- A block of no values is rejected by the damaged store as by the server. The generator fails over
the store because its sequence is exhausted, and over the server time and again because it does not
answer. -/
theorem rejected_alike_idle :
    (Step.allocateBlock "n" 0).IsCall ∧ (Step.nextValues "g" 1).IsCall ∧
    (idle.upon .unreachable).Rejects (.allocateBlock "n" 0) (.error (.argument .emptyBlock)) ∧
    idle.Rejects (.allocateBlock "n" 0) (.error (.argument .emptyBlock)) ∧
    (idle.step (.nextValues "g" 1)).1 = .error (.afterValues (.storage (.exhausted "n")) []) ∧
    idle.NeedsStorage (.nextValues "g" 1) ∧
    (¬ ∃ f, (idle.upon .unreachable).Rejects (.nextValues "g" 1) f) ∧
    ∃ f, f.cause? = some (.storage .unreachable) ∧ ∀ n,
      run (List.replicate n (.nextValues "g" 1)) (idle.upon .unreachable) =
        (List.replicate n (.error f), idle.upon .unreachable) := by
  have haway : (idle.upon .unreachable).Rejects (.allocateBlock "n" 0)
      (.error (.argument .emptyBlock)) := ⟨rfl, _, rfl, trivial⟩
  have hneeds : idle.NeedsStorage (.nextValues "g" 1) :=
    ⟨2, ⟨"n", .plain, 10, 64, []⟩, rfl, rfl⟩
  have hnot : ¬ ∃ f, (idle.upon .unreachable).Rejects (.nextValues "g" 1) f := by
    rintro ⟨f, hf, e, he, hrefused⟩
    have hanswer : ((idle.upon .unreachable).step (.nextValues "g" 1)).1 =
        .error (.afterValues (.storage .unreachable) []) := rfl
    rw [hanswer] at hf
    cases hf
    cases he
    exact hrefused
  obtain ⟨tables, htables⟩ : ∃ tables, damaged.backing = .embedded tables := ⟨_, rfl⟩
  have hhere : idle.upon (.embedded tables) = idle := by
    rw [← htables]
    rfl
  have hblock : (Step.allocateBlock "n" 0).IsCall := trivial
  have hnext : (Step.nextValues "g" 1).IsCall := rfl
  obtain ⟨halike, -, -⟩ := rejected_alike idle hblock
  obtain ⟨-, hunserved, -⟩ := rejected_alike idle hnext
  have hrejects := (halike tables _).1 haway
  rw [hhere] at hrejects
  exact ⟨hblock, hnext, haway, hrejects, rfl, hneeds, hnot, hunserved hneeds hnot⟩

end Session

end ObjectRegistry
