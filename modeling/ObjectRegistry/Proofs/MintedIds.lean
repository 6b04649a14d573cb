import Mathlib.Data.List.Forall2
import Mathlib.Data.List.TakeWhile
import ObjectRegistry.Proofs.Minting
import ObjectRegistry.Proofs.Registering

/-!
# Minted ids

An id that a format made of a numeral can be taken apart again. A numeral has no underscore, so it
is what stands behind the last one, and whatever stands before that is the label, with underscores
or without (`IdFormat.render_inj`).

That no id is minted twice is then a matter of values. Ids are minted by the generators of a
session, by commands that mint and by commands that register, and each is made of one value of its
sequence. The books of a session (`Session.Booked`) are the balanced accounts of its values, with
every id that was minted set against a value that was handed out, no two against the same. A step of
the session moves the accounts as its ledger says. A command leaves the leases of the session alone,
so what its counters pass over is granted to it, also the values that it leases and loses
(`Command.books`). By induction every run keeps the books (`Booked.acts`).
-/

namespace ObjectRegistry

open Access
open Accounts Ledger

/-! ## What an id tells -/

namespace Text.Numeral

theorem ofInt64_injective : Function.Injective ofInt64 := by
  intro v w h
  have hread := int64?_ofInt64 v
  rw [h, int64?_ofInt64] at hread
  exact (Option.some.inj hread).symm

theorem underscore_not_mem (v : Int64) : '_' ∉ (ofInt64 v).toList := by
  intro h
  rcases mem_ofInt64 h with hsign | hdigit
  · exact absurd hsign (by decide)
  · exact absurd hdigit (by decide)

end Text.Numeral

namespace IdFormat

/-- A format that makes ids of numerals, with a label or without. -/
def isNumeral : IdFormat → Bool
  | .plain | .labelled _ => true
  | .digest _ => false

/-- What stands behind the last underscore of an id. -/
def tail (id : String) : List Char :=
  (id.toList.reverse.takeWhile (· != '_')).reverse

theorem toList_labelled (label : String) (v : Int64) :
    ((labelled label).render v).toList =
      label.toList ++ '_' :: (Text.Numeral.ofInt64 v).toList := by
  have hunderscore : "_".toList = ['_'] := rfl
  rw [render, String.toList_append, String.toList_append, hunderscore, List.append_assoc,
    List.singleton_append]

/-- The numeral is behind the last underscore. -/
theorem tail_render {f : IdFormat} (hf : f.isNumeral = true) (v : Int64) :
    tail (f.render v) = (Text.Numeral.ofInt64 v).toList := by
  have hplain : ∀ c ∈ (Text.Numeral.ofInt64 v).toList.reverse, (c != '_') = true := by
    intro c hc
    rw [bne_iff_ne]
    intro hunderscore
    rw [hunderscore, List.mem_reverse] at hc
    exact Text.Numeral.underscore_not_mem v hc
  cases f with
  | plain =>
    rw [tail, render, List.takeWhile_eq_self_iff.2 hplain, List.reverse_reverse]
  | labelled label =>
    rw [tail, toList_labelled, List.reverse_append, List.reverse_cons, List.append_assoc,
      List.takeWhile_append_of_pos hplain, List.singleton_append,
      List.takeWhile_cons_of_neg (by decide), List.append_nil, List.reverse_reverse]
  | digest length => cases hf

theorem plain_ne_labelled (label : String) (v w : Int64) :
    plain.render v ≠ (labelled label).render w := by
  intro h
  have hmarked : '_' ∈ ((labelled label).render w).toList := by
    rw [toList_labelled]
    exact List.mem_append_right _ List.mem_cons_self
  rw [← h] at hmarked
  exact Text.Numeral.underscore_not_mem v hmarked

/-- **An id made of a numeral tells format and value.** -/
theorem render_inj {f g : IdFormat} (hf : f.isNumeral = true) (hg : g.isNumeral = true)
    (v w : Int64) : f.render v = g.render w ↔ f = g ∧ v = w := by
  constructor
  · intro h
    have hnumeral := congrArg tail h
    rw [tail_render hf, tail_render hg] at hnumeral
    obtain rfl : v = w := Text.Numeral.ofInt64_injective (String.toList_inj.1 hnumeral)
    refine ⟨?_, rfl⟩
    cases f with
    | digest length => cases hf
    | plain =>
      cases g with
      | digest length => cases hg
      | plain => rfl
      | labelled label => exact absurd h (plain_ne_labelled label v v)
    | labelled label =>
      cases g with
      | digest length => cases hg
      | plain => exact absurd h.symm (plain_ne_labelled label v v)
      | labelled other =>
        -- the same characters stand behind both labels
        have hlists := congrArg String.toList h
        rw [toList_labelled, toList_labelled] at hlists
        rw [String.toList_inj.1 (List.append_cancel_right hlists)]
  · intro h
    obtain ⟨rfl, rfl⟩ := h
    rfl

end IdFormat

/-! ## What is minted -/

/-- What is done to a registry in use: a step of its session, or a command on its storage, which has
limits, a time and content of its own. -/
inductive Act where
  | step (step : Step)
  | command (command : Command) (limits : Limits) (now : Int64) (content : ByteArray)

/-- A command is always made of checked calls. -/
def Act.Checked : Act → Prop
  | .step s => s.Checked
  | .command _ _ _ _ => True

/-- An id that was minted, and the sequence and the format that it was minted in. -/
structure Mint where
  sequence : String
  format : IdFormat
  id : String
  deriving DecidableEq

/-- The ids made of numerals that were minted from a sequence, in that order. -/
def Mint.numerals (sequence : String) (mints : List Mint) : List String :=
  (mints.filter fun m => m.sequence == sequence && m.format.isNumeral).map Mint.id

/-- What a command mints, read off its answer. An id that turns out to be taken was minted too. -/
def Command.minted : Command → Except Error Reply → List Mint
  | .mint sequence _ format, .ok (.ids ids) => ids.map (Mint.mk sequence format)
  | .register _ r, .ok (.registered new false) => [⟨r.sequence, r.format, new.id⟩]
  | .register _ r, .error (.duplicateId id) => [⟨r.sequence, r.format, id⟩]
  | _, _ => []

namespace Session

/-- The ids that an answer shows. -/
def shownIds : Except Failure Answer → List String
  | .ok (.ids ids) => ids
  | .error (.afterIds _ ids) => ids
  | _ => []

/-- What an act mints. The ids of a generator are those that it hands out as ids. -/
def minted (s : Session) : Act → List Mint
  | .step (.nextIds name times) =>
    match s.generator? name with
    | none => []
    | some (_, g) =>
      (shownIds (s.step (.nextIds name times)).1).map (Mint.mk g.sequence g.format)
  | .step _ => []
  | .command command limits now content =>
    command.minted ((command.perform limits now content).on s.backing).1

/-- The session after an act. -/
def act (s : Session) : Act → Session
  | .step step => (s.step step).2
  | .command command limits now content =>
    { s with backing := ((command.perform limits now content).on s.backing).2 }

/-- The session after acts, one after the other. -/
def acts (s : Session) (acts : List Act) : Session := acts.foldl act s

/-- What acts mint, one after the other. -/
def mints (s : Session) : List Act → List Mint
  | [] => []
  | act :: rest => s.minted act ++ (s.act act).mints rest

end Session

/-! ## Ids made of values -/

/-- An id is the value that was handed out, in the format it was minted in. -/
def Mint.MadeOf (m : Mint) (i : Issue) : Prop :=
  m.sequence = i.sequence ∧ ∃ value : Int64, i.value = value.toInt ∧ m.id = m.format.render value

/-- Every id is made of a value of its own. -/
abbrev Mint.Backed (mints : List Mint) (issues : List Issue) : Prop :=
  mints.SublistForall₂ MadeOf issues

namespace Mint

variable {mints mints' : List Mint} {issues issues' : List Issue}

theorem Backed.append (h : Backed mints issues) (h' : Backed mints' issues') :
    Backed (mints ++ mints') (issues ++ issues') := by
  obtain ⟨taken, hmade, hsub⟩ := List.sublistForall₂_iff.1 h
  obtain ⟨taken', hmade', hsub'⟩ := List.sublistForall₂_iff.1 h'
  exact List.sublistForall₂_iff.2 ⟨taken ++ taken', List.rel_append hmade hmade',
    hsub.append hsub'⟩

/-- Values of a sequence, some of which become ids in a format. -/
theorem backed_entries (sequence : String) (format : IdFormat) (source : Option Nat)
    {values issued : List Int64} (h : values.Sublist issued) :
    Backed ((values.map format.render).map (Mint.mk sequence format))
      (entries sequence source (issued.map Int64.toInt)) := by
  induction h with
  | slnil => exact .nil
  | cons value _ ih => exact .cons_right ih
  | cons_cons value _ ih => exact .cons ⟨rfl, value, rfl, rfl⟩ ih

/-- **Ids of distinct values are distinct**, if they are made of numerals. -/
theorem Backed.nodup (h : Backed mints issues) (sequence : String)
    (hvalues : ((issues.filter fun i => i.sequence == sequence).map Issue.value).Nodup) :
    (numerals sequence mints).Nodup := by
  obtain ⟨taken, hmade, hsub⟩ := List.sublistForall₂_iff.1 h
  obtain ⟨hlength, hmade⟩ := List.forall₂_iff_get.1 hmade
  rw [List.Nodup, List.pairwise_map, List.pairwise_filter] at hvalues
  have hapart := List.pairwise_iff_getElem.1 (hvalues.sublist hsub)
  rw [numerals, List.Nodup, List.pairwise_map, List.pairwise_filter, List.pairwise_iff_getElem]
  intro j k hj hk hlt hm hm' hid
  obtain ⟨hname, hformat⟩ := Bool.and_eq_true_iff.1 hm
  obtain ⟨hname', hformat'⟩ := Bool.and_eq_true_iff.1 hm'
  obtain ⟨hof, value, hvalue, hrender⟩ := hmade j hj (hlength ▸ hj)
  obtain ⟨hof', value', hvalue', hrender'⟩ := hmade k hk (hlength ▸ hk)
  -- equal ids would be made of one value, and the two were handed out in different places
  have hsame : value = value' := by
    refine ((IdFormat.render_inj hformat hformat' value value').1 ?_).2
    exact hrender.symm.trans (hid.trans hrender')
  refine hapart j k (hlength ▸ hj) (hlength ▸ hk) hlt ?_ ?_ ?_
  · exact hof ▸ hname
  · exact hof' ▸ hname'
  · exact hvalue.trans ((congrArg Int64.toInt hsame).trans hvalue'.symm)

end Mint

/-! ## The books of a command -/

/-- Between two storages values were handed out that back some ids, and nothing else was moved. -/
def Backing.Books (b b' : Backing) (mints : List Mint) : Prop :=
  ∃ issues, Mint.Backed mints issues ∧
    ∀ gs is, Moves (accountsOf b gs is) (accountsOf b' gs (is ++ issues))

/-- Where no counter moves, nothing is handed out. -/
theorem Backing.Books.idle {b b' : Backing} (h : b'.counterOf = b.counterOf) : b.Books b' [] := by
  refine ⟨[], .nil, ?_⟩
  intro gs is
  rw [List.append_nil, accountsOf, ← h]
  exact Relation.ReflTransGen.refl

/-- Drawing ids without a session. Every block is granted when it is leased, so the values of the
ids are among those that wait and those that are granted. -/
theorem Registry.drawIds_moves (n : Nat) : ∀ (drawn : List String) (g : Generator) (s : Store),
    ∃ answer s' granted, (drawIds n drawn g).on (.embedded s) = (answer, .embedded s') ∧
      (∀ ids, answer = .ok ids → ∃ values : List Int64,
        ids = drawn.reverse ++ values.map g.format.render ∧ values.Sublist (g.lease ++ granted)) ∧
      ∀ gs is, Moves (accountsOf (.embedded s) gs is) (accountsOf (.embedded s') gs
        (is ++ entries g.sequence none (granted.map Int64.toInt))) := by
  have hnothing : ∀ sequence, entries sequence none (([] : List Int64).map Int64.toInt) = [] :=
    fun _ => rfl
  induction n with
  | zero =>
    intro drawn g s
    refine ⟨.ok drawn.reverse, s, [], rfl, ?_, ?_⟩
    · intro ids hanswer
      cases hanswer
      exact ⟨[], (List.append_nil _).symm, List.nil_sublist _⟩
    · intro gs is
      rw [hnothing, List.append_nil]
  | succ n ih =>
    intro drawn g s
    rcases g.next_cases s with
      ⟨e, -, hfails, -⟩ | ⟨value, rest, hlease, hnext⟩ |
      ⟨value, rest, last, hempty, hnext, hlt, hblock⟩
    · refine ⟨.error e, s, [], drawIds_error hfails, nofun, ?_⟩
      intro gs is
      rw [hnothing, List.append_nil]
    · -- the value comes off the lease
      obtain ⟨answer, s', granted, hrest, hids, hmoves⟩ :=
        ih (g.format.render value :: drawn) { g with lease := rest } s
      refine ⟨answer, s', granted, (drawIds_next hnext).trans hrest, ?_, hmoves⟩
      intro ids hanswer
      obtain ⟨values, rfl, hsub⟩ := hids ids hanswer
      refine ⟨value :: values, by simp, ?_⟩
      rw [hlease]
      exact hsub.cons_cons value
    · -- a block is granted, and the value is the first of it
      obtain ⟨answer, s', granted, hrest, hids, hmoves⟩ :=
        ih (g.format.render value :: drawn) { g with lease := rest } (s.advanced g.sequence last)
      refine ⟨answer, s', value :: rest ++ granted, (drawIds_next hnext).trans hrest, ?_, ?_⟩
      · intro ids hanswer
        obtain ⟨values, rfl, hsub⟩ := hids ids hanswer
        refine ⟨value :: values, by simp, ?_⟩
        rw [hempty]
        exact hsub.cons_cons value
      · intro gs is
        have hrest := hmoves gs (is ++ entries g.sequence none ((value :: rest).map Int64.toInt))
        rw [List.append_assoc] at hrest
        rw [List.map_append, entries, List.map_append]
        exact Relation.ReflTransGen.head (advanced_move hlt hblock gs is) hrest

/-- A command that mints does so with all of its ids or with none. -/
theorem Command.mint_books (limits : Limits) (now : Int64) (content : ByteArray)
    (sequence : String) (count : UInt32) (format : IdFormat) (s : Store) :
    let command := Command.mint sequence count format
    let outcome := (command.perform limits now content).on (.embedded s)
    (Backing.embedded s).Books outcome.2 (command.minted outcome.1) := by
  intro command outcome
  have houtcome : outcome = _ :=
    Command.mint_perform limits now content sequence count format (.embedded s)
  rw [houtcome]
  unfold Registry.mint
  cases hmake : Generator.make limits.nameLimit sequence format (Registry.leaseFor count) with
  | error e =>
    rw [on_bind_error (on_check _ _)]
    exact .idle rfl
  | ok g =>
    obtain ⟨-, -, -, rfl⟩ := Generator.make_eq_ok_iff.1 hmake
    rw [on_bind_ok (on_check _ _)]
    obtain ⟨answer, s', granted, hdraws, hids, hmoves⟩ := Registry.drawIds_moves count.toNat []
      ⟨sequence, format, Registry.leaseFor count, limits.nameLimit, []⟩ s
    rw [hdraws]
    refine ⟨_, ?_, hmoves⟩
    cases answer with
    | error e => exact .nil
    | ok ids =>
      obtain ⟨values, rfl, hsub⟩ := hids ids rfl
      exact Mint.backed_entries sequence format none hsub

/-- A failure shows an id only if it is a duplicate. -/
theorem Command.minted_error {e : Error} (h : ∀ id, e ≠ .duplicateId id) (command : Command) :
    command.minted (.error e) = [] := by
  cases e with
  | duplicateId id => exact absurd rfl (h id)
  | sequenceName fault => cases command <;> rfl
  | argument fault => cases command <;> rfl
  | storage fault => cases command <;> rfl

/-- A command that registers mints one id at most, of the value that it draws. -/
theorem Registering.books (c : Registering) {s : Store} (h : s.Consistent) :
    let outcome := c.perform.on (.embedded s)
    (Backing.embedded s).Books outcome.2
      ((Command.register c.file c.registration).minted outcome.1) := by
  intro outcome
  by_cases hknown : c.Known s
  · obtain ⟨r, -, hreuses⟩ := perform_known h hknown
    rw [show outcome = _ from hreuses]
    exact .idle rfl
  · rcases perform_drawing h hknown with ⟨e, hfails, hdenied⟩ | ⟨value, hnext, hends⟩
    · rw [show outcome = _ from hfails, Command.minted_error hdenied.ne_duplicateId]
      exact .idle rfl
    · -- the value is gone in any case; whether its id shows depends on the end
      have hmoves := fun gs is => Relation.ReflTransGen.single (advanced_next_move hnext gs is)
      have hmade := Mint.backed_entries c.registration.sequence c.registration.format none
        (List.Sublist.refl [value])
      rcases hends with ⟨e, hfails, hduplicate⟩ | ⟨hadds, -⟩
      · rw [show outcome = _ from hfails]
        refine ⟨_, ?_, hmoves⟩
        by_cases htaken : ∃ id, e = .duplicateId id
        · obtain ⟨id, rfl⟩ := htaken
          obtain ⟨rfl, -⟩ := hduplicate id rfl
          exact hmade
        · rw [Command.minted_error fun id he => htaken ⟨id, he⟩]
          exact .nil
      · rw [show outcome = _ from hadds]
        exact ⟨_, hmade, hmoves⟩

/-- **What a command does to the books**: whatever it mints is made of values that it is handed. -/
theorem Command.books (command : Command) (limits : Limits) (now : Int64) (content : ByteArray)
    {s : Store} (h : s.Consistent) :
    let outcome := (command.perform limits now content).on (.embedded s)
    (Backing.embedded s).Books outcome.2 (command.minted outcome.1) := by
  intro outcome
  have hlooks : ∀ {access : Access Reply}, Looks access →
      (Backing.embedded s).Books (access.on (.embedded s)).2 [] :=
    fun hl => .idle (congrArg Backing.counterOf (hl _))
  have hchanges : ∀ {access : Access Reply},
      Keeps (Backing.Counts s.sequences) (fun e => ¬ e.IsDamage) access →
      (Backing.embedded s).Books (access.on (.embedded s)).2 [] := by
    intro access hk
    have hcounts : (Backing.embedded s).Counts s.sequences := ⟨s, rfl, h, rfl⟩
    exact .idle (hcounts.counterOf_eq (hk _ hcounts).1)
  cases command with
  | migrate => exact .idle rfl
  | health => exact hlooks (Registry.health_looks.bind fun _ => Looks.pure _)
  | allocate name count =>
    rcases Sequence.allocateBlock_move limits.nameLimit name count s with
      ⟨e, hfails⟩ | ⟨block, s', hblock, hmove⟩
    · rw [show outcome = _ from on_bind_error hfails _]
      exact .idle rfl
    · rw [show outcome = _ from on_bind_ok hblock _]
      exact ⟨_, .nil, fun gs is => Relation.ReflTransGen.single (hmove gs is)⟩
  | peek name => exact hlooks ((Sequence.current_looks _ _).bind fun _ => Looks.pure _)
  | mint sequence count format => exact mint_books limits now content sequence count format s
  | register file registration =>
    exact Registering.books ⟨file, registration, limits, now, content⟩ h
  | create id bucket hash size createTime =>
    exact hchanges ((Registry.create_counts _).bind fun _ => Keeps.pure _)
  | get id => exact hlooks ((Registry.get_looks id).bind fun _ => Looks.pure _)
  | findHash hash => exact hlooks ((Walk.collect_looks _).bind fun _ => Looks.pure _)
  | list bucket after limit =>
    exact hlooks ((Looks.check _).bind fun _ =>
      (Registry.page_looks _ _).bind fun _ => Looks.pure _)
  | delete id => exact hchanges ((Registry.delete_counts id).bind fun _ => Keeps.pure _)
  | purge cutoff => exact hchanges ((Registry.purge_counts cutoff).bind fun _ => Keeps.pure _)

/-! ## The books of a session -/

theorem Backing.Consistent.onReserve : Backing.OnReserve Backing.Consistent :=
  fun limit name count b hb => (Sequence.allocateBlock_sound limit name count b hb).1

theorem Backing.Consistent.onChange : Backing.OnChange Backing.Consistent := by
  intro change b hb
  obtain ⟨s, rfl, hs⟩ := hb.embedded
  obtain ⟨s', hon, hs'⟩ := Walk.Change.on_consistent change hs
  rw [hon]
  exact hs'

namespace Session

variable {s : Session} {mints : List Mint}

/-- Books of a session that has minted some ids: with the generators that were forgotten when its
registry was closed, the accounts of everything handed out are balanced, and back the ids. -/
structure Booked (s : Session) (mints : List Mint) : Prop where
  consistent : s.backing.Consistent
  books : ∃ closed issues,
    (accountsOf s.backing (closed ++ s.generators) issues).Balanced Store.seedOf ∧
      Mint.Backed mints issues

theorem Booked.new (limits : Limits) (now : Int64) : (new limits now).Booked [] :=
  ⟨Store.fresh_consistent, [], [], new_balanced limits now, .nil⟩

/-- The ids of a step are made of the values that the ledger has it hand out. -/
theorem step_backed {store : Store} (hstore : s.backing = .embedded store) (earlier : Nat)
    (step : Step) : Mint.Backed (s.minted (.step step)) (s.issues earlier step) := by
  cases step
  case nextIds name times =>
    cases hfound : s.generator? name with
    | none =>
      simp only [minted, hfound]
      exact .nil
    | some found =>
      obtain ⟨place, g⟩ := found
      obtain ⟨values, hhanded, hanswer⟩ := (step_nextIds hstore name times).2 place g hfound
      have hshown : shownIds (s.step (.nextIds name times)).1 = values.map g.format.render := by
        rcases hanswer with hall | ⟨e, hsome⟩
        · rw [hall]
          rfl
        · rw [hsome]
          rfl
      simp only [minted, issues, hfound, hshown, hhanded]
      exact Mint.backed_entries g.sequence g.format _ (List.Sublist.refl values)
  -- no other step shows an id
  all_goals exact .nil

/-- **An act keeps the books**, with what it mints. -/
theorem Booked.act (h : s.Booked mints) {act : Act} (hchecked : act.Checked) :
    (s.act act).Booked (mints ++ s.minted act) := by
  obtain ⟨store, hstore, hs⟩ := h.consistent.embedded
  obtain ⟨closed, issues, hbalanced, hbacked⟩ := h.books
  cases act with
  | step step =>
    have hmoves := after_moves (l := ⟨s, closed, issues⟩) hstore hs step hchecked
    exact ⟨(step_healthy h.consistent step hchecked).1, _, _, hmoves.balanced hbalanced,
      hbacked.append (step_backed hstore closed.length step)⟩
  | command command limits now content =>
    obtain ⟨handed, hmade, hmoves⟩ := command.books limits now content hs
    rw [← hstore] at hmade hmoves
    have hkept := command.perform_keeps Backing.Consistent.onReserve Backing.Consistent.onChange
      limits now content s.backing h.consistent
    exact ⟨hkept.1, closed, issues ++ handed, (hmoves _ _).balanced hbalanced,
      hbacked.append hmade⟩

/-- **A run keeps the books.** -/
theorem Booked.acts {acts : List Act} (hchecked : ∀ act ∈ acts, act.Checked) :
    ∀ {s : Session} {mints : List Mint}, s.Booked mints →
      (s.acts acts).Booked (mints ++ s.mints acts) := by
  induction acts with
  | nil =>
    intro s mints h
    rw [Session.mints, List.append_nil]
    exact h
  | cons act rest ih =>
    intro s mints h
    have hact := h.act (hchecked act List.mem_cons_self)
    have hrest := ih (fun a ha => hchecked a (List.mem_cons_of_mem _ ha)) hact
    rw [List.append_assoc] at hrest
    exact hrest

theorem Booked.nodup (h : s.Booked mints) (sequence : String) :
    (Mint.numerals sequence mints).Nodup := by
  obtain ⟨closed, issues, hbalanced, hbacked⟩ := h.books
  exact hbacked.nodup sequence (hbalanced.issued_nodup sequence)

/-- **Ids made of numerals never collide.** Two formats with or without labels write two values
alike only if they are the same format and the same value. So in whatever order the steps of a
session and commands with any limits are carried out on a registry over a fresh store, the ids that
generators hand out and commands mint from one sequence in such formats are distinct. A register
command that finds its id taken finds it taken by a resource whose id was not minted that way: it is
none that an earlier command registered, in such a format, from the same sequence. -/
theorem numeral_ids_never_collide :
    (∀ f g : IdFormat, f.isNumeral = true → g.isNumeral = true → ∀ v w : Int64,
      f.render v = g.render w ↔ f = g ∧ v = w) ∧
    ∀ (limits : Limits) (now : Int64) (acts : List Act), (∀ act ∈ acts, act.Checked) →
      let minted := (new limits now).mints acts
      let s := (new limits now).acts acts
      (∀ sequence, (Mint.numerals sequence minted).Nodup) ∧
      ∀ (c : Registering) (id : String), c.registration.format.isNumeral = true →
        (c.perform.on s.backing).1 = .error (.duplicateId id) →
        id ∉ Mint.numerals c.registration.sequence minted ∧
        ∃ store r, s.backing = .embedded store ∧ store.Holds r ∧ r.id = id := by
  refine ⟨fun f g hf hg v w => IdFormat.render_inj hf hg v w, ?_⟩
  intro limits now acts hchecked minted s
  have h : s.Booked minted := (Booked.new limits now).acts hchecked
  refine ⟨h.nodup, ?_⟩
  intro c id hformat hfails
  refine ⟨?_, ?_⟩
  · -- the command that fails mints one more id, and the books of the run include it
    let last : Act := .command (.register c.file c.registration) c.limits c.now c.content
    have hmore := h.act (show last.Checked from trivial)
    have hlast : s.minted last = [⟨c.registration.sequence, c.registration.format, id⟩] := by
      show Command.minted _ (c.perform.on s.backing).1 = _
      rw [hfails]
      rfl
    have hnodup := hmore.nodup c.registration.sequence
    rw [hlast, Mint.numerals, List.filter_append, List.map_append, List.nodup_append] at hnodup
    intro hearlier
    refine hnodup.2.2 id hearlier id ?_ rfl
    simp [hformat]
  · obtain ⟨store, hstore, hs⟩ := h.consistent.embedded
    rw [hstore] at hfails
    obtain ⟨r, hr, hid⟩ := Registering.holder_of_duplicate hs hfails
    exact ⟨store, r, hstore, hr, hid⟩

/-- A generator, a command that mints under a longer label, and one that registers; then an id is
created that the next value of the sequence will make under the shorter label. -/
def squatting : List Act :=
  [.step (.makeGenerator "g" "n" (.labelled "a") (some 3)),
    .step (.nextIds "g" 2),
    .command (.mint "n" 2 (.labelled "a_1")) .standard 0 .empty,
    .command (.register "f" ⟨"b", "n", .plain, true⟩) .standard 0 .empty,
    .command (.create "a_7" "b" "h" 1 none) .standard 0 .empty]

/-- A command that registers under the shorter label. -/
def squattedOn : Registering where
  file := "f"
  registration := ⟨"b", "n", .labelled "a", true⟩
  limits := .standard
  now := 0
  content := .empty

/-- All ids are distinct, and the one that is taken is none of them. -/
theorem numeral_ids_never_collide_squatting :
    (∀ act ∈ squatting, act.Checked) ∧ squattedOn.registration.format.isNumeral = true ∧
      let s := (new .standard 0).acts squatting
      let ids := Mint.numerals "n" ((new .standard 0).mints squatting)
      ids = ["a_1", "a_2", "a_1_4", "a_1_5", "6"] ∧ ids.Nodup ∧
      (squattedOn.perform.on s.backing).1 = .error (.duplicateId "a_7") ∧ "a_7" ∉ ids ∧
      ∃ store r, s.backing = .embedded store ∧ store.Holds r ∧ r.id = "a_7" := by
  have hchecked : ∀ act ∈ squatting, act.Checked := by simp [squatting, Act.Checked, Step.Checked]
  have hformat : squattedOn.registration.format.isNumeral = true := rfl
  have hanswer : (squattedOn.perform.on ((new .standard 0).acts squatting).backing).1.map
      (fun _ => ()) = .error (.duplicateId "a_7") := by decide +kernel
  have hfails : (squattedOn.perform.on ((new .standard 0).acts squatting).backing).1 =
      .error (.duplicateId "a_7") := by
    generalize (squattedOn.perform.on _).1 = answer at hanswer ⊢
    cases answer with
    | ok reply => cases hanswer
    | error e => rw [Except.error.inj hanswer]
  obtain ⟨hnodup, hduplicate⟩ := numeral_ids_never_collide.2 .standard 0 squatting hchecked
  obtain ⟨hother, hheld⟩ := hduplicate squattedOn "a_7" hformat hfails
  exact ⟨hchecked, hformat, by decide +kernel, hnodup "n", hfails, hother, hheld⟩

end Session

end ObjectRegistry
