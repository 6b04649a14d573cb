import Mathlib.Algebra.Group.Nat.Defs
import ObjectRegistry.Command.Line
import ObjectRegistry.Command.Perform
import ObjectRegistry.Proofs.Failures
import ObjectRegistry.Proofs.Numerals

/-!
# What a refusal costs

A command that is refused for its arguments leaves the storage as it was, with one exception that is
described exactly (`Command.refusal_cost`). Most commands make one call, and a call that fails
leaves no trace (`Proofs/Failures`). Two make several, and for these it has to be seen that only the
first is ever refused: a generator that was built is over a good name and leases blocks of a good
size, so it can run out of values but is never refused; and content is registered under an id that
is not empty, unless the id is a digest cut down to nothing.

In that one case the format of the id is not looked at before the value is drawn. The registration
is refused at the end, and the value is lost (`Registry.register_undigested`).
-/

namespace ObjectRegistry

namespace Access

variable {α β : Type}

/-- Where the operation is refused, it leaves the storage as it was. -/
def Spares (access : Access α) : Prop :=
  ∀ b e, (access.on b).1 = .error e → e.IsRefusal → (access.on b).2 = b

/-- The operation is never refused. It may well fail. -/
def Accepts (access : Access α) : Prop :=
  ∀ b e, (access.on b).1 = .error e → ¬ e.IsRefusal

theorem Atomic.spares {access : Access α} (h : Atomic access) : Spares access :=
  fun b e hfails _ => h b e hfails

theorem Accepts.spares {access : Access α} (h : Accepts access) : Spares access :=
  fun b e hfails hrefused => absurd hrefused (h b e hfails)

theorem Accepts.pure (a : α) : Accepts (pure a : Access α) :=
  fun b e hfails => by cases hfails

theorem Spares.map {x : Access α} (hx : Spares x) (f : α → β) :
    Spares (x >>= fun a => pure (f a)) := by
  intro b e hfails hrefused
  have hsame := hx b
  rw [on_bind] at hfails ⊢
  rcases h : x.on b with ⟨e' | a, b'⟩
  · rw [h] at hfails hsame
    exact hsame e (by injection hfails with he; rw [he]) hrefused
  · rw [h] at hfails
    cases hfails

/-- Two parts that are not refused, where the second may rely on what the first answered. -/
theorem Accepts.bind {x : Access α} {f : α → Access β} (hx : Accepts x)
    (hf : ∀ a b b', x.on b = (.ok a, b') → Accepts (f a)) : Accepts (x >>= f) := by
  intro b e hfails
  rw [on_bind] at hfails
  rcases h : x.on b with ⟨e' | a, b'⟩
  · rw [h] at hfails
    exact hx b e (by rw [h]; injection hfails with he; rw [he])
  · rw [h] at hfails
    exact hf a b b' h b' e hfails

end Access

open Access

/-! ## Generators that were built -/

theorem Sequence.allocateBlock_accepts {limit : Nat} {name : String} {count : UInt32}
    (hname : checkName limit name = .ok ()) (hcount : count ≠ 0) :
    Accepts (allocateBlock limit name count) := by
  intro b e hfails
  unfold allocateBlock at hfails
  rw [hname, on_bind_ok (on_check _ _), checkCount, if_neg hcount, on_bind_ok (on_check _ _)]
    at hfails
  cases b with
  | unreachable =>
    cases hfails
    exact id
  | embedded s =>
    -- past the checks, a sequence can only be exhausted
    rw [on_write_embedded, Store.write_reserve] at hfails
    split at hfails
    next =>
      cases hfails
      exact id
    next => cases hfails

namespace Generator

/-- A generator over a good name, with a lease that is not empty. -/
structure Usable (g : Generator) : Prop where
  name : Sequence.checkName g.nameLimit g.sequence = .ok ()
  size : g.blockSize ≠ 0

theorem make_usable {limit : Nat} {sequence : String} {format : IdFormat} {blockSize : UInt32}
    {g : Generator} (h : make limit sequence format blockSize = .ok g) : g.Usable := by
  obtain ⟨hname, hsize, -, rfl⟩ := make_eq_ok_iff.1 h
  exact ⟨hname, fun hzero => hsize (Or.inl hzero)⟩

variable {g g' : Generator}

theorem Usable.blockSize_pos (h : g.Usable) : 0 < g.blockSize.toNat :=
  Nat.pos_of_ne_zero fun hzero => h.size (UInt32.toNat_inj.1 hzero)

theorem Usable.next_accepts (h : g.Usable) : Accepts g.next := by
  rw [next_eq]
  cases g.lease with
  | cons value rest => exact Accepts.pure _
  | nil =>
    refine Accepts.bind (Sequence.allocateBlock_accepts h.name h.size) ?_
    intro block _ _ _
    cases block.values with
    | cons value rest => exact Accepts.pure _
    | nil =>
      intro b e hfails
      cases hfails
      exact id

/-- Handing out a value leaves the generator over its name. -/
theorem Usable.next (h : g.Usable) {b b' : Backing} {value : Int64}
    (hnext : g.next.on b = (.ok (value, g'), b')) : g'.Usable := by
  rw [next_eq] at hnext
  cases hlease : g.lease with
  | cons first rest =>
    simp only [hlease] at hnext
    cases hnext
    exact ⟨h.name, h.size⟩
  | nil =>
    simp only [hlease] at hnext
    rw [on_bind] at hnext
    split at hnext
    next block _ _ =>
      cases hvalues : block.values with
      | cons first rest =>
        simp only [hvalues] at hnext
        cases hnext
        exact ⟨h.name, h.size⟩
      | nil =>
        simp only [hvalues] at hnext
        cases hnext
    next => cases hnext

end Generator

namespace Registry

theorem drawIds_accepts (n : Nat) (drawn : List String) {g : Generator} (h : g.Usable) :
    Accepts (drawIds n drawn g) := by
  induction n generalizing drawn g with
  | zero => exact Accepts.pure _
  | succ n ih =>
    unfold drawIds
    rw [Generator.nextId_of]
    refine Accepts.bind (Accepts.bind h.next_accepts fun _ _ _ _ => Accepts.pure _) ?_
    rintro ⟨id, g'⟩ b b' hnext
    rw [on_bind] at hnext
    split at hnext
    next drawn' _ hvalue =>
      cases hnext
      exact ih _ (h.next hvalue)
    next => cases hnext

/-- Minting is refused before a value is drawn, if at all. -/
theorem mint_spares (limit : Nat) (sequence : String) (format : IdFormat) (count : UInt32) :
    Spares (mint limit sequence format count) := by
  intro b e hfails hrefused
  unfold mint at hfails ⊢
  cases hmade : Generator.make limit sequence format (leaseFor count) with
  | error e' => rw [on_bind_error (on_check _ _)]
  | ok g =>
    rw [hmade, on_bind_ok (on_check _ _)] at hfails
    exact absurd hrefused (drawIds_accepts _ _ (Generator.make_usable hmade) b e hfails)

end Registry

/-! ## Ids of registered content -/

theorem Digest.Sha256.hash_ne_nil (message : ByteArray) : hash message ≠ [] := by
  unfold hash
  -- whatever the chain is, its words have bytes
  generalize List.foldl _ _ _ = chain
  exact List.cons_ne_nil _ _

/-- An id is empty in one format only. -/
theorem IdFormat.render_eq_empty {format : IdFormat} {value : Int64}
    (h : format.render value = "") : format = .digest 0 := by
  cases format with
  | plain => exact absurd h (Text.Numeral.ofInt64_ne_empty value)
  | labelled label =>
    have hlength := congrArg String.length h
    simp only [render, String.length_append] at hlength
    have hone : "_".length = 1 := rfl
    have hzero : "".length = 0 := rfl
    omega
  | digest length =>
    cases length with
    | zero => rfl
    | succ n =>
      -- the first byte of the hash has digits
      obtain ⟨first, rest, hhash⟩ := List.exists_cons_of_ne_nil (Digest.Sha256.hash_ne_nil
        ⟨(Digest.Sha256.bytesOfWord64 value.toUInt64).toArray⟩)
      have hlist := congrArg String.toList h
      simp only [render, Digest.valueDigest, hhash, String.toList_ofList] at hlist
      cases hlist

/-- A resource with two numbers that are not negative is refused for its id alone. -/
theorem Resource.refused_for_id {r : Resource} {e : Error} (h : r.validate = .error e)
    (htime : 0 ≤ r.createTime) (hsize : 0 ≤ r.size) : r.id = "" ∧ e = .argument .emptyId := by
  unfold validate fault? at h
  by_cases hid : r.id.isEmpty = true
  · rw [if_pos hid] at h
    cases h
    exact ⟨String.isEmpty_iff.1 hid, rfl⟩
  · rw [if_neg hid, if_neg (Int64.not_lt.2 htime), if_neg (Int64.not_lt.2 hsize)] at h
    cases h

namespace Registry

theorem earlier_looks (registration : Registration) (hash : String) :
    Looks (earlier registration hash) := by
  unfold earlier
  split
  next => exact Looks.pure none
  next => exact findDuplicate_looks _ _

/-- Past the first look at a resource nothing is refused. -/
theorem insert_accepts (r : Resource) : Accepts (Access.write (Store.insert r)) := by
  intro b e hfails
  cases b with
  | unreachable =>
    cases hfails
    exact id
  | embedded s =>
    rw [on_write_embedded, Store.write_insert] at hfails
    by_cases hhold : r.record.Holdable
    · rw [if_neg (not_not.2 hhold)] at hfails
      by_cases htaken : s.records.contains r.id = true
      · rw [if_pos htaken] at hfails
        cases hfails
        exact id
      · rw [if_neg htaken] at hfails
        cases hfails
    · rw [if_pos hhold] at hfails
      cases hfails
      exact id

theorem create_refused {r : Resource} {b : Backing} {e : Error}
    (hfails : ((create r).on b).1 = .error e) (hrefused : e.IsRefusal) : r.validate = .error e := by
  unfold create at hfails
  cases hvalid : r.validate with
  | error e' =>
    rw [hvalid, on_bind_error (on_check _ _)] at hfails
    injection hfails with he
    rw [he]
  | ok _ =>
    rw [hvalid, on_bind_ok (on_check _ _)] at hfails
    have haccepts := Accepts.bind (insert_accepts r) fun _ _ _ _ => Accepts.pure r
    exact absurd hrefused (haccepts b e hfails)

/-- Whatever a registration draws is one value. -/
theorem allocateNext_ok {limit : Nat} {name : String} {b b' : Backing} {value : Int64}
    (h : (Sequence.allocateNext limit name).on b = (.ok value, b')) :
    ∃ s, b = .embedded s ∧ b' = .embedded (s.advanced name value) ∧
      value.toInt = s.counterOf name + 1 := by
  cases b with
  | unreachable =>
    unfold Sequence.allocateNext at h
    obtain ⟨e, hfails⟩ := Sequence.allocateBlock_unreachable limit name 1
    rw [on_bind_error hfails] at h
    cases h
  | embedded s =>
    rcases Sequence.allocateNext_cases limit name s with
      ⟨e, hfails, -⟩ | ⟨value, hvalue, hnext⟩
    · rw [hfails] at h
      cases h
    · rw [hvalue] at h
      cases h
      exact ⟨s, rfl, rfl, hnext⟩

/-- **Registering content is refused without a trace**, or for an id that is a digest without
digits. Then one value of the sequence is gone. -/
theorem register_refused {limit : Nat} {now : Int64} (hnow : 0 ≤ now) {content : ByteArray}
    (hcontent : content.size < 2 ^ 63) {registration : Registration} {b : Backing} {e : Error}
    (hfails : ((register limit now content registration).on b).1 = .error e)
    (hrefused : e.IsRefusal) :
    ((register limit now content registration).on b).2 = b ∨
    registration.format = .digest 0 ∧ e = .argument .emptyId ∧ ∃ s value, b = .embedded s ∧
      value.toInt = s.counterOf registration.sequence + 1 ∧
      ((register limit now content registration).on b).2 =
        .embedded (s.advanced registration.sequence value) := by
  have hearlier := earlier_looks registration (Digest.contentHash content) b
  unfold register at hfails ⊢
  simp only [] at hfails ⊢
  rcases hfound : (earlier registration (Digest.contentHash content)).on b with ⟨e' | found, b'⟩
  · rw [hfound] at hearlier
    rw [on_bind_error hfound]
    exact Or.inl hearlier
  rw [hfound] at hearlier
  rw [on_bind_ok hfound, show b' = b from hearlier] at hfails ⊢
  cases found with
  | some r => cases hfails
  | none =>
    simp only [] at hfails ⊢
    have hatomic := Sequence.allocateNext_atomic limit registration.sequence b
    rcases hvalue : (Sequence.allocateNext limit registration.sequence).on b with ⟨e' | value, b₁⟩
    · -- no value was drawn
      rw [hvalue] at hatomic
      rw [on_bind_error hvalue]
      exact Or.inl (hatomic e' rfl)
    · rw [on_bind_ok hvalue] at hfails ⊢
      obtain ⟨s, hs, hadvanced, hnext⟩ := allocateNext_ok hvalue
      have hsize : 0 ≤ Int64.ofNat content.size := by
        rw [Int64.le_iff_toInt_le, Int64.toInt_ofNat_of_lt hcontent]
        exact Int.natCast_nonneg _
      -- the value is gone, and the resource must have been refused for its id
      right
      rcases hcreate : (create (Resource.mk (registration.format.render value) registration.bucket
        now (Digest.contentHash content) (Int64.ofNat content.size))).on b₁ with ⟨e' | r, b₂⟩
      · rw [on_bind_error hcreate] at hfails ⊢
        cases hfails
        have hsame := create_atomic _ b₁ e (congrArg Prod.fst hcreate)
        have hvalid := create_refused (congrArg Prod.fst hcreate) hrefused
        obtain ⟨hid, he⟩ := Resource.refused_for_id hvalid hnow hsize
        rw [hcreate] at hsame
        exact ⟨IdFormat.render_eq_empty hid, he, s, value, hs, hnext, hsame.trans hadvanced⟩
      · rw [on_bind_ok hcreate] at hfails
        cases hfails

/-- **A value is lost** whenever content that is not known yet is registered under a digest without
digits, as long as the sequence has a value left. -/
theorem register_undigested {limit : Nat} (now : Int64) (content : ByteArray)
    {registration : Registration} (hformat : registration.format = .digest 0) {s : Store}
    (hunknown : ((earlier registration (Digest.contentHash content)).on (.embedded s)).1 =
      .ok none)
    {value : Int64} {s' : Store}
    (hvalue : (Sequence.allocateNext limit registration.sequence).on (.embedded s) =
      (.ok value, .embedded s')) :
    (register limit now content registration).on (.embedded s) =
      (.error (.argument .emptyId), .embedded s') := by
  have hearlier : (earlier registration (Digest.contentHash content)).on (.embedded s) =
      (.ok none, .embedded s) := Prod.ext hunknown (earlier_looks _ _ _)
  unfold register
  simp only []
  rw [on_bind_ok hearlier]
  simp only []
  rw [on_bind_ok hvalue, hformat]
  rfl

end Registry

/-! ## Commands -/

namespace Command

/-- **A refusal costs nothing**, whatever the tables hold, but for one value of a sequence where
content is registered under a digest without digits. -/
theorem refusal_cost (limits : Limits) {now : Int64} (hnow : 0 ≤ now) {content : ByteArray}
    (hcontent : content.size < 2 ^ 63) (s : Store) (command : Command) {e : Error} {b : Backing}
    (hfails : (command.perform limits now content).on (.embedded s) = (.error e, b))
    (hrefused : e.IsRefusal) :
    b = .embedded s ∨
    ∃ file registration value, command = .register file registration ∧
      registration.format = .digest 0 ∧ e = .argument .emptyId ∧
      value.toInt = s.counterOf registration.sequence + 1 ∧
      b = .embedded (s.advanced registration.sequence value) := by
  have hspared : ∀ {α : Type} {access : Access α} {reply : α → Reply}, Spares access →
      (access >>= fun a => pure (reply a)).on (.embedded s) = (.error e, b) →
      b = .embedded s := by
    intro α access reply hspares hon
    have hsame := hspares.map reply (.embedded s) e (congrArg Prod.fst hon) hrefused
    rwa [hon] at hsame
  cases command with
  | migrate => cases hfails
  | health => exact Or.inl (hspared Registry.health_looks.atomic.spares hfails)
  | allocate name count =>
    exact Or.inl (hspared (Sequence.allocateBlock_atomic _ _ _).spares hfails)
  | peek name => exact Or.inl (hspared (Sequence.current_looks _ _).atomic.spares hfails)
  | mint sequence count format =>
    exact Or.inl (hspared (Registry.mint_spares _ _ _ _) hfails)
  | register file registration =>
    rcases hon : (Registry.register limits.nameLimit now content registration).on (.embedded s) with
      ⟨e' | registered, b'⟩
    · have hwhole : (perform limits now content (.register file registration)).on (.embedded s) =
          (.error e', b') := on_bind_error hon _
      rw [hwhole] at hfails
      cases hfails
      have hrefusal := Registry.register_refused hnow hcontent (congrArg Prod.fst hon) hrefused
      rw [hon] at hrefusal
      rcases hrefusal with hsame | ⟨hformat, he, s', value, hs', hnext, hlost⟩
      · exact Or.inl hsame
      · cases hs'
        exact Or.inr ⟨file, registration, value, rfl, hformat, he, hnext, hlost⟩
    · have hwhole : (perform limits now content (.register file registration)).on (.embedded s) =
          (.ok (.registered registered.resource registered.reused), b') := on_bind_ok hon _
      rw [hwhole] at hfails
      cases hfails
  | create id bucket hash size createTime =>
    exact Or.inl (hspared (Registry.create_atomic _).spares hfails)
  | get id => exact Or.inl (hspared (Registry.get_looks id).atomic.spares hfails)
  | findHash hash => exact Or.inl (hspared (Walk.collect_looks _).atomic.spares hfails)
  | list bucket after limit =>
    have hlooks : Looks (perform limits now content (.list bucket after limit)) :=
      Looks.bind (Looks.check _) fun _ =>
        Looks.bind (Registry.page_looks _ _) fun _ => Looks.pure _
    have hsame := hlooks (.embedded s)
    rw [hfails] at hsame
    exact Or.inl hsame
  | delete id => exact Or.inl (hspared (Atomic.write (Store.remove id)).spares hfails)
  | purge cutoff => exact Or.inl (hspared (Atomic.write (Store.purge cutoff)).spares hfails)

/-- Minting under a digest without digits is refused at once. -/
theorem refusal_cost_minting :
    Error.IsRefusal (.argument .digestLengthOutOfRange) ∧
      ((mint "n" 5 (.digest 0)).perform .standard 0 .empty).on (.embedded .fresh) =
        (.error (.argument .digestLengthOutOfRange), .embedded .fresh) := by
  have hfails : ((mint "n" 5 (.digest 0)).perform .standard 0 .empty).on (.embedded .fresh) =
      (.error (.argument .digestLengthOutOfRange),
        (((mint "n" 5 (.digest 0)).perform .standard 0 .empty).on (.embedded .fresh)).2) := rfl
  rcases refusal_cost .standard (by decide) (by decide) .fresh (mint "n" 5 (.digest 0)) hfails
    trivial with hsame | ⟨_, _, _, hcommand, -⟩
  · rw [hsame] at hfails
    exact ⟨trivial, hfails⟩
  · cases hcommand

/-- A registration under a digest without digits. -/
def undigested : Registry.Registration where
  bucket := "b"
  sequence := "image_bed"
  format := .digest 0
  allowDuplicate := false

/-- The exception occurs: the command line admits such a registration, and over a fresh store it is
refused after the first value of its sequence was drawn. -/
theorem undigested_draws :
    CommandLine.read ["register", "f", "--bucket", "b", "--digest", "0"] =
      .ok (.register "f" undigested) ∧
    Store.fresh.Reachable ∧
    ((register "f" undigested).perform .standard 0 .empty).on (.embedded .fresh) =
      (.error (.argument .emptyId), .embedded (Store.fresh.advanced "image_bed" 4)) ∧
    Error.IsRefusal (.argument .emptyId) ∧
    Store.fresh.counterOf "image_bed" = 3 ∧
    (Store.fresh.advanced "image_bed" 4).counterOf "image_bed" = 4 := by
  have hunknown : ((Registry.earlier undigested (Digest.contentHash .empty)).on
      (.embedded .fresh)).1 = .ok none := by
    have hfound := Registry.findDuplicate_on Store.fresh_consistent "b" (Digest.contentHash .empty)
    have hempty : Store.fresh.listing ⟨.hash, Digest.contentHash .empty⟩ = [] := by
      rw [Store.listing, show Store.fresh.stored = [] from rfl, List.filter_nil, Store.inOrder,
        List.mergeSort_nil]
    rw [hempty] at hfound
    exact congrArg Prod.fst hfound
  refine ⟨rfl, ⟨.standard, 0, [], by simp, rfl⟩, ?_, trivial, by decide, by decide⟩
  exact on_bind_error (Registry.register_undigested 0 .empty rfl hunknown rfl) _

end Command

end ObjectRegistry
