import ObjectRegistry.Proofs.Duplicates
import ObjectRegistry.Proofs.Lifetimes
import ObjectRegistry.Proofs.Refusals

/-!
# Registering content

A register command looks for content in a bucket and reuses the earliest resource that has it, or
draws a value and records a resource of its own. It has four outcomes, and the store decides which
(`Registering.Outcome`): nothing in between can fail otherwise, because a hash has a fixed length
and every value an id.

The search goes along a listing to its end, so it is complete (`Consistent.findDuplicate_cases`). A
command that may not duplicate therefore adds a resource only where the bucket has none with that
content (`Registering.Strict.cases`, `Registering.Grows`). What runs of such commands keep follows
from that alone: no two resources of a bucket come to have the same content (`Grows.distinct`), and
the earliest one with some content stays the earliest (`Grows.earliest`).
-/

namespace ObjectRegistry

open Access
open Registry (Registration)

/-! ## The size of a hash -/

/-- A text has four bytes for each character at most. -/
theorem Text.utf8ByteSize_le (text : String) : text.utf8ByteSize ≤ 4 * text.length := by
  rw [← Text.length_bytes, Text.bytes_eq_flatMap, ← String.length_toList]
  induction text.toList with
  | nil => exact Nat.le_refl _
  | cons c rest ih =>
    have hchar : (String.utf8EncodeChar c).length ≤ 4 := by
      rw [String.length_utf8EncodeChar]
      exact c.utf8Size_le_four
    rw [List.flatMap_cons, List.length_append, List.length_cons]
    omega

theorem Text.Hex.length_digits (bytes : List UInt8) : (digits bytes).length = 2 * bytes.length := by
  induction bytes with
  | nil => rfl
  | cons b rest ih =>
    have hpair : (pair b).length = 2 := rfl
    have hsplit : digits (b :: rest) = pair b ++ digits rest := rfl
    rw [hsplit, List.length_append, hpair, ih, List.length_cons]
    omega

theorem Digest.Sha256.length_hash (message : ByteArray) : (hash message).length = 32 := by
  unfold hash
  -- whatever the chain is, it has eight words
  generalize List.foldl _ _ _ = chain
  rfl

/-- A content hash has 64 digits, so it can be stored. -/
theorem Digest.contentHash_holdable (content : ByteArray) :
    (contentHash content).utf8ByteSize < Record.textBound := by
  have hsize := Text.utf8ByteSize_le (contentHash content)
  have hlength : (contentHash content).length = 64 := by
    rw [contentHash, Text.Hex.encode, String.length_ofList, Text.Hex.length_digits,
      Digest.Sha256.length_hash]
  have hbound : Record.textBound = 9223372036854775808 := rfl
  omega

/-! ## Register commands -/

/-- A register command: the limits and the second under which it is performed, and the content of
its file. -/
structure Registering where
  file : String
  registration : Registration
  limits : Limits
  now : Int64
  content : ByteArray

namespace Registering

variable {c : Registering} {s : Store}

/-- What the command does. -/
def perform (c : Registering) : Access Reply :=
  (Command.register c.file c.registration).perform c.limits c.now c.content

/-- The hash that the content is registered under. -/
def hash (c : Registering) : String := Digest.contentHash c.content

/-- The resource that the command records if it draws a value. -/
def offer (c : Registering) (value : Int64) : Resource where
  id := c.registration.format.render value
  bucket := c.registration.bucket
  createTime := c.now
  hash := c.hash
  size := Int64.ofNat c.content.size

/-- The command has to reuse what the bucket has, and the bucket has the content. -/
def Known (c : Registering) (s : Store) : Prop :=
  c.registration.allowDuplicate = false ∧ ∃ r, s.Matches c.registration.bucket c.hash r

/-- A command with a good sequence name, a format that makes ids, a time that is not before 1970,
and content and a bucket that fit into memory. Every format makes ids but a digest without
digits. -/
structure Proper (c : Registering) : Prop where
  name : Sequence.checkName c.limits.nameLimit c.registration.sequence = .ok ()
  format : c.registration.format ≠ .digest 0
  time : 0 ≤ c.now
  content : c.content.size < 2 ^ 63
  bucket : c.registration.bucket.utf8ByteSize < Record.textBound

/-- The two ends of a command that drew a value. -/
structure Drawn (c : Registering) (s : Store) (value : Int64) : Prop where
  /-- The id is taken: the value is gone, and nothing else has changed. -/
  taken : (∃ r, s.Holds r ∧ r.id = (c.offer value).id) →
    c.perform.on (.embedded s) = (.error (.duplicateId (c.offer value).id),
      .embedded (s.advanced c.registration.sequence value))
  /-- The id is free: the resource is recorded. -/
  created : (¬ ∃ r, s.Holds r ∧ r.id = (c.offer value).id) →
    c.perform.on (.embedded s) = (.ok (.registered (c.offer value) false),
      .embedded ((s.advanced c.registration.sequence value).adding (c.offer value))) ∧
    ∀ r, ((s.advanced c.registration.sequence value).adding (c.offer value)).Holds r ↔
      r = c.offer value ∨ s.Holds r

/-- What becomes of a command over a store. -/
structure Outcome (c : Registering) (s : Store) : Prop where
  reused : c.Known s → ∃ r, s.Earliest c.registration.bucket c.hash r ∧
    c.perform.on (.embedded s) = (.ok (.registered r true), .embedded s)
  exhausted : ¬ c.Known s → s.counterOf c.registration.sequence = Int64.maxValue.toInt →
    c.perform.on (.embedded s) =
      (.error (.storage (.exhausted c.registration.sequence)), .embedded s)
  drawn : ¬ c.Known s → s.counterOf c.registration.sequence ≠ Int64.maxValue.toInt →
    ∃ value : Int64, value.toInt = s.counterOf c.registration.sequence + 1 ∧
      (c.offer value).size.toInt = c.content.size ∧ c.Drawn s value

/-- A command over known content reuses the earliest resource that has it. -/
theorem perform_known (h : s.Consistent) (hknown : c.Known s) :
    ∃ r, s.Earliest c.registration.bucket c.hash r ∧
      c.perform.on (.embedded s) = (.ok (.registered r true), .embedded s) := by
  obtain ⟨hstrict, hmatch⟩ := hknown
  rcases h.findDuplicate_cases c.registration.bucket c.hash with ⟨r, hr, hsearch⟩ | ⟨hnone, -⟩
  · refine ⟨r, hr, ?_⟩
    have hearlier : (Registry.earlier c.registration c.hash).on (.embedded s) =
        (.ok (some r), .embedded s) := by
      unfold Registry.earlier
      rw [hstrict]
      exact hsearch
    have hregister : (Registry.register c.limits.nameLimit c.now c.content c.registration).on
        (.embedded s) = (.ok ⟨r, true⟩, .embedded s) := on_bind_ok hearlier _
    exact on_bind_ok hregister _
  · exact absurd hmatch hnone

/-- A command over content that is not known draws a value and offers a resource. -/
theorem perform_unknown (h : s.Consistent) (hunknown : ¬ c.Known s) :
    c.perform.on (.embedded s) =
      (Sequence.allocateNext c.limits.nameLimit c.registration.sequence >>= fun value =>
        Registry.create (c.offer value) >>= fun r => pure (Reply.registered r false)).on
          (.embedded s) := by
  have hearlier : (Registry.earlier c.registration c.hash).on (.embedded s) =
      (.ok none, .embedded s) := by
    unfold Registry.earlier
    cases hallow : c.registration.allowDuplicate with
    | true => rfl
    | false =>
      rcases h.findDuplicate_cases c.registration.bucket c.hash with ⟨r, hr, -⟩ | ⟨-, hsearch⟩
      · exact absurd ⟨hallow, r, hr.isMatch⟩ hunknown
      · exact hsearch
  have hregister : (Registry.register c.limits.nameLimit c.now c.content c.registration).on
      (.embedded s) = (Sequence.allocateNext c.limits.nameLimit c.registration.sequence >>=
        fun value => Registry.create (c.offer value) >>= fun r =>
          pure (Registry.Registered.mk r false)).on (.embedded s) := on_bind_ok hearlier _
  have hperform : c.perform.on (.embedded s) =
      (Registry.register c.limits.nameLimit c.now c.content c.registration >>= fun registered =>
        pure (Reply.registered registered.resource registered.reused)).on (.embedded s) := rfl
  rw [hperform, on_bind, hregister, on_bind, on_bind]
  rcases (Sequence.allocateNext c.limits.nameLimit c.registration.sequence).on (.embedded s) with
    ⟨e | value, b⟩
  · rfl
  · simp only [on_bind]
    rcases (Registry.create (c.offer value)).on b with ⟨e | r, b'⟩
    · rfl
    · rfl

/-- **What drawing comes to**, whatever the command is given: it is denied a value and leaves the
store; or it draws the value behind the counter, and fails with it or records its offer. Only an id
that is taken is a duplicate. -/
theorem perform_drawing (h : s.Consistent) (hunknown : ¬ c.Known s) :
    (∃ e, c.perform.on (.embedded s) = (.error e, .embedded s) ∧ e.IsDenial) ∨
    ∃ value : Int64, value.toInt = s.counterOf c.registration.sequence + 1 ∧
      let drawn := s.advanced c.registration.sequence value
      let r := c.offer value
      ((∃ e, c.perform.on (.embedded s) = (.error e, .embedded drawn) ∧
          ∀ id, e = .duplicateId id → id = r.id ∧ ∃ held, s.Holds held ∧ held.id = id) ∨
        c.perform.on (.embedded s) = (.ok (.registered r false), .embedded (drawn.adding r)) ∧
          r.record.Holdable ∧ drawn.find r.id = .ok none ∧
          (r.id ≠ "" ∧ 0 ≤ r.createTime ∧ 0 ≤ r.size)) := by
  rw [perform_unknown h hunknown]
  rcases Sequence.allocateNext_cases c.limits.nameLimit c.registration.sequence s with
    ⟨e, hfails, hdenied⟩ | ⟨value, hnext, hvalue⟩
  · exact Or.inl ⟨e, on_bind_error hfails _, hdenied⟩
  · refine Or.inr ⟨value, hvalue, ?_⟩
    have hadvanced := h.advanced c.registration.sequence value
    rw [on_bind_ok hnext]
    rcases Registry.create_cases hadvanced (c.offer value) with
      ⟨e, hfails, hcause⟩ | ⟨hadds, hwell⟩
    · refine Or.inl ⟨e, on_bind_error hfails _, ?_⟩
      intro id hid
      subst hid
      rcases hcause with hrefused | hunwritable | ⟨hduplicate, htaken⟩
      · exact hrefused.elim
      · cases hunwritable
      · cases hduplicate
        obtain ⟨held, hheld⟩ := Option.isSome_iff_exists.1 ((hadvanced.contains_iff _).1 htaken)
        exact ⟨rfl, held, hadvanced.holds_iff.1 hheld⟩
    · exact Or.inr ⟨on_bind_ok hadds _, hwell⟩

/-- A command that finds its id a duplicate finds it taken. -/
theorem holder_of_duplicate (h : s.Consistent) {id : String}
    (hfails : (c.perform.on (.embedded s)).1 = .error (.duplicateId id)) :
    ∃ r, s.Holds r ∧ r.id = id := by
  by_cases hknown : c.Known s
  · obtain ⟨r, -, hreuses⟩ := perform_known h hknown
    rw [hreuses] at hfails
    cases hfails
  · rcases perform_drawing h hknown with
      ⟨e, hon, hdenied⟩ | ⟨value, -, ⟨e, hon, hduplicate⟩ | ⟨hadds, -⟩⟩
    · rw [hon] at hfails
      cases hfails
      exact absurd rfl (hdenied.ne_duplicateId id)
    · rw [hon] at hfails
      cases hfails
      exact (hduplicate id rfl).2
    · rw [hadds] at hfails
      cases hfails

/-- An offer of a proper command can be recorded. -/
theorem Proper.offer (hc : c.Proper) (value : Int64) :
    (c.offer value).validate = .ok () ∧ (c.offer value).record.Holdable := by
  refine ⟨Resource.validate_eq_ok_iff.2 ⟨?_, hc.time, ?_⟩, hc.bucket,
    Digest.contentHash_holdable c.content⟩
  · exact fun hid => hc.format (IdFormat.render_eq_empty hid)
  · show (0 : Int64) ≤ Int64.ofNat c.content.size
    rw [Int64.le_iff_toInt_le, Int64.toInt_ofNat_of_lt hc.content]
    exact Int.natCast_nonneg _

/-- **A proper command has one of four outcomes.** -/
theorem Proper.outcome (hc : c.Proper) (h : s.Consistent) : c.Outcome s where
  reused := perform_known h
  exhausted := by
    intro hunknown hlast
    rw [perform_unknown h hunknown]
    rcases Sequence.allocateNext_on hc.name s with ⟨-, hfails⟩ | ⟨value, hvalue, -⟩
    · exact on_bind_error hfails _
    · -- no value lies behind the greatest
      have hhigh := value.toInt_lt
      rw [hlast, Int64.toInt_maxValue] at hvalue
      omega
  drawn := by
    intro hunknown hless
    rcases Sequence.allocateNext_on hc.name s with ⟨hlast, -⟩ | ⟨value, hvalue, hnext⟩
    · exact absurd hlast hless
    · have hadvanced := h.advanced c.registration.sequence value
      obtain ⟨hvalid, hhold⟩ := hc.offer value
      have hcreate := Registry.create_valid hadvanced hvalid hhold
      -- the id is taken in the store whose counter moved if it was taken before
      have htaken : ((s.advanced c.registration.sequence value).occupant
          (c.offer value).id).isSome = true ↔ ∃ r, s.Holds r ∧ r.id = (c.offer value).id := by
        rw [Option.isSome_iff_exists]
        exact exists_congr fun r => h.holds_iff
      refine ⟨value, hvalue, Int64.toInt_ofNat_of_lt hc.content, ?_, ?_⟩
      · intro hoccupied
        rw [if_pos (htaken.2 hoccupied)] at hcreate
        rw [perform_unknown h hunknown, on_bind_ok hnext]
        exact on_bind_error hcreate _
      · intro hfree
        rw [if_neg fun hoccupied => hfree (htaken.1 hoccupied)] at hcreate
        obtain ⟨table, hrows⟩ := hadvanced.rowing
        refine ⟨?_, fun r => Store.holds_adding hrows hhold ?_⟩
        · rw [perform_unknown h hunknown, on_bind_ok hnext]
          exact on_bind_ok hcreate _
        · rw [hadvanced.find_eq]
          exact congrArg _ (Option.not_isSome_iff_eq_none.1 fun hoccupied =>
            hfree (htaken.1 hoccupied))

/-! ## Runs of commands that may not duplicate -/

/-- The command has to reuse what the bucket has. -/
def Strict (c : Registering) : Prop := c.registration.allowDuplicate = false

/-- The storage after commands that are performed one after the other, whether they succeed or
not. -/
def afterwards (calls : List Registering) (b : Backing) : Backing :=
  calls.foldl (fun b c => (c.perform.on b).2) b

/-- Resources come to a store only where nothing in it has their content. -/
inductive Grows (s s' : Store) : Prop where
  | same (holds : ∀ r, s'.Holds r ↔ s.Holds r)
  | more (new : Resource) (unmatched : ¬ ∃ r, s.Matches new.bucket new.hash r)
      (holds : ∀ r, s'.Holds r ↔ r = new ∨ s.Holds r)

variable {s' : Store} {bucket hash : String} {r : Resource}

/-- **What a command that may not duplicate can do**, whatever it is given: it fails and leaves what
is held, it answers the earliest match and leaves the store, or it adds the first resource of its
bucket with its content. -/
theorem Strict.cases (hc : c.Strict) (h : s.Consistent) :
    ∃ answer s', c.perform.on (.embedded s) = (answer, .embedded s') ∧ s'.Consistent ∧
      Grows s s' ∧ ∀ r reused, answer = .ok (.registered r reused) →
        s'.Earliest c.registration.bucket c.hash r := by
  by_cases hknown : c.Known s
  · obtain ⟨r, hr, hreuses⟩ := perform_known h hknown
    refine ⟨_, s, hreuses, h, .same fun _ => Iff.rfl, ?_⟩
    rintro _ _ ⟨⟩
    exact hr
  · have hunmatched : ¬ ∃ r, s.Matches c.registration.bucket c.hash r :=
      fun hmatch => hknown ⟨hc, hmatch⟩
    rcases perform_drawing h hknown with
      ⟨e, hfails, -⟩ | ⟨value, -, ⟨e, hfails, -⟩ | ⟨hadds, hhold, hfree, hwell⟩⟩
    · rw [hfails]
      exact ⟨_, s, rfl, h, .same fun _ => Iff.rfl, fun _ _ => nofun⟩
    · rw [hfails]
      exact ⟨_, _, rfl, h.advanced _ _, .same fun _ => Iff.rfl, fun _ _ => nofun⟩
    · have hadvanced := h.advanced c.registration.sequence value
      obtain ⟨table, hrows⟩ := hadvanced.rowing
      have hholds : ∀ r, ((s.advanced c.registration.sequence value).adding
          (c.offer value)).Holds r ↔ r = c.offer value ∨ s.Holds r :=
        fun r => Store.holds_adding hrows hhold hfree
      rw [hadds]
      refine ⟨_, _, rfl, hadvanced.adding hhold hfree hwell,
        .more (c.offer value) hunmatched hholds, ?_⟩
      rintro _ _ ⟨⟩
      refine ⟨⟨(hholds _).2 (Or.inl rfl), rfl, rfl⟩, ?_⟩
      intro other hother
      rcases (hholds other).1 hother.held with hsame | hold
      · exact Or.inl hsame
      · exact absurd ⟨other, hold, hother.bucket, hother.hash⟩ hunmatched

/-- The earliest resource with some content stays the earliest. -/
theorem Grows.earliest (h : Grows s s') (hr : s.Earliest bucket hash r) :
    s'.Earliest bucket hash r := by
  cases h with
  | same holds =>
    refine ⟨⟨(holds r).2 hr.isMatch.held, hr.isMatch.bucket, hr.isMatch.hash⟩, ?_⟩
    intro other hother
    exact hr.first other ⟨(holds other).1 hother.held, hother.bucket, hother.hash⟩
  | more new unmatched holds =>
    refine ⟨⟨(holds r).2 (Or.inr hr.isMatch.held), hr.isMatch.bucket, hr.isMatch.hash⟩, ?_⟩
    intro other hother
    rcases (holds other).1 hother.held with rfl | hold
    · -- a new resource with that content would have found `r`
      rw [hother.bucket, hother.hash] at unmatched
      exact absurd ⟨r, hr.isMatch⟩ unmatched
    · exact hr.first other ⟨hold, hother.bucket, hother.hash⟩

/-- No two resources of one bucket have the same content. -/
def Distinct (s : Store) : Prop :=
  ∀ r r', s.Holds r → s.Holds r' → r.bucket = r'.bucket → r.hash = r'.hash → r = r'

theorem Grows.distinct (h : Grows s s') (hs : Distinct s) : Distinct s' := by
  cases h with
  | same holds =>
    intro r r' hr hr'
    exact hs r r' ((holds r).1 hr) ((holds r').1 hr')
  | more new unmatched holds =>
    intro r r' hr hr' hbucket hhash
    rcases (holds r).1 hr with rfl | hold
    · rcases (holds r').1 hr' with rfl | hold'
      · rfl
      · exact absurd ⟨r', hold', hbucket.symm, hhash.symm⟩ unmatched
    · rcases (holds r').1 hr' with rfl | hold'
      · exact absurd ⟨r, hold, hbucket, hhash⟩ unmatched
      · exact hs r r' hold hold' hbucket hhash

/-- **A run keeps** what growing keeps. -/
theorem afterwards_keeps {P : Store → Prop} (hP : ∀ {s s'}, Grows s s' → P s → P s')
    {calls : List Registering} (hstrict : ∀ c ∈ calls, c.Strict) (h : s.Consistent) (hs : P s) :
    ∃ s', afterwards calls (.embedded s) = .embedded s' ∧ s'.Consistent ∧ P s' := by
  induction calls generalizing s with
  | nil => exact ⟨s, rfl, h, hs⟩
  | cons c rest ih =>
    obtain ⟨answer, s', hc, h', hgrows, -⟩ := (hstrict c List.mem_cons_self).cases h
    obtain ⟨s'', hrest, hend⟩ :=
      ih (fun d hd => hstrict d (List.mem_cons_of_mem _ hd)) h' (hP hgrows hs)
    refine ⟨s'', ?_, hend⟩
    show afterwards rest (c.perform.on (.embedded s)).2 = _
    rw [hc]
    exact hrest

/-- **Registering reuses content and accounts for every value.** Over every store that a run leads
to, a register command has one of four outcomes, according to what the store holds: it answers the
earliest resource of the bucket with the content and changes nothing; it finds its sequence
exhausted and changes nothing; it finds the id of the next value taken and only moves the counter
onto that value; or it moves the counter and records one resource, made of that id and what it was
given. So whatever commands that may not duplicate are performed one after the other, on a registry
without resources they leave no two of one bucket with the same content; and content that one of
them registered is answered with the same resource, as reused and without a change, by every later
one for the same bucket. -/
theorem reuse_and_account (hs : s.Reachable) :
    (∀ c : Registering, c.Proper → c.Outcome s) ∧
    (∀ calls : List Registering, (∀ c ∈ calls, c.Strict) → (∀ r, ¬ s.Holds r) →
      ∃ s', afterwards calls (.embedded s) = .embedded s' ∧ Distinct s') ∧
    ∀ (first : Registering) (between : List Registering) (again : Registering) (r : Resource)
      (reused : Bool), first.Strict → (∀ c ∈ between, c.Strict) → again.Strict →
      again.registration.bucket = first.registration.bucket → again.content = first.content →
      (first.perform.on (.embedded s)).1 = .ok (.registered r reused) →
      ∃ s', afterwards (first :: between) (.embedded s) = .embedded s' ∧
        again.perform.on (.embedded s') = (.ok (.registered r true), .embedded s') := by
  have h : s.Consistent := hs.consistent
  refine ⟨fun c hc => hc.outcome h, ?distinct, ?repeated⟩
  case distinct =>
    intro calls hstrict hempty
    have hdistinct : Distinct s := fun r _ hr => absurd hr (hempty r)
    obtain ⟨s', hend, -, hdistinct'⟩ := afterwards_keeps Grows.distinct hstrict h hdistinct
    exact ⟨s', hend, hdistinct'⟩
  case repeated =>
    intro first between again r reused hfirst hbetween hagain hbucket hcontent hanswer
    obtain ⟨answer, s₁, hon, h₁, -, hearliest⟩ := hfirst.cases h
    rw [hon] at hanswer
    have hr : s₁.Earliest first.registration.bucket first.hash r := hearliest r reused hanswer
    obtain ⟨s', hend, h', hr'⟩ := afterwards_keeps Grows.earliest hbetween h₁ hr
    have hhash : again.hash = first.hash := congrArg Digest.contentHash hcontent
    rw [← hbucket, ← hhash] at hr'
    obtain ⟨r', hr'', hreuses⟩ := perform_known h' ⟨hagain, r, hr'.isMatch⟩
    refine ⟨s', ?_, ?_⟩
    · show afterwards between (first.perform.on (.embedded s)).2 = _
      rw [hon]
      exact hend
    · rw [hreuses, hr''.unique hr']

/-- A file without content, registered under a seeded sequence. -/
def blankFile : Registering where
  file := "f"
  registration := ⟨"b", "image_bed", .plain, false⟩
  limits := .standard
  now := 5
  content := .empty

/-- The same content from another file, at another time and under another sequence. -/
def blankCopy : Registering where
  file := "g"
  registration := ⟨"b", "n", .labelled "img", false⟩
  limits := .standard
  now := 4
  content := .empty

/-- Over a fresh store the first command draws the value behind the seed, and the second one reuses
what the first recorded. -/
theorem reuse_and_account_blank :
    Store.fresh.Reachable ∧ blankFile.Proper ∧ blankFile.Strict ∧ blankCopy.Strict ∧
    ∃ s', blankFile.perform.on (.embedded .fresh) =
        (.ok (.registered (blankFile.offer 4) false), .embedded s') ∧
      Distinct s' ∧
      blankCopy.perform.on (.embedded s') =
        (.ok (.registered (blankFile.offer 4) true), .embedded s') := by
  have hreachable : Store.fresh.Reachable := ⟨.standard, 0, [], by simp, rfl⟩
  have hproper : blankFile.Proper :=
    ⟨rfl, by decide, by decide, by decide, by decide⟩
  have hempty : ∀ r, ¬ Store.fresh.Holds r := by
    intro r hr
    have hmem : r ∈ Store.fresh.stored := Store.fresh_consistent.mem_stored.2 hr
    rw [show Store.fresh.stored = [] from rfl] at hmem
    cases hmem
  obtain ⟨houtcome, hdistinct, hrepeated⟩ := reuse_and_account hreachable
  have hunknown : ¬ blankFile.Known .fresh := fun ⟨_, r, hr⟩ => hempty r hr.held
  have hseed : Store.fresh.counterOf "image_bed" = 3 := by decide
  obtain ⟨value, hvalue, -, hdrawn⟩ := (houtcome blankFile hproper).drawn hunknown (by decide)
  obtain rfl : value = 4 := Int64.toInt_inj.1 (hvalue.trans (congrArg (· + 1) hseed))
  obtain ⟨hcreated, -⟩ := hdrawn.created fun ⟨r, hr, _⟩ => hempty r hr
  obtain ⟨s', hend, hagain⟩ := hrepeated blankFile [] blankCopy _ _ rfl nofun rfl rfl rfl
    (congrArg Prod.fst hcreated)
  obtain ⟨s'', hend', hdistinct'⟩ := hdistinct [blankFile] (by simp [Strict, blankFile]) hempty
  rw [hend] at hend'
  cases hend'
  have hstore : (blankFile.perform.on (.embedded .fresh)).2 = .embedded s' := hend
  refine ⟨hreachable, hproper, rfl, rfl, s', ?_, hdistinct', hagain⟩
  exact Prod.ext (by rw [hcreated]) hstore

end Registering

end ObjectRegistry
