import ObjectRegistry.Proofs.Leases
import ObjectRegistry.Proofs.Printing

/-!
# Minting

A run of ids is drawn from a generator of its own, which begins without a lease and draws as many
values as there are ids. What it leaves of its last block is lost. So a run that succeeds leaves the
counter behind as many blocks as the ids take (`Registry.drawIds_granted`), and a run that fails has
leased every block that fits (`Registry.drawIds_denied`). Both are inductions on the number of ids
still to be drawn, over any lease: an id comes off the lease, or a block is leased in front of it.
What is drawn is answered as a whole or not at all, so the program prints all the ids that were
asked for, or nothing (`Command.mint_exact`).
-/

namespace ObjectRegistry

open Access

/-! ## Stores whose counters have moved -/

namespace Store

/-- A store in which one counter has moved, and nothing else. -/
structure Moved (s s' : Store) (name : String) (total : Nat) : Prop where
  counter : s'.counterOf name = s.counterOf name + total
  /-- If no value was passed over, nothing was written at all. -/
  untouched : total = 0 → s' = s
  others : ∀ other, other ≠ name → s'.counters.get? other = s.counters.get? other
  resources : s'.resources = s.resources
  byHash : s'.byHash = s.byHash
  byBucket : s'.byBucket = s.byBucket

variable {s s' s'' : Store} {name : String} {first second : Nat}

theorem Moved.refl (s : Store) (name : String) : s.Moved s name 0 where
  counter := (Int.add_zero _).symm
  untouched _ := rfl
  others _ _ := rfl
  resources := rfl
  byHash := rfl
  byBucket := rfl

theorem Moved.trans (h : s.Moved s' name first) (h' : s'.Moved s'' name second) :
    s.Moved s'' name (first + second) where
  counter := by
    rw [h'.counter, h.counter]
    omega
  untouched hzero := (h'.untouched (by omega)).trans (h.untouched (by omega))
  others other hne := (h'.others other hne).trans (h.others other hne)
  resources := h'.resources.trans h.resources
  byHash := h'.byHash.trans h.byHash
  byBucket := h'.byBucket.trans h.byBucket

theorem moved_advanced {last : Int64} {count : Nat} (hcount : 0 < count)
    (hsum : last.toInt = s.counterOf name + count) : s.Moved (s.advanced name last) name count where
  counter := by
    rw [counterOf_advanced, if_pos rfl, hsum]
  untouched hzero := absurd hzero (Nat.ne_of_gt hcount)
  others other hne := Table.get?_insert_of_ne _ _ hne
  resources := rfl
  byHash := rfl
  byBucket := rfl

end Store

/-! ## The values ahead of a generator -/

namespace Generator

variable {g : Generator} {s : Store} {blocks : Nat}

/-- The values ahead of a generator, if it is to lease some blocks: what waits in its lease, and
then what follows the counter. -/
def ahead (g : Generator) (s : Store) (blocks : Nat) : List Int :=
  g.lease.map Int64.toInt ++ interval (s.counterOf g.sequence)
    (s.counterOf g.sequence + (blocks * g.blockSize.toNat : Nat))

theorem length_ahead (g : Generator) (s : Store) (blocks : Nat) :
    (g.ahead s blocks).length = g.lease.length + blocks * g.blockSize.toNat := by
  rw [ahead, List.length_append, List.length_map, length_interval]
  omega

/-- **The next value is the first ahead**, as long as the blocks are in range. It is one of the
lease, or one of the blocks is leased in front of it. -/
theorem Usable.next_ahead (h : g.Usable) (hsome : 0 < (g.ahead s blocks).length)
    (hroom : s.counterOf g.sequence + (blocks * g.blockSize.toNat : Nat) ≤
      Int64.maxValue.toInt) :
    ∃ value g' s' leased left, leased + left = blocks ∧
      g.next.on (.embedded s) = (.ok (value, g'), .embedded s') ∧
      g.ahead s blocks = value.toInt :: g'.ahead s' left ∧
      s.Moved s' g.sequence (leased * g.blockSize.toNat) ∧
      g'.Usable ∧ g'.sequence = g.sequence ∧ g'.blockSize = g.blockSize ∧
      g'.format = g.format := by
  have hpos := h.blockSize_pos
  rw [length_ahead] at hsome
  rcases h.next_on s with ⟨value, rest, hlease, hnext⟩ | ⟨hempty, hfull, -⟩ |
    ⟨value, rest, last, hempty, hsum, hvalues, hnext⟩
  · refine ⟨value, _, s, 0, blocks, Nat.zero_add _, hnext, ?_, ?_, ⟨h.name, h.size⟩, rfl, rfl, rfl⟩
    · rw [ahead, hlease]
      rfl
    · rw [Nat.zero_mul]
      exact Store.Moved.refl s _
  · -- there is room for one block at least
    rw [hempty, List.length_nil, Nat.zero_add] at hsome
    have hle := Nat.le_mul_of_pos_left g.blockSize.toNat (Nat.pos_of_mul_pos_right hsome)
    omega
  · rw [hempty, List.length_nil, Nat.zero_add] at hsome
    obtain ⟨left, rfl⟩ := Nat.exists_eq_succ_of_ne_zero
      (Nat.ne_of_gt (Nat.pos_of_mul_pos_right hsome))
    refine ⟨value, _, _, 1, left, Nat.add_comm _ _, hnext, ?_, ?_, ⟨h.name, h.size⟩, rfl, rfl, rfl⟩
    · have hcounter : (s.advanced g.sequence last).counterOf g.sequence = last.toInt := by
        rw [Store.counterOf_advanced, if_pos rfl]
      have hend : s.counterOf g.sequence + ((left + 1) * g.blockSize.toNat : Nat) =
          last.toInt + (left * g.blockSize.toNat : Nat) := by
        rw [Nat.succ_mul]
        omega
      show g.ahead s (left + 1) = value.toInt :: (rest.map Int64.toInt ++
        interval ((s.advanced g.sequence last).counterOf g.sequence)
          ((s.advanced g.sequence last).counterOf g.sequence + (left * g.blockSize.toNat : Nat)))
      have hmeet : interval (s.counterOf g.sequence) last.toInt ++
          interval last.toInt (last.toInt + (left * g.blockSize.toNat : Nat)) =
            interval (s.counterOf g.sequence) (last.toInt + (left * g.blockSize.toNat : Nat)) :=
        interval_append (by omega) (by omega)
      rw [hcounter, ahead, hempty, List.map_nil, List.nil_append, hend, ← hmeet, ← hvalues]
      rfl
    · rw [Nat.one_mul]
      exact Store.moved_advanced hpos hsum

end Generator

/-! ## Drawing ids -/

namespace Registry

open Generator (length_ahead)

variable {g g' : Generator} {b b' : Backing} {value : Int64} {n : Nat} {drawn : List String}

theorem drawIds_next (h : g.next.on b = (.ok (value, g'), b')) :
    (drawIds (n + 1) drawn g).on b =
      (drawIds n (g'.format.render value :: drawn) g').on b' :=
  on_bind_ok (Method.of_on_ok (Generator.nextId_on_ok h)) _

theorem drawIds_error {e : Error} (h : g.next.on b = (.error e, b')) :
    (drawIds (n + 1) drawn g).on b = (.error e, b') :=
  on_bind_error (Method.of_on_error (Generator.nextId_on_error h)) _

/-- **Ids are drawn** if the blocks that they take are in range: they are made of the values ahead,
in that order. -/
theorem drawIds_granted (n : Nat) : ∀ (drawn : List String) {g : Generator} {s : Store}
    (blocks : Nat), g.Usable → n ≤ (g.ahead s blocks).length →
    (g.ahead s blocks).length < n + g.blockSize.toNat →
    s.counterOf g.sequence + (blocks * g.blockSize.toNat : Nat) ≤ Int64.maxValue.toInt →
    ∃ s', s.Moved s' g.sequence (blocks * g.blockSize.toNat) ∧
      (drawIds n drawn g).on (.embedded s) =
        (.ok (drawn.reverse ++
          ((g.ahead s blocks).take n).map fun i => g.format.render (Int64.ofInt i)),
          .embedded s') := by
  induction n with
  | zero =>
    intro drawn g s blocks hg _ hlt _
    -- what is ahead is shorter than a block, so it is in the lease
    obtain rfl : blocks = 0 := by
      by_contra hsome
      have hle := Nat.le_mul_of_pos_left g.blockSize.toNat (Nat.pos_of_ne_zero hsome)
      rw [length_ahead] at hlt
      omega
    rw [Nat.zero_mul, List.take_zero, List.map_nil, List.append_nil]
    exact ⟨s, Store.Moved.refl s _, rfl⟩
  | succ n ih =>
    intro drawn g s blocks hg hle hlt hroom
    obtain ⟨value, g', s', leased, left, rfl, hnext, hahead, hmoved, hg', hsequence, hsize,
      hformat⟩ := hg.next_ahead (by omega) hroom
    rw [hahead, List.length_cons] at hle hlt
    have hcounter := hmoved.counter
    rw [Nat.add_mul] at hroom
    obtain ⟨s'', hrest, hdraws⟩ := ih (g'.format.render value :: drawn) left hg' (s := s')
      (by omega) (by rw [hsize]; omega) (by rw [hsequence, hsize]; omega)
    rw [hsequence, hsize] at hrest
    refine ⟨s'', by rw [Nat.add_mul]; exact hmoved.trans hrest, ?_⟩
    rw [drawIds_next hnext, hdraws, hahead, hformat, List.take_succ_cons, List.map_cons,
      Int64.ofInt_toInt, List.reverse_cons, List.append_assoc]
    rfl

/-- **No ids are drawn** if there are not enough values in range: every block that fits is leased,
and then the sequence is exhausted. -/
theorem drawIds_denied (n : Nat) : ∀ (drawn : List String) {g : Generator} {s : Store}
    (blocks : Nat), g.Usable → (g.ahead s blocks).length < n →
    s.counterOf g.sequence + (blocks * g.blockSize.toNat : Nat) ≤ Int64.maxValue.toInt →
    Int64.maxValue.toInt < s.counterOf g.sequence + ((blocks + 1) * g.blockSize.toNat : Nat) →
    ∃ s', s.Moved s' g.sequence (blocks * g.blockSize.toNat) ∧
      (drawIds n drawn g).on (.embedded s) =
        (.error (.storage (.exhausted g.sequence)), .embedded s') := by
  induction n with
  | zero => exact fun _ _ _ _ _ hlt => absurd hlt (Nat.not_lt_zero _)
  | succ n ih =>
    intro drawn g s blocks hg hlt hroom hfull
    rcases Nat.eq_zero_or_pos (g.ahead s blocks).length with hnone | hsome
    · -- nothing waits, and not even one block fits
      rw [length_ahead, Nat.add_eq_zero_iff, List.length_eq_zero_iff] at hnone
      obtain ⟨hempty, hzero⟩ := hnone
      rw [Nat.succ_mul, hzero, Nat.zero_add] at hfull
      rw [hzero]
      exact ⟨s, Store.Moved.refl s _, drawIds_error (hg.next_exhausted hempty hfull)⟩
    · obtain ⟨value, g', s', leased, left, rfl, hnext, hahead, hmoved, hg', hsequence, hsize, -⟩ :=
        hg.next_ahead hsome hroom
      rw [hahead, List.length_cons] at hlt
      have hcounter := hmoved.counter
      rw [Nat.add_mul] at hroom
      rw [Nat.succ_mul, Nat.add_mul] at hfull
      obtain ⟨s'', hrest, hfails⟩ := ih (g'.format.render value :: drawn) left hg' (s := s')
        (by omega) (by rw [hsequence, hsize]; omega)
        (by rw [hsequence, hsize, Nat.succ_mul]; omega)
      rw [hsequence, hsize] at hrest
      refine ⟨s'', by rw [Nat.add_mul]; exact hmoved.trans hrest, ?_⟩
      rw [drawIds_next hnext, hfails, hsequence]

/-- Ids drawn from a generator without a lease are made of the values behind the counter. -/
theorem drawIds_fresh (hg : g.Usable) (hempty : g.lease = []) {s : Store}
    (hroom : s.counterOf g.sequence + (blocksFor g.blockSize.toNat n * g.blockSize.toNat : Nat) ≤
      Int64.maxValue.toInt) :
    ∃ s', s.Moved s' g.sequence (blocksFor g.blockSize.toNat n * g.blockSize.toNat) ∧
      (drawIds n [] g).on (.embedded s) =
        (.ok ((interval (s.counterOf g.sequence) (s.counterOf g.sequence + n)).map
          fun i => g.format.render (Int64.ofInt i)), .embedded s') := by
  have hle := le_blocksFor_mul hg.blockSize_pos n
  have hlt := blocksFor_mul_lt hg.blockSize_pos n
  have hlength := length_ahead g s (blocksFor g.blockSize.toNat n)
  rw [hempty, List.length_nil, Nat.zero_add] at hlength
  obtain ⟨s', hmoved, hdraws⟩ := drawIds_granted n [] _ hg (by omega) (by omega) hroom
  rw [Generator.ahead, hempty, List.map_nil, List.nil_append, take_interval (by omega)] at hdraws
  exact ⟨s', hmoved, hdraws⟩

/-- If the blocks that the ids take are not in range, those that fit are leased in vain. -/
theorem drawIds_exhausted (hg : g.Usable) (hempty : g.lease = []) {s : Store} {fitting : Nat}
    (hfitting : fitting =
      blocksWithin g.blockSize.toNat (Int64.maxValue.toInt - s.counterOf g.sequence))
    (hfull : Int64.maxValue.toInt <
      s.counterOf g.sequence + (blocksFor g.blockSize.toNat n * g.blockSize.toNat : Nat)) :
    ∃ s', s.Moved s' g.sequence (fitting * g.blockSize.toNat) ∧
      (drawIds n [] g).on (.embedded s) =
        (.error (.storage (.exhausted g.sequence)), .embedded s') := by
  have hmax := s.counterOf_le_max g.sequence
  have hlt := blocksFor_mul_lt hg.blockSize_pos n
  have hfits := blocksWithin_mul_le hg.blockSize_pos (Int.sub_nonneg.2 hmax)
  have hnext := lt_blocksWithin_succ_mul hg.blockSize_pos (Int.sub_nonneg.2 hmax)
  rw [← hfitting] at hfits hnext
  -- the blocks that the ids take do not fit, so those that do are fewer
  have hless : fitting < blocksFor g.blockSize.toNat n :=
    Nat.lt_of_mul_lt_mul_right (a := g.blockSize.toNat) (by omega)
  have hmul := Nat.mul_le_mul_right g.blockSize.toNat hless
  have hlength := length_ahead g s fitting
  rw [hempty, List.length_nil, Nat.zero_add] at hlength
  rw [Nat.succ_mul] at hmul
  exact drawIds_denied n [] fitting hg (by omega) (by omega) (by omega)

/-! ## Minting -/

/-- A lease is as long as there are ids, but of one value at least and of a thousand at most. -/
theorem leaseFor_toNat (count : UInt32) :
    (leaseFor count).toNat = max 1 (min count.toNat 1000) := by
  have hgreatest : Generator.greatestBlockSize.toNat = 1000 := rfl
  unfold leaseFor
  by_cases hzero : count = 0
  · rw [if_pos hzero, hzero]
    rfl
  · have hpos : count.toNat ≠ 0 := fun h => hzero (UInt32.toNat_inj.1 h)
    rw [if_neg hzero]
    by_cases hle : count ≤ Generator.greatestBlockSize
    · have hle' := UInt32.le_iff_toNat_le.1 hle
      rw [if_pos hle]
      omega
    · have hlt : ¬ count.toNat ≤ 1000 := fun h => hle (UInt32.le_iff_toNat_le.2 h)
      rw [if_neg hle]
      omega

/-- A generator for a number of ids is built if its name and its format are good. -/
theorem make_leaseFor {limit : Nat} {sequence : String} {format : IdFormat}
    (hname : Sequence.checkName limit sequence = .ok ()) (hformat : format.validate = .ok ())
    (count : UInt32) : Generator.make limit sequence format (leaseFor count) =
      .ok ⟨sequence, format, leaseFor count, limit, []⟩ := by
  have hsize := leaseFor_toNat count
  refine Generator.make_eq_ok_iff.2 ⟨hname, ?_, hformat, rfl⟩
  rintro (hzero | hlong)
  · rw [hzero] at hsize
    exact absurd hsize (by show 0 ≠ _; omega)
  · have hlong' : 1000 < (leaseFor count).toNat := UInt32.lt_iff_toNat_lt.1 hlong
    omega

/-- No value is wasted on a single lease, nor on leases that are all used up. -/
theorem blocksFor_leaseFor_mul {count : UInt32} (h : count.toNat ≤ 1000 ∨ 1000 ∣ count.toNat) :
    blocksFor (leaseFor count).toNat count.toNat * (leaseFor count).toNat = count.toNat := by
  have hsize := leaseFor_toNat count
  obtain ⟨blocks, hblocks⟩ : ∃ blocks, count.toNat = blocks * (leaseFor count).toNat := by
    by_cases hle : count.toNat ≤ 1000
    · rcases Nat.eq_zero_or_pos count.toNat with hzero | hpos
      · exact ⟨0, by omega⟩
      · exact ⟨1, by omega⟩
    · obtain ⟨blocks, hmul⟩ := h.resolve_left hle
      refine ⟨blocks, ?_⟩
      rw [show (leaseFor count).toNat = 1000 by omega, hmul, Nat.mul_comm]
  rw [blocksFor_eq (Nat.le_of_eq hblocks) (by omega), ← hblocks]

variable {limit : Nat} {sequence : String} {format : IdFormat} {s : Store}

/-- **Minting succeeds or fails as a whole.** If the leases that the ids take are in range, all ids
are answered; otherwise none is, and the leases that fit are lost. -/
theorem mint_cases (hname : Sequence.checkName limit sequence = .ok ())
    (hformat : format.validate = .ok ()) (count : UInt32) (s : Store) :
    let size := (leaseFor count).toNat
    let leases := blocksFor size count.toNat
    let fitting := blocksWithin size (Int64.maxValue.toInt - s.counterOf sequence)
    ∃ answer s', (mint limit sequence format count).on (.embedded s) = (answer, .embedded s') ∧
      (s.counterOf sequence + (leases * size : Nat) ≤ Int64.maxValue.toInt →
        answer = .ok ((interval (s.counterOf sequence) (s.counterOf sequence + count.toNat)).map
          fun i => format.render (Int64.ofInt i)) ∧ s.Moved s' sequence (leases * size)) ∧
      (Int64.maxValue.toInt < s.counterOf sequence + (leases * size : Nat) →
        answer = .error (.storage (.exhausted sequence)) ∧
          s.Moved s' sequence (fitting * size)) := by
  intro size leases fitting
  have hmake := make_leaseFor hname hformat count
  have husable := Generator.make_usable hmake
  have hmint : (mint limit sequence format count).on (.embedded s) =
      (drawIds count.toNat [] ⟨sequence, format, leaseFor count, limit, []⟩).on (.embedded s) := by
    unfold mint
    rw [hmake, on_bind_ok (on_check _ _)]
  by_cases hroom : s.counterOf sequence + (leases * size : Nat) ≤ Int64.maxValue.toInt
  · obtain ⟨s', hmoved, hdraws⟩ := drawIds_fresh husable rfl hroom
    exact ⟨_, s', hmint.trans hdraws, fun _ => ⟨rfl, hmoved⟩,
      fun hfull => absurd hroom (Int.not_le.2 hfull)⟩
  · obtain ⟨s', hmoved, hfails⟩ := drawIds_exhausted husable rfl rfl (Int.not_le.1 hroom)
    exact ⟨_, s', hmint.trans hfails, fun hfits => absurd hfits hroom, fun _ => ⟨rfl, hmoved⟩⟩

end Registry

/-- A command that mints replies with the ids. -/
theorem Command.mint_perform (limits : Limits) (now : Int64) (content : ByteArray)
    (sequence : String) (count : UInt32) (format : IdFormat) (b : Backing) :
    ((Command.mint sequence count format).perform limits now content).on b =
      (((Registry.mint limits.nameLimit sequence format count).on b).1.map .ids,
        ((Registry.mint limits.nameLimit sequence format count).on b).2) := by
  unfold Command.perform
  rcases hmint : (Registry.mint limits.nameLimit sequence format count).on b with ⟨e | ids, b'⟩
  · exact on_bind_error hmint _
  · exact on_bind_ok hmint _

/-- **What minting prints and leaves behind.** Over every store, the ids of a sequence with a good
name in a good format take leases of a size between 1 and 1000. If the counter stays in range with
these leases, the ids of the values behind it are answered, in that order, and the counter is left
behind the leases; so no value is wasted on up to 1000 ids, nor on thousands of them, and without
ids nothing is written. Otherwise no id is answered, the sequence is exhausted, and the counter is
left behind the leases that fit. Nothing else changes in the store.

A process on a file that holds the store ends alike, and its file then holds what minting leaves. A
run whose command line and settings ask for this prints an array that shows the ids, in one line if
there are none, or it fails and prints nothing. -/
theorem Command.mint_exact {limits : Limits} {sequence : String} {format : IdFormat}
    (hname : Sequence.checkName limits.nameLimit sequence = .ok ())
    (hformat : format.validate = .ok ()) (now : Int64) (count : UInt32) (s : Store) :
    let value := s.counterOf sequence
    let size := (Registry.leaseFor count).toNat
    let leases := blocksFor size count.toNat
    let fitting := blocksWithin size (Int64.maxValue.toInt - value)
    let ids := (interval value (value + count.toNat)).map fun i => format.render (Int64.ofInt i)
    size = max 1 (min count.toNat 1000) ∧
    ((count.toNat ≤ 1000 ∨ 1000 ∣ count.toNat) → leases * size = count.toNat) ∧
    ∃ answer s', ((Command.mint sequence count format).perform limits now .empty).on
        (.embedded s) = (answer, .embedded s') ∧
      (value + (leases * size : Nat) ≤ Int64.maxValue.toInt →
        answer = .ok (.ids ids) ∧ s.Moved s' sequence (leases * size)) ∧
      (Int64.maxValue.toInt < value + (leases * size : Nat) →
        answer = .error (.storage (.exhausted sequence)) ∧
          s.Moved s' sequence (fitting * size)) ∧
      (count = 0 → answer = .ok (.ids []) ∧ s' = s) ∧
      ∀ (config : Config) (tree : FileTree), config.limits = limits → config.backend = .embedded →
        s.Open → Database.Settled tree config.databasePath s → ∃ tree',
          FileTree.on (Shell.perform FileTree.files config now (.mint sequence count format)) tree =
            (answer.mapError .registry, tree') ∧
          Database.Settled tree' config.databasePath s' ∧
          ∀ (environment : Environment) (arguments : List String),
            CommandLine.read arguments = .ok (.mint sequence count format) →
            Config.ofEnvironment
              ((Shell.loadEnvironment FileTree.files environment).run tree).1 = .ok config →
            ∃ report, (Shell.run FileTree.files environment now arguments).run tree =
                (report, tree') ∧
              (value + (leases * size : Nat) ≤ Int64.maxValue.toInt →
                report.exitCode = 0 ∧ Json.Shows report.output ids) ∧
              (Int64.maxValue.toInt < value + (leases * size : Nat) →
                report.exitCode = 1 ∧ report.output = "") ∧
              (count = 0 → report.exitCode = 0 ∧ report.output = "[]\n") := by
  intro value size leases fitting ids
  have hexact : (count.toNat ≤ 1000 ∨ 1000 ∣ count.toNat) → leases * size = count.toNat :=
    Registry.blocksFor_leaseFor_mul
  obtain ⟨drawn, s', hmint, hgranted, hdenied⟩ := Registry.mint_cases hname hformat count s
  have hperform := Command.mint_perform limits now .empty sequence count format (.embedded s)
  rw [hmint] at hperform
  have hnone : count = 0 → drawn = .ok [] ∧ s' = s := by
    rintro rfl
    have hzero : leases * size = 0 := hexact (Or.inl (Nat.zero_le _))
    have hmax := s.counterOf_le_max sequence
    obtain ⟨rfl, hmoved⟩ := hgranted (by show value + (leases * size : Nat) ≤ _; omega)
    refine ⟨?_, hmoved.untouched hzero⟩
    rw [show (((0 : UInt32).toNat : Nat) : Int) = 0 from rfl, Int.add_zero, interval_self]
    rfl
  refine ⟨Registry.leaseFor_toNat count, hexact, drawn.map .ids, s', hperform, ?granted, ?denied,
    ?none, ?process⟩
  case granted =>
    intro hroom
    obtain ⟨rfl, hmoved⟩ := hgranted hroom
    exact ⟨rfl, hmoved⟩
  case denied =>
    intro hfull
    obtain ⟨rfl, hmoved⟩ := hdenied hfull
    exact ⟨rfl, hmoved⟩
  case none =>
    intro hzero
    obtain ⟨rfl, hsame⟩ := hnone hzero
    exact ⟨rfl, hsame⟩
  case process =>
    rintro config tree rfl hbackend hopen hsettled
    obtain ⟨tree', hruns, hleaves⟩ := Shell.perform_settled hbackend hopen hsettled
      ⟨.mint sequence count format, now⟩ rfl hperform
    refine ⟨tree', hruns, hleaves, fun environment arguments harguments hsettings =>
      ⟨_, Shell.run_performs harguments hsettings hruns, ?printed, ?silent, ?empty⟩⟩
    case printed =>
      intro hroom
      obtain ⟨rfl, -⟩ := hgranted hroom
      exact ⟨rfl, Reply.text_ids ids⟩
    case silent =>
      intro hfull
      obtain ⟨rfl, -⟩ := hdenied hfull
      exact ⟨rfl, rfl⟩
    case empty =>
      intro hzero
      obtain ⟨rfl, -⟩ := hnone hzero
      exact ⟨rfl, rfl⟩

/-- A store in which a sequence has 1500 values left. -/
def Store.scarce : Store := fresh.advanced "n" (Int64.maxValue - 1500)

/-- An environment with the settings of a database in a directory of its own. -/
def Shell.variables : Environment :=
  (Table.empty.insert "DATABASE_PATH" "data/registry.db").insert "STORE_BACKEND" "embedded"

/-- Of 1001 ids the last one takes a lease of its own, of which all but one value is lost. A process
of its own does the same, and prints them; and 2001 ids are too many where 1500 values are left, so
a run that is to print them prints nothing. -/
theorem Command.mint_exact_lavish :
    Sequence.checkName Shell.settings.limits.nameLimit "n" = .ok () ∧
      (IdFormat.labelled "img").validate = .ok () ∧
      (∃ s' tree tree' report, Store.fresh.Moved s' "n" 2000 ∧
        Database.Settled tree Shell.settings.databasePath .fresh ∧
        FileTree.on (Shell.perform FileTree.files Shell.settings 0
            (.mint "n" 1001 (.labelled "img"))) tree =
          (.ok (.ids ((interval 0 1001).map fun i => "img_" ++ Text.Numeral.ofInt64 (.ofInt i))),
            tree') ∧
        Database.Settled tree' Shell.settings.databasePath s' ∧
        (Shell.run FileTree.files Shell.variables 0
          ["mint", "n", "--count", "1001", "--prefix", "img"]).run tree = (report, tree') ∧
        report.exitCode = 0 ∧
        Json.Shows report.output
          ((interval 0 1001).map fun i => "img_" ++ Text.Numeral.ofInt64 (.ofInt i))) ∧
      ∃ s' tree tree' report, Store.scarce.Moved s' "n" 1000 ∧
        ((Command.mint "n" 2001 (.labelled "img")).perform Shell.settings.limits 0 .empty).on
          (.embedded .scarce) = (.error (.storage (.exhausted "n")), .embedded s') ∧
        Database.Settled tree Shell.settings.databasePath .scarce ∧
        (Shell.run FileTree.files Shell.variables 0
          ["mint", "n", "--count", "2001", "--prefix", "img"]).run tree = (report, tree') ∧
        report.exitCode = 1 ∧ report.output = "" ∧
        Database.Settled tree' Shell.settings.databasePath s' := by
  have hname : Sequence.checkName Shell.settings.limits.nameLimit "n" = .ok () := rfl
  have hformat : (IdFormat.labelled "img").validate = .ok () := rfl
  have hworking : FileTree.empty.IsDirectory FileTree.empty.workingDirectory := ⟨[], rfl⟩
  have hconnect : FileTree.on (Database.connect FileTree.files Shell.settings) .empty =
      (.ok (.embedded .fresh),
        (FileTree.on (Database.connect FileTree.files Shell.settings) .empty).2) :=
    Prod.ext rfl rfl
  obtain ⟨hbackend, store, hstore, hopen, hsettled⟩ := Database.connect_ok hworking hconnect
  cases hstore
  refine ⟨hname, hformat, ?granted, ?denied⟩
  case granted =>
    obtain ⟨-, -, answer, s', -, hgranted, -, -, hprocess⟩ :=
      Command.mint_exact hname hformat 0 1001 .fresh
    obtain ⟨rfl, hmoved⟩ := hgranted (by decide)
    obtain ⟨tree', hperforms, hleaves, hruns⟩ := hprocess _ _ rfl hbackend hopen hsettled
    obtain ⟨report, hrun, hprinted, -⟩ := hruns Shell.variables
      ["mint", "n", "--count", "1001", "--prefix", "img"] rfl rfl
    obtain ⟨hcode, hshows⟩ := hprinted (by decide)
    exact ⟨s', _, tree', report, hmoved, hsettled, hperforms, hleaves, hrun, hcode, hshows⟩
  case denied =>
    obtain ⟨-, -, answer, s', hon, -, hdenied, -, hprocess⟩ :=
      Command.mint_exact hname hformat 0 2001 .scarce
    obtain ⟨rfl, hmoved⟩ := hdenied (by decide)
    obtain ⟨tree, hsave, hholds⟩ := Database.save_settled hsettled .scarce
    obtain rfl : (FileTree.on (Database.save FileTree.files Shell.settings
      (.embedded .scarce)) _).2 = tree := congrArg Prod.snd hsave
    obtain ⟨tree', hperforms, hleaves, hruns⟩ := hprocess _ _ rfl hbackend
      (hopen.advanced "n" _) hholds
    obtain ⟨report, hrun, -, hsilent, -⟩ := hruns Shell.variables
      ["mint", "n", "--count", "2001", "--prefix", "img"] rfl rfl
    obtain ⟨hcode, hnothing⟩ := hsilent (by decide)
    exact ⟨s', _, tree', report, hmoved, hon, hholds, hrun, hcode, hnothing, hleaves⟩

end ObjectRegistry
