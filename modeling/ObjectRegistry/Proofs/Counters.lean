import ObjectRegistry.Proofs.Methods
import ObjectRegistry.Proofs.Writes

/-!
# Counters and leases

Values are 64-bit numbers, and what is said about them is said about the integers they denote. A
block that was reserved denotes the interval between the counter before and the counter after
(`values_reserved`); nothing wraps around, because a counter only moves to a number in range.

A block of a good name is reserved exactly if the counter stays in range
(`Sequence.allocateBlock_on`). Two lemmas say all that can become of any request:
`Sequence.allocateBlock_cases` for a block, and `Generator.next_cases` for a value of a generator.
In both, a failure leaves the store as it was.
-/

namespace ObjectRegistry

/-- The integers above `low` up to `high`, in order. -/
def interval (low high : Int) : List Int :=
  (List.range (high - low).toNat).map fun k : Nat => low + 1 + (k : Int)

theorem mem_interval {low high i : Int} : i ∈ interval low high ↔ low < i ∧ i ≤ high := by
  rw [interval, List.mem_map]
  constructor
  · rintro ⟨k, hk, rfl⟩
    rw [List.mem_range] at hk
    omega
  · rintro ⟨hlow, hhigh⟩
    refine ⟨(i - low - 1).toNat, ?_, ?_⟩
    · rw [List.mem_range]
      omega
    · omega

theorem interval_sorted (low high : Int) : (interval low high).Pairwise (· < ·) := by
  rw [interval, List.pairwise_map]
  exact List.pairwise_lt_range.imp fun hlt => by omega

/-- Two intervals that meet are one. -/
theorem interval_append {low mid high : Int} (hlow : low ≤ mid) (hhigh : mid ≤ high) :
    interval low mid ++ interval mid high = interval low high := by
  have hlength : (high - low).toNat = (mid - low).toNat + (high - mid).toNat := by omega
  rw [interval, interval, interval, hlength, List.range_add, List.map_append, List.map_map]
  congr 1
  apply List.map_congr_left
  intro k _
  show mid + 1 + (k : Int) = low + 1 + (((mid - low).toNat + k : Nat) : Int)
  omega

theorem interval_self (low : Int) : interval low low = [] := by
  rw [interval, Int.sub_self]
  rfl

theorem interval_succ (low : Int) : interval low (low + 1) = [low + 1] := by
  have hone : (low + 1 - low).toNat = 1 := by omega
  rw [interval, hone, List.range_one, List.map_singleton]
  simp

/-- An interval has a first integer, unless it is empty. -/
theorem interval_eq_cons {low high : Int} (h : low < high) :
    interval low high = (low + 1) :: interval (low + 1) high := by
  rw [← interval_append (Int.le_of_lt (Int.lt_succ low)) h, interval_succ]
  rfl

theorem length_interval (low high : Int) : (interval low high).length = (high - low).toNat := by
  rw [interval, List.length_map, List.length_range]

/-- The first integers of an interval. -/
theorem take_interval {low high : Int} {n : Nat} (h : n ≤ high - low) :
    (interval low high).take n = interval low (low + n) := by
  have hlength : (low + n - low).toNat = min n (high - low).toNat := by omega
  rw [interval, interval, ← List.map_take, List.take_range, hlength]

/-! ## Blocks of a size -/

/-- The number of blocks of a size that some values take, the last of them perhaps in part. -/
def blocksFor (size count : Nat) : Nat := (count + (size - 1)) / size

theorem le_blocksFor_mul {size : Nat} (hsize : 0 < size) (count : Nat) :
    count ≤ blocksFor size count * size := by
  have hlt := Nat.lt_div_mul_add hsize (a := count + (size - 1))
  rw [blocksFor]
  omega

theorem blocksFor_mul_lt {size : Nat} (hsize : 0 < size) (count : Nat) :
    blocksFor size count * size < count + size := by
  have hle := Nat.div_mul_le_self (count + (size - 1)) size
  rw [blocksFor]
  omega

/-- Blocks that hold the values, but would not with one less, are as many as the values take. -/
theorem blocksFor_eq {size count blocks : Nat} (hle : count ≤ blocks * size)
    (hlt : blocks * size < count + size) : blocksFor size count = blocks := by
  refine Nat.div_eq_of_lt_le ?_ ?_
  · omega
  · rw [Nat.succ_mul]
    omega

/-- The number of blocks of a size that fit into some room. -/
def blocksWithin (size : Nat) (room : Int) : Nat := (room / size).toNat

theorem blocksWithin_eq {size : Nat} {room : Int} (hroom : 0 ≤ room) :
    (blocksWithin size room : Int) = room / size :=
  Int.toNat_of_nonneg (Int.ediv_nonneg hroom (Int.natCast_nonneg size))

theorem blocksWithin_mul_le {size : Nat} (hsize : 0 < size) {room : Int} (hroom : 0 ≤ room) :
    (blocksWithin size room * size : Nat) ≤ room := by
  rw [Int.natCast_mul, blocksWithin_eq hroom]
  exact Int.ediv_mul_le _ (Int.ne_of_gt (Int.natCast_pos.2 hsize))

theorem lt_blocksWithin_succ_mul {size : Nat} (hsize : 0 < size) {room : Int} (hroom : 0 ≤ room) :
    room < ((blocksWithin size room + 1) * size : Nat) := by
  rw [Int.natCast_mul, Int.natCast_add, blocksWithin_eq hroom]
  exact Int.lt_ediv_add_one_mul_self room (Int.natCast_pos.2 hsize)

/-! ## Sums that stay in range -/

/-- A sum within the range is the sum of the integers. -/
theorem addWithin64?_eq_some_iff {x y z : Int64} :
    addWithin64? x y = some z ↔ z.toInt = x.toInt + y.toInt := by
  have hlow := z.le_toInt
  have hhigh := z.toInt_lt
  unfold addWithin64? Text.Numeral.toInt64? Text.Numeral.least64 Text.Numeral.greatest64
  constructor
  · intro h
    split at h
    next hrange =>
      rw [← Option.some.inj h, Int64.toInt_ofInt_of_le (by omega) (by omega)]
    next => cases h
  · intro h
    rw [if_pos (by omega), ← h]
    exact congrArg some (Int64.toInt_inj.1 (Int64.toInt_ofInt_of_le hlow hhigh))

/-- A sum is refused for the range alone. -/
theorem addWithin64?_eq_none_iff {x y : Int64} :
    addWithin64? x y = none ↔
      x.toInt + y.toInt < Text.Numeral.least64 ∨ Text.Numeral.greatest64 < x.toInt + y.toInt := by
  unfold addWithin64? Text.Numeral.toInt64? Text.Numeral.least64 Text.Numeral.greatest64
  split
  next hrange =>
    constructor
    · intro hnone
      cases hnone
    · intro hout
      omega
  next hrange =>
    constructor
    · intro _
      omega
    · intro _
      rfl

theorem toInt_count (count : UInt32) : (Int64.ofNat count.toNat).toInt = count.toNat :=
  Int64.toInt_ofNat_of_lt (Nat.lt_trans count.toNat_lt (by decide))

theorem toInt_count_pos {count : UInt32} (hcount : count ≠ 0) :
    0 < (Int64.ofNat count.toNat).toInt := by
  have hpos : 0 < count.toNat := Nat.pos_of_ne_zero fun h => hcount (UInt32.toNat_inj.1 h)
  rw [toInt_count]
  omega

/-- The values of a block are the interval that its ends span. -/
theorem Block.values_toInt (b : Block) :
    b.values.map Int64.toInt = interval (b.first.toInt - 1) b.last.toInt := by
  have hlow := b.first.le_toInt
  have hhigh := b.last.toInt_lt
  have hlength : b.last.toInt - b.first.toInt + 1 = b.last.toInt - (b.first.toInt - 1) := by
    omega
  rw [values, interval, List.map_map, hlength]
  apply List.map_congr_left
  intro k hk
  rw [List.mem_range] at hk
  show (b.first + Int64.ofNat k).toInt = b.first.toInt - 1 + 1 + (k : Int)
  -- nothing wraps around: the value lies between the ends of the block
  rw [Int64.toInt_add, Int64.toInt_ofNat', show Int64.size = 2 ^ 64 from rfl,
    Int.add_bmod_bmod, Int.bmod_eq_of_le (by omega) (by omega)]
  omega

/-- Going back over a block from the new counter, one step short of the old one, ends at its first
value. Neither number on the way wraps around, because the old counter is in range. -/
theorem first_reserved {current last count : Int64} (hpos : 0 < count.toInt)
    (h : addWithin64? current count = some last) :
    (last - count).toInt = current.toInt ∧ (last - count + 1).toInt = current.toInt + 1 := by
  have hsum := addWithin64?_eq_some_iff.1 h
  have hlow := current.le_toInt
  have hhigh := last.toInt_lt
  have hback : (last - count).toInt = current.toInt := by
    rw [Int64.toInt_sub, Int.bmod_eq_of_le (by omega) (by omega)]
    omega
  have hone : (1 : Int64).toInt = 1 := by decide
  refine ⟨hback, ?_⟩
  rw [Int64.toInt_add, hback, hone, Int.bmod_eq_of_le (by omega) (by omega)]

/-- **A reserved block** is the interval from the counter before to the counter after. -/
theorem values_reserved {current last count : Int64} (hpos : 0 < count.toInt)
    (h : addWithin64? current count = some last) :
    (Block.values { first := last - count + 1, last }).map Int64.toInt =
      interval current.toInt last.toInt := by
  rw [Block.values_toInt, (first_reserved hpos h).2]
  congr 1
  omega

/-! ## What becomes of a request -/

namespace Store

/-- The last value that a sequence issued, 0 if it issued none. -/
def counterOf (s : Store) (name : String) : Int :=
  ((s.counters.get? name).getD 0).toInt

/-- The store with a counter moved. -/
def advanced (s : Store) (name : String) (last : Int64) : Store :=
  { s with sequences := some (s.counters.insert name last) }

theorem counterOf_advanced (s : Store) (name other : String) (last : Int64) :
    (s.advanced name last).counterOf other =
      if other = name then last.toInt else s.counterOf other := by
  unfold counterOf
  rw [show (s.advanced name last).counters = s.counters.insert name last from rfl,
    Table.get?_insert]
  split <;> rfl

end Store

/-- A request that looked at its arguments alone or found its sequence exhausted. -/
def Error.IsDenial (e : Error) : Prop :=
  e.IsRefusal ∨ ∃ name, e = .storage (.exhausted name)

theorem Error.IsDenial.ne_duplicateId {e : Error} (h : e.IsDenial) (id : String) :
    e ≠ .duplicateId id := by
  intro hduplicate
  subst hduplicate
  rcases h with hrefusal | ⟨_, hexhausted⟩
  · exact hrefusal
  · cases hexhausted

theorem Sequence.checkName_error {limit : Nat} {name : String} {e : Error}
    (h : checkName limit name = .error e) : e.IsRefusal := by
  unfold checkName at h
  split at h
  next => cases h; trivial
  next => cases h

theorem Sequence.checkName_eq_ok_iff {limit : Nat} {name : String} :
    checkName limit name = .ok () ↔ ¬ (name.isEmpty ∨ limit < name.utf8ByteSize) := by
  unfold checkName nameFault?
  by_cases hempty : name.isEmpty <;> by_cases hlong : limit < name.utf8ByteSize <;>
    simp [hempty, hlong]

/-- A block of a good name is one transaction on the counter. -/
theorem Sequence.allocateBlock_eq {limit : Nat} {name : String} {count : UInt32}
    (hname : checkName limit name = .ok ()) (hcount : count ≠ 0) (s : Store) :
    (allocateBlock limit name count).on (.embedded s) =
      match addWithin64? ((s.counters.get? name).getD 0) (Int64.ofNat count.toNat) with
      | none => (.error (.storage (.exhausted name)), .embedded s)
      | some last =>
        (.ok { first := last - Int64.ofNat count.toNat + 1, last },
          .embedded (s.advanced name last)) := by
  have hwrite := s.write_reserve name (Int64.ofNat count.toNat)
  unfold allocateBlock
  rw [hname, Access.on_bind_ok (Access.on_check _ _), checkCount, if_neg hcount]
  show ((s.write (Store.reserve name (Int64.ofNat count.toNat))).1,
    Backing.embedded (s.write (Store.reserve name (Int64.ofNat count.toNat))).2) = _
  rw [hwrite]
  cases addWithin64? ((s.counters.get? name).getD 0) (Int64.ofNat count.toNat) with
  | none => rfl
  | some last => rfl

/-- **A block of a good name** is reserved exactly if the counter behind it is in range, and its
values are those passed over. Otherwise the sequence is exhausted and the store as it was. -/
theorem Sequence.allocateBlock_on {limit : Nat} {name : String} {count : UInt32}
    (hname : checkName limit name = .ok ()) (hcount : count ≠ 0) (s : Store) :
    (Int64.maxValue.toInt < s.counterOf name + count.toNat ∧
      (allocateBlock limit name count).on (.embedded s) =
        (.error (.storage (.exhausted name)), .embedded s)) ∨
    ∃ block last, last.toInt = s.counterOf name + count.toNat ∧ block.last = last ∧
      block.values.map Int64.toInt = interval (s.counterOf name) last.toInt ∧
      (allocateBlock limit name count).on (.embedded s) =
        (.ok block, .embedded (s.advanced name last)) := by
  have hint := toInt_count count
  rw [allocateBlock_eq hname hcount]
  cases hlast : addWithin64? ((s.counters.get? name).getD 0) (Int64.ofNat count.toNat) with
  | none =>
    refine Or.inl ⟨?_, rfl⟩
    -- a sum of these two leaves the range at its upper end
    have hlow := ((s.counters.get? name).getD 0).le_toInt
    have hout := addWithin64?_eq_none_iff.1 hlast
    rw [hint, Text.Numeral.least64, Text.Numeral.greatest64] at hout
    rw [Store.counterOf, Int64.toInt_maxValue]
    omega
  | some last =>
    have hsum := addWithin64?_eq_some_iff.1 hlast
    rw [hint] at hsum
    exact Or.inr ⟨_, last, hsum, rfl, values_reserved (toInt_count_pos hcount) hlast, rfl⟩

/-- **The next value** of a sequence with a good name is the one behind its counter, unless that is
the greatest. -/
theorem Sequence.allocateNext_on {limit : Nat} {name : String}
    (hname : checkName limit name = .ok ()) (s : Store) :
    (s.counterOf name = Int64.maxValue.toInt ∧
      (allocateNext limit name).on (.embedded s) =
        (.error (.storage (.exhausted name)), .embedded s)) ∨
    ∃ value : Int64, value.toInt = s.counterOf name + 1 ∧
      (allocateNext limit name).on (.embedded s) =
        (.ok value, .embedded (s.advanced name value)) := by
  rcases allocateBlock_on hname (by decide : (1 : UInt32) ≠ 0) s with
    ⟨hfull, hfails⟩ | ⟨block, _, hsum, rfl, -, hblock⟩
  · refine Or.inl ⟨?_, Access.on_bind_error hfails _⟩
    -- only the greatest counter has no successor in range
    have hhigh := ((s.counters.get? name).getD 0).toInt_lt
    rw [Store.counterOf, Int64.toInt_maxValue, show (1 : UInt32).toNat = 1 from rfl] at hfull
    rw [Store.counterOf, Int64.toInt_maxValue]
    omega
  · exact Or.inr ⟨block.last, hsum, Access.on_bind_ok hblock _⟩

/-- **A block is reserved or denied.** A denied one leaves the store alone. A reserved one moves
its counter by its length, and its values are those passed over. -/
theorem Sequence.allocateBlock_cases (limit : Nat) (name : String) (count : UInt32) (s : Store) :
    (∃ e : Error, (allocateBlock limit name count).on (.embedded s) = (.error e, .embedded s) ∧
      e.IsDenial) ∨
    ∃ block last, (allocateBlock limit name count).on (.embedded s) =
        (.ok block, .embedded (s.advanced name last)) ∧
      block.last = last ∧ s.counterOf name < last.toInt ∧
      last.toInt = s.counterOf name + count.toNat ∧
      block.values.map Int64.toInt = interval (s.counterOf name) last.toInt := by
  cases hname : checkName limit name with
  | error e =>
    left
    unfold allocateBlock
    rw [hname]
    exact ⟨e, Access.on_bind_error (Access.on_check _ _) _, Or.inl (checkName_error hname)⟩
  | ok _ =>
    by_cases hzero : count = 0
    · left
      unfold allocateBlock
      rw [hname, Access.on_bind_ok (Access.on_check _ _), checkCount, if_pos hzero]
      exact ⟨_, Access.on_bind_error (Access.on_check _ _) _, Or.inl trivial⟩
    · rcases allocateBlock_on hname hzero s with
        ⟨-, hfails⟩ | ⟨block, last, hsum, hlast, hvalues, hblock⟩
      · exact Or.inl ⟨_, hfails, Or.inr ⟨name, rfl⟩⟩
      · have hpos : 0 < count.toNat := Nat.pos_of_ne_zero fun h => hzero (UInt32.toNat_inj.1 h)
        exact Or.inr ⟨block, last, hblock, hlast, by omega, hsum, hvalues⟩

/-- **A single value is handed out or denied.** It is the one behind the counter. -/
theorem Sequence.allocateNext_cases (limit : Nat) (name : String) (s : Store) :
    (∃ e : Error, (allocateNext limit name).on (.embedded s) = (.error e, .embedded s) ∧
      e.IsDenial) ∨
    ∃ value, (allocateNext limit name).on (.embedded s) =
        (.ok value, .embedded (s.advanced name value)) ∧
      value.toInt = s.counterOf name + 1 := by
  rcases allocateBlock_cases limit name 1 s with
    ⟨e, hfails, hdenied⟩ | ⟨block, _, hblock, rfl, -, hnext, -⟩
  · exact Or.inl ⟨e, Access.on_bind_error hfails _, hdenied⟩
  · exact Or.inr ⟨block.last, Access.on_bind_ok hblock _, hnext⟩

namespace Generator

variable {g : Generator} {s : Store}

/-- **A generator is built** if its name passes the check of its sequence and its size and format
are good, and it is built without a lease. -/
theorem make_eq_ok_iff {limit : Nat} {sequence : String} {format : IdFormat}
    {blockSize : UInt32} :
    make limit sequence format blockSize = .ok g ↔
      Sequence.checkName limit sequence = .ok () ∧
      ¬ (blockSize = 0 ∨ greatestBlockSize < blockSize) ∧ format.validate = .ok () ∧
      g = ⟨sequence, format, blockSize, limit, []⟩ := by
  rw [Sequence.checkName_eq_ok_iff]
  unfold make
  simp only [Draft.throw_eq_error, Draft.error_bind]
  by_cases hname : sequence.isEmpty ∨ limit < sequence.utf8ByteSize
  · rw [if_pos hname]
    exact ⟨nofun, fun h => absurd hname h.1⟩
  · rw [if_neg hname]
    by_cases hsize : blockSize = 0 ∨ greatestBlockSize < blockSize
    · rw [if_pos hsize]
      exact ⟨nofun, fun h => absurd hsize h.2.1⟩
    · rw [if_neg hsize]
      cases hformat : format.validate with
      | error e => exact ⟨nofun, fun h => nomatch h.2.2.1⟩
      | ok _ =>
        constructor
        · intro h
          exact ⟨hname, hsize, rfl, (Except.ok.inj h).symm⟩
        · rintro ⟨-, -, -, rfl⟩
          rfl

/-- A generator without a lease is denied a value if it is denied a block. -/
theorem next_denied (hempty : g.lease = []) {e : Error}
    (hblock : (Sequence.allocateBlock g.nameLimit g.sequence g.blockSize).on (.embedded s) =
      (.error e, .embedded s)) : g.next.on (.embedded s) = (.error e, .embedded s) := by
  rw [next_eq, hempty]
  exact Access.on_bind_error hblock _

/-- A generator without a lease hands out the first value of the block that it is granted, and the
others become its lease. It is never left without a value by a block that was reserved. -/
theorem next_granted (hempty : g.lease = []) {block : Block} {s' : Store} {low high : Int}
    (hblock : (Sequence.allocateBlock g.nameLimit g.sequence g.blockSize).on (.embedded s) =
      (.ok block, .embedded s'))
    (hlt : low < high) (hvalues : block.values.map Int64.toInt = interval low high) :
    ∃ value rest, (value :: rest).map Int64.toInt = interval low high ∧
      g.next.on (.embedded s) = (.ok (value, { g with lease := rest }), .embedded s') := by
  cases hall : block.values with
  | nil =>
    -- an interval that is not empty has a first integer
    rw [hall, interval_eq_cons hlt] at hvalues
    cases hvalues
  | cons value rest =>
    refine ⟨value, rest, hall ▸ hvalues, ?_⟩
    rw [next_eq, hempty]
    show (Sequence.allocateBlock g.nameLimit g.sequence g.blockSize >>= _).on _ = _
    rw [Access.on_bind_ok hblock, hall]
    rfl

/-- **A value is handed out or denied.** It comes off the lease if there is one. Otherwise a block
is reserved, its first value is handed out and the others become the lease. -/
theorem next_cases (g : Generator) (s : Store) :
    (∃ e : Error, g.lease = [] ∧ g.next.on (.embedded s) = (.error e, .embedded s) ∧
      e.IsDenial) ∨
    (∃ value rest, g.lease = value :: rest ∧
      g.next.on (.embedded s) = (.ok (value, { g with lease := rest }), .embedded s)) ∨
    ∃ value rest last, g.lease = [] ∧
      g.next.on (.embedded s) =
        (.ok (value, { g with lease := rest }), .embedded (s.advanced g.sequence last)) ∧
      s.counterOf g.sequence < last.toInt ∧
      (value :: rest).map Int64.toInt = interval (s.counterOf g.sequence) last.toInt := by
  cases hlease : g.lease with
  | cons value rest =>
    refine Or.inr (Or.inl ⟨value, rest, rfl, ?_⟩)
    rw [next_eq, hlease]
    rfl
  | nil =>
    rcases Sequence.allocateBlock_cases g.nameLimit g.sequence g.blockSize s with
      ⟨e, hfails, hdenied⟩ | ⟨block, last, hblock, -, hlt, -, hvalues⟩
    · exact Or.inl ⟨e, rfl, next_denied hlease hfails, hdenied⟩
    · obtain ⟨value, rest, hvalues, hnext⟩ := next_granted hlease hblock hlt hvalues
      exact Or.inr (Or.inr ⟨value, rest, last, rfl, hnext, hlt, hvalues⟩)

end Generator

end ObjectRegistry
