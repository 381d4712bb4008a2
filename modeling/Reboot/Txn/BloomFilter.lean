import Reboot.Lib.BigEndian

/-!
# The filter of idempotent mutations

`BloomFilter` and `ScalableBloomFilter` (`reboot/aio/state_managers.py`): whether a mutation may be
in the database is asked of a row of filters, each with a bit for each key in each of its slices. A
key that is not in one of them is added to the newest, and when that is at its capacity, to a new
one that is ten times as large.

`additions_kept`: a key that was added is reported from then on, however many keys and filters come
after it. No bit is looked for outside of a filter, no filter takes more keys than its capacity, and
an addition can only fail where the sizes of a new filter cannot be computed.

Mirroring notes:
- What `hashlib` computes is a parameter (`Hashlib`), and so are floats (`Floats`): the error rates
  and the two numbers that `__init__` computes from a capacity and an error rate. With an error rate
  that has become too small for a float this raises.
- `pack('I', i)` and `unpack` are in little-endian order, as on the machines it runs on.
- `make_hashfuncs` is a generator there. Nobody stops it before it has yielded `num_slices` numbers,
  for which it needs every salt, but `__contains__` when it has found a bit that is not set.
-/

namespace Reboot.Txn.Filter

open Reboot.Lib

/-! ## Hashes -/

/-- The constructors of `hashlib` that are used. -/
inductive HashName
  | md5
  | sha1
  | sha256
  | sha384
  | sha512
  deriving DecidableEq

/-- `digest_size` -/
def HashName.digestSize : HashName → Nat
  | .md5 => 16
  | .sha1 => 20
  | .sha256 => 32
  | .sha384 => 48
  | .sha512 => 64

structure Hashlib where
  digest : HashName → List Byte → List Byte
  length_digest : ∀ name data, (digest name data).length = name.digestSize

inductive Failure
  /-- a bit outside of the bit array -/
  | indexError
  /-- the filter is at capacity -/
  | atCapacity
  /-- `unpack` of bytes of another length -/
  | structError
  /-- `capacity` must be > 0 -/
  | valueError
  /-- the sizes of a filter cannot be computed -/
  | sizes
  deriving DecidableEq

/-- The bytes of the numbers that are unpacked. -/
def chunkSize (numBits : Nat) : Nat :=
  if numBits ≥ 2 ^ 31 then 8 else if numBits ≥ 2 ^ 15 then 4 else 2

def hashName (numSlices numBits : Nat) : HashName :=
  let totalHashBits := 8 * numSlices * chunkSize numBits
  if totalHashBits > 384 then .sha512
  else if totalHashBits > 256 then .sha384
  else if totalHashBits > 160 then .sha256
  else if totalHashBits > 128 then .sha1
  else .md5

/-- `len(fmt)` -/
def lengthFmt (numSlices numBits : Nat) : Nat :=
  (hashName numSlices numBits).digestSize / chunkSize numBits

def numSalts (numSlices numBits : Nat) : Nat :=
  numSlices / lengthFmt numSlices numBits +
    if numSlices % lengthFmt numSlices numBits ≠ 0 then 1 else 0

/-- `pack('I', i)` -/
def pack (i : Nat) : List Byte := (toBytesBig 4 i).reverse

def unpack (chunk count : Nat) (bytes : List Byte) : Except Failure (List Nat) :=
  if bytes.length = count * chunk then
    .ok ((List.range count).map fun i => ofBytesBig ((bytes.drop (i * chunk)).take chunk).reverse)
  else .error .structError

/-- The digest of a key behind a salt. -/
def saltedDigest (hashlib : Hashlib) (name : HashName) (key : List Byte) (i : Nat) : List Byte :=
  hashlib.digest name (hashlib.digest name (pack i) ++ key)

/-- The numbers that are unpacked from the digests of a key behind the salts. -/
def unpackDigests (hashlib : Hashlib) (numSlices numBits : Nat) (key : List Byte) :
    List Nat → Except Failure (List Nat)
  | [] => .ok []
  | i :: salts =>
    match unpack (chunkSize numBits) (lengthFmt numSlices numBits)
        (saltedDigest hashlib (hashName numSlices numBits) key i) with
    | .error e => .error e
    | .ok uints =>
      match unpackDigests hashlib numSlices numBits key salts with
      | .error e => .error e
      | .ok rest => .ok (uints ++ rest)

/-- What `make_hashfuncs` yields for a key. -/
def makeHashes (hashlib : Hashlib) (numSlices numBits : Nat) (key : List Byte) :
    Except Failure (List Nat) :=
  match unpackDigests hashlib numSlices numBits key
      (List.range (numSalts numSlices numBits)) with
  | .error e => .error e
  | .ok uints => .ok ((uints.take numSlices).map (· % numBits))

/-! ## One filter -/

/-- `num_slices` and `bits_per_slice` -/
structure Sizes where
  numSlices : Nat
  bitsPerSlice : Nat
  pos : 0 < bitsPerSlice

/-- What is computed with floats. -/
structure Floats (F : Type) where
  /-- `ERROR_RATE` -/
  errorRate : F
  /-- times `TIGHTENING_RATIO` -/
  tightened : F → F
  /-- what `__init__` computes from a capacity and an error rate, or raises -/
  sizes : Nat → F → Option Sizes

structure BloomFilter (F : Type) where
  capacity : Nat
  errorRate : F
  sizes : Sizes
  count : Nat
  bits : BitVec (sizes.numSlices * sizes.bitsPerSlice)

/-- The loop of `__contains__`. -/
def testBits {n : Nat} (step : Nat) (bits : BitVec n) : Nat → List Nat → Except Failure Bool
  | _, [] => .ok true
  | offset, k :: hashes =>
    if offset + k < n then
      if bits.getLsbD (offset + k) then testBits step bits (offset + step) hashes else .ok false
    else .error .indexError

/-- `bitarray[i] = True` -/
def setBit {n : Nat} (bits : BitVec n) (i : Nat) : BitVec n := bits ||| BitVec.twoPow n i

/-- The loop of `add`; `full` says that the filter is at capacity. -/
def setBits {n : Nat} (skipCheck full : Bool) (step : Nat) :
    Nat → List Nat → BitVec n → Bool → Except Failure (BitVec n × Bool)
  | _, [], bits, foundAllBits => .ok (bits, foundAllBits)
  | offset, k :: hashes, bits, foundAllBits =>
    if offset + k < n then
      if !skipCheck && foundAllBits && !bits.getLsbD (offset + k) then
        if full then .error .atCapacity
        else setBits skipCheck full step (offset + step) hashes (setBit bits (offset + k)) false
      else setBits skipCheck full step (offset + step) hashes (setBit bits (offset + k)) foundAllBits
    else .error .indexError

variable {F : Type} (floats : Floats F) (hashlib : Hashlib)

def BloomFilter.init (capacity : Nat) (errorRate : F) : Except Failure (BloomFilter F) :=
  if capacity = 0 then .error .valueError
  else match floats.sizes capacity errorRate with
    | none => .error .sizes
    | some sizes => .ok ⟨capacity, errorRate, sizes, 0, 0⟩

namespace BloomFilter

def contains (filter : BloomFilter F) (key : List Byte) : Except Failure Bool :=
  match makeHashes hashlib filter.sizes.numSlices filter.sizes.bitsPerSlice key with
  | .error e => .error e
  | .ok hashes => testBits filter.sizes.bitsPerSlice filter.bits 0 hashes

def add (filter : BloomFilter F) (key : List Byte) (skipCheck : Bool) :
    Except Failure (BloomFilter F × Bool) :=
  if skipCheck ∧ filter.count = filter.capacity then .error .atCapacity
  else match makeHashes hashlib filter.sizes.numSlices filter.sizes.bitsPerSlice key with
    | .error e => .error e
    | .ok hashes =>
      match setBits skipCheck (filter.count = filter.capacity) filter.sizes.bitsPerSlice 0 hashes
          filter.bits true with
      | .error e => .error e
      | .ok (bits, foundAllBits) =>
        if skipCheck || !foundAllBits then
          .ok ({ filter with bits := bits, count := filter.count + 1 }, false)
        else .ok ({ filter with bits := bits }, true)

end BloomFilter

/-! ## The row of filters -/

def maxCapacity : Nat := 1000000

def initialCapacity : Nat := 100

/-- The filters in the order in which they were appended; there is always one. -/
structure ScalableBloomFilter (F : Type) where
  earlier : List (BloomFilter F)
  newest : BloomFilter F

/-- The loop of `__contains__`. -/
def anyContains (key : List Byte) : List (BloomFilter F) → Except Failure Bool
  | [] => .ok false
  | filter :: filters =>
    match filter.contains hashlib key with
    | .error e => .error e
    | .ok true => .ok true
    | .ok false => anyContains key filters

namespace ScalableBloomFilter

def init : Except Failure (ScalableBloomFilter F) :=
  match BloomFilter.init floats initialCapacity floats.errorRate with
  | .error e => .error e
  | .ok filter => .ok ⟨[], filter⟩

def contains (row : ScalableBloomFilter F) (key : List Byte) : Except Failure Bool :=
  anyContains hashlib key (row.newest :: row.earlier.reverse)

/-- A filter behind a full one. -/
def next (filter : BloomFilter F) : Except Failure (BloomFilter F) :=
  BloomFilter.init floats
    (if filter.capacity = maxCapacity then filter.capacity else filter.capacity * 10)
    (floats.tightened filter.errorRate)

/-- The row whose newest filter takes the next key. -/
def grown (row : ScalableBloomFilter F) : Except Failure (ScalableBloomFilter F) :=
  if row.newest.count = row.newest.capacity then
    match next floats row.newest with
    | .error e => .error e
    | .ok filter => .ok ⟨row.earlier ++ [row.newest], filter⟩
  else .ok row

def add (row : ScalableBloomFilter F) (key : List Byte) :
    Except Failure (ScalableBloomFilter F × Bool) :=
  match row.contains hashlib key with
  | .error e => .error e
  | .ok true => .ok (row, true)
  | .ok false =>
    match grown floats row with
    | .error e => .error e
    | .ok row =>
      match row.newest.add hashlib key true with
      | .error e => .error e
      | .ok (filter, _) => .ok ({ row with newest := filter }, false)

/-- One addition after the other. -/
def addAll : ScalableBloomFilter F → List (List Byte) → Except Failure (ScalableBloomFilter F)
  | row, [] => .ok row
  | row, key :: keys =>
    match row.add floats hashlib key with
    | .error e => .error e
    | .ok (row, _) => row.addAll keys

end ScalableBloomFilter

/-! ## What a key hashes to -/

theorem chunkSize_cases (numBits : Nat) :
    chunkSize numBits = 8 ∨ chunkSize numBits = 4 ∨ chunkSize numBits = 2 := by
  unfold chunkSize
  split
  · exact .inl rfl
  · split
    · exact .inr (.inl rfl)
    · exact .inr (.inr rfl)

/-- SHA-1 has 20 bytes, which are no numbers of eight, but it is never chosen for these. -/
theorem lengthFmt_mul (numSlices numBits : Nat) :
    lengthFmt numSlices numBits * chunkSize numBits = (hashName numSlices numBits).digestSize := by
  unfold lengthFmt hashName
  rcases chunkSize_cases numBits with hchunk | hchunk | hchunk <;> rw [hchunk] <;> dsimp only
  · split
    · rfl
    · split
      · rfl
      · split
        · rfl
        · split
          · omega
          · rfl
  · repeat' split
    all_goals rfl
  · repeat' split
    all_goals rfl

theorem lengthFmt_pos (numSlices numBits : Nat) : 0 < lengthFmt numSlices numBits := by
  rw [Nat.pos_iff_ne_zero]
  intro hzero
  have hmul := lengthFmt_mul numSlices numBits
  rw [hzero, Nat.zero_mul] at hmul
  cases hname : hashName numSlices numBits <;> rw [hname] at hmul <;> cases hmul

/-- There are as many salts as it takes. -/
theorem le_numSalts_mul (numSlices numBits : Nat) :
    numSlices ≤ numSalts numSlices numBits * lengthFmt numSlices numBits := by
  have hpos := lengthFmt_pos numSlices numBits
  have hdiv := Nat.div_add_mod numSlices (lengthFmt numSlices numBits)
  have hmod := Nat.mod_lt numSlices hpos
  unfold numSalts
  rw [Nat.add_mul, Nat.mul_comm]
  split
  · omega
  · omega

theorem unpackDigests_ok (numSlices numBits : Nat) (key : List Byte) : ∀ salts : List Nat,
    ∃ uints, unpackDigests hashlib numSlices numBits key salts = .ok uints ∧
      uints.length = salts.length * lengthFmt numSlices numBits
  | [] => ⟨[], rfl, by simp⟩
  | i :: salts => by
    obtain ⟨rest, hrest, hlength⟩ := unpackDigests_ok numSlices numBits key salts
    have hdigest : (saltedDigest hashlib (hashName numSlices numBits) key i).length =
        lengthFmt numSlices numBits * chunkSize numBits := by
      rw [lengthFmt_mul]
      exact hashlib.length_digest _ _
    simp only [unpackDigests, unpack, if_pos hdigest, hrest]
    refine ⟨_, rfl, ?_⟩
    rw [List.length_append, List.length_map, List.length_range, hlength, List.length_cons,
      Nat.add_mul, Nat.one_mul, Nat.add_comm]

/-- A key hashes to one bit for each slice. -/
theorem makeHashes_ok (sizes : Sizes) (key : List Byte) :
    ∃ hashes, makeHashes hashlib sizes.numSlices sizes.bitsPerSlice key = .ok hashes ∧
      hashes.length = sizes.numSlices ∧ ∀ k ∈ hashes, k < sizes.bitsPerSlice := by
  obtain ⟨uints, huints, hlength⟩ := unpackDigests_ok hashlib sizes.numSlices sizes.bitsPerSlice key
    (List.range (numSalts sizes.numSlices sizes.bitsPerSlice))
  refine ⟨_, by rw [makeHashes, huints], ?_, fun k hk => ?_⟩
  · have hle := le_numSalts_mul sizes.numSlices sizes.bitsPerSlice
    rw [List.length_map, List.length_take, hlength, List.length_range]
    exact Nat.min_eq_left hle
  · obtain ⟨uint, -, rfl⟩ := List.mem_map.mp hk
    exact Nat.mod_lt _ sizes.pos

/-! ## Bits -/

/-- Every bit that is asked for is in the array. -/
def Fits (n step : Nat) : Nat → List Nat → Prop
  | _, [] => True
  | offset, k :: hashes => offset + k < n ∧ Fits n step (offset + step) hashes

/-- The bit for a key is set in every slice. -/
def Marked {n : Nat} (step : Nat) (bits : BitVec n) : Nat → List Nat → Prop
  | _, [] => True
  | offset, k :: hashes => bits.getLsbD (offset + k) = true ∧ Marked step bits (offset + step) hashes

/-- No bit is taken back. -/
def Keeps {n : Nat} (bits bits' : BitVec n) : Prop :=
  ∀ i : Nat, bits.getLsbD i = true → bits'.getLsbD i = true

theorem fits_of_lt {n step : Nat} : ∀ {hashes : List Nat} {offset : Nat},
    offset + hashes.length * step ≤ n → (∀ k ∈ hashes, k < step) → Fits n step offset hashes
  | [], _, _, _ => trivial
  | k :: hashes, offset, hn, hlt => by
    have hk := hlt k List.mem_cons_self
    rw [List.length_cons, Nat.add_mul, Nat.one_mul] at hn
    exact ⟨by omega, fits_of_lt (by omega) fun k hk => hlt k (List.mem_cons_of_mem _ hk)⟩

theorem Marked.keeps {n step : Nat} {bits bits' : BitVec n} (hk : Keeps bits bits') :
    ∀ {hashes : List Nat} {offset : Nat}, Marked step bits offset hashes →
      Marked step bits' offset hashes
  | [], _, _ => trivial
  | _ :: _, _, h => ⟨hk _ h.1, h.2.keeps hk⟩

/-- The loop of `__contains__` asks for the bits of the array only. -/
theorem testBits_ok {n step : Nat} (bits : BitVec n) : ∀ {hashes : List Nat} {offset : Nat},
    Fits n step offset hashes → ∃ b, testBits step bits offset hashes = .ok b ∧
      (b = true ↔ Marked step bits offset hashes)
  | [], _, _ => ⟨true, rfl, iff_of_true rfl trivial⟩
  | k :: hashes, offset, h => by
    obtain ⟨b, hb, hiff⟩ := testBits_ok bits h.2
    unfold testBits Marked
    rw [if_pos h.1]
    cases hbit : bits.getLsbD (offset + k) with
    | false => exact ⟨false, rfl, iff_of_false Bool.false_ne_true fun h => by cases h.1⟩
    | true => exact ⟨b, hb, hiff.trans (and_iff_right rfl).symm⟩

theorem keeps_setBit {n : Nat} (bits : BitVec n) (i : Nat) : Keeps bits (setBit bits i) := by
  intro j hj
  rw [setBit, BitVec.getLsbD_or, hj, Bool.true_or]

theorem getLsbD_setBit {n i : Nat} (bits : BitVec n) (hi : i < n) :
    (setBit bits i).getLsbD i = true := by
  rw [setBit, BitVec.getLsbD_or, BitVec.getLsbD_twoPow]
  simp [hi]

/-- The loop of `add` marks the key and takes no bit back. -/
theorem setBits_ok {n step : Nat} {skipCheck full : Bool} (hroom : skipCheck = true ∨ full = false) :
    ∀ {hashes : List Nat} {offset : Nat} (bits : BitVec n) (foundAllBits : Bool),
      Fits n step offset hashes → ∃ bits' found, setBits skipCheck full step offset hashes bits
        foundAllBits = .ok (bits', found) ∧ Keeps bits bits' ∧ Marked step bits' offset hashes
  | [], _, bits, foundAllBits, _ => ⟨bits, foundAllBits, rfl, fun _ h => h, trivial⟩
  | k :: hashes, offset, bits, foundAllBits, h => by
    have hrest : ∀ found, ∃ bits' found', setBits skipCheck full step (offset + step) hashes
        (setBit bits (offset + k)) found = .ok (bits', found') ∧ Keeps bits bits' ∧
          Marked step bits' offset (k :: hashes) := by
      intro found
      obtain ⟨bits', found', hset, hkeeps, hmarked⟩ :=
        setBits_ok hroom (setBit bits (offset + k)) found h.2
      exact ⟨bits', found', hset, fun i hi => hkeeps i (keeps_setBit bits _ i hi),
        hkeeps _ (getLsbD_setBit bits h.1), hmarked⟩
    unfold setBits
    rw [if_pos h.1]
    split
    next hnew =>
      have hfull : full = false := hroom.resolve_left fun hskip => by simp [hskip] at hnew
      rw [if_neg (by simp [hfull])]
      exact hrest false
    next => exact hrest foundAllBits

/-! ## Keys of a filter -/

namespace BloomFilter

/-- The filter reports the key. -/
def Has (hashlib : Hashlib) (filter : BloomFilter F) (key : List Byte) : Prop :=
  filter.contains hashlib key = .ok true

theorem contains_ok (filter : BloomFilter F) (key : List Byte) :
    ∃ b, filter.contains hashlib key = .ok b := by
  obtain ⟨hashes, hhashes, hlength, hlt⟩ := makeHashes_ok hashlib filter.sizes key
  have hfits : Fits (filter.sizes.numSlices * filter.sizes.bitsPerSlice) filter.sizes.bitsPerSlice 0
      hashes := fits_of_lt (by rw [hlength, Nat.zero_add]) hlt
  obtain ⟨b, hb, -⟩ := testBits_ok filter.bits hfits
  exact ⟨b, by rw [contains, hhashes]; exact hb⟩

/-- A filter with room takes a key, and keeps those that it has. -/
theorem add_ok {filter : BloomFilter F} (hroom : filter.count ≠ filter.capacity) (key : List Byte) :
    ∃ filter', filter.add hashlib key true = .ok (filter', false) ∧ filter'.Has hashlib key ∧
      (∀ key', filter.Has hashlib key' → filter'.Has hashlib key') ∧
        filter'.count = filter.count + 1 ∧ filter'.capacity = filter.capacity := by
  have hfits : ∀ {hashes : List Nat}, hashes.length = filter.sizes.numSlices →
      (∀ k ∈ hashes, k < filter.sizes.bitsPerSlice) →
        Fits (filter.sizes.numSlices * filter.sizes.bitsPerSlice) filter.sizes.bitsPerSlice 0 hashes :=
    fun hlength hlt => fits_of_lt (by rw [hlength, Nat.zero_add]) hlt
  -- a key is reported where its bits are marked
  have hhas : ∀ (bits : BitVec (filter.sizes.numSlices * filter.sizes.bitsPerSlice)) count key',
      Has hashlib { filter with bits := bits, count := count } key' ↔ ∃ hashes,
        makeHashes hashlib filter.sizes.numSlices filter.sizes.bitsPerSlice key' = .ok hashes ∧
          Marked filter.sizes.bitsPerSlice bits 0 hashes := by
    intro bits count key'
    obtain ⟨hashes, hhashes, hlength, hlt⟩ := makeHashes_ok hashlib filter.sizes key'
    obtain ⟨b, hb, hiff⟩ := testBits_ok bits (hfits hlength hlt)
    simp only [Has, contains, hhashes, hb, Except.ok.injEq, exists_eq_left', hiff]
  obtain ⟨hashes, hhashes, hlength, hlt⟩ := makeHashes_ok hashlib filter.sizes key
  have hskip : true = true ∨ decide (filter.count = filter.capacity) = false := .inl rfl
  obtain ⟨bits, found, hset, hkeeps, hmarked⟩ :=
    setBits_ok hskip filter.bits true (hfits hlength hlt)
  refine ⟨{ filter with bits := bits, count := filter.count + 1 }, ?_,
    (hhas _ _ _).mpr ⟨hashes, hhashes, hmarked⟩, fun key' h => ?_, rfl, rfl⟩
  · rw [add, if_neg (by simp [hroom]), hhashes]
    dsimp only
    rw [hset]
    rfl
  · obtain ⟨hashes', hhashes', hmarked'⟩ := (hhas filter.bits filter.count key').mp h
    exact (hhas _ _ _).mpr ⟨hashes', hhashes', hmarked'.keeps hkeeps⟩

end BloomFilter

/-! ## Keys of the row -/

theorem anyContains_ok (key : List Byte) : ∀ filters : List (BloomFilter F),
    ∃ b, anyContains hashlib key filters = .ok b ∧
      (b = true ↔ ∃ filter ∈ filters, filter.Has hashlib key)
  | [] => ⟨false, rfl, by simp⟩
  | filter :: filters => by
    obtain ⟨b, hb, hiff⟩ := anyContains_ok key filters
    obtain ⟨b', hb'⟩ := filter.contains_ok hashlib key
    unfold anyContains
    rw [hb']
    cases b' with
    | true => exact ⟨true, rfl, iff_of_true rfl ⟨filter, List.mem_cons_self, hb'⟩⟩
    | false =>
      refine ⟨b, hb, hiff.trans ?_⟩
      have hnot : ¬ filter.Has hashlib key := fun h => by cases hb'.symm.trans h
      simp [hnot]

namespace ScalableBloomFilter

/-- The row reports the key. -/
def Has (hashlib : Hashlib) (row : ScalableBloomFilter F) (key : List Byte) : Prop :=
  row.contains hashlib key = .ok true

/-- Only the newest filter has room. -/
structure Filled (row : ScalableBloomFilter F) : Prop where
  earlier : ∀ filter ∈ row.earlier, filter.count = filter.capacity
  newest : row.newest.count ≤ row.newest.capacity
  pos : 0 < row.newest.capacity

/-- The keys that were counted. -/
def count (row : ScalableBloomFilter F) : Nat :=
  (row.earlier.map (·.count)).sum + row.newest.count

variable {hashlib} in
theorem has_iff {row : ScalableBloomFilter F} {key : List Byte} :
    row.Has hashlib key ↔ row.newest.Has hashlib key ∨
      ∃ filter ∈ row.earlier, filter.Has hashlib key := by
  obtain ⟨b, hb, hiff⟩ := anyContains_ok hashlib key (row.newest :: row.earlier.reverse)
  rw [Has, contains, hb, Except.ok.injEq, hiff]
  simp

theorem contains_ok (row : ScalableBloomFilter F) (key : List Byte) :
    ∃ b, row.contains hashlib key = .ok b := by
  obtain ⟨b, hb, -⟩ := anyContains_ok hashlib key (row.newest :: row.earlier.reverse)
  exact ⟨b, hb⟩

theorem bloomInit_cases (capacity : Nat) (errorRate : F) (hpos : 0 < capacity) :
    BloomFilter.init floats capacity errorRate = .error .sizes ∨
      ∃ filter, BloomFilter.init floats capacity errorRate = .ok filter ∧ filter.count = 0 ∧
        filter.capacity = capacity := by
  unfold BloomFilter.init
  rw [if_neg (by omega)]
  split
  · exact .inl rfl
  · exact .inr ⟨_, rfl, rfl, rfl⟩

/-- The newest filter of a row that has grown has room, and nothing that was reported is lost. -/
theorem grown_cases {row : ScalableBloomFilter F} (h : row.Filled) :
    row.grown floats = .error .sizes ∨ ∃ row', row.grown floats = .ok row' ∧ row'.Filled ∧
      row'.newest.count ≠ row'.newest.capacity ∧ row'.count = row.count ∧
        ∀ key, row.Has hashlib key → row'.Has hashlib key := by
  unfold grown
  split
  next hfull =>
    have hpos : 0 < if row.newest.capacity = maxCapacity then row.newest.capacity
        else row.newest.capacity * 10 := by
      have := h.pos
      split <;> omega
    rcases bloomInit_cases floats _ (floats.tightened row.newest.errorRate) hpos with
      hinit | ⟨filter, hinit, hcount, hcapacity⟩
    · rw [next, hinit]
      exact .inl rfl
    · rw [next, hinit]
      refine .inr ⟨_, rfl, ⟨fun f hf => ?_, ?_, ?_⟩, ?_, ?_, fun key hkey => ?_⟩
      · rcases List.mem_append.mp hf with hf | hf
        · exact h.earlier f hf
        · rw [List.mem_singleton.mp hf]
          exact hfull
      · exact hcount ▸ Nat.zero_le _
      · exact hcapacity ▸ hpos
      · show filter.count ≠ filter.capacity
        omega
      · simp [count, hcount]
      · rcases has_iff.mp hkey with hkey | ⟨f, hf, hkey⟩
        · exact has_iff.mpr (.inr ⟨_, List.mem_append_right _ (List.mem_singleton.mpr rfl), hkey⟩)
        · exact has_iff.mpr (.inr ⟨f, List.mem_append_left _ hf, hkey⟩)
  next hroom => exact .inr ⟨row, rfl, h, hroom, rfl, fun _ hkey => hkey⟩

/-- An addition: the key is reported from now on, and so is what was. -/
theorem add_cases {row : ScalableBloomFilter F} (h : row.Filled) (key : List Byte) :
    row.add floats hashlib key = .error .sizes ∨ ∃ row' b,
      row.add floats hashlib key = .ok (row', b) ∧ row'.Filled ∧ row'.count ≤ row.count + 1 ∧
        row'.Has hashlib key ∧ ∀ key', row.Has hashlib key' → row'.Has hashlib key' := by
  obtain ⟨b, hb⟩ := row.contains_ok hashlib key
  unfold add
  rw [hb]
  cases b with
  | true => exact .inr ⟨row, true, rfl, h, Nat.le_succ _, hb, fun _ hkey => hkey⟩
  | false =>
    rcases grown_cases floats hashlib h with
      hgrown | ⟨row', hgrown, hfilled, hroom, hcount, hkept⟩
    · rw [hgrown]
      exact .inl rfl
    · obtain ⟨filter, hadd, hkey, hmore, hcount', hcapacity⟩ :=
        BloomFilter.add_ok hashlib hroom key
      rw [hgrown]
      dsimp only
      rw [hadd]
      have hle := hfilled.newest
      refine .inr ⟨_, _, rfl, ⟨hfilled.earlier, ?_, ?_⟩, ?_, has_iff.mpr (.inl hkey),
        fun key' hkey' => ?_⟩
      · show filter.count ≤ filter.capacity
        omega
      · exact hcapacity ▸ hfilled.pos
      · rw [← hcount]
        show (row'.earlier.map (·.count)).sum + filter.count ≤
          (row'.earlier.map (·.count)).sum + row'.newest.count + 1
        omega
      · rcases has_iff.mp (hkept key' hkey') with hnewest | hearlier
        · exact has_iff.mpr (.inl (hmore key' hnewest))
        · exact has_iff.mpr (.inr hearlier)

theorem addAll_cases : ∀ (keys : List (List Byte)) {row : ScalableBloomFilter F}, row.Filled →
    row.addAll floats hashlib keys = .error .sizes ∨ ∃ row',
      row.addAll floats hashlib keys = .ok row' ∧ row'.Filled ∧
        row'.count ≤ row.count + keys.length ∧ (∀ key ∈ keys, row'.Has hashlib key) ∧
          ∀ key, row.Has hashlib key → row'.Has hashlib key
  | [], row, h => .inr ⟨row, rfl, h, Nat.le_refl _, by simp, fun _ hkey => hkey⟩
  | key :: keys, row, h => by
    unfold addAll
    rcases add_cases floats hashlib h key with
      hadd | ⟨row', b, hadd, hfilled, hcount, hkey, hkept⟩
    · rw [hadd]
      exact .inl rfl
    · rw [hadd]
      refine (addAll_cases keys hfilled).imp_right ?_
      rintro ⟨row'', hall, hfilled', hcount', hkeys, hkept'⟩
      refine ⟨row'', hall, hfilled', ?_, fun key' hkey' => ?_, fun key' h => hkept' _ (hkept _ h)⟩
      · rw [List.length_cons]
        omega
      · rcases List.mem_cons.mp hkey' with rfl | hkey'
        · exact hkept' _ hkey
        · exact hkeys _ hkey'

theorem init_cases : (init floats : Except Failure (ScalableBloomFilter F)) = .error .sizes ∨
    ∃ row, (init floats : Except Failure (ScalableBloomFilter F)) = .ok row ∧ row.Filled ∧
      row.count = 0 := by
  unfold init
  rcases bloomInit_cases floats initialCapacity floats.errorRate (by decide) with
    hinit | ⟨filter, hinit, hcount, hcapacity⟩
  · rw [hinit]
    exact .inl rfl
  · rw [hinit]
    refine .inr ⟨⟨[], filter⟩, rfl, ⟨fun _ hf => absurd hf List.not_mem_nil, ?_, ?_⟩, ?_⟩
    · exact hcount ▸ Nat.zero_le _
    · exact hcapacity ▸ (by decide)
    · simp [count, hcount]

end ScalableBloomFilter

/-- Whatever keys are added, one after the other: each of them is reported in the end, no filter has
taken more than its capacity and all but the newest are full, and no key that is asked for leads out
of a bit array. It may only be that the sizes of a filter cannot be computed. -/
theorem additions_kept {F : Type} (floats : Floats F) (hashlib : Hashlib) (keys : List (List Byte)) :
    ((ScalableBloomFilter.init floats).bind fun row => row.addAll floats hashlib keys) =
        .error .sizes ∨
      ∃ row : ScalableBloomFilter F,
        ((ScalableBloomFilter.init floats).bind fun row => row.addAll floats hashlib keys) =
            .ok row ∧
          row.Filled ∧ row.count ≤ keys.length ∧
          (∀ key ∈ keys, row.contains hashlib key = .ok true) ∧
          ∀ key, ∃ b, row.contains hashlib key = .ok b := by
  rcases ScalableBloomFilter.init_cases floats with hinit | ⟨row, hinit, hfilled, hcount⟩
  · rw [hinit]
    exact .inl rfl
  · rw [hinit]
    rcases ScalableBloomFilter.addAll_cases floats hashlib keys hfilled with
      hall | ⟨row', hall, hfilled', hcount', hkeys, -⟩
    · exact .inl hall
    · refine .inr ⟨row', hall, hfilled', ?_, hkeys, row'.contains_ok hashlib⟩
      omega

end Reboot.Txn.Filter
