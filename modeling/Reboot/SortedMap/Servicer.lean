import Reboot.Lib.Run
import Reboot.Lib.Scan
import Reboot.Names
import Reboot.Routing.StateId

/-!
# SortedMap

`SortedMapServicer` (`reboot/std/collections/v1/sorted_map.py`) has no state of its own. A
writer leaves a list of colocated upserts on its context, which `_store` turns into
`SortedMapEntry` refs under the map's ref and sends to the database. The readers call
`colocated_range` and `colocated_reverse_range`, which become scans of the column family of
`SortedMapEntry`, where the entries of *all* maps are.

The database side is `Apply`, `ColocatedRange` and `ColocatedReverseRange` of
`reboot/server/database.cc`. Inside a transaction the upserts go to the open RocksDB
transaction of the map, and a scan merges them with what is committed.

Mirroring notes:
- Keys are strings and RocksDB compares bytes. Everything that goes into a key passed the
  ASCII check or is a tag, so comparing characters is comparing bytes.
- A scan sees the entries at or after the sought key (at or before, backwards) and within
  the bound: what RocksDB documents for `Seek`, `SeekForPrev`, `iterate_upper_bound` and
  `iterate_lower_bound`. All keys a forward scan can reach have the prefix it seeks with,
  so the prefix extractor does not matter to it; the backward scan turns it off.
- The batch of a transaction is kept as its `Put`s and `Delete`s in order. A commit is the
  commit of a prepared transaction. Preparing does not change what a scan sees and is left
  out, as are the persisted record of the participant and the map's own (empty) state.
- `limit` is a `uint32` on both sides and is a `Nat` here; nothing depends on its width.
- The middleware enters a reader only on a map that has been constructed, which is also when
  the column family of the entries was created.
-/

namespace Reboot.SortedMap

open Reboot.Lib Reboot.Routing

/-- Why a call fails. -/
inductive Error
  /-- an `InvalidStateRefError`, for the map's id or for a key -/
  | invalidStateRef (e : InvalidStateRefError)
  /-- an assertion or another exception while refs are read -/
  | python (e : PyError)
  /-- `InvalidRangeError`: "… requires a non-zero `limit` value." -/
  | zeroLimit
  /-- `InvalidRangeError`: "… requires `end_key` to be larger (smaller) than `start_key` …" -/
  | endKey (startKey endKey : Str)
  /-- "Failed to begin transaction … as transaction … has already begun" -/
  | alreadyBegun
  /-- "Attempt to store outside of a transaction while there is an ongoing transaction" -/
  | ongoing
  /-- "No active transaction found for state type … actor …" -/
  | noTransaction
  deriving DecidableEq

/-- A colocated upsert: a key with its value, or without one to delete it. -/
abbrev Upsert (ν : Type) := Str × Option ν

variable {τ ν : Type}

/-- One `Put` or `Delete`. -/
def upsert (m : SortedAssoc Str ν) (u : Upsert ν) : SortedAssoc Str ν :=
  match u.2 with
  | some v => m.put u.1 v
  | none => m.erase u.1

/-- The `Put`s and `Delete`s of a batch, in order. -/
def applyBatch (m : SortedAssoc Str ν) (batch : List (Upsert ν)) : SortedAssoc Str ν :=
  batch.foldl upsert m

/-! ## The database -/

/-- An open RocksDB transaction of a map. -/
structure OpenTransaction (τ ν : Type) where
  name : τ
  batch : List (Upsert ν)
  deriving DecidableEq

/-- What the database has for the maps. -/
structure Database (τ ν : Type) where
  /-- the column family of `SortedMapEntry`, committed -/
  entries : SortedAssoc Str ν
  /-- `txns_`, by the ref of the map -/
  txns : Str → Option (OpenTransaction τ ν)

/-- Nothing stored and no transaction. -/
def Database.empty : Database τ ν := ⟨.empty, fun _ => none⟩

/-- Set the open transaction of a map. -/
def Database.setTxn (d : Database τ ν) (ref : Str) (x : Option (OpenTransaction τ ν)) :
    Database τ ν :=
  { d with txns := Function.update d.txns ref x }

/-- `LookupOrBeginTransaction`: an open transaction has to be the one asked for. -/
def Database.lookupOrBegin [DecidableEq τ] (d : Database τ ν) (ref : Str) (t : τ) :
    Except Error (OpenTransaction τ ν) :=
  match d.txns ref with
  | none => .ok ⟨t, []⟩
  | some x => if x.name = t then .ok x else .error .alreadyBegun

/-- `Store` of the colocated upserts of the map `ref`, inside the transaction or, with
`none`, outside of any. -/
def Database.store [DecidableEq τ] (d : Database τ ν) (ref : Str) (transaction : Option τ)
    (colocatedUpserts : List (Upsert ν)) : Except Error (Database τ ν) :=
  let batch := colocatedUpserts.map fun u => (makeActorStateKey u.1, u.2)
  match transaction with
  | some t =>
    match d.lookupOrBegin ref t with
    | .error e => .error e
    | .ok x => .ok (d.setTxn ref (some { x with batch := x.batch ++ batch }))
  | none =>
    match d.txns ref with
    | some _ => .error .ongoing
    | none => .ok { d with entries := applyBatch d.entries batch }

/-- What an iterator sees: `db_->NewIterator`, or `GetIterator` of the open transaction. -/
def Database.view (d : Database τ ν) (ref : Str) (inTransaction : Bool) :
    Except Error (SortedAssoc Str ν) :=
  if inTransaction then
    match d.txns ref with
    | none => .error .noTransaction
    | some x => .ok (applyBatch d.entries x.batch)
  else .ok d.entries

/-- The key of `bound` under the parent, or, without a bound, the parent's ref with `c`. -/
def boundKey (parentStateRef : Str) (c : Char) (bound : Option Str) : Str :=
  match bound with
  | some ref => makeActorStateKey (parentStateRef ++ '/' :: ref)
  | none => makeActorStateKey (parentStateRef ++ [c])

/-- The response of a scan: at most `limit` entries, their keys without the prefix. -/
def page (limit : Nat) (l : List (Str × ν)) : List (Str × ν) :=
  (l.take limit).map fun e => (e.1.drop stateKeyPrefix.length, e.2)

/-- `ColocatedRange`. -/
def colocatedRange (contents : SortedAssoc Str ν) (parentStateRef : Str)
    (start end_ : Option Str) (limit : Nat) : List (Str × ν) :=
  page limit (scanAssoc (boundKey parentStateRef '/' start) (boundKey parentStateRef '0' end_)
    contents.entries)

/-- The lower bound of a backward scan: inclusive, so a NUL byte is appended to a given end. -/
def lowerKey (parentStateRef : Str) (end_ : Option Str) : Str :=
  match end_ with
  | some ref => makeActorStateKey (parentStateRef ++ '/' :: ref) ++ ['\x00']
  | none => makeActorStateKey (parentStateRef ++ ['/'])

/-- `ColocatedReverseRange`. -/
def colocatedReverseRange (contents : SortedAssoc Str ν) (parentStateRef : Str)
    (start end_ : Option Str) (limit : Nat) : List (Str × ν) :=
  page limit (scanBackAssoc (boundKey parentStateRef '0' start) (lowerKey parentStateRef end_)
    contents.entries)

/-! ## The state manager -/

section

variable (sha1 : Str → Digest)

/-- `StateRef.from_id` of a key, `None` staying `None`. -/
def entryRef (key : Option Str) : Except Error (Option Str) :=
  match key with
  | none => .ok none
  | some k => (fromId sha1 sortedMapEntryTypeName k).mapError .invalidStateRef |>.map some

/-- `decode_key`. -/
def decodeKey (ref : Str) : Except Error Str :=
  match matchesStateType sha1 ref sortedMapEntryTypeName with
  | .error e => .error (.python e)
  | .ok false => .error (.python .assertionError)
  | .ok true => .ok (refId ref)

/-- The keys of a response, decoded. -/
def decodePage : List (Str × ν) → Except Error (List (Str × ν))
  | [] => .ok []
  | e :: l =>
    match decodeKey sha1 e.1, decodePage l with
    | .error err, _ => .error err
    | .ok _, .error err => .error err
    | .ok k, .ok l' => .ok ((k, e.2) :: l')

/-- `_colocated_omnidirectional_range`, for the map with the ref `ref`. -/
def colocatedOmnidirectionalRange (d : Database τ ν) (ref : Str) (inTransaction : Bool)
    (start end_ : Option Str) (limit : Nat) (reverse : Bool) : Except Error (List (Str × ν)) :=
  match entryRef sha1 start with
  | .error e => .error e
  | .ok startRef =>
    match entryRef sha1 end_ with
    | .error e => .error e
    | .ok endRef =>
      match d.view ref inTransaction with
      | .error e => .error e
      | .ok contents =>
        decodePage sha1 (if reverse then colocatedReverseRange contents ref startRef endRef limit
          else colocatedRange contents ref startRef endRef limit)

/-- The upserts `_store` makes of what a writer left on its context. -/
def colocatedUpserts (ref : Str) : List (Upsert ν) → Except Error (List (Upsert ν))
  | [] => .ok []
  | u :: us =>
    match colocate sha1 ref sortedMapEntryTypeName u.1, colocatedUpserts ref us with
    | .error e, _ => .error (.invalidStateRef e)
    | .ok _, .error e => .error e
    | .ok key, .ok us' => .ok ((key, u.2) :: us')

/-! ## The servicer -/

/-- A call of a writer method. -/
inductive WriterCall (ν : Type)
  | insert (entries : List (Str × ν))
  | remove (keys : List Str)
  deriving DecidableEq

/-- `context._colocated_upserts` after the method. -/
def WriterCall.upserts : WriterCall ν → List (Upsert ν)
  | .insert entries => entries.map fun e => (e.1, some e.2)
  | .remove keys => keys.map fun k => (k, none)

/-- A writer method on the map `id`, inside a transaction or outside of any. -/
def write [DecidableEq τ] (d : Database τ ν) (id : Str) (transaction : Option τ)
    (call : WriterCall ν) : Except Error (Database τ ν) :=
  match fromId sha1 sortedMapTypeName id with
  | .error e => .error (.invalidStateRef e)
  | .ok ref =>
    match colocatedUpserts sha1 ref call.upserts with
    | .error e => .error e
    | .ok us => d.store ref transaction us

/-- A request of a scan. -/
structure RangeRequest where
  startKey : Option Str
  endKey : Option Str
  limit : Nat
  deriving DecidableEq

/-- `Range`. -/
def range (d : Database τ ν) (id : Str) (inTransaction : Bool) (request : RangeRequest) :
    Except Error (List (Str × ν)) :=
  if request.limit = 0 then .error .zeroLimit
  else
    match request.startKey, request.endKey with
    | some s, some e =>
      if s ≥ e then .error (.endKey s e)
      else colocatedOmnidirectionalRange sha1 d (refOf sha1 sortedMapTypeName id) inTransaction
        request.startKey request.endKey request.limit false
    | _, _ => colocatedOmnidirectionalRange sha1 d (refOf sha1 sortedMapTypeName id)
        inTransaction request.startKey request.endKey request.limit false

/-- `ReverseRange`. -/
def reverseRange (d : Database τ ν) (id : Str) (inTransaction : Bool) (request : RangeRequest) :
    Except Error (List (Str × ν)) :=
  if request.limit = 0 then .error .zeroLimit
  else
    match request.startKey, request.endKey with
    | some s, some e =>
      if s ≤ e then .error (.endKey s e)
      else colocatedOmnidirectionalRange sha1 d (refOf sha1 sortedMapTypeName id) inTransaction
        request.startKey request.endKey request.limit true
    | _, _ => colocatedOmnidirectionalRange sha1 d (refOf sha1 sortedMapTypeName id)
        inTransaction request.startKey request.endKey request.limit true

/-- `Get`: a range up to the key with `\x01` appended. -/
def get (d : Database τ ν) (id : Str) (inTransaction : Bool) (key : Str) :
    Except Error (Option ν) :=
  match colocatedOmnidirectionalRange sha1 d (refOf sha1 sortedMapTypeName id) inTransaction
      (some key) (some (key ++ ['\x01'])) 1 false with
  | .error e => .error e
  | .ok [] => .ok none
  | .ok [e] => .ok (some e.2)
  | .ok _ => .error (.python .assertionError)

/-! ## Runs -/

/-- What changes the maps. -/
inductive Action (τ ν : Type)
  /-- a writer method on a map -/
  | call (id : Str) (transaction : Option τ) (call : WriterCall ν)
  /-- a transaction joins a map: `transaction_participant_store` -/
  | join (id : Str) (transaction : τ)
  /-- the transaction that is open on a map commits there -/
  | commit (id : Str)
  /-- the transaction that is open on a map aborts -/
  | abort (id : Str)
  deriving DecidableEq

/-- One successful action; `none` if it fails. -/
def step [DecidableEq τ] (d : Database τ ν) : Action τ ν → Option (Database τ ν)
  | .call id transaction call => (write sha1 d id transaction call).toOption
  | .join id t => (write sha1 d id (some t) (.insert [])).toOption
  | .commit id => do
    let ref ← (fromId sha1 sortedMapTypeName id).toOption
    let x ← d.txns ref
    some ⟨applyBatch d.entries x.batch, Function.update d.txns ref none⟩
  | .abort id => do
    let ref ← (fromId sha1 sortedMapTypeName id).toOption
    some (d.setTxn ref none)

end

end Reboot.SortedMap
