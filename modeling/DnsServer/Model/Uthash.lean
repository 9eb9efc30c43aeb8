import Mathlib.Algebra.GroupWithZero.Nat
import Mathlib.Logic.Function.Basic
import Mathlib.Tactic.Common

/-!
# The hash table: `uthash.h`

The macros with which the server keeps its records, as functions on the blocks in
use. An element carries its handle; the offset `hho` between the two is a constant,
so that an element and its handle share their address. The order in which elements
were added is threaded through `prev` and `next`, the elements of one bucket through
`hh_prev` and `hh_next`.

The bytes behind `key`, as many as `keylen` says, are one value of the type `κ`: a
key is equal to another one when both lengths are the same and `memcmp` finds no
difference. The hash function is a parameter; `hashJen` is the one the header takes
by default.

A computation stops when it follows a `NULL` or a pointer to a block that is not in
use, when it leaves an array, when it shifts a number by its width, when a loop uses
up its bound, and when `uthash_fatal` ends the program.
-/

set_option autoImplicit false

namespace DnsServer

namespace Uthash

/-- The address of a block. -/
abbrev Addr := Nat

/-- `UT_hash_handle`. -/
structure UTHashHandle (κ : Type) where
  tbl : Addr
  prev : Option Addr
  next : Option Addr
  hh_prev : Option Addr
  hh_next : Option Addr
  key : κ
  hashv : UInt32

/-- A block with the handle in it. -/
structure Element (κ α : Type) where
  value : α
  hh : UTHashHandle κ

/-- `UT_hash_bucket`. -/
structure UTHashBucket where
  hh_head : Option Addr
  count : UInt32
  expand_mult : UInt32

/-- `UT_hash_table`, with the array of buckets behind its pointer. -/
structure UTHashTable where
  buckets : List UTHashBucket
  num_buckets : UInt32
  log2_num_buckets : UInt32
  num_items : UInt32
  tail : Option Addr
  ideal_chain_maxlen : UInt32
  nonideal_items : UInt32
  ineff_expands : UInt32
  noexpand : UInt32

/-- The blocks in use. -/
structure Blocks (κ α : Type) where
  elements : Addr → Option (Element κ α)
  tables : Addr → Option UTHashTable

/-- Why a computation stops. -/
inductive Stop where
  | null
  | unallocated (address : Addr)
  | outside (index : Nat)
  | shift
  | diverged
  | exit
  deriving DecidableEq

/-- A computation that may stop. -/
abbrev Run (β : Type) := Except Stop β

/-- What the next allocations bring: the address of an element, or `NULL`, the address
of a table, or `NULL`, and how large an array of buckets may be. -/
structure Offer where
  element : Option Addr
  table : Option Addr
  grants : Nat → Bool

variable {κ α : Type}

/-! ## Access to blocks -/

/-- No block is in use. -/
def Blocks.empty : Blocks κ α := ⟨fun _ => none, fun _ => none⟩

def deref : Option Addr → Run Addr
  | none => .error .null
  | some address => .ok address

def Blocks.handle (blocks : Blocks κ α) (address : Addr) : Run (UTHashHandle κ) :=
  match blocks.elements address with
  | none => .error (.unallocated address)
  | some element => .ok element.hh

/-- Write fields of a handle. -/
def Blocks.modify (blocks : Blocks κ α) (address : Addr)
    (change : UTHashHandle κ → UTHashHandle κ) : Run (Blocks κ α) :=
  match blocks.elements address with
  | none => .error (.unallocated address)
  | some element =>
      .ok { blocks with
        elements := Function.update blocks.elements address
          (some { element with hh := change element.hh }) }

/-- Write fields of a handle where the pointer to it is not `NULL`. -/
def Blocks.modifyIf (blocks : Blocks κ α) (pointer : Option Addr)
    (change : UTHashHandle κ → UTHashHandle κ) : Run (Blocks κ α) :=
  match pointer with
  | none => .ok blocks
  | some address => blocks.modify address change

def Blocks.table (blocks : Blocks κ α) (address : Addr) : Run UTHashTable :=
  match blocks.tables address with
  | none => .error (.unallocated address)
  | some table => .ok table

def Blocks.withTable (blocks : Blocks κ α) (address : Addr) (table : UTHashTable) : Blocks κ α :=
  { blocks with tables := Function.update blocks.tables address (some table) }

/-- Write fields of a table. -/
def Blocks.setTable (blocks : Blocks κ α) (address : Addr) (table : UTHashTable) :
    Run (Blocks κ α) :=
  match blocks.tables address with
  | none => .error (.unallocated address)
  | some _ => .ok (blocks.withTable address table)

/-- Give the block of an element back. -/
def Blocks.free (blocks : Blocks κ α) (address : Addr) : Run (Blocks κ α) :=
  match blocks.elements address with
  | none => .error (.unallocated address)
  | some _ => .ok { blocks with elements := Function.update blocks.elements address none }

/-- Give a table and its buckets back. -/
def Blocks.freeTable (blocks : Blocks κ α) (address : Addr) : Run (Blocks κ α) :=
  match blocks.tables address with
  | none => .error (.unallocated address)
  | some _ => .ok { blocks with tables := Function.update blocks.tables address none }

def bucketAt (buckets : List UTHashBucket) (i : Nat) : Run UTHashBucket :=
  match buckets[i]? with
  | none => .error (.outside i)
  | some bucket => .ok bucket

/-! ## The hash function -/

/-- `HASH_JEN_MIX`. -/
def hashJenMix (a b c : UInt32) : UInt32 × UInt32 × UInt32 :=
  let a := (a - b - c) ^^^ (c >>> 13)
  let b := (b - c - a) ^^^ (a <<< 8)
  let c := (c - a - b) ^^^ (b >>> 13)
  let a := (a - b - c) ^^^ (c >>> 12)
  let b := (b - c - a) ^^^ (a <<< 16)
  let c := (c - a - b) ^^^ (b >>> 5)
  let a := (a - b - c) ^^^ (c >>> 3)
  let b := (b - c - a) ^^^ (a <<< 10)
  let c := (c - a - b) ^^^ (b >>> 15)
  (a, b, c)

/-- Up to four bytes, the first one lowest. -/
def littleEndian (bytes : List UInt8) : UInt32 :=
  bytes.foldr (fun byte rest => byte.toUInt32 + (rest <<< 8)) 0

/-- The loop of `HASH_JEN` over blocks of twelve bytes, and the `switch` over the
bytes that are left: each of them is added at its own place, the last three above
the lowest byte of `hashv`, where the length goes. -/
def hashJenLoop (keylen : UInt32) : List UInt8 → UInt32 → UInt32 → UInt32 → UInt32
  | k0 :: k1 :: k2 :: k3 :: k4 :: k5 :: k6 :: k7 :: k8 :: k9 :: k10 :: k11 :: key, i, j, hashv =>
      let i := i + littleEndian [k0, k1, k2, k3]
      let j := j + littleEndian [k4, k5, k6, k7]
      let hashv := hashv + littleEndian [k8, k9, k10, k11]
      let (i, j, hashv) := hashJenMix i j hashv
      hashJenLoop keylen key i j hashv
  | key, i, j, hashv =>
      let hashv := hashv + keylen
      let hashv := hashv + (littleEndian (key.drop 8) <<< 8)
      let j := j + littleEndian ((key.drop 4).take 4)
      let i := i + littleEndian (key.take 4)
      (hashJenMix i j hashv).2.2

/-- `HASH_JEN`, for a key of `keylen` bytes. -/
def hashJen (key : List UInt8) : UInt32 :=
  hashJenLoop (UInt32.ofNat key.length) key 0x9e3779b9 0x9e3779b9 0xfeedbeef

/-- The bytes of a string that are the key, when its length is stored in an
`unsigned`. -/
def strKey (text : List UInt8) : List UInt8 := text.take (text.length % 2 ^ 32)

/-- `HASH_TO_BKT`. -/
def hashToBkt (hashv num_bkts : UInt32) : Nat := (hashv &&& (num_bkts - 1)).toNat

/-! ## Finding -/

section Finding

variable [DecidableEq κ]

/-- `HASH_FIND_IN_BKT`, from its first element on. -/
def hashFindInBkt (blocks : Blocks κ α) (key : κ) (hashval : UInt32) :
    Nat → Option Addr → Run (Option Addr)
  | 0, _ => .error .diverged
  | _ + 1, none => .ok none
  | bound + 1, some out => do
    let hh ← blocks.handle out
    if hh.hashv = hashval ∧ hh.key = key then return some out
    else hashFindInBkt blocks key hashval bound hh.hh_next

/-- `HASH_FIND`. -/
def hashFind (hash : κ → UInt32) (bound : Nat) (blocks : Blocks κ α) (head : Option Addr)
    (key : κ) : Run (Option Addr) :=
  match head with
  | none => .ok none
  | some head => do
    let hh ← blocks.handle head
    let tbl ← blocks.table hh.tbl
    let bucket ← bucketAt tbl.buckets (hashToBkt (hash key) tbl.num_buckets)
    hashFindInBkt blocks key (hash key) bound bucket.hh_head

end Finding

/-! ## Expanding -/

/-- `sizeof(struct UT_hash_bucket)`. -/
def sizeofBucket : Nat := 16

/-- What `HASH_EXPAND_BUCKETS` works on: the array of new buckets besides the
blocks, and the count of items whose place in their chain is not ideal. -/
structure Expansion (κ α : Type) where
  blocks : Blocks κ α
  buckets : List UTHashBucket
  nonideal_items : UInt32

/-- Put a handle in front of those of a bucket. -/
def linkFront (blocks : Blocks κ α) (hh_head : Option Addr) (thh : Addr) : Run (Blocks κ α) := do
  let blocks ← blocks.modify thh fun hh => { hh with hh_prev := none, hh_next := hh_head }
  blocks.modifyIf hh_head fun hh => { hh with hh_prev := some thh }

/-- The new counts of a bucket that takes in one more item. -/
def UTHashBucket.counted (bucket : UTHashBucket) (ideal_chain_maxlen : UInt32) : UTHashBucket :=
  let count := bucket.count + 1
  if count > ideal_chain_maxlen ∧ count > bucket.expand_mult * ideal_chain_maxlen then
    { bucket with count, expand_mult := bucket.expand_mult + 1 }
  else { bucket with count }

/-- The inner loop of `HASH_EXPAND_BUCKETS`: the items of one old bucket. -/
def expandChain (num_buckets ideal_chain_maxlen : UInt32) :
    Nat → Option Addr → Expansion κ α → Run (Expansion κ α)
  | 0, _, _ => .error .diverged
  | _ + 1, none, expansion => .ok expansion
  | bound + 1, some thh, expansion => do
    let hh ← expansion.blocks.handle thh
    let i := hashToBkt hh.hashv num_buckets
    let bucket ← bucketAt expansion.buckets i
    let newbkt := bucket.counted ideal_chain_maxlen
    let blocks ← linkFront expansion.blocks newbkt.hh_head thh
    expandChain num_buckets ideal_chain_maxlen bound hh.hh_next
      { blocks
        buckets := expansion.buckets.set i { newbkt with hh_head := some thh }
        nonideal_items := expansion.nonideal_items +
          if newbkt.count > ideal_chain_maxlen then 1 else 0 }

/-- The quotient of the items by the new number of buckets, rounded up. -/
def idealChainMaxlen (tbl : UTHashTable) : Run UInt32 :=
  -- a shift by the width of an `unsigned` is undefined
  if tbl.log2_num_buckets + 1 < 32 then
    .ok ((tbl.num_items >>> (tbl.log2_num_buckets + 1)) +
      if tbl.num_items &&& (tbl.num_buckets * 2 - 1) ≠ 0 then 1 else 0)
  else .error .shift

/-- `HASH_EXPAND_BUCKETS`. -/
def hashExpandBuckets (bound : Nat) (blocks : Blocks κ α) (t : Addr) (offer : Offer) :
    Run (Blocks κ α) := do
  let tbl ← blocks.table t
  let size := tbl.num_buckets.toNat * 2
  if offer.grants (sizeofBucket * size) then
    let ideal_chain_maxlen ← idealChainMaxlen tbl
    let new_buckets := List.replicate size { hh_head := none, count := 0, expand_mult := 0 }
    let moved ← (List.range tbl.num_buckets.toNat).foldlM (fun expansion i => do
        let bucket ← bucketAt tbl.buckets i
        expandChain (tbl.num_buckets * 2) ideal_chain_maxlen bound bucket.hh_head expansion)
      { blocks, buckets := new_buckets, nonideal_items := 0 }
    let ineff_expands :=
      if moved.nonideal_items > tbl.num_items >>> 1 then tbl.ineff_expands + 1 else 0
    moved.blocks.setTable t
      { tbl with
        buckets := moved.buckets
        num_buckets := tbl.num_buckets * 2
        log2_num_buckets := tbl.log2_num_buckets + 1
        ideal_chain_maxlen
        nonideal_items := moved.nonideal_items
        ineff_expands
        noexpand := if ineff_expands > 1 then 1 else tbl.noexpand }
  else throw .exit

/-! ## Adding -/

/-- `HASH_ADD_TO_BKT`, to the bucket at an index of a table. -/
def hashAddToBkt (bound : Nat) (blocks : Blocks κ α) (t : Addr) (i : Nat) (addhh : Addr)
    (offer : Offer) : Run (Blocks κ α) := do
  let tbl ← blocks.table t
  let bucket ← bucketAt tbl.buckets i
  let count := bucket.count + 1
  let blocks ← linkFront blocks bucket.hh_head addhh
  let blocks ← blocks.setTable t
    { tbl with buckets := tbl.buckets.set i { bucket with hh_head := some addhh, count } }
  let hh ← blocks.handle addhh
  let own ← blocks.table hh.tbl
  if count ≥ (bucket.expand_mult + 1) * 10 ∧ own.noexpand = 0 then
    hashExpandBuckets bound blocks hh.tbl offer
  else return blocks

/-- `HASH_ADD_TO_TABLE`. -/
def hashAddToTable (bound : Nat) (blocks : Blocks κ α) (head : Addr) (hashval : UInt32)
    (add : Addr) (offer : Offer) : Run (Blocks κ α) := do
  let hh ← blocks.handle head
  let tbl ← blocks.table hh.tbl
  let blocks ← blocks.setTable hh.tbl { tbl with num_items := tbl.num_items + 1 }
  hashAddToBkt bound blocks hh.tbl (hashToBkt hashval tbl.num_buckets) add offer

/-- What `HASH_MAKE_TABLE` fills a table with. -/
def newTable (head : Addr) : UTHashTable where
  buckets := List.replicate 32 { hh_head := none, count := 0, expand_mult := 0 }
  num_buckets := 32
  log2_num_buckets := 5
  num_items := 0
  tail := some head
  ideal_chain_maxlen := 0
  nonideal_items := 0
  ineff_expands := 0
  noexpand := 0

/-- `HASH_MAKE_TABLE`. An offered address at which a table is in use already is no
address that `malloc` returns. -/
def hashMakeTable (blocks : Blocks κ α) (head : Addr) (offer : Offer) : Run (Blocks κ α) :=
  match offer.table with
  | none => .error .exit
  | some t =>
    if (blocks.tables t).isSome then .error .exit
    else do
      let blocks ← blocks.modify head fun hh => { hh with tbl := t }
      if offer.grants (32 * sizeofBucket) then return blocks.withTable t (newTable head)
      else throw .exit

/-- `HASH_APPEND_LIST`. -/
def hashAppendList (blocks : Blocks κ α) (head add : Addr) : Run (Blocks κ α) := do
  let blocks ← blocks.modify add fun hh => { hh with next := none }
  let hh ← blocks.handle head
  let tbl ← blocks.table hh.tbl
  let blocks ← blocks.modify add fun hh => { hh with prev := tbl.tail }
  let tail ← deref tbl.tail
  let blocks ← blocks.modify tail fun hh => { hh with next := some add }
  blocks.setTable hh.tbl { tbl with tail := some add }

/-- `HASH_ADD_KEYPTR`. The second result is the new value of `head`. -/
def hashAddKeyptr (hash : κ → UInt32) (bound : Nat) (blocks : Blocks κ α) (head : Option Addr)
    (key : κ) (add : Addr) (offer : Offer) : Run (Blocks κ α × Option Addr) := do
  let blocks ← blocks.modify add fun hh => { hh with hashv := hash key, key }
  match head with
  | none => do
    let blocks ← blocks.modify add fun hh => { hh with next := none, prev := none }
    let blocks ← hashMakeTable blocks add offer
    let blocks ← hashAddToTable bound blocks add (hash key) add offer
    return (blocks, some add)
  | some head => do
    let hh ← blocks.handle head
    let blocks ← blocks.modify add fun own => { own with tbl := hh.tbl }
    let blocks ← hashAppendList blocks head add
    let blocks ← hashAddToTable bound blocks head (hash key) add offer
    return (blocks, some head)

/-! ## Deleting -/

/-- `HASH_DEL_IN_BKT`, from the bucket at an index of a table. -/
def hashDelInBkt (blocks : Blocks κ α) (t : Addr) (i : Nat) (delhh : Addr) : Run (Blocks κ α) := do
  let tbl ← blocks.table t
  let bucket ← bucketAt tbl.buckets i
  let hh ← blocks.handle delhh
  let hh_head := if bucket.hh_head = some delhh then hh.hh_next else bucket.hh_head
  let blocks ← blocks.setTable t
    { tbl with buckets := tbl.buckets.set i { bucket with count := bucket.count - 1, hh_head } }
  let blocks ← blocks.modifyIf hh.hh_prev fun other => { other with hh_next := hh.hh_next }
  let hh ← blocks.handle delhh
  blocks.modifyIf hh.hh_next fun other => { other with hh_prev := hh.hh_prev }

/-- `HASH_DELETE_HH`. The second result is the new value of `head`. -/
def hashDelete (blocks : Blocks κ α) (head : Option Addr) (delptr : Addr) :
    Run (Blocks κ α × Option Addr) := do
  let del ← blocks.handle delptr
  let first ← deref head
  let hh ← blocks.handle first
  if del.prev = none ∧ del.next = none then
    let blocks ← blocks.freeTable hh.tbl
    return (blocks, none)
  else
    let tbl ← blocks.table hh.tbl
    let blocks ← blocks.setTable hh.tbl
      { tbl with tail := if tbl.tail = some delptr then del.prev else tbl.tail }
    let blocks ← blocks.modifyIf del.prev fun other => { other with next := del.next }
    let head := if del.prev = none then del.next else head
    let del ← blocks.handle delptr
    let blocks ← blocks.modifyIf del.next fun other => { other with prev := del.prev }
    -- from here on `head` is the new one
    let first ← deref head
    let hh ← blocks.handle first
    let tbl ← blocks.table hh.tbl
    let blocks ← hashDelInBkt blocks hh.tbl (hashToBkt del.hashv tbl.num_buckets) delptr
    let tbl ← blocks.table hh.tbl
    let blocks ← blocks.setTable hh.tbl { tbl with num_items := tbl.num_items - 1 }
    return (blocks, head)

/-! ## What the server does with the table -/

/-- `tmp->hh.next`, or `NULL` for a `NULL`. -/
def following (blocks : Blocks κ α) : Option Addr → Run (Option Addr)
  | none => return none
  | some tmp => do return (← blocks.handle tmp).next

/-- `HASH_ITER` over a body that only reads: what is found in the elements, in their
order. -/
def hashIter (blocks : Blocks κ α) : Nat → Option Addr → Option Addr → Run (List α)
  | 0, _, _ => .error .diverged
  | _ + 1, none, _ => return []
  | bound + 1, some el, tmp =>
    match blocks.elements el with
    | none => .error (.unallocated el)
    | some element => do
      let after ← following blocks tmp
      let rest ← hashIter blocks bound tmp after
      return element.value :: rest

/-- The loop of `get_records_list`. -/
def listElements (bound : Nat) (blocks : Blocks κ α) (head : Option Addr) : Run (List α) := do
  let tmp ← following blocks head
  hashIter blocks bound head tmp

/-- `HASH_ITER` over a body that deletes the element and gives its block back. -/
def clearLoop : Nat → Blocks κ α → Option Addr → Option Addr → Option Addr →
    Run (Blocks κ α × Option Addr)
  | 0, _, _, _, _ => .error .diverged
  | _ + 1, blocks, head, none, _ => return (blocks, head)
  | bound + 1, blocks, head, some el, tmp => do
    let (blocks, head) ← hashDelete blocks head el
    let blocks ← blocks.free el
    let after ← following blocks tmp
    clearLoop bound blocks head tmp after

/-- The loop of `cleanup_dns_records` and of `handle_reload_command`. -/
def clearElements (bound : Nat) (blocks : Blocks κ α) (head : Option Addr) :
    Run (Blocks κ α × Option Addr) := do
  let tmp ← following blocks head
  clearLoop bound blocks head head tmp

section Commands

variable [DecidableEq κ]

/-- Delete the element under a key, if there is one, and give its block back. -/
def deleteElement (hash : κ → UInt32) (bound : Nat) (blocks : Blocks κ α) (head : Option Addr)
    (key : κ) : Run (Blocks κ α × Option Addr) := do
  match ← hashFind hash bound blocks head key with
  | none => return (blocks, head)
  | some existing => do
    let (blocks, head) ← hashDelete blocks head existing
    let blocks ← blocks.free existing
    return (blocks, head)

/-- The end of `add_record_to_hash`, with the new element at its address: one under the
same key is deleted, and the new one is added. -/
def insertElement (hash : κ → UInt32) (bound : Nat) (blocks : Blocks κ α) (head : Option Addr)
    (key : κ) (add : Addr) (offer : Offer) : Run (Blocks κ α × Option Addr) := do
  let (blocks, head) ← deleteElement hash bound blocks head key
  hashAddKeyptr hash bound blocks head key add offer

/-- What the server does with the table. The handle of a new element holds what
`malloc` has left there. -/
inductive Op (κ α : Type) where
  | insert (value : α) (left : UTHashHandle κ) (offer : Offer)
  | delete (key : κ)
  | clear

/-- An offered address at which an element is in use already is no address that
`malloc` returns: such a run ends. -/
def Op.run (hash : κ → UInt32) (key : α → κ) (bound : Nat) :
    Op κ α → Blocks κ α × Option Addr → Run (Blocks κ α × Option Addr)
  | .insert value left offer, (blocks, head) =>
    match offer.element with
    | none => return (blocks, head)
    | some add =>
      if (blocks.elements add).isSome then .error .exit
      else
        let blocks : Blocks κ α :=
          { blocks with elements := Function.update blocks.elements add (some ⟨value, left⟩) }
        insertElement hash bound blocks head (key value) add offer
  | .delete k, (blocks, head) => deleteElement hash bound blocks head k
  | .clear, (blocks, head) => clearElements bound blocks head

end Commands

end Uthash

end DnsServer
