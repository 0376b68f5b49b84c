import DssSdk.Lib.JudyArray

/-!
# The seek optimizer of the block allocator

`JudySeekOptimizer` keeps the free space of a device twice: `jarr_free_lb_` maps the first block
of a free chunk to its length, and `jarr_free_contig_len_`, a Judy array of Judy arrays, maps a
length and a first block to that first block. `allocate_lb` looks for room at the hint, in the
neighbouring chunks, among the chunks of exactly the requested length and then among the chunks of
the next larger length; `free_lb` merges the freed range with its neighbours.

A function of the source that can reach `assert(("ERROR", false))` returns an `Option` whose
`none` is that assertion. Where the source returns a `bool` and an allocated block, the inner
`Option` is `none` for `false`.
-/

namespace DssSdk.BlockAllocator

/-! ### The two level map -/

/-- `Utilities::JudyHashMap`: the array `jarr_l0_` of arrays of words. -/
structure JudyHashMap where
  jarrL0 : JudyArray (JudyArray ℕ)
  deriving DecidableEq

namespace JudyHashMap

/-- The vertical array at a horizontal index (the null array if there is none). -/
def vertical (m : JudyHashMap) (h : ℕ) : JudyArray ℕ := (m.jarrL0.get? h).getD JudyArray.empty

/-- `insert_element`; `none` is the return value `false`, given when the slot is in use. -/
def insertElement (m : JudyHashMap) (h v value : ℕ) : Option JudyHashMap :=
  if ((m.vertical h).get? v).getD 0 ≠ 0 then none
  else some ⟨m.jarrL0.insert h ((m.vertical h).insert v value)⟩

/-- `get_closest_on_vjarr`: the strict neighbour of `v` at the smaller distance. -/
def getClosestOnVjarr (v : ℕ) (jarr : JudyArray ℕ) : Option (ℕ × ℕ) :=
  match jarr.prev? v, jarr.next? v with
  | some p, some n => if v - p.1 < n.1 - v then some p else some n
  | some p, none => some p
  | none, some n => some n
  | none, none => none

/-- `get_closest_l1_element`: the value of the entry closest to `v` at the index `h`. -/
def getClosestL1Element (m : JudyHashMap) (h v : ℕ) : Option ℕ :=
  match m.jarrL0.get? h with
  | none => none
  | some jarr => (getClosestOnVjarr v jarr).map Prod.snd

/-- `get_closest_l0_element`: at the next larger horizontal index, the entry closest to `v`, as
its horizontal index and its vertical index. -/
def getClosestL0Element (m : JudyHashMap) (h v : ℕ) : Option (ℕ × ℕ) :=
  match m.jarrL0.next? h with
  | none => none
  | some (h', jarr) => (getClosestOnVjarr v jarr).map fun e => (h', e.1)

/-- `delete_element`; `none` is the return value `false`. An emptied vertical array is removed. -/
def deleteElement (m : JudyHashMap) (h v : ℕ) : Option JudyHashMap :=
  match m.jarrL0.get? h with
  | none => none
  | some jarr =>
      match jarr.get? v with
      | none => none
      | some _ =>
          if (jarr.erase v).entries = [] then some ⟨m.jarrL0.erase h⟩
          else some ⟨m.jarrL0.insert h (jarr.erase v)⟩

/-- The value stored at a horizontal and a vertical index. -/
def get? (m : JudyHashMap) (h v : ℕ) : Option ℕ := (m.vertical h).get? v

end JudyHashMap

/-! ### The optimizer -/

/-- `JudySeekOptimizer` with the counters it inherits from `CounterManager`. -/
structure JudySeekOptimizer where
  totalBlocks : ℕ
  logicalStartBlockOffset : ℕ
  jarrFreeLb : JudyArray ℕ
  jarrFreeContigLen : JudyHashMap
  totalAllocatedBlocks : ℕ
  totalFreeBlocks : ℕ
  deriving DecidableEq

namespace JudySeekOptimizer

/-- The constructor followed by `init`: one free chunk that is the whole device. -/
def init (totalBlocks logicalStartBlockOffset : ℕ) : JudySeekOptimizer where
  totalBlocks := totalBlocks
  logicalStartBlockOffset := logicalStartBlockOffset
  jarrFreeLb := JudyArray.empty.insert logicalStartBlockOffset totalBlocks
  jarrFreeContigLen :=
    ⟨JudyArray.empty.insert totalBlocks
      (JudyArray.empty.insert logicalStartBlockOffset logicalStartBlockOffset)⟩
  totalAllocatedBlocks := 0
  totalFreeBlocks := totalBlocks

/-- `remove_element`: both structures must hold the chunk. -/
def removeElement (j : JudySeekOptimizer) (lb len : ℕ) : Option JudySeekOptimizer :=
  if (j.jarrFreeLb.get? lb).isNone then none
  else (j.jarrFreeContigLen.deleteElement len lb).map fun c =>
    { j with jarrFreeLb := j.jarrFreeLb.erase lb, jarrFreeContigLen := c }

/-- `add_element`: neither structure may hold a chunk there. -/
def addElement (j : JudySeekOptimizer) (lb len : ℕ) : Option JudySeekOptimizer :=
  if (j.jarrFreeLb.get? lb).getD 0 ≠ 0 then none
  else (j.jarrFreeContigLen.insertElement len lb lb).map fun c =>
    { j with jarrFreeLb := j.jarrFreeLb.insert lb len, jarrFreeContigLen := c }

/-- `is_prev_neighbor_allocable`: the previous chunk, when the request fits in it. -/
def isPrevNeighborAllocable (j : JudySeekOptimizer) (requestLb requestLen : ℕ) :
    Option (ℕ × ℕ) :=
  match j.jarrFreeLb.prev? requestLb with
  | none => none
  | some (neighborLb, neighborLen) =>
      if neighborLb + neighborLen - 1 > requestLb then
        if requestLb + requestLen - 1 ≤ neighborLb + neighborLen - 1 then
          some (neighborLb, neighborLen)
        else none
      else if requestLen ≤ neighborLen then some (neighborLb, neighborLen) else none

/-- `is_next_neighbor_allocable`. -/
def isNextNeighborAllocable (j : JudySeekOptimizer) (requestLb requestLen : ℕ) :
    Option (ℕ × ℕ) :=
  match j.jarrFreeLb.next? requestLb with
  | none => none
  | some (neighborLb, neighborLen) =>
      if requestLen ≤ neighborLen then some (neighborLb, neighborLen) else none

/-- `split_curr_chunk`: cut the request out of a chunk that contains it. -/
def splitCurrChunk (j : JudySeekOptimizer) (currLb currLen requestLb requestLen : ℕ) :
    Option (ℕ × JudySeekOptimizer) :=
  if requestLb < currLb then none
  else if requestLen > currLen then none
  else
    let chunkLastLb := currLb + currLen - 1
    let requestLastLb := requestLb + requestLen - 1
    if currLb = requestLb ∧ currLen = requestLen then do
      let j ← j.removeElement currLb currLen
      some (requestLb, j)
    else if chunkLastLb = requestLastLb then do
      let j ← j.removeElement currLb currLen
      let j ← j.addElement currLb (requestLb - currLb)
      some (requestLb, j)
    else if requestLb = currLb then do
      let j ← j.removeElement currLb currLen
      let j ← j.addElement (requestLb + requestLen) (currLen - requestLen)
      some (requestLb, j)
    else if requestLb > currLb ∧ requestLastLb < chunkLastLb then do
      let j ← j.removeElement currLb currLen
      let leftChunkLen := requestLb - currLb
      let j ← j.addElement currLb leftChunkLen
      let j ← j.addElement (requestLb + requestLen) (currLen - (leftChunkLen + requestLen))
      some (requestLb, j)
    else none

/-- `split_prev_chunk`: allocate at the right end of the chunk. -/
def splitPrevChunk (j : JudySeekOptimizer) (prevLb prevLen requestLen : ℕ) :
    Option (Option (ℕ × JudySeekOptimizer)) :=
  if requestLen > prevLen then some none
  else if prevLen = requestLen then do
    let j ← j.removeElement prevLb prevLen
    some (some (prevLb, j))
  else do
    let j ← j.removeElement prevLb prevLen
    let leftChunkLen := prevLen - requestLen
    let j ← j.addElement prevLb leftChunkLen
    some (some (prevLb + leftChunkLen, j))

/-- `split_next_chunk`: allocate at the left end of the chunk. -/
def splitNextChunk (j : JudySeekOptimizer) (nextLb nextLen requestLen : ℕ) :
    Option (Option (ℕ × JudySeekOptimizer)) :=
  if requestLen > nextLen then some none
  else if nextLen = requestLen then do
    let j ← j.removeElement nextLb nextLen
    some (some (nextLb, j))
  else do
    let j ← j.removeElement nextLb nextLen
    let j ← j.addElement (nextLb + requestLen) (nextLen - requestLen)
    some (some (nextLb, j))

/-- `record_allocated_blocks`. -/
def recordAllocatedBlocks (j : JudySeekOptimizer) (len : ℕ) : Option JudySeekOptimizer :=
  if j.totalAllocatedBlocks + len > j.totalBlocks ∨ len > j.totalFreeBlocks then none
  else some { j with
    totalAllocatedBlocks := j.totalAllocatedBlocks + len
    totalFreeBlocks := j.totalFreeBlocks - len }

/-- `record_freed_blocks`. -/
def recordFreedBlocks (j : JudySeekOptimizer) (len : ℕ) : Option JudySeekOptimizer :=
  if j.totalFreeBlocks + len > j.totalBlocks ∨ len > j.totalAllocatedBlocks then none
  else some { j with
    totalFreeBlocks := j.totalFreeBlocks + len
    totalAllocatedBlocks := j.totalAllocatedBlocks - len }

/-- The first part of `allocate_lb`: a free chunk that starts at the hint, else the previous
chunk, else the next one. -/
def allocateNear (j : JudySeekOptimizer) (hintLb numBlocks : ℕ) :
    Option (Option (ℕ × JudySeekOptimizer)) :=
  match j.jarrFreeLb.get? hintLb with
  | some freeLen =>
      if numBlocks ≤ freeLen then (j.splitCurrChunk hintLb freeLen hintLb numBlocks).map some
      else some none
  | none => do
      let prev ← match j.isPrevNeighborAllocable hintLb numBlocks with
        | some (neighborLb, neighborLen) =>
            if neighborLb + neighborLen - 1 > hintLb then
              (j.splitCurrChunk neighborLb neighborLen hintLb numBlocks).map some
            else j.splitPrevChunk neighborLb neighborLen numBlocks
        | none => some none
      if prev.isSome then some prev
      else
        -- the source passes `free_len`, still `0` here, as the requested length
        match j.isNextNeighborAllocable hintLb 0 with
        | some (neighborLb, neighborLen) => j.splitNextChunk neighborLb neighborLen numBlocks
        | none => some none

/-- The second part: a chunk of exactly the requested length, the closest one to the hint. -/
def allocateExact (j : JudySeekOptimizer) (hintLb numBlocks : ℕ) :
    Option (Option (ℕ × JudySeekOptimizer)) :=
  match j.jarrFreeContigLen.getClosestL1Element numBlocks hintLb with
  | some freeContigLb =>
      if freeContigLb > hintLb then j.splitNextChunk freeContigLb numBlocks numBlocks
      else j.splitPrevChunk freeContigLb numBlocks numBlocks
  | none => some none

/-- The third part: a chunk of the next larger length, the closest one to the hint. -/
def allocateLarger (j : JudySeekOptimizer) (hintLb numBlocks : ℕ) :
    Option (Option (ℕ × JudySeekOptimizer)) :=
  match j.jarrFreeContigLen.getClosestL0Element numBlocks hintLb with
  | some (len, lb) =>
      if lb > hintLb then j.splitNextChunk lb len numBlocks
      else j.splitPrevChunk lb len numBlocks
  | none => some none

/-- `allocate_lb`. -/
def allocateLb (j : JudySeekOptimizer) (hintLb numBlocks : ℕ) :
    Option (Option (ℕ × JudySeekOptimizer)) :=
  if hintLb > j.totalBlocks + j.logicalStartBlockOffset - 1 ∨ numBlocks > j.totalFreeBlocks then
    some none
  else do
    let near ← j.allocateNear hintLb numBlocks
    let exact ← if near.isSome then some near else j.allocateExact hintLb numBlocks
    let found ← if exact.isSome then some exact else j.allocateLarger hintLb numBlocks
    match found with
    | some (lb, j') => do
        let j' ← j'.recordAllocatedBlocks numBlocks
        some (some (lb, j'))
    | none => some none

/-- The neighbours found by `is_mergable`: the chunk that starts where the request ends and the
chunk that ends where it starts. -/
structure Neighbors where
  next : Option (ℕ × ℕ)
  prev : Option (ℕ × ℕ)
  deriving DecidableEq

/-- The sanity check of `is_mergable` on a neighbouring chunk. -/
def neighborOverlaps (requestLb lb len : ℕ) : Bool :=
  requestLb = lb ∨ (requestLb > lb ∧ requestLb < lb + len - 1)

/-- The first half of `is_mergable`: the next chunk, when the request ends where it starts. -/
def mergableNext (j : JudySeekOptimizer) (requestLb requestLen : ℕ) : Option (Option (ℕ × ℕ)) :=
  match j.jarrFreeLb.next? requestLb with
  | none => some none
  | some (lb, len) =>
      if neighborOverlaps requestLb lb len then none
      else some (if requestLb + requestLen = lb then some (lb, len) else none)

/-- The second half of `is_mergable`: the previous chunk, when it ends where the request starts. -/
def mergablePrev (j : JudySeekOptimizer) (requestLb : ℕ) : Option (Option (ℕ × ℕ)) :=
  match j.jarrFreeLb.prev? requestLb with
  | none => some none
  | some (lb, len) =>
      if neighborOverlaps requestLb lb len then none
      else some (if lb + len = requestLb then some (lb, len) else none)

/-- `is_mergable`; `none` when one of its sanity checks fails. -/
def isMergable (j : JudySeekOptimizer) (requestLb requestLen : ℕ) : Option Neighbors := do
  let next ← j.mergableNext requestLb requestLen
  let prev ← j.mergablePrev requestLb
  some ⟨next, prev⟩

/-- `merge`, after `is_mergable` found at least one neighbour. -/
def merge (j : JudySeekOptimizer) (requestLb requestLen : ℕ) (nb : Neighbors) :
    Option JudySeekOptimizer :=
  match nb.next, nb.prev with
  | some (nextLb, nextLen), some (prevLb, prevLen) => do
      let j ← j.removeElement nextLb nextLen
      let j ← j.removeElement prevLb prevLen
      j.addElement prevLb (prevLen + requestLen + nextLen)
  | none, some (prevLb, prevLen) => do
      let j ← j.removeElement prevLb prevLen
      j.addElement prevLb (prevLen + requestLen)
  | some (nextLb, nextLen), none => do
      let j ← j.removeElement nextLb nextLen
      j.addElement requestLb (requestLen + nextLen)
  | none, none => none

/-- `free_lb`; the inner `none` is the return value `false`. -/
def freeLb (j : JudySeekOptimizer) (lb numBlocks : ℕ) : Option (Option JudySeekOptimizer) :=
  if lb < j.logicalStartBlockOffset then some none
  else if (j.jarrFreeLb.get? lb).isSome then some none
  else do
    let nb ← j.isMergable lb numBlocks
    let j' ← if nb.next.isSome ∨ nb.prev.isSome then j.merge lb numBlocks nb
      else j.addElement lb numBlocks
    let j' ← j'.recordFreedBlocks numBlocks
    some (some j')

end JudySeekOptimizer

end DssSdk.BlockAllocator
