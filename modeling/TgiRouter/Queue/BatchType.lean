import Mathlib.Data.Nat.Sqrt
import TgiRouter.Queue.Tree

/-!
# Cost models

The `BatchType` trait of `queue.rs` and its two implementations. A `BatchType` is a
record of the trait's functions over its `Stats` type; `FlashBatch` keeps the total
number of tokens, `PaddedBatch` the longest input and output.

Both `exceeds_weight` loops are written as a walk `exceedsWeightFrom` over the tree's
descending listing, carrying the loop's variables (`bs` from `enumerate`, `in_sum`, or
`max_in` and `last_ol`) as arguments.
-/

namespace TgiRouter

/-- `trait BatchType`. -/
structure BatchType where
  Stats : Type
  /-- `Stats::default`. -/
  default : Stats
  updateStats : Stats → Nat → Nat → Stats
  batchWeight : Stats → Nat → Nat
  prefillWeight : Stats → Nat → Nat
  exceedsWeight : Tree → Nat → Nat → Bool

/-- `BatchType::compute_stats`: the request lengths of every entry of a batch, folded
into the statistics. -/
def BatchType.computeStats (B : BatchType) (entries : ExistingBatch) : B.Stats :=
  entries.entries.foldl
    (fun stats e => B.updateStats stats e.2.request.truncate e.2.request.maxNewTokens) B.default

namespace FlashBatch

/-- The loop of `FlashBatch::exceeds_weight`, at position `bs` with running `in_sum`. -/
def exceedsWeightFrom (maxTotalWeight currentOutputLen : Nat) :
    Nat → Nat → List Slot → Bool
  | _, _, [] => false
  | bs, inSum, s :: rest =>
    if s.outputLen ≤ currentOutputLen ∧ maxTotalWeight < inSum + s.inputLen + (bs + 1) * s.outputLen
    then true
    else exceedsWeightFrom maxTotalWeight currentOutputLen (bs + 1) (inSum + s.inputLen) rest

/-- `FlashBatch::exceeds_weight`. -/
def exceedsWeight (tree : Tree) (maxTotalWeight currentOutputLen : Nat) : Bool :=
  exceedsWeightFrom maxTotalWeight currentOutputLen 0 0 tree.desc

end FlashBatch

/-- `FlashBatch`: non-padded batches, weighed by their total number of tokens. -/
def flashBatch : BatchType where
  Stats := Nat
  default := 0
  updateStats totalTokens inputLength outputLength := totalTokens + inputLength + outputLength
  batchWeight totalTokens _ := totalTokens
  prefillWeight totalTokens _ := totalTokens
  exceedsWeight := FlashBatch.exceedsWeight

namespace PaddedBatch

/-- The loop of `PaddedBatch::exceeds_weight`, at position `bs` with running `max_in`
and `last_ol`. -/
def exceedsWeightFrom (maxTotalWeight currentOutputLen : Nat) :
    Nat → Nat → Nat → List Slot → Bool
  | _, _, _, [] => false
  | bs, maxIn, lastOl, s :: rest =>
    if s.outputLen ≠ lastOl then
      if s.outputLen ≤ currentOutputLen ∧
          maxTotalWeight < (max maxIn s.inputLen + s.outputLen) ^ 2 * (bs + 1)
      then true
      else exceedsWeightFrom maxTotalWeight currentOutputLen (bs + 1) (max maxIn s.inputLen)
        s.outputLen rest
    else exceedsWeightFrom maxTotalWeight currentOutputLen (bs + 1) maxIn lastOl rest

/-- `PaddedBatch::exceeds_weight`. -/
def exceedsWeight (tree : Tree) (maxTotalWeight currentOutputLen : Nat) : Bool :=
  exceedsWeightFrom maxTotalWeight currentOutputLen 0 0 0 tree.desc

end PaddedBatch

/-- `PaddedBatch`: rectangular batches, weighed by size times squared sequence length. -/
def paddedBatch : BatchType where
  Stats := Nat × Nat
  default := (0, 0)
  updateStats lengths inputLength outputLength :=
    (max lengths.1 inputLength, max lengths.2 outputLength)
  batchWeight lengths batchSize := batchSize * (lengths.1 + lengths.2) ^ 2
  prefillWeight lengths batchSize := batchSize * Nat.sqrt (lengths.1 ^ 3)
  exceedsWeight := PaddedBatch.exceedsWeight

end TgiRouter
