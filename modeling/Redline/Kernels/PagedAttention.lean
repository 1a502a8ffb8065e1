import Redline.Core.Types
import Redline.Lib.BlockReduce
import Redline.Lib.Extended
import Redline.Lib.Shuffle
import Redline.Lib.Stores

/-!
# Paged decode attention

`kernels/paged_attention.cu`: the decode kernel, one CTA for a sequence and a KV head, and its test
oracle, one warp for a sequence and a query head.  Values are exact, with infinities and NaN; what a
kernel does to memory is the list of its stores.

Between two barriers every thread reads the shared memory as it was at the first one.  A copy of the
pipeline may arrive at any time before it is waited for, byte by byte (`Unspecified.arrives`).
-/

namespace Redline
open Extended Stores
variable {K : Type*}

def kHeadDim : Nat := 128
def kGroupSize : Nat := 6
def kWarpSize : Nat := 32
def kDimsPerLane : Nat := 4

/-- halves of a `uint4` -/
def kVecHalves : Nat := 8
def kTileVecs : Nat := kKvBlockSize * kHeadDim / kVecHalves

/-- lanes that share one score -/
def kScoreLanes : Nat := 8

/-- element offset of `(block, kv, kv_head, slot, 0)` in one layer of the pool -/
def poolRowOffset (block kv kvHead numKvHeads slot : Int) : Int :=
  (((block * 2 + kv) * numKvHeads + kvHead) * kKvBlockSize + slot) * kHeadDim

/-- what both launchers are given -/
structure DecodeArgs (K : Type*) where
  outRowStride : Int
  q : Int → Extended K
  qRowStride : Int
  kvPoolLayer : Int → Extended K
  blockTables : Int → Int
  seqLens : Nat → Int
  maxBlocksPerSeq : Int
  numKvHeads : Int
  scale : K

namespace DecodeArgs
variable (a : DecodeArgs K)

/-- the length that both kernels use: no block table is read past its row -/
def seqLen (seq : Nat) : Int := min (a.seqLens seq) (a.maxBlocksPerSeq * kKvBlockSize)

def tableRow (seq tile : Nat) : Int := a.blockTables (seq * a.maxBlocksPerSeq + tile)

end DecodeArgs

/-! ## the decode kernel -/

/-- the two instantiations of the kernel -/
inductive DecodeThreads where
  | kThreadsPreAmpere
  | kThreadsAmpere
  deriving DecidableEq, Repr

def DecodeThreads.count : DecodeThreads → Nat
  | kThreadsPreAmpere => 128
  | kThreadsAmpere => 256

def DecodeThreads.headsPerThread (T : DecodeThreads) : Nat := kGroupSize * kHeadDim / T.count

def DecodeThreads.headStride (T : DecodeThreads) : Nat := T.count / kHeadDim

/-- a tile is `(buffer, slot * 128 + dim)`, the other arrays are `(head, dim)`, `(head, slot)` and `head` -/
structure SharedStorage (K : Type*) where
  qTile : Nat × Nat → Extended K
  kTile : Nat × Nat → Extended K
  vTile : Nat × Nat → Extended K
  scores : Nat × Nat → Extended K
  m : Nat → Extended K
  l : Nat → Extended K
  alpha : Nat → Extended K

/-- the copies of one tile -/
structure TileCopies (K : Type*) where
  k : List ((Nat × Nat) × Extended K)
  v : List ((Nat × Nat) × Extended K)

structure CtaState (K : Type*) where
  shared : SharedStorage K
  /-- the accumulators of each thread -/
  acc : Nat → Nat → Extended K
  /-- the committed copies that were not waited for, the oldest first -/
  inFlight : List (TileCopies K)

/-- what the device leaves open: the shared memory at the start of a CTA, and which elements of the copies of
a tile (of its keys, side 0, and of its values) arrive before they are waited for -/
structure Unspecified (K : Type*) where
  shared : SharedStorage K
  arrives : Nat → Nat → Nat × Nat → Bool

section
variable [Field K] [LinearOrder K]

/-! ### staging -/

def TileCopies.filter (g : TileCopies K) (p : Nat → Nat × Nat → Bool) : TileCopies K :=
  ⟨g.k.filter fun w => p 0 w.1, g.v.filter fun w => p 1 w.1⟩

def SharedStorage.land (s : SharedStorage K) (g : TileCopies K) : SharedStorage K :=
  { s with
    kTile := store s.kTile g.k
    vTile := store s.vTile g.v }

/-- the copies of one side of a tile: each thread moves every `T`-th vector -/
def stageTile (T : DecodeThreads) (a : DecodeArgs K) (seq kvHead kv tile buf : Nat) :
    List ((Nat × Nat) × Extended K) :=
  let base := poolRowOffset (a.tableRow seq tile) kv kvHead a.numKvHeads 0
  (List.range T.count).flatMap fun tid => (BlockReduce.strided T.count kTileVecs tid).flatMap fun i =>
    (List.range kVecHalves).map fun e =>
    ((buf, i * kVecHalves + e), a.kvPoolLayer (base + (i * kVecHalves + e : Nat)))

def tileCopies (T : DecodeThreads) (a : DecodeArgs K) (seq kvHead tile buf : Nat) : TileCopies K :=
  ⟨stageTile T a seq kvHead 0 tile buf, stageTile T a seq kvHead 1 tile buf⟩

/-- `__pipeline_memcpy_async` and `__pipeline_commit`: some elements arrive now, the others when they are waited
for -/
def CtaState.commit (c : CtaState K) (arrives : Nat → Nat × Nat → Bool) (g : TileCopies K) :
    CtaState K :=
  { c with
    shared := c.shared.land (g.filter arrives)
    inFlight := c.inFlight ++ [g.filter fun side key => !arrives side key] }

/-- `__pipeline_wait_prior`: all but the last `n` groups have arrived -/
def CtaState.waitPrior (c : CtaState K) (n : Nat) : CtaState K :=
  let done := c.inFlight.length - n
  { c with
    shared := (c.inFlight.take done).foldl SharedStorage.land c.shared
    inFlight := c.inFlight.drop done }

/-- the buffer of a tile -/
def tileBuffer (cpAsync : Bool) (tile : Nat) : Nat := if cpAsync then tile % 2 else 0

/-- stage the tile, or the next one and wait for this one -/
def CtaState.stage (c : CtaState K) (T : DecodeThreads) (cpAsync : Bool) (u : Unspecified K)
    (a : DecodeArgs K) (seq kvHead numTiles tile : Nat) : CtaState K :=
  if cpAsync then
    if tile + 1 < numTiles then
      (c.commit (u.arrives (tile + 1)) (tileCopies T a seq kvHead (tile + 1) ((tile + 1) % 2))).waitPrior 1
    else c.waitPrior 0
  else { c with shared := c.shared.land (tileCopies T a seq kvHead tile 0) }

/-! ### scores -/

/-- the part of the dot product of one lane: 8 dims of each half of the head -/
def SharedStorage.partialDot (s : SharedStorage K) (buf pair sub : Nat) : Extended K :=
  let h := pair / kKvBlockSize
  let t := pair % kKvBlockSize
  (List.range 2).foldl (fun dot c => (List.range 8).foldl (fun dot e =>
    let d := 64 * c + 8 * sub + e
    fma (s.qTile (h, d)) (s.kTile (buf, t * kHeadDim + d)) dot) dot) 0

/-- the stores of thread `tid`: the first lane of each group of eight stores the masked score -/
def SharedStorage.scoreThread (s : SharedStorage K) (T : DecodeThreads)
    (buf tileStart seqLen tid : Nat) :
    List ((Nat × Nat) × Extended K) :=
  let warp := tid / kWarpSize
  let lane := tid % kWarpSize
  let sub := lane % kScoreLanes
  let wpair := lane / kScoreLanes
  let pairsPerWarp := kWarpSize / kScoreLanes
  (BlockReduce.strided (T.count / kWarpSize * pairsPerWarp) (kGroupSize * kKvBlockSize)
    (warp * pairsPerWarp + wpair)).flatMap fun pair =>
      let dot := Shuffle.down (fun x y => x + y) kWarpSize 3
        (fun lane => s.partialDot buf (pair - wpair + lane / kScoreLanes) (lane % kScoreLanes)) lane
      let t := pair % kKvBlockSize
      if sub = 0 then [((pair / kKvBlockSize, t),
        if tileStart + t < seqLen then dot else negInf)] else []

def SharedStorage.scorePhase (s : SharedStorage K) (T : DecodeThreads) (buf tileStart seqLen : Nat) :
    SharedStorage K :=
  { s with scores := store s.scores ((List.range T.count).flatMap (s.scoreThread T buf tileStart seqLen)) }

/-! ### probabilities; thread `tid` has head `tid / 16` and slot `tid % 16` -/

section
variable (s : SharedStorage K) (e : K → K) (tileValid tid : Nat)

def SharedStorage.scoreOf : Extended K := s.scores (tid / kKvBlockSize, tid % kKvBlockSize)

/-- the lanes of a head are 16 in a row, and `xor` with an offset below 16 stays among them -/
def SharedStorage.mNew : Extended K :=
  fmax (s.m (tid / kKvBlockSize)) (Shuffle.butterfly fmax 4 s.scoreOf tid)

def SharedStorage.prob : Extended K :=
  if tid % kKvBlockSize < tileValid then exp e (s.scoreOf tid - s.mNew tid) else 0

def SharedStorage.tileSum : Extended K :=
  Shuffle.butterfly (fun x y => x + y) 4 (s.prob e tileValid) tid

def SharedStorage.alphaNew : Extended K := exp e (s.m (tid / kKvBlockSize) - s.mNew tid)

end

/-- `for each thread with a head and a slot` -/
def softmaxThreads {A : Type*} (T : DecodeThreads) (stores : Nat → List A) : List A :=
  (List.range T.count).flatMap fun tid => if tid < kGroupSize * kKvBlockSize then stores tid else []

/-- the head state is stored by the lane of slot 0 -/
def headStores (T : DecodeThreads) (value : Nat → Extended K) : List (Nat × Extended K) :=
  softmaxThreads T fun tid => if tid % kKvBlockSize = 0 then [(tid / kKvBlockSize, value tid)] else []

def SharedStorage.softmaxPhase (s : SharedStorage K) (T : DecodeThreads) (e : K → K) (tileValid : Nat) :
    SharedStorage K :=
  { s with
    scores := store s.scores (softmaxThreads T fun tid =>
      [((tid / kKvBlockSize, tid % kKvBlockSize), s.prob e tileValid tid)])
    alpha := store s.alpha (headStores T (s.alphaNew e))
    m := store s.m (headStores T s.mNew)
    l := store s.l (headStores T fun tid =>
      s.l (tid / kKvBlockSize) * s.alphaNew e tid + s.tileSum e tileValid tid) }

/-! ### the loop over the tiles -/

/-- the head of accumulator `j` of a thread -/
def ownedHead (T : DecodeThreads) (tid j : Nat) : Nat := tid / kHeadDim + j * T.headStride

def foldTile (s : SharedStorage K) (T : DecodeThreads) (buf tileValid : Nat)
    (acc : Nat → Nat → Extended K) (tid j : Nat) :
    Extended K :=
  let dOwn := tid % kHeadDim
  let h := ownedHead T tid j
  -- a full tile takes the unrolled loop
  let tokens := if tileValid = kKvBlockSize then List.range kKvBlockSize else List.range tileValid
  tokens.foldl (fun x t => fma (s.scores (h, t)) (s.vTile (buf, t * kHeadDim + dOwn)) x)
    (acc tid j * s.alpha h)

def tileStep (e : K → K) (T : DecodeThreads) (cpAsync : Bool) (u : Unspecified K) (a : DecodeArgs K)
    (seq kvHead seqLen numTiles : Nat) (c : CtaState K) (tile : Nat) : CtaState K :=
  let tileStart := tile * kKvBlockSize
  let tileValid := min kKvBlockSize (seqLen - tileStart)
  let staged := c.stage T cpAsync u a seq kvHead numTiles tile
  let buf := tileBuffer cpAsync tile
  let s := (staged.shared.scorePhase T buf tileStart seqLen).softmaxPhase T e tileValid
  { staged with
    shared := s
    acc := foldTile s T buf tileValid staged.acc }

/-- the queries, scaled, and the state of each head -/
def ctaStart (T : DecodeThreads) (cpAsync : Bool) (u : Unspecified K) (a : DecodeArgs K)
    (seq kvHead : Nat) :
    CtaState K :=
  let qRow : Int := seq * a.qRowStride + kvHead * kGroupSize * kHeadDim
  let heads := fun (value : Extended K) => (List.range T.count).flatMap fun tid =>
    if tid < kGroupSize then [(tid, value)] else []
  let c : CtaState K :=
    { shared :=
        { u.shared with
          qTile := store u.shared.qTile ((List.range T.count).flatMap fun tid =>
            (BlockReduce.strided T.count (kGroupSize * kHeadDim) tid).map fun (i : Nat) =>
              ((i / kHeadDim, i % kHeadDim), a.q (qRow + i) * real a.scale))
          m := store u.shared.m (heads negInf)
          l := store u.shared.l (heads 0) }
      acc := fun _ _ => 0
      inFlight := [] }
  if cpAsync then c.commit (u.arrives 0) (tileCopies T a seq kvHead 0 0) else c

def ctaFinal (e : K → K) (T : DecodeThreads) (cpAsync : Bool) (u : Unspecified K) (a : DecodeArgs K)
    (seq kvHead seqLen : Nat) : CtaState K :=
  let numTiles := (seqLen + kKvBlockSize - 1) / kKvBlockSize
  (List.range numTiles).foldl (tileStep e T cpAsync u a seq kvHead seqLen numTiles)
    (ctaStart T cpAsync u a seq kvHead)

/-- the stores of one CTA -/
def pagedAttentionDecodeKernel (e : K → K) (T : DecodeThreads) (cpAsync : Bool) (u : Unspecified K)
    (a : DecodeArgs K) (seq kvHead : Nat) : List (Int × Extended K) :=
  if a.seqLen seq ≤ 0 then [] -- padded batch slot
  else
    let c := ctaFinal e T cpAsync u a seq kvHead (a.seqLen seq).toNat
    let outRow : Int := seq * a.outRowStride + kvHead * kGroupSize * kHeadDim
    (List.range T.count).flatMap fun tid => (List.range T.headsPerThread).map fun j =>
      let h := ownedHead T tid j
      (outRow + (h * kHeadDim + tid % kHeadDim : Nat), c.acc tid j / c.shared.l h)

/-! ## the oracle -/

section
variable (a : DecodeArgs K) (seq qHead kvHead : Nat)

/-- `lane` owns the dims `lane + 32 * j` -/
def oracleDim (lane j : Nat) : Nat := lane + j * kWarpSize

def oraclePoolRow (kv pos : Nat) : Int :=
  poolRowOffset (a.tableRow seq (pos / kKvBlockSize)) kv kvHead a.numKvHeads (pos % kKvBlockSize : Nat)

def oracleScoreAt (pos lane : Nat) : Extended K :=
  let qRow : Int := seq * a.qRowStride + qHead * kHeadDim
  Shuffle.butterfly (fun x y => x + y) 5 (fun lane => (List.range kDimsPerLane).foldl (fun dot j =>
    fma (a.q (qRow + oracleDim lane j) * real a.scale)
      (a.kvPoolLayer (oraclePoolRow a seq kvHead 0 pos + oracleDim lane j)) dot) 0) lane

/-- pass 1 -/
def oracleMax (seqLen lane : Nat) : Extended K :=
  (List.range seqLen).foldl (fun m pos => fmax m (oracleScoreAt a seq qHead kvHead pos lane)) negInf

variable (e : K → K)

/-- pass 2 -/
def oracleDenom (seqLen lane : Nat) : Extended K :=
  let m := oracleMax a seq qHead kvHead seqLen lane
  (List.range seqLen).foldl (fun l pos => l + exp e (oracleScoreAt a seq qHead kvHead pos lane - m)) 0

def oracleAcc (seqLen lane j : Nat) : Extended K :=
  let m := oracleMax a seq qHead kvHead seqLen lane
  (List.range seqLen).foldl (fun acc pos => fma (exp e (oracleScoreAt a seq qHead kvHead pos lane - m))
    (a.kvPoolLayer (oraclePoolRow a seq kvHead 1 pos + oracleDim lane j)) acc) 0

end

def pagedAttentionDecodeOracleKernel (e : K → K) (a : DecodeArgs K) (qHeadsPerKv seq qHead : Nat) :
    List (Int × Extended K) :=
  if a.seqLen seq ≤ 0 then [] -- padded batch slot
  else
    let seqLen := (a.seqLen seq).toNat
    let kvHead := qHead / qHeadsPerKv
    let outRow : Int := seq * a.outRowStride + qHead * kHeadDim
    (List.range kWarpSize).flatMap fun lane => (List.range kDimsPerLane).map fun j =>
      (outRow + oracleDim lane j,
        oracleAcc a seq qHead kvHead e seqLen lane j / oracleDenom a seq qHead kvHead e seqLen lane)

/-! ## the launches; `none` where a launcher aborts -/

/-- `CheckCommonContract`, with the frozen head size and without null pointers -/
def checkCommonContract (a : DecodeArgs K) (numQHeads : Int) : Bool :=
  decide (1 ≤ a.numKvHeads ∧ a.numKvHeads ≤ numQHeads ∧ numQHeads % a.numKvHeads = 0) &&
    decide (1 ≤ a.maxBlocksPerSeq) &&
    decide (numQHeads * kHeadDim ≤ a.qRowStride ∧ numQHeads * kHeadDim ≤ a.outRowStride)

def launchPagedAttentionDecode (e : K → K) (T : DecodeThreads) (cpAsync : Bool)
    (u : Nat → Nat → Unspecified K)
    (a : DecodeArgs K) (numSeqs numQHeads : Int) : Option (List (Int × Extended K)) :=
  if numSeqs ≤ 0 then some []
  else if checkCommonContract a numQHeads && decide (numQHeads = a.numKvHeads * kGroupSize) then
    some ((List.range numSeqs.toNat).flatMap fun seq =>
      (List.range a.numKvHeads.toNat).flatMap fun kvHead =>
      pagedAttentionDecodeKernel e T cpAsync (u seq kvHead) a seq kvHead)
  else none

def launchPagedAttentionDecodeOracle (e : K → K) (a : DecodeArgs K) (numSeqs numQHeads : Int) :
    Option (List (Int × Extended K)) :=
  if numSeqs ≤ 0 then some []
  else if checkCommonContract a numQHeads then
    some ((List.range numSeqs.toNat).flatMap fun seq =>
      (List.range numQHeads.toNat).flatMap fun qHead =>
      pagedAttentionDecodeOracleKernel e a (numQHeads.tdiv a.numKvHeads).toNat seq qHead)
  else none

end
end Redline
