import Redline.Lib.Prog

/-!
# Scalar types, requests and block tables

`core/types.hpp`, `core/request.hpp` and `core/block_table.hpp`.  Token ids, block ids and batch
slots are `Int` (the code compares them with negative sentinels); lengths, positions and counters
that start at zero and only grow are `Nat`.  A request id is a `Nat`, and so is a shared pointer
to a request: its address `r` in the heap of requests.
-/

namespace Redline

/-- host-side sentinel -/
def kInvalidBlockId : Int := -1

/-- block 0, the padding target of the device block tables -/
def kDummyBlockId : Int := 0

/-- tokens per KV block -/
def kKvBlockSize : Nat := 16

/-- blocks that hold `numTokens` tokens -/
def blocksForTokens (numTokens : Nat) : Nat := (numTokens + kKvBlockSize - 1) / kKvBlockSize

theorem blocksForTokens_zero : blocksForTokens 0 = 0 := rfl

theorem blocksForTokens_le (n k : Nat) : blocksForTokens n ≤ k ↔ n ≤ k * kKvBlockSize := by
  unfold blocksForTokens kKvBlockSize
  omega

theorem blocksForTokens_mono {m n : Nat} (h : m ≤ n) : blocksForTokens m ≤ blocksForTokens n := by
  unfold blocksForTokens kKvBlockSize
  omega

theorem blocksForTokens_pos {n : Nat} (h : 0 < n) : 0 < blocksForTokens n := by
  unfold blocksForTokens kKvBlockSize
  omega

inductive FinishReason where
  | kNone
  | kEos
  | kLength
  | kAborted
  deriving DecidableEq, Repr

/-- one report of a `Step`: a generated token, or an abort (token 0) -/
structure StepResult where
  requestId : Nat
  token : Int
  finished : Bool
  finishReason : FinishReason
  deriving DecidableEq, Repr

/-! ## block tables -/

/-- logical block index to physical block -/
structure BlockTable where
  blocks : List Int
  deriving DecidableEq, Repr

namespace BlockTable

def append (t : BlockTable) (block : Int) : BlockTable := ⟨t.blocks ++ [block]⟩

def numBlocks (t : BlockTable) : Nat := t.blocks.length

/-- tokens that fit into the blocks owned now -/
def tokenCapacity (t : BlockTable) : Nat := t.numBlocks * kKvBlockSize

/-- the ids handed back, and the table left empty -/
def release (t : BlockTable) : List Int × BlockTable := (t.blocks, ⟨[]⟩)

@[simp] theorem append_blocks (t : BlockTable) (b : Int) :
    (t.append b).blocks = t.blocks ++ [b] := rfl

@[simp] theorem append_numBlocks (t : BlockTable) (b : Int) :
    (t.append b).numBlocks = t.numBlocks + 1 := by simp [numBlocks]

/-- the table covers the first `n` positions -/
theorem le_tokenCapacity (t : BlockTable) (n : Nat) :
    n ≤ t.tokenCapacity ↔ blocksForTokens n ≤ t.numBlocks := (blocksForTokens_le _ _).symm

end BlockTable

/-! ## requests -/

inductive RequestState where
  | kWaiting
  | kPrefill
  | kRunning
  | kFinished
  deriving DecidableEq, Repr

/-- a generation request, with the scheduler's bookkeeping -/
structure Request where
  id : Nat := 0
  promptTokens : List Int := []
  outputTokens : List Int := []
  maxNewTokens : Int := 0
  ignoreEos : Bool := false
  /-- teacher forcing: the `n`-th generated token, as far as the list goes -/
  forcedTokens : List Int := []
  state : RequestState := .kWaiting
  finishReason : FinishReason := .kNone
  slot : Int := -1
  /-- blocks promised at admission and not yet materialized -/
  reservedBlocks : Int := 0
  prefillProgress : Nat := 0
  blockTable : BlockTable := ⟨[]⟩
  deriving DecidableEq, Repr

namespace Request

def numPromptTokens (q : Request) : Nat := q.promptTokens.length
def numOutputTokens (q : Request) : Nat := q.outputTokens.length
def seqLen (q : Request) : Nat := q.numPromptTokens + q.numOutputTokens
def prefillDone (q : Request) : Bool := decide (q.numPromptTokens ≤ q.prefillProgress)

end Request

end Redline
