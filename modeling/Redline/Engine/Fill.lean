import Redline.Core.Engine

/-!
# What the fills leave in the mirrors

`DecodeRowOk` and `ChunkOk` are the conditions the fills check.  Under them a fill returns, and
its stores are the rows it should upload:

* `fillDecodeMirrors_returns`, `row_decodeLog`   row `r` of the mirrors is the row of the `r`-th
                                                 request, and the rows after them are padding;
* `fillPrefillMirrors_returns`, `row_chunkLog`   row `i` is position `chunk_begin + i` of the
                                                 prompt, with the one table in row 0.
-/

namespace Redline
open Script

/-- the block-table row of a request, padded with the dummy block -/
def Executor.tableRow (x : Executor) (blocks : List Int) : List Int :=
  blocks ++ List.replicate (x.maxBlocksPerSeq - blocks.length) kDummyBlockId

/-- consecutive stores from `base` on -/
def storeRow (mirror : Mirror) (base : Nat) (l : List Int) : List Action :=
  (l.zipIdx base).map fun p => .store ⟨mirror, p.2, p.1⟩

/-- a table of real blocks that covers what is needed and fits the device table -/
structure TableOk (x : Executor) (needed : Nat) (blocks : List Int) : Prop where
  covers : needed ≤ blocks.length
  width : blocks.length ≤ x.maxBlocksPerSeq
  ids : ∀ b ∈ blocks, kDummyBlockId < b ∧ b < x.numKvBlocks

/-- the request fits a decode row, whatever its last token is -/
structure DecodeRowFits (x : Executor) (q : Request) : Prop where
  token : q.outputTokens ≠ []
  seqLen : 1 ≤ q.seqLen ∧ (q.seqLen : Int) ≤ x.options.maxSeqLen
  table : TableOk x (blocksForTokens q.seqLen) q.blockTable.blocks

structure DecodeRowOk (x : Executor) (q : Request) : Prop extends DecodeRowFits x q where
  vocab : x.inVocabulary (q.outputTokens.getLastD 0)

structure ChunkOk (x : Executor) (q : Request) (chunkBegin chunkEnd : Nat) : Prop where
  slice : chunkBegin < chunkEnd ∧ chunkEnd ≤ q.numPromptTokens
  rows : ((chunkEnd - chunkBegin : Nat) : Int) ≤ x.options.prefillChunkTokens
  seqLen : (chunkEnd : Int) ≤ x.options.maxSeqLen
  vocab : ∀ t ∈ q.promptTokens, x.inVocabulary t
  table : TableOk x (blocksForTokens chunkEnd) q.blockTable.blocks

/-- the checks of a chunk, which look at its own tokens only -/
structure SliceOk (x : Executor) (q : Request) (chunkBegin chunkEnd : Nat) : Prop where
  slice : chunkBegin < chunkEnd ∧ chunkEnd ≤ q.numPromptTokens
  rows : ((chunkEnd - chunkBegin : Nat) : Int) ≤ x.options.prefillChunkTokens
  seqLen : (chunkEnd : Int) ≤ x.options.maxSeqLen
  vocab : ∀ t ∈ (q.promptTokens.drop chunkBegin).take (chunkEnd - chunkBegin), x.inVocabulary t
  table : TableOk x (blocksForTokens chunkEnd) q.blockTable.blocks

theorem ChunkOk.sliceOk {x : Executor} {q : Request} {chunkBegin chunkEnd : Nat}
    (h : ChunkOk x q chunkBegin chunkEnd) : SliceOk x q chunkBegin chunkEnd :=
  ⟨h.slice, h.rows, h.seqLen, fun t ht => h.vocab t (List.mem_of_mem_drop (List.mem_of_mem_take ht)),
    h.table⟩

/-! ## stores -/

def Action.isStore : Action → Bool
  | .store _ => true
  | _ => false

def NoStore (l : List Action) : Prop := ∀ a ∈ l, a.isStore = false

theorem noStore_append {a b : List Action} (ha : NoStore a) (hb : NoStore b) : NoStore (a ++ b) :=
  List.forall_mem_append.mpr ⟨ha, hb⟩

namespace Executor

theorem afterLog_append (a b : List Action) (m : Mirrors) :
    afterLog (a ++ b) m = afterLog b (afterLog a m) := List.foldl_append

theorem afterLog_cons (a : Action) (l : List Action) (m : Mirrors) :
    afterLog (a :: l) m = afterLog l (Action.apply m a) := rfl

/-- actions other than stores leave the mirrors alone -/
theorem afterLog_of_noStore {l : List Action} (h : NoStore l) (m : Mirrors) : afterLog l m = m := by
  induction l with
  | nil => rfl
  | cons a l ih =>
    have ha : Action.apply m a = m := by
      cases a with
      | store w => cases h _ List.mem_cons_self
      | _ => rfl
    rw [afterLog_cons, ha]
    exact ih fun b hb => h b (List.mem_cons_of_mem _ hb)

theorem store_other (m : Mirrors) (w : Store) {k : Mirror} {j : Nat}
    (h : k ≠ w.mirror ∨ j ≠ w.index) : m.store w k j = m k j := by
  unfold Mirrors.store
  by_cases hk : k = w.mirror
  · subst hk
    rw [Function.update_self, Function.update_of_ne (h.resolve_left fun h => h rfl)]
  · rw [Function.update_of_ne hk]

theorem store_self (m : Mirrors) (w : Store) : m.store w w.mirror w.index = w.value := by
  unfold Mirrors.store
  rw [Function.update_self, Function.update_self]

theorem storeRow_cons (k : Mirror) (base : Nat) (v : Int) (l : List Int) :
    storeRow k base (v :: l) = .store ⟨k, base, v⟩ :: storeRow k (base + 1) l := rfl

theorem afterLog_storeRow_out (k : Mirror) (l : List Int) : ∀ (base : Nat) (m : Mirrors)
    (k' : Mirror) (j : Nat), (k' ≠ k ∨ j < base ∨ base + l.length ≤ j) →
    afterLog (storeRow k base l) m k' j = m k' j := by
  induction l with
  | nil => intro base m k' j _; rfl
  | cons v l ih =>
    intro base m k' j h
    rw [List.length_cons] at h
    rw [storeRow_cons, afterLog_cons, ih (base + 1) _ k' j (h.imp_right fun h => by omega)]
    apply store_other
    show k' ≠ k ∨ j ≠ base
    exact h.imp_right fun h => by omega

theorem afterLog_storeRow (k : Mirror) (l : List Int) : ∀ (base : Nat) (m : Mirrors) (i : Nat)
    (h : i < l.length), afterLog (storeRow k base l) m k (base + i) = l[i] := by
  induction l with
  | nil => intro base m i h; exact absurd h (Nat.not_lt_zero _)
  | cons v l ih =>
    intro base m i h
    rw [storeRow_cons, afterLog_cons]
    cases i with
    | zero =>
      rw [afterLog_storeRow_out k l (base + 1) _ k (base + 0) (by omega)]
      exact store_self m ⟨k, base, v⟩
    | succ i =>
      have := ih (base + 1) (Action.apply m (.store ⟨k, base, v⟩)) i (by simpa using h)
      rw [show base + 1 + i = base + (i + 1) by omega] at this
      exact this

/-- a table stored at `base` is read back -/
theorem table_storeRow (l : List Int) (base : Nat) (m : Mirrors) :
    ((List.range l.length).map fun i =>
      afterLog (storeRow .blockTables base l) m .blockTables (base + i))
      = l := by
  apply List.ext_getElem
  · simp
  · intro i h1 h2
    rw [List.getElem_map, List.getElem_range]
    exact afterLog_storeRow _ l base m i h2

theorem storeRow_append (k : Mirror) (base : Nat) (a b : List Int) :
    storeRow k base (a ++ b) = storeRow k base a ++ storeRow k (base + a.length) b := by
  unfold storeRow
  rw [List.zipIdx_append, List.map_append]

theorem storeRow_replicate (k : Mirror) (v : Int) : ∀ (n base : Nat),
    storeRow k base (List.replicate n v)
      = (List.range' base n).map fun i => .store ⟨k, i, v⟩ := by
  intro n
  induction n with
  | zero => intro base; rfl
  | succ n ih =>
    intro base
    rw [List.replicate_succ, storeRow_cons, ih, List.range'_succ, List.map_cons]

/-! ## table rows -/

section
variable {x : Executor}

theorem length_tableRow {blocks : List Int} (h : blocks.length ≤ x.maxBlocksPerSeq) :
    (x.tableRow blocks).length = x.maxBlocksPerSeq := by
  unfold tableRow
  rw [List.length_append, List.length_replicate]
  omega

theorem fillTableRow_returns {needed : Nat} {blocks : List Int} (h : TableOk x needed blocks)
    (base : Nat) (bad : Nat → Int → ExecutorError) :
    Returns (x.fillTableRow base blocks bad) (storeRow .blockTables base (x.tableRow blocks)) () := by
  have hloop : Returns (each (fun i block => do
        assert (block ≠ kInvalidBlockId)
        failIf (block ≤ kDummyBlockId ∨ x.numKvBlocks ≤ block) (bad i block)
        put .blockTables (base + i) block) 0 blocks)
      (storeRow .blockTables base blocks) () := by
    have hg := each_returns (fun i block => do
        assert (block ≠ kInvalidBlockId)
        failIf (block ≤ kDummyBlockId ∨ x.numKvBlocks ≤ block) (bad i block)
        put .blockTables (base + i) block)
      (fun i block => [Action.store ⟨.blockTables, base + i, block⟩]) blocks 0 (by
        intro k b hk
        have hb := h.ids b (List.mem_of_getElem? hk)
        refine (returns_assert ?_).then ((returns_failIf ?_ _).then (returns_emit _))
        · unfold kDummyBlockId at hb
          unfold kInvalidBlockId
          omega
        · omega)
    have he : (blocks.zipIdx 0).flatMap (fun p => [Action.store ⟨.blockTables, base + p.2, p.1⟩])
        = storeRow .blockTables base blocks := by
      have hz : blocks.zipIdx base = (blocks.zipIdx 0).map fun p => (p.1, base + p.2) :=
        List.zipIdx_eq_map_add
      unfold storeRow
      rw [hz, List.map_map, ← List.map_eq_flatMap]
      rfl
    rw [he] at hg
    exact hg
  have hdummy : Returns (fillDummy (base + blocks.length) (base + x.maxBlocksPerSeq))
      (storeRow .blockTables (base + blocks.length)
        (List.replicate (x.maxBlocksPerSeq - blocks.length) kDummyBlockId)) () := by
    rw [storeRow_replicate]
    unfold fillDummy
    rw [Nat.add_sub_add_left]
    exact returns_emitAll _
  unfold fillTableRow tableRow
  rw [storeRow_append]
  exact hloop.bind hdummy

/-! ## decode rows -/

/-- what a decode step uploads for a request -/
def decodeRow (x : Executor) (q : Request) : DeviceRow :=
  { inputId := q.outputTokens.getLastD 0
    position := q.seqLen - 1
    extent := q.seqLen
    table := x.tableRow q.blockTable.blocks }

def paddedRow (x : Executor) : DeviceRow :=
  { inputId := 0
    position := 0
    extent := 0
    table := List.replicate x.maxBlocksPerSeq kDummyBlockId }

/-- the stores of one decode row -/
def decodeRowLog (x : Executor) (r : Nat) (row : DeviceRow) : List Action :=
  .store ⟨.inputIds, r, row.inputId⟩ :: .store ⟨.positions, r, row.position⟩ ::
    .store ⟨.seqLens, r, row.extent⟩ :: storeRow .blockTables (r * x.maxBlocksPerSeq) row.table

def decodeLog (x : Executor) (i : Nat) (rows : List DeviceRow) : List Action :=
  (rows.zipIdx i).flatMap fun p => x.decodeRowLog p.2 p.1

theorem decodeLog_cons (i : Nat) (row : DeviceRow) (rows : List DeviceRow) :
    x.decodeLog i (row :: rows) = x.decodeRowLog i row ++ x.decodeLog (i + 1) rows := by
  unfold decodeLog
  rw [List.zipIdx_cons, List.flatMap_cons]

theorem decodeLog_append (i : Nat) (a b : List DeviceRow) :
    x.decodeLog i (a ++ b) = x.decodeLog i a ++ x.decodeLog (i + a.length) b := by
  unfold decodeLog
  rw [List.zipIdx_append, List.flatMap_append]

theorem fillDecodeRow_returns {q : Request} (h : DecodeRowOk x q) (r : Nat) :
    Returns (x.fillDecodeRow r q) (x.decodeRowLog r (x.decodeRow q)) () := by
  have hs := h.seqLen
  have hc := h.table.covers
  have hw := h.table.width
  have hpos : ((q.seqLen - 1 : Nat) : Int) = (q.seqLen : Int) - 1 := by omega
  unfold fillDecodeRow decodeRowLog decodeRow
  rw [hpos]
  exact (returns_failIf h.token _).then <| (returns_failIf (by omega) _).then <|
    (returns_failIf (not_not_intro h.vocab) _).then <| (returns_failIf (by omega) _).then <|
    (returns_failIf (by omega) _).then <| (returns_emit _).bind <| (returns_emit _).bind <|
    (returns_emit _).bind <| fillTableRow_returns h.table _ _

/-- only the vocabulary check can fail on a row that fits -/
theorem fillDecodeRow_total {q : Request} (h : DecodeRowFits x q) (r : Nat) :
    Total (fun _ => x.inVocabulary (q.outputTokens.getLastD 0)) (x.fillDecodeRow r q) := by
  unfold fillDecodeRow
  refine (total_failIf _ _).bind fun _ _ => (total_failIf _ _).bind fun _ _ =>
    (total_failIf _ _).bind fun _ hv => (total_failIf _ _).bind fun _ _ =>
    (total_failIf _ _).bind fun _ _ => (total_emit _).bind fun _ _ => (total_emit _).bind fun _ _ =>
    (total_emit _).bind fun _ _ => ?_
  exact (fillTableRow_returns h.table _ _).total (not_not.mp hv)

theorem fillPaddedRow_returns (r : Nat) :
    Returns (x.fillPaddedRow r) (x.decodeRowLog r x.paddedRow) () := by
  unfold fillPaddedRow decodeRowLog paddedRow fillDummy
  rw [storeRow_replicate, Nat.add_sub_cancel_left]
  exact (returns_emit _).bind <| (returns_emit _).bind <| (returns_emit _).bind <| returns_emitAll _

/-- the rows of a decode step: the live ones, then padding up to `rows` -/
def decodeRows (x : Executor) (batch : List Request) (rows : Nat) : List DeviceRow :=
  batch.map x.decodeRow ++ List.replicate (rows - batch.length) x.paddedRow

theorem fillDecodeMirrors_returns {batch : List Request} (h : ∀ q ∈ batch, DecodeRowOk x q)
    (padToRows : Nat)
    (hp : 0 < padToRows → batch.length ≤ padToRows ∧ (padToRows : Int) ≤ x.options.maxBatch) :
    Returns (x.fillDecodeMirrors batch padToRows)
      (x.decodeLog 0 (x.decodeRows batch (x.executedRows batch.length padToRows)))
      (x.executedRows batch.length padToRows) := by
  have hlive : Returns (each x.fillDecodeRow 0 batch) (x.decodeLog 0 (batch.map x.decodeRow)) () := by
    have hg := each_returns x.fillDecodeRow (fun r q => x.decodeRowLog r (x.decodeRow q)) batch 0
      fun k q hk => fillDecodeRow_returns (h q (List.mem_of_getElem? hk)) _
    unfold decodeLog
    rw [List.zipIdx_map, List.flatMap_map]
    exact hg
  have hpad : ∀ n i j, Returns (each (fun _ r => x.fillPaddedRow r) j (List.range' i n))
      (x.decodeLog i (List.replicate n x.paddedRow)) () := by
    intro n
    induction n with
    | zero => intro i j; rfl
    | succ n ih =>
      intro i j
      rw [List.range'_succ, List.replicate_succ, decodeLog_cons]
      exact (fillPaddedRow_returns i).bind (ih (i + 1) (j + 1))
  unfold fillDecodeMirrors decodeRows
  rw [decodeLog_append, List.length_map, Nat.zero_add]
  have hend := Returns.bind (f := fun _ => pure (x.executedRows batch.length padToRows))
    (hpad (x.executedRows batch.length padToRows - batch.length) batch.length batch.length)
    (returns_pure _)
  rw [List.append_nil] at hend
  exact (returns_assert hp).then (hlive.bind hend)

theorem fillDecodeMirrors_total {batch : List Request} (h : ∀ q ∈ batch, DecodeRowFits x q)
    {padToRows : Nat}
    (hp : 0 < padToRows → batch.length ≤ padToRows ∧ (padToRows : Int) ≤ x.options.maxBatch) :
    Total (fun rows => rows = x.executedRows batch.length padToRows ∧ ∀ q ∈ batch, DecodeRowOk x q)
      (x.fillDecodeMirrors batch padToRows) := by
  unfold fillDecodeMirrors
  refine (total_assert hp).bind fun _ _ => ?_
  refine (total_each (P := fun q => x.inVocabulary (q.outputTokens.getLastD 0)) x.fillDecodeRow batch 0
    fun r q hq => fillDecodeRow_total (h q hq) r).bind fun _ hv => ?_
  refine (total_each (P := fun _ => True) _ _ _ fun _ r _ =>
    (fillPaddedRow_returns r).total trivial).bind fun _ _ => ?_
  exact total_pure ⟨rfl, fun q hq => ⟨h q hq, hv q hq⟩⟩

/-- stores of later rows do not touch row `i` -/
theorem decodeLog_out (rows : List DeviceRow) : ∀ (i : Nat) (m : Mirrors) (k : Mirror) (j : Nat),
    (k = .blockTables → j < i * x.maxBlocksPerSeq) → (k ≠ .blockTables → j < i) →
    afterLog (x.decodeLog i rows) m k j = m k j := by
  induction rows with
  | nil => intro i m k j _ _; rfl
  | cons row rows ih =>
    intro i m k j hk hk'
    have hmul : (i + 1) * x.maxBlocksPerSeq = i * x.maxBlocksPerSeq + x.maxBlocksPerSeq :=
      Nat.succ_mul _ _
    rw [decodeLog_cons, afterLog_append, ih (i + 1) _ k j (fun e => by have := hk e; omega)
      (fun e => by have := hk' e; omega)]
    have hne : ∀ (k0 : Mirror) (v : Int), k0 ≠ .blockTables → k ≠ k0 ∨ j ≠ i := by
      intro k0 v h0
      by_cases e : k = .blockTables
      · exact Or.inl fun e' => h0 (e' ▸ e)
      · have := hk' e
        exact Or.inr (by omega)
    unfold decodeRowLog
    rw [afterLog_cons, afterLog_cons, afterLog_cons, afterLog_storeRow_out]
    · show ((((m.store _).store _).store _ : Mirrors)) k j = _
      rw [store_other _ _ (hne .seqLens row.extent (by decide)),
        store_other _ _ (hne .positions row.position (by decide)),
        store_other _ _ (hne .inputIds row.inputId (by decide))]
    · by_cases e : k = .blockTables
      · exact Or.inr (Or.inl (hk e))
      · exact Or.inl e

/-- **The mirrors of a decode step**: what is stored for row `t` is still there at the end. -/
theorem decodeLog_get (rows : List DeviceRow)
    (hw : ∀ row ∈ rows, row.table.length = x.maxBlocksPerSeq) :
    ∀ (i : Nat) (m : Mirrors) (t : Nat) (row : DeviceRow), rows[t]? = some row →
      afterLog (x.decodeLog i rows) m .inputIds (i + t) = row.inputId ∧
      afterLog (x.decodeLog i rows) m .positions (i + t) = row.position ∧
      afterLog (x.decodeLog i rows) m .seqLens (i + t) = row.extent ∧
      (List.range x.maxBlocksPerSeq).map (fun j =>
        afterLog (x.decodeLog i rows) m .blockTables
          ((i + t) * x.maxBlocksPerSeq + j)) = row.table := by
  induction rows with
  | nil => intro i m t row h; cases h
  | cons row0 rows ih =>
    intro i m t row h
    have hmul : (i + 1) * x.maxBlocksPerSeq = i * x.maxBlocksPerSeq + x.maxBlocksPerSeq :=
      Nat.succ_mul _ _
    rw [decodeLog_cons, afterLog_append]
    cases t with
    | succ t =>
      have := ih (fun r hr => hw r (List.mem_cons_of_mem _ hr)) (i + 1)
        (afterLog (x.decodeRowLog i row0) m) t row (by simpa using h)
      rw [show i + 1 + t = i + (t + 1) by omega] at this
      exact this
    | zero =>
      obtain rfl : row0 = row := by simpa using h
      have hlen := hw row0 List.mem_cons_self
      let m1 := afterLog (x.decodeRowLog i row0) m
      have hcell : ∀ k, k ≠ .blockTables → afterLog (x.decodeLog (i + 1) rows) m1 k i
          = (((m.store ⟨.inputIds, i, row0.inputId⟩).store ⟨.positions, i, row0.position⟩).store
              ⟨.seqLens, i, row0.extent⟩ : Mirrors) k i := fun k hk =>
        (decodeLog_out rows (i + 1) m1 k i (fun e => absurd e hk) fun _ => Nat.lt_succ_self i).trans
          (afterLog_storeRow_out .blockTables row0.table _ _ k i (Or.inl hk))
      have htab : (List.range x.maxBlocksPerSeq).map (fun j =>
          afterLog (x.decodeLog (i + 1) rows) m1 .blockTables (i * x.maxBlocksPerSeq + j))
          = row0.table := by
        rw [← table_storeRow row0.table (i * x.maxBlocksPerSeq)
          (((m.store ⟨.inputIds, i, row0.inputId⟩).store ⟨.positions, i, row0.position⟩).store
              ⟨.seqLens, i, row0.extent⟩), hlen]
        apply List.map_congr_left
        intro j hj
        have hjlt := List.mem_range.mp hj
        exact decodeLog_out rows (i + 1) m1 .blockTables _ (fun _ => by omega) fun e => absurd rfl e
      refine ⟨(hcell _ (by decide)).trans ?_, (hcell _ (by decide)).trans ?_,
        (hcell _ (by decide)).trans ?_, ?_⟩
      · simp [Mirrors.store]
      · simp [Mirrors.store]
      · simp [Mirrors.store]
      · exact htab

/-- a kernel finds row `t` as it was meant -/
theorem row_decodeLog (rows : List DeviceRow)
    (hw : ∀ row ∈ rows, row.table.length = x.maxBlocksPerSeq) (i : Nat) (m : Mirrors) (t : Nat)
    (row : DeviceRow) (h : rows[t]? = some row) :
    (afterLog (x.decodeLog i rows) m).row x.maxBlocksPerSeq x.maxBlocksPerSeq
      (afterLog (x.decodeLog i rows) m .seqLens (i + t)).toNat (i + t) = row := by
  obtain ⟨hid, hpos, hext, htab⟩ := decodeLog_get rows hw i m t row h
  unfold Mirrors.row
  rw [hid, hpos, hext, htab, Int.toNat_natCast, Int.toNat_natCast]

/-! ## prefill chunks -/

/-- what a chunk uploads for the position `p` of the prompt -/
def chunkRow (x : Executor) (q : Request) (chunkEnd p : Nat) : DeviceRow :=
  { inputId := q.promptTokens.getD p 0
    position := p
    extent := chunkEnd
    table := x.tableRow q.blockTable.blocks }

/-- the stores of the tokens of a chunk, from mirror index `i` on -/
def chunkLog (chunkBegin : Nat) (i : Nat) (tokens : List Int) : List Action :=
  (tokens.zipIdx i).flatMap fun p =>
    [.store ⟨.inputIds, p.2, p.1⟩, .store ⟨.positions, p.2, (chunkBegin : Int) + p.2⟩]

theorem fillPrefillMirrors_returns {q : Request} {chunkBegin chunkEnd : Nat}
    (h : SliceOk x q chunkBegin chunkEnd) :
    Returns (x.fillPrefillMirrors q chunkBegin chunkEnd)
      (chunkLog chunkBegin 0 ((q.promptTokens.drop chunkBegin).take (chunkEnd - chunkBegin)) ++
        storeRow .blockTables 0 (x.tableRow q.blockTable.blocks))
      (chunkEnd - chunkBegin) := by
  obtain ⟨hs1, hs2⟩ := h.slice
  have hr := h.rows
  have hl := h.seqLen
  have hc := h.table.covers
  have hw := h.table.width
  have htokens : Returns (each (fun i token => do
        failIf (¬ x.inVocabulary token) (.prefillChunk q.id (.token (chunkBegin + i) token))
        put .inputIds i token
        put .positions i (chunkBegin + i)) 0
          ((q.promptTokens.drop chunkBegin).take (chunkEnd - chunkBegin)))
      (chunkLog chunkBegin 0 ((q.promptTokens.drop chunkBegin).take (chunkEnd - chunkBegin))) () := by
    refine each_returns _ (fun i token => [Action.store ⟨.inputIds, i, token⟩,
      Action.store ⟨.positions, i, (chunkBegin : Int) + i⟩]) _ 0 fun k t hk => ?_
    have ht := h.vocab t (List.mem_of_getElem? hk)
    exact (returns_failIf (not_not_intro ht) _).then ((returns_emit _).bind (returns_emit _))
  have htable := Returns.bind (f := fun _ => pure (chunkEnd - chunkBegin))
    (fillTableRow_returns h.table 0 fun i block => .prefillChunk q.id (.badBlock i block))
    (returns_pure _)
  rw [List.append_nil] at htable
  unfold fillPrefillMirrors
  exact (returns_failIf (by omega) _).then <| (returns_failIf (by omega) _).then <|
    (returns_failIf (by omega) _).then <| (returns_failIf (by omega) _).then <|
    (returns_failIf (by omega) _).then <| htokens.bind htable

theorem chunkLog_cons (b i : Nat) (token : Int) (tokens : List Int) :
    chunkLog b i (token :: tokens) = .store ⟨.inputIds, i, token⟩ ::
      .store ⟨.positions, i, (b : Int) + i⟩ :: chunkLog b (i + 1) tokens := by
  unfold chunkLog
  rw [List.zipIdx_cons, List.flatMap_cons]
  rfl

theorem chunkLog_out (b : Nat) (tokens : List Int) : ∀ (i : Nat) (m : Mirrors) (k : Mirror) (j : Nat),
    (k = .blockTables ∨ k = .seqLens ∨ j < i) → afterLog (chunkLog b i tokens) m k j = m k j := by
  induction tokens with
  | nil => intro i m k j _; rfl
  | cons token tokens ih =>
    intro i m k j h
    rw [chunkLog_cons, afterLog_cons, afterLog_cons, ih (i + 1) _ k j (h.imp_right fun h =>
      h.imp_right fun h => Nat.lt_succ_of_lt h)]
    show ((m.store _).store _ : Mirrors) k j = _
    have hne : ∀ k0 : Mirror, k0 ≠ .blockTables → k0 ≠ .seqLens → k ≠ k0 ∨ j ≠ i := by
      intro k0 h1 h2
      rcases h with rfl | rfl | h
      · exact Or.inl h1.symm
      · exact Or.inl h2.symm
      · exact Or.inr (Nat.ne_of_lt h)
    rw [store_other _ _ (hne .positions (by decide) (by decide)),
      store_other _ _ (hne .inputIds (by decide) (by decide))]

theorem chunkLog_get (b : Nat) (tokens : List Int) : ∀ (i : Nat) (m : Mirrors) (t : Nat) (token : Int),
    tokens[t]? = some token → afterLog (chunkLog b i tokens) m .inputIds (i + t) = token ∧
      afterLog (chunkLog b i tokens) m .positions (i + t) = (b : Int) + (i + t : Nat) := by
  induction tokens with
  | nil => intro i m t token h; cases h
  | cons token0 tokens ih =>
    intro i m t token h
    rw [chunkLog_cons, afterLog_cons, afterLog_cons]
    cases t with
    | zero =>
      obtain rfl : token0 = token := by simpa using h
      have hkeep : ∀ (m : Mirrors) (k : Mirror),
          afterLog (chunkLog b (i + 1) tokens) m k (i + 0) = m k i := fun m k =>
        chunkLog_out b tokens (i + 1) m k i (Or.inr (Or.inr (Nat.lt_succ_self i)))
      rw [hkeep, hkeep]
      simp [Action.apply, Mirrors.store]
    | succ t =>
      have := ih (i + 1) (Action.apply (Action.apply m (.store ⟨.inputIds, i, token0⟩))
        (.store ⟨.positions, i, (b : Int) + i⟩)) t token (by simpa using h)
      rw [show i + 1 + t = i + (t + 1) by omega] at this
      exact this

section
variable {q : Request} {chunkBegin chunkEnd : Nat}

theorem slice_get (h : SliceOk x q chunkBegin chunkEnd) {t : Nat} (ht : t < chunkEnd - chunkBegin) :
    ((q.promptTokens.drop chunkBegin).take (chunkEnd - chunkBegin))[t]?
      = some (q.promptTokens.getD (chunkBegin + t) 0) := by
  obtain ⟨_, hs⟩ := h.slice
  unfold Request.numPromptTokens at hs
  have hlt : chunkBegin + t < q.promptTokens.length := by omega
  rw [List.getElem?_take_of_lt ht, List.getElem?_drop, List.getElem?_eq_getElem hlt,
    List.getD_eq_getElem?_getD, List.getElem?_eq_getElem hlt, Option.getD_some]

/-- **The mirrors of a prefill chunk**: row `t` is position `chunk_begin + t`, row 0 the table. -/
theorem chunkMirrors_get (h : SliceOk x q chunkBegin chunkEnd) (m : Mirrors) :
    (∀ t < chunkEnd - chunkBegin,
      afterLog (chunkLog chunkBegin 0 ((q.promptTokens.drop chunkBegin).take (chunkEnd - chunkBegin)) ++
        storeRow .blockTables 0 (x.tableRow q.blockTable.blocks)) m .inputIds t
          = q.promptTokens.getD (chunkBegin + t) 0 ∧
      afterLog (chunkLog chunkBegin 0 ((q.promptTokens.drop chunkBegin).take (chunkEnd - chunkBegin)) ++
        storeRow .blockTables 0 (x.tableRow q.blockTable.blocks)) m .positions t
          = (chunkBegin : Int) + t) ∧
    (List.range x.maxBlocksPerSeq).map (fun j =>
      afterLog (chunkLog chunkBegin 0 ((q.promptTokens.drop chunkBegin).take (chunkEnd - chunkBegin)) ++
        storeRow .blockTables 0 (x.tableRow q.blockTable.blocks)) m .blockTables j)
      = x.tableRow q.blockTable.blocks := by
  rw [afterLog_append]
  constructor
  · intro t ht
    obtain ⟨hid, hpos⟩ := chunkLog_get chunkBegin _ 0 m t _ (slice_get h ht)
    rw [Nat.zero_add] at hid hpos
    have hother : ∀ k, k ≠ .blockTables → afterLog (storeRow .blockTables 0
        (x.tableRow q.blockTable.blocks)) (afterLog (chunkLog chunkBegin 0
          ((q.promptTokens.drop chunkBegin).take (chunkEnd - chunkBegin))) m) k t
        = afterLog (chunkLog chunkBegin 0
          ((q.promptTokens.drop chunkBegin).take (chunkEnd - chunkBegin))) m k t := fun k hk =>
      afterLog_storeRow_out _ _ _ _ _ _ (Or.inl hk)
    rw [hother _ (by decide), hother _ (by decide)]
    exact ⟨hid, hpos⟩
  · have htab := table_storeRow (x.tableRow q.blockTable.blocks) 0 (afterLog (chunkLog chunkBegin 0
        ((q.promptTokens.drop chunkBegin).take (chunkEnd - chunkBegin))) m)
    rw [length_tableRow h.table.width] at htab
    simpa only [Nat.zero_add] using htab

/-- a kernel finds row `t` as it was meant -/
theorem row_chunkLog (h : SliceOk x q chunkBegin chunkEnd) (m : Mirrors) {t : Nat}
    (ht : t < chunkEnd - chunkBegin) :
    (afterLog (chunkLog chunkBegin 0 ((q.promptTokens.drop chunkBegin).take (chunkEnd - chunkBegin)) ++
        storeRow .blockTables 0 (x.tableRow q.blockTable.blocks)) m).row x.maxBlocksPerSeq 0 chunkEnd t
      = x.chunkRow q chunkEnd (chunkBegin + t) := by
  obtain ⟨hrows, htab⟩ := chunkMirrors_get h m
  obtain ⟨hid, hpos⟩ := hrows t ht
  unfold Mirrors.row chunkRow
  rw [hid, hpos, Nat.mul_zero]
  simp only [Nat.zero_add, htab]
  congr 1

end
end
end Executor
end Redline
