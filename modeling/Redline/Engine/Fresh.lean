import Redline.Engine.Run

/-!
# The uploads come from the current call

The mirrors outlive a call: a larger batch, a prefill chunk that used row 0 for its table, or a
fill that threw half way may have left anything in them.  A fill that returns has overwritten all
that its upload copies.

* `fillDecodeMirrors_ensures`, `fillPrefillMirrors_ensures`  what a fill that returns has checked;
* `decodeImage`, `chunkImage`   what is uploaded, in terms of the batch or chunk and the number of
                                rows;
* `decodeImage_uploaded`, `chunkImage_uploaded`  it is uploaded, whatever the mirrors held;
* `mirrors_fresh`               the same, with the live and the padded rows of every padding.
-/

namespace Redline
open Script

/-- what an upload copies to the device -/
def Action.copied (m : Mirrors) : Action → List Int
  | .upload mirror count => (List.range count).map (m mirror)
  | _ => []

theorem range_mul_map {α : Type} (f : Nat → α) (w n : Nat) : (List.range (n * w)).map f
    = (List.range n).flatMap fun t => (List.range w).map fun i => f (t * w + i) := by
  induction n with
  | zero => rw [Nat.zero_mul]; rfl
  | succ n ih =>
    rw [Nat.succ_mul, List.range_add, List.map_append, ih, List.range_succ, List.flatMap_append,
      List.map_map]
    simp

namespace Executor

variable {x : Executor}

/-! ## what a fill that returns has checked -/

theorem fillTableRow_ensures (base : Nat) (blocks : List Int) (bad : Nat → Int → ExecutorError) :
    Ensures (fun _ => ∀ b ∈ blocks, kDummyBlockId < b ∧ b < x.numKvBlocks)
      (x.fillTableRow base blocks bad) := by
  unfold fillTableRow
  refine (ensures_each _ (fun k b => ?_) blocks 0).bind fun _ h => (ensures_true _).mono fun _ _ => h
  refine (ensures_assert _).bind fun _ _ => (ensures_failIf _ _).bind fun _ h => ?_
  refine (ensures_true _).mono fun _ _ => ?_
  omega

theorem fillDecodeRow_ensures (r : Nat) (q : Request) :
    Ensures (fun _ => DecodeRowOk x q) (x.fillDecodeRow r q) := by
  unfold fillDecodeRow
  refine (ensures_failIf _ _).bind fun _ htoken => (ensures_failIf _ _).bind fun _ hlen =>
    (ensures_failIf _ _).bind fun _ hvocab => (ensures_failIf _ _).bind fun _ hcovers =>
    (ensures_failIf _ _).bind fun _ hwidth => ?_
  refine (ensures_true _).bind fun _ _ => (ensures_true _).bind fun _ _ =>
    (ensures_true _).bind fun _ _ => (fillTableRow_ensures _ _ _).mono fun _ hids => ?_
  exact ⟨⟨htoken, by omega, by omega, by omega, hids⟩, not_not.mp hvocab⟩

theorem fillDecodeMirrors_ensures (batch : List Request) (padToRows : Nat) :
    Ensures (fun rows => rows = x.executedRows batch.length padToRows ∧
      (0 < padToRows → batch.length ≤ padToRows ∧ (padToRows : Int) ≤ x.options.maxBatch) ∧
      ∀ q ∈ batch, DecodeRowOk x q) (x.fillDecodeMirrors batch padToRows) := by
  unfold fillDecodeMirrors
  refine (ensures_assert _).bind fun _ hpad => ?_
  refine (ensures_each _ fillDecodeRow_ensures batch 0).bind fun _ hok => ?_
  exact (ensures_true _).bind fun _ _ => ensures_pure ⟨rfl, hpad, hok⟩

theorem fillPrefillMirrors_ensures (q : Request) (chunkBegin chunkEnd : Nat) :
    Ensures (fun rows => rows = chunkEnd - chunkBegin ∧ SliceOk x q chunkBegin chunkEnd)
      (x.fillPrefillMirrors q chunkBegin chunkEnd) := by
  unfold fillPrefillMirrors
  refine (ensures_failIf _ _).bind fun _ hslice => (ensures_failIf _ _).bind fun _ hrows =>
    (ensures_failIf _ _).bind fun _ hlen => (ensures_failIf _ _).bind fun _ hcovers =>
    (ensures_failIf _ _).bind fun _ hwidth => ?_
  refine (ensures_each (P := x.inVocabulary) _ (fun i token => ?_) _ 0).bind fun _ hvocab =>
    (fillTableRow_ensures _ _ _).bind fun _ hids => ensures_pure ⟨rfl, ?_⟩
  · exact (ensures_failIf _ _).bind fun _ h => (ensures_true _).mono fun _ _ => not_not.mp h
  · exact ⟨by omega, by omega, by omega, hvocab, by omega, by omega, hids⟩

/-! ## the images -/

/-- what a decode step uploads: ids, positions, lengths, and the table rows one after the other -/
def decodeImage (x : Executor) (batch : List Request) (rows : Nat) : List (List Int) :=
  let uploaded := x.decodeRows batch rows
  [uploaded.map fun row => row.inputId, uploaded.map fun row => (row.position : Int),
    uploaded.map fun row => (row.extent : Int), uploaded.flatMap fun row => row.table]

/-- what a chunk uploads: ids, positions and one table row -/
def chunkImage (x : Executor) (q : Request) (chunkBegin rows : Nat) : List (List Int) :=
  [(List.range rows).map fun t => q.promptTokens.getD (chunkBegin + t) 0,
    (List.range rows).map fun t => ((chunkBegin + t : Nat) : Int), x.tableRow q.blockTable.blocks]

/-- **A decode upload** is the batch and padding, whatever the mirrors held. -/
theorem decodeImage_uploaded {batch : List Request} {rows : Nat} (h : ∀ q ∈ batch, DecodeRowOk x q)
    (hle : batch.length ≤ rows) (m : Mirrors) :
    (x.uploadDecodeInputs rows).map
        (Action.copied (afterLog (x.decodeLog 0 (x.decodeRows batch rows)) m))
      = x.decodeImage batch rows := by
  have hlen := length_decodeRows (x := x) hle
  have hget : ∀ t (ht : t < (x.decodeRows batch rows).length), _ := fun t ht =>
    decodeLog_get (x.decodeRows batch rows) (width_decodeRows h rows) 0 m t _
      (List.getElem?_eq_getElem ht)
  simp only [Nat.zero_add] at hget
  have hcells : ∀ (k : Mirror) (f : DeviceRow → Int),
      (∀ t (ht : t < (x.decodeRows batch rows).length),
        afterLog (x.decodeLog 0 (x.decodeRows batch rows)) m k t = f (x.decodeRows batch rows)[t]) →
      (List.range rows).map (afterLog (x.decodeLog 0 (x.decodeRows batch rows)) m k)
        = (x.decodeRows batch rows).map f := by
    intro k f hf
    apply List.ext_getElem
    · rw [List.length_map, List.length_map, List.length_range, hlen]
    · intro t h1 h2
      rw [List.getElem_map, List.getElem_map, List.getElem_range]
      exact hf t (by simpa using h2)
  have htables : (List.range (rows * x.maxBlocksPerSeq)).map
      (afterLog (x.decodeLog 0 (x.decodeRows batch rows)) m .blockTables)
      = (x.decodeRows batch rows).flatMap fun row => row.table := by
    rw [range_mul_map, List.flatMap_def, List.flatMap_def]
    congr 1
    apply List.ext_getElem
    · rw [List.length_map, List.length_map, List.length_range, hlen]
    · intro t h1 h2
      rw [List.getElem_map, List.getElem_map, List.getElem_range]
      exact (hget t (by simpa using h2)).2.2.2
  show [_, _, _, _] = [_, _, _, _]
  rw [← hcells .inputIds _ fun t ht => (hget t ht).1, ← hcells .positions _ fun t ht => (hget t ht).2.1,
    ← hcells .seqLens _ fun t ht => (hget t ht).2.2.1, ← htables]
  rfl

/-- **A chunk's upload** is the chunk, whatever the mirrors held. -/
theorem chunkImage_uploaded {q : Request} {chunkBegin chunkEnd : Nat}
    (h : SliceOk x q chunkBegin chunkEnd) (m : Mirrors) :
    (x.uploadPrefillInputs (chunkEnd - chunkBegin)).map (Action.copied (afterLog
        (chunkLog chunkBegin 0 ((q.promptTokens.drop chunkBegin).take (chunkEnd - chunkBegin)) ++
          storeRow .blockTables 0 (x.tableRow q.blockTable.blocks)) m))
      = x.chunkImage q chunkBegin (chunkEnd - chunkBegin) := by
  obtain ⟨hrows, htable⟩ := chunkMirrors_get h m
  have hids : (List.range (chunkEnd - chunkBegin)).map (afterLog (chunkLog chunkBegin 0
      ((q.promptTokens.drop chunkBegin).take (chunkEnd - chunkBegin)) ++
        storeRow .blockTables 0 (x.tableRow q.blockTable.blocks)) m .inputIds)
      = (List.range (chunkEnd - chunkBegin)).map fun t => q.promptTokens.getD (chunkBegin + t) 0 := by
    apply List.map_congr_left
    intro t ht
    exact (hrows t (List.mem_range.mp ht)).1
  have hpositions : (List.range (chunkEnd - chunkBegin)).map (afterLog (chunkLog chunkBegin 0
      ((q.promptTokens.drop chunkBegin).take (chunkEnd - chunkBegin)) ++
        storeRow .blockTables 0 (x.tableRow q.blockTable.blocks)) m .positions)
      = (List.range (chunkEnd - chunkBegin)).map fun t => ((chunkBegin + t : Nat) : Int) := by
    apply List.map_congr_left
    intro t ht
    rw [Nat.cast_add]
    exact (hrows t (List.mem_range.mp ht)).2
  unfold chunkImage
  rw [← hids, ← hpositions]
  exact congrArg (fun table : List Int => [_, _, table]) htable

/-- a live row is the row of its request, and the rows after them are padding -/
theorem decodeRows_get (x : Executor) (batch : List Request) {rows t : Nat} (ht : t < rows) :
    (x.decodeRows batch rows)[t]? = some (match batch[t]? with
      | some q => x.decodeRow q
      | none => x.paddedRow) := by
  unfold decodeRows
  cases hq : batch[t]? with
  | some q =>
    have hlt := (List.getElem?_eq_some_iff.mp hq).1
    rw [List.getElem?_append_left (by rwa [List.length_map]), List.getElem?_map, hq]
    rfl
  | none =>
    have hge := List.getElem?_eq_none_iff.mp hq
    rw [List.getElem?_append_right (by rwa [List.length_map]), List.length_map,
      List.getElem?_replicate_of_lt (by omega)]

/-- the executor with another `pad_eager_to_bucket` -/
def padTo (x : Executor) (padEagerToBucket : Int) : Executor :=
  { x with options := { x.options with padEagerToBucket } }

end Executor

/-- **No stale mirrors.**  What a fill that returns leaves for its upload is the image of the batch
or chunk at the number of rows it chose, whatever the mirrors held before; at every setting of
`pad_eager_to_bucket`, eager or for a graph, a live row is the row of its request and every other
row is padding.  A batch of legal rows is filled on all these paths. -/
theorem mirrors_fresh (config : ModelConfig) (options : ExecutorOptions) (captured : Bool)
    (probe : Nat → Nat → Option PrefillGemmMode) (x : Executor)
    (hx : Executor.make config options captured probe = .ok x) (m : Mirrors) :
    (∀ batch padToRows pad log rows,
      (x.padTo pad).fillDecodeMirrors batch padToRows = some (log, .ok rows) →
      batch.length ≤ rows ∧ (0 < padToRows → rows = padToRows) ∧
      (x.uploadDecodeInputs rows).map (Action.copied (Executor.afterLog log m))
        = x.decodeImage batch rows ∧
      (∀ t q, batch[t]? = some q → (Executor.afterLog log m).row x.maxBlocksPerSeq x.maxBlocksPerSeq
        (Executor.afterLog log m .seqLens t).toNat t = x.decodeRow q) ∧
      ∀ t, batch.length ≤ t → t < rows → Executor.afterLog log m .inputIds t = 0 ∧
        Executor.afterLog log m .positions t = 0 ∧ Executor.afterLog log m .seqLens t = 0 ∧
        (List.range x.maxBlocksPerSeq).map (fun i =>
          Executor.afterLog log m .blockTables (t * x.maxBlocksPerSeq + i))
          = List.replicate x.maxBlocksPerSeq kDummyBlockId) ∧
    (∀ batch padToRows pad, (∀ q ∈ batch, DecodeRowOk x q) →
      (padToRows = 0 ∨ batch.length ≤ padToRows ∧ padToRows ∈ x.buckets) →
      ∃ log rows, (x.padTo pad).fillDecodeMirrors batch padToRows = some (log, .ok rows)) ∧
    (∀ q chunkBegin chunkEnd log rows,
      x.fillPrefillMirrors q chunkBegin chunkEnd = some (log, .ok rows) →
      rows = chunkEnd - chunkBegin ∧
      (x.uploadPrefillInputs rows).map (Action.copied (Executor.afterLog log m))
        = x.chunkImage q chunkBegin rows) := by
  have hlegal : ∀ pad q, DecodeRowOk (x.padTo pad) q ↔ DecodeRowOk x q := fun pad q =>
    ⟨fun h => ⟨⟨h.token, h.seqLen, ⟨h.table.covers, h.table.width, h.table.ids⟩⟩, h.vocab⟩,
      fun h => ⟨⟨h.token, h.seqLen, ⟨h.table.covers, h.table.width, h.table.ids⟩⟩, h.vocab⟩⟩
  refine ⟨fun batch padToRows pad log rows hfill => ?_, fun batch padToRows pad hok hpad => ?_,
    fun q chunkBegin chunkEnd log rows hfill => ?_⟩
  · obtain ⟨hrows, hpad, hok'⟩ := (x.padTo pad).fillDecodeMirrors_ensures batch padToRows _ _ hfill
    have hok : ∀ q ∈ batch, DecodeRowOk x q := fun q hq => (hlegal pad q).mp (hok' q hq)
    have hle : batch.length ≤ rows := by
      rw [hrows]
      exact (x.padTo pad).executedRows_le fun h0 => (hpad h0).1
    have hlog : log = x.decodeLog 0 (x.decodeRows batch rows) := by
      rw [hrows]
      exact (Script.outcome_inj (hfill.symm.trans
        (Executor.fillDecodeMirrors_returns hok' padToRows hpad))).1
    have hwidth := Executor.width_decodeRows hok rows
    refine ⟨hle, fun h0 => hrows.trans (if_pos h0), ?_, fun t q hq => ?_, fun t h1 h2 => ?_⟩
    · rw [hlog]
      exact Executor.decodeImage_uploaded hok hle m
    · have hlt : t < rows := (List.getElem?_eq_some_iff.mp hq).1.trans_le hle
      have hrow := x.decodeRows_get batch hlt
      rw [hq] at hrow
      have := Executor.row_decodeLog _ hwidth 0 m t _ hrow
      rwa [Nat.zero_add, ← hlog] at this
    · have hrow := x.decodeRows_get batch h2
      rw [List.getElem?_eq_none h1] at hrow
      have := Executor.decodeLog_get _ hwidth 0 m t _ hrow
      rwa [Nat.zero_add, ← hlog] at this
  · obtain ⟨_, _, ho, hb, _, _⟩ := executor_of_make hx
    refine ⟨_, _, Executor.fillDecodeMirrors_returns (x := x.padTo pad)
      (fun q hq => (hlegal pad q).mpr (hok q hq)) padToRows fun h0 => ?_⟩
    rcases hpad with rfl | ⟨hle, hmem⟩
    · exact absurd h0 (Nat.lt_irrefl 0)
    · rw [hb] at hmem
      have := le_of_mem_buckets hmem
      refine ⟨hle, ?_⟩
      show (padToRows : Int) ≤ x.options.maxBatch
      rw [ho]
      omega
  · obtain ⟨hrows, hok⟩ := x.fillPrefillMirrors_ensures q chunkBegin chunkEnd _ _ hfill
    refine ⟨hrows, ?_⟩
    obtain ⟨rfl, _⟩ := Script.outcome_inj (hfill.symm.trans (Executor.fillPrefillMirrors_returns hok))
    rw [hrows]
    exact Executor.chunkImage_uploaded hok m

/-- a sequence of three tokens in block 2, decoded eagerly at two rows over mirrors full of nines -/
def storyRequest : Request :=
  { id := 1
    promptTokens := [3, 4]
    outputTokens := [5]
    maxNewTokens := 4
    blockTable := ⟨[2]⟩ }

theorem mirrors_fresh_example : ∃ log rows,
    ((tinyEngine .kReserveFull).executor.padTo 2).fillDecodeMirrors [storyRequest] 0
      = some (log, .ok rows) ∧
    ((tinyEngine .kReserveFull).executor.uploadDecodeInputs rows).map
        (Action.copied (Executor.afterLog log fun _ _ => 9))
      = (tinyEngine .kReserveFull).executor.decodeImage [storyRequest] rows := by
  obtain ⟨hdecode, hpath, _⟩ :=
    mirrors_fresh tinyConfig (makeExecutorOptions (tinyOptions .kReserveFull))
    true tinyProbe (tinyEngine .kReserveFull).executor
    (tinyExecutor_make .kReserveFull) fun _ _ => 9
  have hok : DecodeRowOk (tinyEngine .kReserveFull).executor storyRequest := by
    unfold tinyEngine
    rw [makeExecutorOptions_tiny]
    exact ⟨⟨by decide, by decide, ⟨by decide, by decide, by decide⟩⟩, by decide⟩
  obtain ⟨log, rows, hfill⟩ := hpath [storyRequest] 0 2 (by simpa using hok) (Or.inl rfl)
  exact ⟨log, rows, hfill, (hdecode _ _ _ _ _ hfill).2.2.1⟩

end Redline
