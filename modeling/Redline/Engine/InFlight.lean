import Redline.Engine.Fresh
import Redline.Lib.Staging

/-!
# The mirrors and the copies in flight

The uploads of a call are copies that the stream makes later, and the next call fills the same
mirrors.  What keeps them apart is the synchronisation at the end of each call; a call that throws
between its uploads and that synchronisation leaves its copies in flight.

* `StepCall.Starts`   the checks a call gets past before its first store;
* `callLog_shape`     what a call does: nothing if it does not start, and otherwise its fill, its
                      uploads, and work that neither stores nor uploads.
-/

namespace Redline
open Script

/-- the calls of the executor that use the mirrors -/
inductive StepCall where
  | prefillChunk (dump : Bool) (q : Request) (chunkBegin chunkEnd : Nat)
  | decodeEager (batch : List Request)
  | decodeGraph (batch : List Request)

namespace Executor

def callLog (x : Executor) : StepCall → Option (List Action)
  | .prefillChunk dump q chunkBegin chunkEnd =>
    Option.map Prod.fst (x.prefillChunk dump q chunkBegin chunkEnd)
  | .decodeEager batch => Option.map Prod.fst (x.decodeEager batch)
  | .decodeGraph batch => Option.map Prod.fst (x.decodeGraph batch)

/-- the checks of a decode row in front of its first store -/
structure RowStarts (x : Executor) (q : Request) : Prop where
  token : q.outputTokens ≠ []
  seqLen : 1 ≤ q.seqLen ∧ (q.seqLen : Int) ≤ x.options.maxSeqLen
  vocab : x.inVocabulary (q.outputTokens.getLastD 0)
  covers : blocksForTokens q.seqLen ≤ q.blockTable.blocks.length
  width : q.blockTable.blocks.length ≤ x.maxBlocksPerSeq

/-- the checks of a decode batch in front of its first store -/
def BatchStarts (x : Executor) (batch : List Request) : Prop :=
  (batch.length : Int) ≤ x.options.maxBatch ∧ ∃ q rest, batch = q :: rest ∧ x.RowStarts q

/-- the checks of a chunk in front of its first store -/
structure ChunkStarts (x : Executor) (q : Request) (chunkBegin chunkEnd : Nat) : Prop where
  slice : chunkBegin < chunkEnd ∧ chunkEnd ≤ q.numPromptTokens
  rows : ((chunkEnd - chunkBegin : Nat) : Int) ≤ x.options.prefillChunkTokens
  seqLen : (chunkEnd : Int) ≤ x.options.maxSeqLen
  covers : blocksForTokens chunkEnd ≤ q.blockTable.blocks.length
  width : q.blockTable.blocks.length ≤ x.maxBlocksPerSeq
  vocab : x.inVocabulary (q.promptTokens.getD chunkBegin 0)

end Executor

namespace StepCall

/-- the call gets past its checks to its first store -/
def Starts (x : Executor) : StepCall → Prop
  | .prefillChunk _ q chunkBegin chunkEnd => x.ChunkStarts q chunkBegin chunkEnd
  | .decodeEager batch => x.BatchStarts batch
  | .decodeGraph batch => x.BatchStarts batch ∧ x.hasDecodeGraphs = true ∧
      (selectBucket batch.length x.buckets).isSome

/-- the rows a call that gets past its fill runs at -/
def rows (x : Executor) : StepCall → Nat
  | .prefillChunk _ _ chunkBegin chunkEnd => chunkEnd - chunkBegin
  | .decodeEager batch => x.executedRows batch.length 0
  | .decodeGraph batch => (selectBucket batch.length x.buckets).getD 0

def uploads (x : Executor) (c : StepCall) : List Action :=
  match c with
  | .prefillChunk .. => x.uploadPrefillInputs (c.rows x)
  | _ => x.uploadDecodeInputs (c.rows x)

/-- the ids, positions, lengths and block tables of the call -/
def image (x : Executor) (c : StepCall) : List (List Int) :=
  match c with
  | .prefillChunk _ q chunkBegin _ => x.chunkImage q chunkBegin (c.rows x)
  | .decodeEager batch => x.decodeImage batch (c.rows x)
  | .decodeGraph batch => x.decodeImage batch (c.rows x)

end StepCall

/-! ## the first store of a call -/

/-- the log begins with the id of row 0 -/
def IsFirst (a : Action) : Prop := ∃ token, a = .store ⟨.inputIds, 0, token⟩

namespace Executor
variable {x : Executor}

theorem fillDecodeRow_begins {q : Request} (h : x.RowStarts q) :
    Begins IsFirst (x.fillDecodeRow 0 q) := by
  obtain ⟨htoken, hlen, hvocab, hcovers, hwidth⟩ := h
  unfold fillDecodeRow
  refine begins_failIf_bind htoken (begins_failIf_bind (by omega) (begins_failIf_bind
    (not_not.mpr hvocab) (begins_failIf_bind (by omega) (begins_failIf_bind (by omega) ?_))))
  exact (begins_emit ⟨_, rfl⟩).bind _

theorem fillDecodeRow_refuses {q : Request} (h : ¬ x.RowStarts q) (r : Nat) :
    Refuses (x.fillDecodeRow r q) := by
  unfold fillDecodeRow
  refine refuses_failIf_bind fun htoken => refuses_failIf_bind fun hlen =>
    refuses_failIf_bind fun hvocab => refuses_failIf_bind fun hcovers =>
    refuses_failIf_bind fun hwidth => ?_
  exact absurd ⟨htoken, by omega, not_not.mp hvocab, by omega, by omega⟩ h

theorem fillDecodeMirrors_begins {q : Request} (h : x.RowStarts q) (rest : List Request)
    (padToRows : Nat) : Begins IsFirst (x.fillDecodeMirrors (q :: rest) padToRows) := by
  unfold fillDecodeMirrors
  exact begins_assert_bind (((fillDecodeRow_begins h).bind _).bind _)

theorem fillDecodeMirrors_refuses {q : Request} (h : ¬ x.RowStarts q) (rest : List Request)
    (padToRows : Nat) : Refuses (x.fillDecodeMirrors (q :: rest) padToRows) := by
  unfold fillDecodeMirrors
  exact refuses_assert_bind (((fillDecodeRow_refuses h 0).bind _).bind _)

/-- the slice of a chunk starts with the token at `chunk_begin` -/
theorem slice_cons {q : Request} {chunkBegin chunkEnd : Nat}
    (h : chunkBegin < chunkEnd ∧ chunkEnd ≤ q.numPromptTokens) :
    ∃ rest, (q.promptTokens.drop chunkBegin).take (chunkEnd - chunkBegin)
      = q.promptTokens.getD chunkBegin 0 :: rest := by
  have hlt : chunkBegin < q.promptTokens.length := h.1.trans_le h.2
  obtain ⟨n, hn⟩ : ∃ n, chunkEnd - chunkBegin = n + 1 := ⟨chunkEnd - chunkBegin - 1, by omega⟩
  have hget : q.promptTokens.getD chunkBegin 0 = q.promptTokens[chunkBegin] := by
    rw [List.getD_eq_getElem?_getD, List.getElem?_eq_getElem hlt]
    rfl
  rw [List.drop_eq_getElem_cons hlt, hn, List.take_succ_cons, hget]
  exact ⟨_, rfl⟩

theorem fillPrefillMirrors_begins {q : Request} {chunkBegin chunkEnd : Nat}
    (h : x.ChunkStarts q chunkBegin chunkEnd) :
    Begins IsFirst (x.fillPrefillMirrors q chunkBegin chunkEnd) := by
  obtain ⟨hslice, hrows, hlen, hcovers, hwidth, hvocab⟩ := h
  obtain ⟨rest, hrest⟩ := slice_cons hslice
  unfold fillPrefillMirrors
  refine begins_failIf_bind (by omega) (begins_failIf_bind (by omega) (begins_failIf_bind
    (by omega) (begins_failIf_bind (by omega) (begins_failIf_bind (by omega) ?_))))
  rw [hrest]
  refine Begins.bind (Begins.bind ?_ _) _
  exact begins_failIf_bind (not_not.mpr hvocab) ((begins_emit ⟨_, rfl⟩).bind _)

theorem fillPrefillMirrors_refuses {q : Request} {chunkBegin chunkEnd : Nat}
    (h : ¬ x.ChunkStarts q chunkBegin chunkEnd) :
    Refuses (x.fillPrefillMirrors q chunkBegin chunkEnd) := by
  unfold fillPrefillMirrors
  refine refuses_failIf_bind fun hslice => refuses_failIf_bind fun hrows =>
    refuses_failIf_bind fun hlen => refuses_failIf_bind fun hcovers =>
    refuses_failIf_bind fun hwidth => ?_
  obtain ⟨rest, hrest⟩ := @slice_cons q chunkBegin chunkEnd (by omega)
  rw [hrest]
  refine Refuses.bind (Refuses.bind (refuses_failIf_bind fun hvocab => ?_) _) _
  exact absurd ⟨by omega, by omega, by omega, by omega, by omega, not_not.mp hvocab⟩ h

/-! ## what a call does -/

theorem fillDecodeMirrors_image {batch : List Request} {padToRows rows : Nat} {log : List Action}
    (h : Returns (x.fillDecodeMirrors batch padToRows) log rows) :
    rows = x.executedRows batch.length padToRows ∧ batch.length ≤ rows ∧
      ∀ m, (x.uploadDecodeInputs rows).map (Action.copied (afterLog log m))
        = x.decodeImage batch rows := by
  obtain ⟨hrows, hpad, hok⟩ := fillDecodeMirrors_ensures batch padToRows _ _ h
  have hle : batch.length ≤ rows := by
    rw [hrows]
    exact x.executedRows_le fun h0 => (hpad h0).1
  refine ⟨hrows, hle, fun m => ?_⟩
  have hlog := (outcome_inj (h.symm.trans (fillDecodeMirrors_returns hok padToRows hpad))).1
  rw [hlog, ← hrows]
  exact decodeImage_uploaded hok hle m

theorem fillPrefillMirrors_image {q : Request} {chunkBegin chunkEnd rows : Nat} {log : List Action}
    (h : Returns (x.fillPrefillMirrors q chunkBegin chunkEnd) log rows) :
    rows = chunkEnd - chunkBegin ∧ ∀ m, (x.uploadPrefillInputs rows).map
      (Action.copied (afterLog log m)) = x.chunkImage q chunkBegin rows := by
  obtain ⟨hrows, hok⟩ := fillPrefillMirrors_ensures q chunkBegin chunkEnd _ _ h
  refine ⟨hrows, fun m => ?_⟩
  have hlog := (outcome_inj (h.symm.trans (fillPrefillMirrors_returns hok))).1
  rw [hlog, hrows]
  exact chunkImage_uploaded hok m

end Executor

theorem inert_dump (x : Executor) (rows chunkStart ctx : Nat) (mode : PrefillGemmMode) :
    Inert (x.dumpLayer0Activations rows chunkStart ctx mode) := by
  have hend : ∀ a ∈ [Action.sync, .poll, .writeFile], a.isStore = false ∧ a.isUpload = false := by
    decide
  have hfile : ∀ a ∈ [Action.writeFile], a.isStore = false ∧ a.isUpload = false := by decide
  have hstage : ∀ ks : List Kernel, Inert (ks.map Executor.launch ++ [.sync, .poll, .writeFile]) :=
    fun ks => inert_append (inert_launches ks) hend
  have hlast : Inert [Action.writeFile, .writeFile] := fun a ha => hfile a (by simpa using ha)
  have hfirst : Inert (.writeFile :: ([Kernel.embedGather rows, .rmsNorm rows].map Executor.launch ++
      [.sync, .poll, .writeFile])) := by
    intro a ha
    rcases List.mem_cons.mp ha with rfl | ha
    · exact ⟨rfl, rfl⟩
    · exact hstage _ a ha
  exact inert_append (inert_append (inert_append (inert_append hfirst (hstage _)) (hstage _))
    (hstage _)) hlast

/-- the work of a call after its fill: it stopped before its uploads, or made them all -/
inductive WorkOf (x : Executor) (c : StepCall) (fill : List Action) : List Action → Prop
  | stopped {work} : (∀ a ∈ work, a = .resolve) → WorkOf x c fill work
  | went {resolved rest} : (∀ a ∈ resolved, a = .resolve) → Inert rest → 0 < c.rows x →
      (∀ m, (c.uploads x).map (Action.copied (Executor.afterLog fill m)) = c.image x) →
      WorkOf x c fill (resolved ++ (c.uploads x ++ rest))

/-- the log of a call that starts -/
structure StartedLog (x : Executor) (c : StepCall) (fill work : List Action) : Prop where
  first : ∃ a as, fill = a :: as ∧ IsFirst a
  stores : ∀ a ∈ fill, a.isStore = true
  work : WorkOf x c fill work

theorem started_of_fill {α : Type} {x : Executor} {c : StepCall} {fill : ExecutorCall Nat}
    {f : Nat → ExecutorCall α} {log : List Action} {r : Except ExecutorError α}
    (h : fill >>= f = some (log, r)) (hb : Begins IsFirst fill)
    (he : Emits (fun a => a.isStore = true) fill)
    (hw : ∀ l rows, Returns fill l rows → ∀ l' r', f rows = some (l', r') → WorkOf x c l l') :
    ∃ l l', log = l ++ l' ∧ StartedLog x c l l' := by
  rcases of_bind h with ⟨e, hfill, _⟩ | ⟨l, l', rows, rfl, hfill, hf⟩
  · exact ⟨log, [], (List.append_nil _).symm, hb _ _ hfill, he _ _ hfill, .stopped nofun⟩
  · exact ⟨l, l', rfl, hb _ _ hfill, he _ _ hfill, hw l rows hfill l' r hf⟩

/-- what is logged by a call: nothing if it does not start, and otherwise a fill and its work -/
def CallShape (x : Executor) (c : StepCall) (log : List Action) : Prop :=
  ¬ c.Starts x ∧ log = [] ∨
    c.Starts x ∧ ∃ fill work, log = fill ++ work ∧ StartedLog x c fill work

theorem refused_shape {α : Type} {x : Executor} {c : StepCall} {s : ExecutorCall α}
    {log : List Action} {r : Except ExecutorError α} (h : s = some (log, r)) (hs : Refuses s)
    (hc : ¬ c.Starts x) : CallShape x c log := by
  obtain ⟨_, rfl, _⟩ := hs _ _ h
  exact Or.inl ⟨hc, rfl⟩

theorem decodeEager_shape {x : Executor} {batch : List Request} {log : List Action}
    {r : Except ExecutorError DecodeShape} (h : x.decodeEager batch = some (log, r)) :
    CallShape x (.decodeEager batch) log := by
  cases batch with
  | nil =>
    refine Or.inl ⟨?_, (outcome_inj h).1.symm⟩
    rintro ⟨_, q, rest, hnil, _⟩
    cases hnil
  | cons q rest =>
    unfold Executor.decodeEager at h
    rw [if_neg (List.cons_ne_nil q rest)] at h
    by_cases hmax : x.options.maxBatch < ((q :: rest).length : Int)
    · refine refused_shape h (refuses_failIf_bind fun h0 => absurd hmax h0) ?_
      rintro ⟨hle, _⟩
      omega
    by_cases hq : x.RowStarts q
    · refine Or.inr ⟨⟨by omega, q, rest, rfl, hq⟩, ?_⟩
      unfold failIf at h
      rw [if_neg hmax, bind_of_pure] at h
      refine started_of_fill h (Executor.fillDecodeMirrors_begins hq rest 0)
        (Executor.fillDecodeMirrors_emits _ 0) fun l rows hret l' r' hf => ?_
      obtain ⟨hrows, hle, himage⟩ := Executor.fillDecodeMirrors_image hret
      rcases of_bind hf with ⟨e, he, _⟩ | ⟨l1, l2, _, rfl, hwork, hend⟩
      · cases he
      · obtain ⟨rfl, _⟩ := outcome_inj hwork
        obtain ⟨rfl, _⟩ := outcome_inj hend
        rw [hrows] at himage hle ⊢
        rw [List.append_nil]
        have hnone : ∀ a ∈ ([] : List Action), a = .resolve := nofun
        unfold Executor.decodeEagerWork
        rw [List.append_assoc]
        exact .went hnone (inert_append (inert_launches _) (inert_finishDecode _))
          (Nat.lt_of_lt_of_le (Nat.succ_pos _) hle) himage
    · refine refused_shape h (refuses_failIf_bind fun _ =>
        (Executor.fillDecodeMirrors_refuses hq rest 0).bind _) ?_
      rintro ⟨_, q', rest', hcons, hq'⟩
      cases hcons
      exact hq hq'

theorem decodeGraph_shape {x : Executor} {batch : List Request} {log : List Action}
    {r : Except ExecutorError DecodeShape} (h : x.decodeGraph batch = some (log, r)) :
    CallShape x (.decodeGraph batch) log := by
  cases batch with
  | nil =>
    refine Or.inl ⟨?_, (outcome_inj h).1.symm⟩
    rintro ⟨⟨_, q, rest, hnil, _⟩, _⟩
    cases hnil
  | cons q rest =>
    unfold Executor.decodeGraph at h
    rw [if_neg (List.cons_ne_nil q rest)] at h
    by_cases hg : x.hasDecodeGraphs = false
    · refine refused_shape h (refuses_failIf_bind fun h0 => absurd hg h0) ?_
      rintro ⟨_, htrue, _⟩
      rw [hg] at htrue
      cases htrue
    by_cases hmax : x.options.maxBatch < ((q :: rest).length : Int)
    · refine refused_shape h (refuses_failIf_bind fun _ =>
        refuses_failIf_bind fun h0 => absurd hmax h0) ?_
      rintro ⟨⟨hle, _⟩, _⟩
      omega
    unfold failIf at h
    rw [if_neg hg, bind_of_pure, if_neg hmax, bind_of_pure] at h
    cases hb : selectBucket (q :: rest).length x.buckets with
    | none =>
      rw [hb] at h
      refine refused_shape h (refuses_raise _) ?_
      rintro ⟨_, _, hsome⟩
      rw [hb] at hsome
      cases hsome
    | some bucket =>
      rw [hb] at h
      by_cases hq : x.RowStarts q
      · refine Or.inr ⟨⟨⟨by omega, q, rest, rfl, hq⟩, by simpa using hg, by rw [hb]; rfl⟩, ?_⟩
        refine started_of_fill h (Executor.fillDecodeMirrors_begins hq rest bucket)
          (Executor.fillDecodeMirrors_emits _ bucket) fun l rows hret l' r' hf => ?_
        obtain ⟨_, hle, himage⟩ := Executor.fillDecodeMirrors_image hret
        have hcall : StepCall.rows x (.decodeGraph (q :: rest)) = bucket := by
          show (selectBucket (q :: rest).length x.buckets).getD 0 = bucket
          rw [hb]
          rfl
        by_cases hr : rows = bucket
        · subst hr
          unfold Script.assert at hf
          rw [if_pos rfl, bind_of_pure] at hf
          rcases of_bind hf with ⟨e, he, _⟩ | ⟨l1, l2, _, rfl, hwork, hend⟩
          · cases he
          · obtain ⟨rfl, _⟩ := outcome_inj hwork
            obtain ⟨rfl, _⟩ := outcome_inj hend
            rw [List.append_nil]
            rw [← hcall] at himage hle ⊢
            have hnone : ∀ a ∈ ([] : List Action), a = .resolve := nofun
            have hlaunch : ∀ ks, Inert [Action.launch ks] := fun ks a ha =>
              List.mem_singleton.mp ha ▸ ⟨rfl, rfl⟩
            exact .went hnone (inert_append (hlaunch _) (inert_finishDecode _))
              (Nat.lt_of_lt_of_le (Nat.succ_pos _) hle) himage
        · unfold Script.assert at hf
          rw [if_neg hr] at hf
          cases hf
      · refine refused_shape h ((Executor.fillDecodeMirrors_refuses hq rest bucket).bind _) ?_
        rintro ⟨⟨_, q', rest', hcons, hq'⟩, _⟩
        cases hcons
        exact hq hq'

theorem prefillChunk_shape {x : Executor} {dump : Bool} {q : Request} {chunkBegin chunkEnd : Nat}
    {log : List Action} {r : Except ExecutorError PrefillShape}
    (h : x.prefillChunk dump q chunkBegin chunkEnd = some (log, r)) :
    CallShape x (.prefillChunk dump q chunkBegin chunkEnd) log := by
  unfold Executor.prefillChunk at h
  by_cases hq : x.ChunkStarts q chunkBegin chunkEnd
  · refine Or.inr ⟨hq, started_of_fill h (Executor.fillPrefillMirrors_begins hq)
      (Executor.fillPrefillMirrors_emits q chunkBegin chunkEnd) fun l rows hret l' r' hf => ?_⟩
    obtain ⟨rfl, himage⟩ := Executor.fillPrefillMirrors_image hret
    rcases of_bind hf with ⟨e, he, _⟩ | ⟨l1, l2, _, rfl, hresolve, hrest⟩
    · cases he
    obtain ⟨rfl, _⟩ := outcome_inj hresolve
    have honly : ∀ a ∈ [Action.resolve], a = Action.resolve := fun a ha => List.mem_singleton.mp ha
    cases hp : x.probe (chunkEnd - chunkBegin) chunkEnd with
    | none =>
      rw [hp] at hrest
      obtain ⟨rfl, _⟩ := outcome_inj hrest
      exact .stopped honly
    | some mode =>
      rw [hp] at hrest
      rcases of_bind hrest with ⟨e, he, _⟩ | ⟨l3, l4, _, rfl, hwork, hend⟩
      · cases he
      · obtain ⟨rfl, _⟩ := outcome_inj hwork
        obtain ⟨rfl, _⟩ := outcome_inj hend
        rw [List.append_nil]
        unfold Executor.prefillWork
        rw [List.append_assoc, List.append_assoc]
        refine .went (c := .prefillChunk dump q chunkBegin chunkEnd) honly (inert_append
          (inert_launches _) (inert_append (inert_finishPrefill _) ?_)) (Nat.sub_pos_of_lt hq.slice.1)
          himage
        cases dump with
        | false => exact nofun
        | true => exact inert_dump _ _ _ _ _
  · exact refused_shape h ((Executor.fillPrefillMirrors_refuses hq).bind _) hq

theorem callLog_shape {x : Executor} {c : StepCall} {log : List Action}
    (h : x.callLog c = some log) : CallShape x c log := by
  cases c with
  | prefillChunk dump q chunkBegin chunkEnd =>
    obtain ⟨⟨_, r⟩, hcall, rfl⟩ := Option.map_eq_some_iff.mp h
    exact prefillChunk_shape hcall
  | decodeEager batch =>
    obtain ⟨⟨_, r⟩, hcall, rfl⟩ := Option.map_eq_some_iff.mp h
    exact decodeEager_shape hcall
  | decodeGraph batch =>
    obtain ⟨⟨_, r⟩, hcall, rfl⟩ := Option.map_eq_some_iff.mp h
    exact decodeGraph_shape hcall

end Redline
