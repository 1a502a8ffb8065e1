import Redline.Core.Capture
import Redline.Engine.Launch
import Redline.Lib.Contract

/-!
# Graph capture is all or nothing

`Core/Capture` under any answers, at every call.

* `Held`, `Tidy`          what holds wherever a failure strikes, and between two buckets;
* `captureBucket_tidy`    one bucket adds one executable, recorded at its row count;
* `capture_allOrNothing`  the capture returns with every bucket's executable, or with nothing left.
-/

namespace Redline
open Script

namespace Executor

section
variable {answers : Nat → Option String} {x : Executor} {done : List Nat} {bucket : Nat}

/-! ## the states of a capture -/

section
variable (answers)

/-- the launches of `kernels` that did not fail, when the answer of the first is number `first` -/
def launches (first : Nat) (kernels : List Kernel) : List Kernel :=
  ((kernels.zipIdx first).filter fun k => (answers k.2).isNone).map Prod.fst

/-- recorded from `kernels`: only launches that failed are missing, and no product is one -/
structure RecordedFrom (kernels recorded : List Kernel) : Prop where
  launched : ∃ first, recorded = launches answers first kernels
  products : ∀ which rows, .gemm which rows ∈ kernels → .gemm which rows ∈ recorded

/-- wherever a failure strikes: every graph is destroyed, and `execs` holds every executable -/
structure Held (x : Executor) (done : List Nat) (s : CaptureState) : Prop where
  graphExecs : s.graphExecs = []
  destroyedExecs : s.destroyedExecs = []
  graphs : s.destroyedGraphs = List.range s.graphs.length
  execs : s.execs = List.range s.executables.length
  executables : List.Forall₂ (fun rows => RecordedFrom answers (x.decodeKernels rows))
    done s.executables
  capturing : s.capturing = s.recording.isSome

/-- between two buckets -/
structure Tidy (x : Executor) (done : List Nat) (s : CaptureState) :
    Prop extends Held answers x done s where
  closed : s.recording = none

/-- while a bucket is recorded, after `kernels` -/
structure Recording (x : Executor) (done : List Nat) (kernels : List Kernel) (s : CaptureState) : Prop
    extends Held answers x done s where
  recorded : ∃ first, s.answered = first + kernels.length ∧
    s.recording = some (launches answers first kernels) ∧
    ∀ which rows, .gemm which rows ∈ kernels → .gemm which rows ∈ launches answers first kernels

/-- a failure, after any buckets -/
def Thrown (x : Executor) (s : CaptureState) : Prop := ∃ done, Held answers x done s

end

theorem Tidy.thrown {s : CaptureState} (h : Tidy answers x done s) : Thrown answers x s :=
  ⟨done, h.toHeld⟩

/-! ## the calls -/

/-- a predicate that reads neither the mirrors nor the count of the answers -/
def Unread (P : CaptureState → Prop) : Prop :=
  ∀ s n m, P s → P { s with answered := n, mirrors := m }

theorem Held.unread : Unread (Held answers x done) := fun _ _ _ h =>
  ⟨h.graphExecs, h.destroyedExecs, h.graphs, h.execs, h.executables, h.capturing⟩

theorem Tidy.unread : Unread (Tidy answers x done) :=
  fun s n m h => ⟨Held.unread s n m h.toHeld, h.closed⟩

theorem cudaCheck_keeps {P : CaptureState → Prop} (hP : Unread P) (what : String) :
    Contract P (cudaCheck answers what) (fun _ => P) P := by
  refine Contract.bind (Q := fun _ => P) (fun s hs => hP s _ s.mirrors hs) fun answer => ?_
  cases answer with
  | none => exact Contract.ret fun _ h => h
  | some error => exact Contract.raise fun _ h => h

/-- a failure between two buckets is a failure -/
theorem quiet {α : Type} {y : CaptureM α} {Q : α → CaptureState → Prop}
    (h : Contract (Tidy answers x done) y Q (Tidy answers x done)) :
    Contract (Tidy answers x done) y Q (Thrown answers x) :=
  h.mono (fun _ h => h) (fun _ _ h => h) fun _ h => h.thrown

/-- outside of a capture nothing is recorded -/
theorem perform_tidy (action : Action) : Contract (Tidy answers x done) (perform answers action)
    (fun _ => Tidy answers x done) (Tidy answers x done) := by
  cases action with
  | store w => exact Contract.update fun s h => Tidy.unread s s.answered _ h
  | resolve => exact Contract.ret fun _ h => h
  | writeFile => exact Contract.ret fun _ h => h
  | upload mirror count => exact cudaCheck_keeps Tidy.unread _
  | download count => exact cudaCheck_keeps Tidy.unread _
  | sync => exact cudaCheck_keeps Tidy.unread _
  | poll => exact cudaCheck_keeps Tidy.unread _
  | launch kernels =>
    refine Contract.bind (Q := fun _ => Tidy answers x done)
      (fun s hs => Tidy.unread s _ s.mirrors hs) fun answer => ?_
    cases answer with
    | none =>
      refine Contract.update fun s h => ?_
      have hsame : s.recording.map (· ++ kernels) = s.recording := by rw [h.closed]; rfl
      rw [hsame]
      exact h
    | some error =>
      dsimp only
      split
      · exact Contract.raise fun _ h => h
      · exact Contract.ret fun _ h => h

theorem performAll_tidy (actions : List Action) :
    Contract (Tidy answers x done) (actions.forM (perform answers)) (fun _ => Tidy answers x done)
      (Tidy answers x done) :=
  Contract.forM (fun _ => Tidy answers x done) actions [] fun _ action => perform_tidy action

/-! ## recording -/

theorem launches_snoc (first : Nat) (kernels : List Kernel) (k : Kernel) :
    launches answers first (kernels ++ [k]) =
      launches answers first kernels ++ if
        (answers (first + kernels.length)).isNone then [k] else [] := by
  unfold launches
  rw [List.zipIdx_append, List.filter_append, List.map_append]
  congr 1
  cases h : (answers (first + kernels.length)).isNone <;> simp [List.filter, h]

theorem enqueue_recording (kernels : List Kernel) (k : Kernel) :
    Contract (Recording answers x done kernels) (perform answers (launch k))
      (fun _ => Recording answers x done (kernels ++ [k])) (Thrown answers x) := by
  refine Contract.bind (Q := fun answer s => Held answers x done s ∧ ∃ first,
    s.answered = first + kernels.length + 1 ∧
    answers (first + kernels.length) = answer ∧ s.recording = some (launches answers first kernels) ∧
      ∀ which rows, .gemm which rows ∈ kernels →
        .gemm which rows ∈ launches answers first kernels) ?_ fun answer => ?_
  · intro s h
    obtain ⟨first, hanswered, hrec, hproducts⟩ := h.recorded
    exact ⟨Held.unread s _ s.mirrors h.toHeld, first, congrArg (· + 1) hanswered, hanswered ▸ rfl,
      hrec, hproducts⟩
  have hlength : (kernels ++ [k]).length = kernels.length + 1 := List.length_append
  cases answer with
  | none =>
    refine Contract.update fun s h => ?_
    obtain ⟨hheld, first, hanswered, hnone, hrec, hproducts⟩ := h
    have hmore : launches answers first (kernels ++ [k]) = launches answers first kernels ++ [k] := by
      rw [launches_snoc, hnone]
      rfl
    have hrec' : s.recording.map (· ++ [k]) = some (launches answers first (kernels ++ [k])) := by
      rw [hrec, hmore]
      rfl
    refine ⟨⟨hheld.graphExecs, hheld.destroyedExecs, hheld.graphs, hheld.execs, hheld.executables,
      ?_⟩, first, ?_, hrec', ?_⟩
    · show s.capturing = (s.recording.map (· ++ [k])).isSome
      rw [hheld.capturing, Option.isSome_map]
    · rw [hlength, ← Nat.add_assoc]
      exact hanswered
    · rw [hmore]
      intro which rows hmem
      rcases List.mem_append.mp hmem with hmem | hmem
      · exact List.mem_append_left _ (hproducts which rows hmem)
      · exact List.mem_append_right _ hmem
  | some error =>
    by_cases hk : isGemm k = true
    · have hany : [k].any isGemm = true := by simp [hk]
      simp only [hany, if_true]
      exact Contract.raise fun _ h => ⟨done, h.1⟩
    · have hany : [k].any isGemm = false := by simpa using hk
      simp only [hany]
      refine Contract.ret fun s h => ?_
      obtain ⟨hheld, first, hanswered, hsome, hrec, hproducts⟩ := h
      -- the launch is missing, and it is not a product
      have hsame : launches answers first (kernels ++ [k]) = launches answers first kernels := by
        rw [launches_snoc, hsome]
        exact List.append_nil _
      refine ⟨hheld, first, ?_, hsame ▸ hrec, ?_⟩
      · rw [hlength, ← Nat.add_assoc]
        exact hanswered
      · rw [hsame]
        intro which rows hmem
        rcases List.mem_append.mp hmem with hmem | hmem
        · exact hproducts which rows hmem
        · rw [← List.mem_singleton.mp hmem] at hk
          exact absurd rfl hk

theorem performAll_recording (kernels : List Kernel) : ∀ before : List Kernel,
    Contract (Recording answers x done before) ((kernels.map launch).forM (perform answers))
      (fun _ => Recording answers x done (before ++ kernels)) (Thrown answers x) := by
  induction kernels with
  | nil =>
    intro before
    rw [List.append_nil]
    exact Contract.ret fun _ h => h
  | cons k kernels ih =>
    intro before
    have hrest := ih (before ++ [k])
    rw [List.append_assoc] at hrest
    exact Contract.bind (enqueue_recording before k) fun _ => hrest

theorem begin_recording : Contract (Tidy answers x done)
    (beginCapture answers >>= fun _ => modify fun s => { s with capturing := true })
    (fun _ => Recording answers x done []) (Thrown answers x) := by
  refine Contract.bind (Q := fun _ s => Recording answers x done [] { s with capturing := true }) ?_
    fun _ => Contract.update fun _ h => h
  refine Contract.bind
    ((cudaCheck_keeps Tidy.unread _).mono (fun _ h => h) (fun _ _ h => h) fun _ h => h.thrown)
    fun _ => Contract.update fun s h => ?_
  exact ⟨⟨h.graphExecs, h.destroyedExecs, h.graphs, h.execs, h.executables, rfl⟩, s.answered, rfl, rfl,
    fun _ _ hmem => absurd hmem List.not_mem_nil⟩

/-! ## from the recording to the executable -/

variable (answers) in
/-- a graph that was captured and not destroyed yet -/
structure Template (x : Executor) (done : List Nat) (bucket graph : Nat) (s : CaptureState) : Prop where
  graphExecs : s.graphExecs = []
  destroyedExecs : s.destroyedExecs = []
  execs : s.execs = List.range s.executables.length
  executables : List.Forall₂ (fun rows => RecordedFrom answers (x.decodeKernels rows))
    done s.executables
  capturing : s.capturing = false
  closed : s.recording = none
  graphs : s.destroyedGraphs = List.range graph ∧ s.graphs.length = graph + 1
  recorded : RecordedFrom answers (x.decodeKernels bucket) (s.graphs.getD graph [])

/-- a failed end of a capture leaves no graph, and closes it -/
theorem endCapture_contract : Contract (Recording answers x done (x.decodeKernels bucket))
    (endCapture answers) (fun r s => match r with
      | .ok graph => Template answers x done bucket graph { s with capturing := false }
      | .error _ => Tidy answers x done { s with capturing := false }) (Thrown answers x) := by
  intro s h
  obtain ⟨first, _, hrec, hproducts⟩ := h.recorded
  unfold endCapture
  rw [hrec]
  cases answers s.answered with
  | some error => exact ⟨⟨h.graphExecs, h.destroyedExecs, h.graphs, h.execs, h.executables, rfl⟩, rfl⟩
  | none =>
    refine ⟨h.graphExecs, h.destroyedExecs, h.execs, h.executables, rfl, rfl, ⟨h.graphs, ?_⟩, ?_⟩
    · exact List.length_append
    · show RecordedFrom answers _ ((s.graphs ++ [launches answers first _]).getD s.graphs.length [])
      rw [List.getD_eq_getElem?_getD, List.getElem?_concat_length]
      exact ⟨⟨first, rfl⟩, hproducts⟩

/-- the template is destroyed whether or not it could be instantiated -/
theorem instantiate_contract (graph : Nat) : Contract (Template answers x done bucket graph)
    (instantiate answers graph) (fun r s => match r with
      | .ok exec => Tidy answers x (done ++ [bucket])
          { s with destroyedGraphs := s.destroyedGraphs ++ [graph], execs := s.execs ++ [exec] }
      | .error _ => Tidy answers x done { s with destroyedGraphs := s.destroyedGraphs ++ [graph] }) (Thrown answers x) := by
  intro s h
  have hgraphs : s.destroyedGraphs ++ [graph] = List.range s.graphs.length := by
    rw [h.graphs.1, h.graphs.2, List.range_succ]
  have hcapturing : s.capturing = s.recording.isSome := by rw [h.capturing, h.closed]; rfl
  unfold instantiate
  cases answers s.answered with
  | some error =>
    exact ⟨⟨h.graphExecs, h.destroyedExecs, hgraphs, h.execs, h.executables,
      hcapturing⟩, h.closed⟩
  | none =>
    refine ⟨⟨h.graphExecs, h.destroyedExecs, hgraphs, ?_, ?_, hcapturing⟩, h.closed⟩
    · show s.execs ++ [s.executables.length] = List.range (s.executables ++ [_]).length
      rw [h.execs, List.length_append, List.length_singleton, List.range_succ]
    · exact List.rel_append h.executables (.cons h.recorded .nil)

/-- **One bucket**: another executable, recorded at the row count of the bucket. -/
theorem captureBucket_tidy (bucket : Nat) :
    Contract (Tidy answers x done) (captureBucket answers x bucket)
      (fun _ => Tidy answers x (done ++ [bucket])) (Thrown answers x) := by
  unfold captureBucket
  refine (quiet (performAll_tidy _)).bind fun _ => ?_
  rw [← bind_assoc]
  refine begin_recording.bind fun _ => (performAll_recording _ []).bind fun _ => ?_
  rw [List.nil_append]
  refine endCapture_contract.bind fun ended => ?_
  refine Contract.bind (Q := fun _ s => match ended with
    | .ok graph => Template answers x done bucket graph s
    | .error _ => Tidy answers x done s) (Contract.update fun s h => ?_) fun _ => ?_
  · cases ended with
    | ok graph => exact h
    | error e => exact h
  refine Contract.bind (Q := Template answers x done bucket) ?_ fun graph => ?_
  · cases ended with
    | ok graph => exact Contract.ret fun _ h => h
    | error e => exact Contract.raise fun _ h => h.thrown
  refine (instantiate_contract graph).bind fun instantiated => ?_
  refine Contract.bind (Q := fun _ s => match instantiated with
    | .ok exec => Tidy answers x (done ++ [bucket]) { s with execs := s.execs ++ [exec] }
    | .error _ => Tidy answers x done s) (Contract.update fun s h => ?_) fun _ => ?_
  · cases instantiated with
    | ok exec => exact h
    | error e => exact h
  refine Contract.bind (Q := fun exec s =>
    Tidy answers x (done ++ [bucket]) { s with execs := s.execs ++ [exec] }) ?_
    fun exec => ?_
  · cases instantiated with
    | ok exec => exact Contract.ret fun _ h => h
    | error e => exact Contract.raise fun _ h => h.thrown
  refine Contract.bind (Q := fun _ => Tidy answers x (done ++ [bucket]))
    (Contract.update fun _ h => h) fun _ => ?_
  exact (quiet (cudaCheck_keeps Tidy.unread _)).bind fun _ => quiet (cudaCheck_keeps Tidy.unread _)

/-! ## the cleanup -/

/-- nothing is left of a capture -/
structure Released (s : CaptureState) : Prop where
  graphExecs : s.graphExecs = []
  closed : s.recording = none
  graphs : s.destroyedGraphs = List.range s.graphs.length
  execs : s.destroyedExecs = List.range s.executables.length

theorem endOpenCapture_tidy : Contract (Thrown answers x) (endOpenCapture answers)
    (fun _ s => Released { s with destroyedExecs := s.destroyedExecs ++ s.execs }) fun _ => False := by
  rintro s ⟨done, h⟩
  have hexecs : s.destroyedExecs ++ s.execs = List.range s.executables.length := by
    rw [h.destroyedExecs, List.nil_append, h.execs]
  cases hrec : s.recording with
  | none =>
    have hcapturing : s.capturing = false := by rw [h.capturing, hrec]; rfl
    have hrun : endOpenCapture answers s = .ok () s := by
      show (if s.capturing = true then _ else pure () : CaptureM Unit) s = _
      rw [hcapturing]
      rfl
    rw [hrun]
    exact ⟨h.graphExecs, hrec, h.graphs, hexecs⟩
  | some recorded =>
    have hcapturing : s.capturing = true := by rw [h.capturing, hrec]; rfl
    have hopen : endOpenCapture answers s = (endCapture answers >>= fun ended =>
        match ended with | .ok dead => destroyGraph dead | .error _ => pure ()) s := by
      show (if s.capturing = true then _ else pure () : CaptureM Unit) s = _
      exact congrFun (if_pos hcapturing) s
    rw [hopen]
    simp only [bind, EStateM.bind, endCapture, hrec]
    cases answers s.answered with
    | some error => exact ⟨h.graphExecs, rfl, h.graphs, hexecs⟩
    | none =>
      refine ⟨h.graphExecs, rfl, ?_, hexecs⟩
      show s.destroyedGraphs ++ [s.graphs.length] = List.range (s.graphs ++ [recorded]).length
      rw [h.graphs, List.length_append, List.length_singleton, List.range_succ]

theorem degrade_released : Contract (Thrown answers x) (degrade answers)
    (fun _ => Released) fun _ => False := by
  have hstatus : Contract Released (status answers) (fun _ => Released) fun _ => False :=
    fun _ h => ⟨h.graphExecs, h.closed, h.graphs, h.execs⟩
  unfold degrade
  refine endOpenCapture_tidy.bind fun _ => ?_
  refine Contract.bind (Q := fun _ => Released) (Contract.update fun _ h => h) fun _ => ?_
  refine hstatus.bind fun _ => hstatus.bind fun _ => Contract.ret fun _ h => h

/-! ## the capture -/

variable (answers) in
/-- every bucket has its executable, or nothing is left -/
def AllOrNothing (x : Executor) (s : CaptureState) : Prop :=
  Released s ∨ s.recording = none ∧ s.destroyedGraphs = List.range s.graphs.length ∧
    s.destroyedExecs = [] ∧
    s.graphExecs = List.range s.executables.length ∧
    List.Forall₂ (fun rows => RecordedFrom answers (x.decodeKernels rows)) x.buckets s.executables

theorem captureDecodeGraphs_contract : Contract (Tidy answers x []) (captureDecodeGraphs answers x)
    (fun _ => AllOrNothing answers x)
    fun _ => False := by
  unfold captureDecodeGraphs
  refine Contract.bind (Q := fun _ => Tidy answers x []) (Contract.update fun s h => ?_) fun _ => ?_
  · have hnone : s.executables = [] := List.forall₂_nil_left_iff.mp h.executables
    refine ⟨⟨h.graphExecs, h.destroyedExecs, h.graphs, ?_, h.executables, ?_⟩, h.closed⟩
    · show [] = List.range s.executables.length
      rw [hnone]
      rfl
    · show false = s.recording.isSome
      rw [h.closed]
      rfl
  refine Contract.bind (Q := fun captured s =>
    if captured then Tidy answers x x.buckets s else Released s)
    (Contract.tryCatch (H := Thrown answers x) ?_ fun _ => ?_) fun captured => ?_
  · refine Contract.bind (Contract.forM (fun _ => Tidy answers x []) x.buckets [] fun _ bucket =>
      ?_) fun _ => ?_
    · exact quiet (performAll_tidy _)
    refine (quiet (cudaCheck_keeps Tidy.unread _)).bind fun _ => ?_
    refine (Contract.forM (Tidy answers x) x.buckets [] fun _ bucket =>
      captureBucket_tidy bucket).bind fun _ => ?_
    refine (quiet (cudaCheck_keeps Tidy.unread _)).bind fun _ => Contract.ret fun _ h => ?_
    exact h
  · exact degrade_released.bind fun _ => Contract.ret fun _ h => h
  · cases captured with
    | true =>
      exact Contract.update fun s h => Or.inr ⟨h.closed, h.graphs, h.destroyedExecs, h.execs,
        h.executables⟩
    | false => exact Contract.ret fun _ h => Or.inl h

/-! ## the replay -/

/-- a product of a recording has the row count that it was recorded at -/
theorem product_rows {which : Gemm} {r rows : Nat} (h : .gemm which r ∈ x.decodeKernels rows) :
    r = rows := by
  unfold decodeKernels enqueueDecodeForward mlpKernels inputNorm at h
  simp only [List.mem_append, List.mem_cons, List.mem_flatMap, List.not_mem_nil, or_false,
    reduceCtorEq, false_or, Kernel.gemm.injEq] at h
  rcases h with ⟨layer, _, hnorm | h | h | h | h⟩ | h
  · split at hnorm <;> cases hnorm
  all_goals exact h.2

variable (answers) in
/-- what an executable runs that was recorded at `rows`, and at no other row count -/
structure RecordedAt (x : Executor) (rows : Nat) (kernels : List Kernel) : Prop where
  recorded : RecordedFrom answers (x.decodeKernels rows) kernels
  unique : ∀ rows', RecordedFrom answers (x.decodeKernels rows') kernels → rows' = rows

theorem RecordedFrom.at {rows : Nat} {kernels : List Kernel}
    (h : RecordedFrom answers (x.decodeKernels rows) kernels) :
    RecordedAt answers x rows kernels := by
  refine ⟨h, fun rows' h' => ?_⟩
  have hhead : Kernel.gemm .lmHead rows ∈ x.decodeKernels rows := by
    unfold decodeKernels enqueueDecodeForward
    simp
  obtain ⟨first, hlaunched⟩ := h'.launched
  have hmem : Kernel.gemm .lmHead rows ∈ launches answers first (x.decodeKernels rows') :=
    hlaunched ▸ h.products .lmHead rows hhead
  obtain ⟨k, hk, hkernel⟩ := List.mem_map.mp hmem
  have hmem' := List.fst_mem_of_mem_zipIdx (List.mem_of_mem_filter hk)
  rw [hkernel] at hmem'
  exact (product_rows hmem').symm

variable (answers) in
/-- the executable of each bucket, in the order of the ladder -/
def Captured (x : Executor) (s : CaptureState) : Prop :=
  s.graphExecs.length = x.buckets.length ∧ ∀ (i rows : Nat), x.buckets[i]? = some rows →
    ∃ (exec : Nat) (kernels : List Kernel), s.graphExecs[i]? = some exec ∧
      s.executables[exec]? = some kernels ∧
      RecordedAt answers x rows kernels

theorem captured_of_forall₂ {s : CaptureState} (hexecs : s.graphExecs = List.range s.executables.length)
    (h : List.Forall₂ (fun rows => RecordedFrom answers (x.decodeKernels rows))
      x.buckets s.executables) : x.Captured answers s := by
  refine ⟨by rw [hexecs, List.length_range, h.length_eq], fun i rows hi => ?_⟩
  obtain ⟨hlt, hrows⟩ := List.getElem?_eq_some_iff.mp hi
  have hlt' : i < s.executables.length := h.length_eq ▸ hlt
  refine ⟨i, s.executables[i], ?_, List.getElem?_eq_getElem hlt', ?_⟩
  · rw [hexecs, List.getElem?_range hlt']
  · exact hrows ▸ (h.get hlt hlt').at

/-- a replay after the capture: the executable was recorded at the rows that were filled -/
theorem replayed_rows {s : CaptureState} (hs : s.graphExecs = [] ∨ x.Captured answers s)
    {batch : List Request} {log : List Action} {shape : DecodeShape} (hne : batch ≠ [])
    (h : Returns ((x.withGraphs s).decodeGraph batch) log shape) :
    ∃ (exec : Nat) (kernels : List Kernel) (fill : List Action), x.replayed s batch = some exec ∧
      s.executables[exec]? = some kernels ∧ RecordedAt answers x shape.rows kernels ∧
      Returns ((x.withGraphs s).fillDecodeMirrors batch shape.rows) fill shape.rows ∧
      log = fill ++ (x.withGraphs s).decodeGraphWork shape.rows := by
  obtain ⟨hg, bucket, fill, hb, rfl, hfill, hlog⟩ := decodeGraph_inv hne h
  have hgraphs : s.graphExecs ≠ [] := by
    rintro hnil
    unfold withGraphs at hg
    rw [hnil] at hg
    cases hg
  obtain ⟨-, hall⟩ := hs.resolve_left hgraphs
  have hmem : bucket ∈ x.buckets := (selectBucket_some hb).2.2
  obtain ⟨exec, kernels, hexec, hkernels, hrec⟩ :=
    hall (x.buckets.idxOf bucket) bucket (List.getElem?_idxOf hmem)
  refine ⟨exec, kernels, fill, ?_, hkernels, hrec, hfill, hlog⟩
  unfold replayed
  rw [show selectBucket batch.length x.buckets = some bucket from hb]
  exact hexec

/-- **Graph capture is all or nothing.**  Whatever fails, it returns with the stream out of capture mode
and every graph destroyed once; there is an executable for each bucket, recorded at its row count with
every launch that did not fail, or every executable was destroyed once and there is none.  A replay
launches one that was recorded at the rows that it filled, and `ReleaseAll` leaves every executable
destroyed once. -/
theorem capture_allOrNothing (x : Executor) (answers : Nat → Option String) (mirrors : Mirrors) :
    ∃ s, x.captureDecodeGraphs answers (.initial mirrors) = .ok () s ∧ s.recording = none ∧
      s.destroyedGraphs = List.range s.graphs.length ∧
      (x.Captured answers s ∧ s.graphExecs = List.range s.executables.length ∧ s.destroyedExecs = [] ∨
        s.graphExecs = [] ∧ s.destroyedExecs = List.range s.executables.length) ∧
      (releaseGraphs s).destroyedExecs = List.range s.executables.length ∧
      ∀ batch log shape, batch ≠ [] → Returns ((x.withGraphs s).decodeGraph batch) log shape →
        ∃ (exec : Nat) (kernels : List Kernel) (fill : List Action), x.replayed s batch = some exec ∧
          s.executables[exec]? = some kernels ∧ RecordedAt answers x shape.rows kernels ∧
          Returns ((x.withGraphs s).fillDecodeMirrors batch shape.rows) fill shape.rows ∧
          log = fill ++ (x.withGraphs s).decodeGraphWork shape.rows := by
  have hstart : Tidy answers x [] (.initial mirrors) := ⟨⟨rfl, rfl, rfl, rfl, .nil, rfl⟩, rfl⟩
  obtain ⟨_, s, hrun, h⟩ :=
    captureDecodeGraphs_contract.returns (x := x.captureDecodeGraphs answers) hstart
  refine ⟨s, hrun, ?_⟩
  rcases h with h | ⟨hclosed, hgraphs, hdestroyed, hexecs, hall⟩
  · refine ⟨h.closed, h.graphs, Or.inr ⟨h.graphExecs, h.execs⟩, ?_, fun batch log shape hne hret =>
      replayed_rows (Or.inl h.graphExecs) hne hret⟩
    show s.destroyedExecs ++ s.graphExecs = _
    rw [h.graphExecs, List.append_nil, h.execs]
  · have hcaptured := captured_of_forall₂ hexecs hall
    refine ⟨hclosed, hgraphs, Or.inl ⟨hcaptured, hexecs, hdestroyed⟩, ?_,
      fun batch log shape hne hret =>
      replayed_rows (Or.inr hcaptured) hne hret⟩
    show s.destroyedExecs ++ s.graphExecs = _
    rw [hdestroyed, hexecs, List.nil_append]

end
end Executor
end Redline
