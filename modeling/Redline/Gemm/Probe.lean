import Redline.Gemm.Calls
import Redline.Loader.Layout

/-!
# The decode products are probed first

`ModelExecutor::ProbeDecodeGemmConfigs` of `core/model_executor.cpp`, and what the plan cache holds
once it has returned.

* `Cached`, `Serves`      an available plan for a configuration; a list of calls that only uses such;
* `probeAll_ok`           probes that report nothing leave their configurations cached;
* `probed_serves`         every bucket of the ladder, and the head of a last prefill chunk, after any
                          further calls.
-/

namespace Redline

namespace CublasLtGemm

/-! ## probing -/

inductive ProbeError where
  | gemm (error : GemmError)
  /-- "cuBLASLt offers no algorithm for decode GEMM configuration(s)", with their tags -/
  | unavailable (tags : List String)
  deriving DecidableEq, Repr

/-- the probes one after the other, with the tags of those that are unavailable -/
def probeAll (g : CublasLtGemm) : List (GemmConfig × String) → (Nat → BuildAnswers) → List String →
    Except GemmError (List String) × CublasLtGemm
  | [], _, unavailable => (.ok unavailable, g)
  | (config, tag) :: probes, answers, unavailable =>
    match g.probe config tag (answers 0) with
    | (.error error, g) => (.error error, g)
    | (.ok true, g) => g.probeAll probes (fun i => answers (i + 1)) unavailable
    | (.ok false, g) => g.probeAll probes (fun i => answers (i + 1)) (unavailable ++ [tag])

end CublasLtGemm

namespace DeviceBuffers
open CublasLtGemm

/-- the buckets, and `max_batch` if it is none -/
def rowShapes (o : ExecutorOptions) : List Nat :=
  let buckets := makeDecodeBuckets o.maxBatch.toNat
  if buckets.getLast? = some o.maxBatch.toNat then buckets else buckets ++ [o.maxBatch.toNat]

def decodeProbes (x : DeviceBuffers) (rows : Nat) : List (GemmConfig × String) :=
  let hidden := x.config.hiddenSize
  let named := "decode[b=" ++ toString rows ++ "]:"
  [(.linear rows x.qkvWidth hidden hidden x.qkvWidth .kBias, named ++ "qkv_bias"),
   (.linear rows hidden hidden hidden hidden .kNone, named ++ "o"),
   (.linear rows x.gateupWidth hidden hidden x.gateupWidth .kNone, named ++ "gateup"),
   (.linear rows hidden x.config.intermediateSize x.gateupWidth hidden .kNone, named ++ "down"),
   (.linear rows x.config.vocabSize hidden hidden x.config.vocabSize .kNone, named ++ "lm_head")]

def probeDecodeGemmConfigs (x : DeviceBuffers) (g : CublasLtGemm) (answers : Nat → BuildAnswers) :
    Except ProbeError Unit × CublasLtGemm :=
  match g.probeAll ((rowShapes x.options).flatMap x.decodeProbes) answers [] with
  | (.error error, g) => (.error (.gemm error), g)
  | (.ok [], g) => (.ok (), g)
  | (.ok unavailable, g) => (.error (.unavailable unavailable), g)

end DeviceBuffers

/-! ## cached configurations -/

/-- neither the bias attribute nor the product fails -/
def RunAnswers.LibraryOk (answers : RunAnswers) : Prop :=
  answers.biasAttribute = none ∧ answers.matmul = none

namespace CublasLtGemm

def Cached (g : CublasLtGemm) (config : GemmConfig) : Prop :=
  ∃ plan, g.findPlan (normalized config) = some plan ∧ plan.available = true

/-- every call looks up an available plan: the cache stays, and nothing is thrown of its own -/
def Serves (g : CublasLtGemm) (calls : List GemmCall) : Prop :=
  (∀ call ∈ calls, g.Cached call.config) ∧ ∀ answers : Nat → RunAnswers,
    (g.gemmAll calls answers).2 = g ∧
    ((∀ i, (answers i).LibraryOk) → (g.gemmAll calls answers).1 = .ok ())

section
variable {g g' : CublasLtGemm}

theorem launch_ok {config : GemmConfig} {answers : RunAnswers} {plan : Plan}
    (havailable : plan.available = true)
    (hok : answers.LibraryOk) : launch config answers plan = .ok plan := by
  unfold launch
  rw [if_neg (not_not.mpr havailable), hok.1, hok.2]
  cases config.epilogue <;> rfl

/-- a call on a cached configuration is the launch of its plan -/
theorem gemm_cached (hinit : g.initialized = true) {call : GemmCall} (hcall : call.rejected = none)
    (hcached : g.Cached call.config) (answers : RunAnswers) :
    (g.gemm call answers).2 = g ∧ (answers.LibraryOk → ∃ plan, (g.gemm call answers).1 = .ok plan) := by
  obtain ⟨plan, hfind, havailable⟩ := hcached
  have hrun : g.gemm call answers = (launch (normalized call.config) answers plan, g) := by
    unfold gemm runImpl planFor
    simp only [hcall, if_neg (not_not.mpr hinit), hfind]
    rfl
  rw [hrun]
  exact ⟨rfl, fun hok => ⟨plan, launch_ok havailable hok⟩⟩

theorem serves_of_cached (hinit : g.initialized = true) : ∀ {calls : List GemmCall},
    (∀ call ∈ calls, call.rejected = none ∧ g.Cached call.config) → g.Serves calls := by
  intro calls hcalls
  refine ⟨fun call hcall => (hcalls call hcall).2, ?_⟩
  induction calls with
  | nil => exact fun _ => ⟨rfl, fun _ => rfl⟩
  | cons call calls ih =>
    intro answers
    obtain ⟨haccepted, hcached⟩ := hcalls call List.mem_cons_self
    obtain ⟨hsame, hdone⟩ := gemm_cached hinit haccepted hcached (answers 0)
    have hrest := ih (fun c hc => hcalls c (List.mem_cons_of_mem _ hc)) fun i => answers (i + 1)
    unfold gemmAll
    revert hsame hdone
    cases g.gemm call (answers 0) with
    | mk result after =>
      rintro rfl hdone
      cases result with
      | error e =>
        refine ⟨rfl, fun hok => ?_⟩
        obtain ⟨plan, hplan⟩ := hdone (hok 0)
        cases hplan
      | ok plan => exact ⟨hrest.1, fun hok => hrest.2 fun i => hok (i + 1)⟩

/-! ## what stays -/

theorem Grows.initialized (h : Grows g g') : g'.initialized = g.initialized := by
  rcases h with rfl | ⟨plan, _, _, rfl⟩
  · rfl
  · rfl

/-- a later cache: still coherent, and with the plans of the earlier -/
structure Later (g g' : CublasLtGemm) : Prop where
  coherent : Coherent g'
  initialized : g'.initialized = g.initialized
  keeps : ∀ {config : GemmConfig} {plan : Plan}, g.findPlan config = some plan →
    g'.findPlan config = some plan

theorem Later.refl (h : Coherent g) : Later g g := ⟨h, rfl, id⟩

theorem Later.trans {g'' : CublasLtGemm} (h : Later g g') (h' : Later g' g'') : Later g g'' :=
  ⟨h'.coherent, h'.initialized.trans h.initialized, fun hfind => h'.keeps (h.keeps hfind)⟩

theorem later_step (h : Coherent g) (call : Call) : Later g (g.step call) :=
  ⟨h.grows (grows_step call), (grows_step call).initialized, h.findPlan_grows (grows_step call)⟩

theorem later_run (h : Coherent g) (calls : List Call) : Later g (g.run calls) := by
  unfold run
  induction calls generalizing g with
  | nil => exact .refl h
  | cons call calls ih => exact (later_step h call).trans (ih (later_step h call).coherent)

theorem Later.cached (h : Later g g') {config : GemmConfig} (hcached : g.Cached config) :
    g'.Cached config := by
  obtain ⟨plan, hfind, havailable⟩ := hcached
  exact ⟨plan, h.keeps hfind, havailable⟩

/-! ## what a probe leaves -/

/-- a probe that returns leaves a plan of what it returned -/
theorem probe_ok (h : Coherent g) {config : GemmConfig} {tag : String} {answers : BuildAnswers}
    {available : Bool}
    (hprobe : g.probe config tag answers = (.ok available, g')) : g.initialized = true ∧ Later g g' ∧
      ∃ plan, g'.findPlan (normalized config) = some plan ∧ plan.available = available := by
  have hlater : Later g g' := by
    have hstep := later_step h (.probe config tag answers)
    rwa [show g.step (.probe config tag answers) = g' from congrArg Prod.snd hprobe] at hstep
  unfold probe at hprobe
  split at hprobe
  · cases hprobe
  rename_i hinit
  refine ⟨not_not.mp hinit, hlater, ?_⟩
  cases hfind : g.findPlan (normalized config) with
  | some plan =>
    rw [hfind] at hprobe
    cases hprobe
    exact ⟨plan, hfind, rfl⟩
  | none =>
    rw [hfind] at hprobe
    rcases buildPlan_cases (g := g) (normalized config) tag answers with ⟨e, he⟩ | ⟨plan, hplan, hbuilt⟩
    · simp only [he] at hprobe
      cases hprobe
    · simp only [hbuilt] at hprobe
      cases hprobe
      refine ⟨plan, hlater.coherent.findPlan_eq_some.mpr ⟨?_, hplan⟩, rfl⟩
      exact List.mem_append_right _ (List.mem_singleton.mpr rfl)

theorem probeAll_ok (h : Coherent g) {probes : List (GemmConfig × String)}
    {answers : Nat → BuildAnswers}
    {before : List String} (hprobes : g.probeAll probes answers before = (.ok [], g')) :
    before = [] ∧ Later g g' ∧ ∀ probe ∈ probes, g.initialized = true ∧ g'.Cached probe.1 := by
  induction probes generalizing g answers before with
  | nil =>
    obtain ⟨hbefore, rfl⟩ := Prod.mk.inj hprobes
    exact ⟨Except.ok.inj hbefore, .refl h, fun _ hp => absurd hp List.not_mem_nil⟩
  | cons probe probes ih =>
    obtain ⟨config, tag⟩ := probe
    unfold probeAll at hprobes
    cases hprobe : g.probe config tag (answers 0) with
    | mk result after =>
      rw [hprobe] at hprobes
      cases result with
      | error e => cases hprobes
      | ok available =>
        obtain ⟨hinit, hlater, plan, hfind, havailable⟩ := probe_ok h hprobe
        cases available with
        | false =>
          obtain ⟨hnil, _⟩ := ih hlater.coherent hprobes
          exact absurd hnil (List.append_ne_nil_of_right_ne_nil _ (List.cons_ne_nil _ _))
        | true =>
          obtain ⟨hnil, hrest, hcached⟩ := ih hlater.coherent hprobes
          refine ⟨hnil, hlater.trans hrest, fun p hp => ?_⟩
          rcases List.mem_cons.mp hp with rfl | hp
          · exact ⟨hinit, hrest.cached ⟨plan, hfind, havailable⟩⟩
          · exact ⟨hinit, (hcached p hp).2⟩

end
end CublasLtGemm

/-! ## the decode forward after the probes -/

namespace DeviceBuffers
open CublasLtGemm

section
variable {x : DeviceBuffers} {g g' : CublasLtGemm}

theorem probeDecode_ok (h : Coherent g) {answers : Nat → BuildAnswers}
    (hprobed : (x.probeDecodeGemmConfigs g answers).1 = .ok ()) :
    Later g (x.probeDecodeGemmConfigs g answers).2 ∧
      ∀ rows ∈ rowShapes x.options, ∀ probe ∈ x.decodeProbes rows,
      g.initialized = true ∧ (x.probeDecodeGemmConfigs g answers).2.Cached probe.1 := by
  unfold probeDecodeGemmConfigs at hprobed ⊢
  cases hall : g.probeAll ((rowShapes x.options).flatMap x.decodeProbes) answers [] with
  | mk result after =>
    rw [hall] at hprobed
    cases result with
    | error e => cases hprobed
    | ok unavailable =>
      cases unavailable with
      | cons tag tags => cases hprobed
      | nil =>
        obtain ⟨-, hlater, hcached⟩ := probeAll_ok h hall
        exact ⟨hlater, fun rows hrows probe hprobe =>
          hcached probe (List.mem_flatMap.mpr ⟨rows, hrows, hprobe⟩)⟩

theorem mem_rowShapes {o : ExecutorOptions} {rows : Nat}
    (hrows : rows ∈ makeDecodeBuckets o.maxBatch.toNat) :
    rows ∈ rowShapes o := by
  unfold rowShapes
  dsimp only
  split
  · exact hrows
  · exact List.mem_append_left _ hrows

/-- the smallest bucket -/
theorem one_mem_buckets {o : ExecutorOptions} (hbatch : 1 ≤ o.maxBatch) :
    1 ∈ makeDecodeBuckets o.maxBatch.toNat :=
  List.mem_filter.mpr ⟨by decide, decide_eq_true (by omega)⟩

/-- the layers' bias vectors are not at address zero -/
theorem bias_ne_zero (hdesign : Design x.config.toLoaderConfig) {layer : Nat} (hlayer : layer < 28) :
    x.weight (x.layerWeights layer).bQkv ≠ 0 := by
  have hplace : x.layerWeights layer = layerAt ((embedBytes : Int) + (layerBytes * layer : Nat)) :=
    layers_getD hdesign x.hasLmHead hlayer
  have hpos := x.weightsSlab.positive
  rw [hplace]
  show x.weightsSlab.address + ((embedBytes : Int) + (layerBytes * layer : Nat) + 6291456) ≠ 0
  omega

/-- the calls of a decode forward use the probed configurations -/
theorem decodeForward_probed (hdesign : Design x.config.toLoaderConfig) {rows : Nat} {call : GemmCall}
    (hcall : call ∈ (x.decodeForwardCalls rows).map Prod.snd) :
    call.rejected = none ∧ ∃ probe ∈ x.decodeProbes rows, call.config = probe.1 := by
  have hlayers : x.config.numLayers = 28 := hdesign.layers
  obtain ⟨⟨which, _⟩, hmem, rfl⟩ := List.mem_map.mp hcall
  unfold decodeForwardCalls at hmem
  rcases List.mem_append.mp hmem with hmem | hmem
  · obtain ⟨layer, hlayer, hmem⟩ := List.mem_flatMap.mp hmem
    rw [hlayers] at hlayer
    have hbias := bias_ne_zero hdesign (List.mem_range.mp hlayer)
    unfold layerCalls at hmem
    simp only [List.cons_append, List.nil_append, List.mem_cons, List.not_mem_nil, or_false,
      Prod.mk.injEq] at hmem
    rcases hmem with ⟨rfl, rfl⟩ | ⟨rfl, rfl⟩ | ⟨rfl, rfl⟩ | ⟨rfl, rfl⟩
    · exact ⟨if_neg hbias, _, List.mem_cons_self, rfl⟩
    · exact ⟨rfl, _, List.mem_cons_of_mem _ List.mem_cons_self, rfl⟩
    · exact ⟨rfl, _, List.mem_cons_of_mem _ (List.mem_cons_of_mem _ List.mem_cons_self), rfl⟩
    · exact ⟨rfl, _, List.mem_cons_of_mem _ (List.mem_cons_of_mem _ (List.mem_cons_of_mem _ List.mem_cons_self)), rfl⟩
  · obtain ⟨rfl, rfl⟩ := Prod.mk.inj (List.mem_singleton.mp hmem)
    exact ⟨rfl, _, List.mem_of_getLast? rfl, rfl⟩

/-- **After the probes**, whatever is called in between. -/
theorem probed_serves (h : Coherent g) (hvalid : validateGeometry x.config x.options = .ok ())
    (hdesign : Design x.config.toLoaderConfig) {answers : Nat → BuildAnswers}
    (hprobed : (x.probeDecodeGemmConfigs g answers).1 = .ok ()) (later : List Call) :
    (∀ rows ∈ makeDecodeBuckets x.options.maxBatch.toNat,
      ((x.probeDecodeGemmConfigs g answers).2.run later).Serves
        ((x.decodeForwardCalls rows).map Prod.snd)) ∧
    ∀ lastRow, ((x.probeDecodeGemmConfigs g answers).2.run later).Serves [x.lmHeadCall 1 lastRow] := by
  obtain ⟨hlater, hcached⟩ := probeDecode_ok h hprobed
  have hrun := later_run hlater.coherent later
  have hbatch : 1 ≤ x.options.maxBatch := of_decide_eq_true (geometry_of_ok hvalid
    (decide (1 ≤ x.options.maxBatch), "max_batch must be >= 1") (by simp [geometryChecks]))
  have hone : 1 ∈ makeDecodeBuckets x.options.maxBatch.toNat := one_mem_buckets hbatch
  have hinit : ((x.probeDecodeGemmConfigs g answers).2.run later).initialized = true := by
    rw [hrun.initialized, hlater.initialized]
    exact (hcached 1 (mem_rowShapes hone) _ List.mem_cons_self).1
  constructor
  · intro rows hrows
    refine serves_of_cached hinit fun call hcall => ?_
    obtain ⟨haccepted, probe, hprobe, hconfig⟩ := decodeForward_probed hdesign hcall
    exact ⟨haccepted, hrun.cached (hconfig ▸ (hcached rows (mem_rowShapes hrows) probe hprobe).2)⟩
  · intro lastRow
    refine serves_of_cached hinit fun call hcall => ?_
    obtain rfl := List.mem_singleton.mp hcall
    exact ⟨rfl, hrun.cached (hcached 1 (mem_rowShapes hone) _ (List.mem_of_getLast? rfl)).2⟩

end

/-! ## the cache over any run -/

/-- **The plan cache.**  After any calls each configuration has at most one plan, found under its own
index and queried once, and found again after any more calls; and once the decode probes have returned,
the decode forward of every bucket and the head of a last chunk only use what is cached. -/
theorem planCache_coherent (initialized : Bool) (workspaceBytes : Nat) (calls : List Call) :
    let g := (fresh initialized workspaceBytes).run calls
    (∀ config i, g.planIndex config = some i → ∃ plan, g.plans[i]? = some plan ∧ plan.config = config) ∧
    (∀ config plan, g.findPlan config = some plan ↔ plan ∈ g.plans ∧ plan.config = config) ∧
    (g.plans.map (·.config)).Nodup ∧ (∀ plan ∈ g.plans, normalized plan.config = plan.config) ∧
      g.queries.Nodup ∧
    (∀ later config plan, g.findPlan config = some plan → (g.run later).findPlan config = some plan) ∧
    ∀ (x : DeviceBuffers) (answers : Nat → BuildAnswers), validateGeometry x.config x.options = .ok () →
      Design x.config.toLoaderConfig → (x.probeDecodeGemmConfigs g answers).1 = .ok () →
        ∀ later : List Call,
      (∀ rows ∈ makeDecodeBuckets x.options.maxBatch.toNat,
        ((x.probeDecodeGemmConfigs g answers).2.run later).Serves
          ((x.decodeForwardCalls rows).map Prod.snd)) ∧
      ∀ lastRow, ((x.probeDecodeGemmConfigs g answers).2.run later).Serves [x.lmHeadCall 1 lastRow] := by
  intro g
  have h : Coherent g := coherent_run (coherent_fresh initialized workspaceBytes) calls
  have hnodup : (g.plans.map (·.config)).Nodup := h.indexes.nodup
  refine ⟨fun config i hi => ?_, fun config plan => h.findPlan_eq_some, hnodup, h.normal,
    h.queried ▸ hnodup,
    fun later _ _ hfind => findPlan_run h later hfind, fun x answers hvalid hdesign hprobed later =>
      probed_serves h hvalid hdesign hprobed later⟩
  have hkey := (h.indexes config i).mp hi
  rwa [List.getElem?_map, Option.map_eq_some_iff] at hkey

/-- the pinned checkpoint, with the decode products of one row probed -/
theorem planCache_probed :
    let x : DeviceBuffers := ⟨(CheckpointConfig.pinned []).toModelConfig,
      ⟨2 ^ 20, 1, 16, 16, true, 0, ""⟩, ⟨256, by decide, by decide⟩, ⟨512, by decide, by decide⟩, false⟩
    ((x.probeDecodeGemmConfigs (fresh true 0) fun _ => ⟨none, .success [⟨true, 0, 7⟩]⟩).2).Serves
      ((x.decodeForwardCalls 1).map Prod.snd) := by
  intro x
  exact ((planCache_coherent true 0 []).2.2.2.2.2.2 x (fun _ => ⟨none,
    .success [⟨true, 0, 7⟩]⟩) (by decide)
    ⟨rfl, rfl, rfl, rfl, rfl, rfl, rfl⟩ (by decide) []).1 1 (by decide)

end DeviceBuffers
end Redline
