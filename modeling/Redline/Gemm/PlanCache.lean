import Redline.Gemm.Config
import Redline.Lib.Indexed

/-!
# The GEMM plan cache

`CublasLtGemm` of `gemm/cublaslt_gemm.cpp`: the plans with their index, and the calls that fill and
use them.  What CUDA and cuBLASLt answer to a call is an argument; a call that throws returns the
error and the cache as it leaves it.

* `Coherent`          the index finds each plan under its own configuration, and each was queried once;
* `coherent_run`      whatever is called, with whatever answers;
* `findPlan_run`      a plan that is found once is found from then on.
-/

namespace Redline

/-! ## what the library answers -/

/-- one candidate of a heuristic query -/
structure AlgoResult where
  succeeded : Bool
  workspaceSize : Nat
  algo : Nat
  deriving DecidableEq, Repr

inductive HeuristicAnswer where
  | success (results : List AlgoResult)
  | notSupported
  | failed (status : String)
  deriving DecidableEq, Repr

/-- the answers while a plan is built: the first descriptor call that fails, and the heuristic's -/
structure BuildAnswers where
  descriptors : Option String
  heuristic : HeuristicAnswer
  deriving DecidableEq, Repr

inductive CaptureStatus where
  | none
  | active
  | failed (error : String)
  deriving DecidableEq, Repr

/-- the answers to a run: a failure of the bias attribute or of the product -/
structure RunAnswers where
  capture : CaptureStatus
  build : BuildAnswers
  biasAttribute : Option String
  matmul : Option String
  deriving DecidableEq, Repr

inductive GemmError where
  | notInitialized
  | invalidConfig (why : String) (config : GemmConfig)
  | cublas (what : String) (config : GemmConfig)
  | captureQuery (error : String) (config : GemmConfig)
  | missingInCapture (config : GemmConfig)
  | unavailable (config : GemmConfig)
  | nullBias
  | wrongOverload (config : GemmConfig)
  | batchedEpilogue (config : GemmConfig)
  deriving DecidableEq, Repr

/-! ## the class -/

structure Plan where
  config : GemmConfig
  tag : String
  available : Bool
  algo : Nat
  algoWorkspaceBytes : Nat
  deriving DecidableEq, Repr

structure CublasLtGemm where
  initialized : Bool
  workspaceBytes : Nat
  plans : List Plan
  planIndex : GemmConfig → Option Nat
  /-- the configurations that the heuristic has answered for, in order; the code keeps no such list -/
  queries : List GemmConfig

namespace CublasLtGemm

/-- the object before its first call -/
def fresh (initialized : Bool) (workspaceBytes : Nat) : CublasLtGemm :=
  ⟨initialized, workspaceBytes, [], fun _ => none, []⟩

def normalized (config : GemmConfig) : GemmConfig :=
  if config.batch = 1 then { config with strideA := 0, strideB := 0, strideD := 0 } else config

def isPowerOfTwo (value : Int) : Bool := decide (0 < value) && (value.toNat &&& (value.toNat - 1)) == 0

/-- the checks of `ValidateConfig`, in order, with their texts; the enumerations have no other values -/
def configChecks (c : GemmConfig) : List (Bool × String) :=
  [(decide (1 ≤ c.m ∧ 1 ≤ c.n ∧ 1 ≤ c.k), "m, n, k must all be >= 1"),
   (decide ((if c.opA = .opN then c.m else c.k) ≤ c.lda), "lda smaller than the stored A row count"),
   (decide ((if c.opB = .opN then c.k else c.n) ≤ c.ldb), "ldb smaller than the stored B row count"),
   (decide (c.m ≤ c.ldd), "ldd smaller than m"),
   (decide (1 ≤ c.batch), "batch must be >= 1"),
   (decide (1 < c.batch → 0 ≤ c.strideA ∧ 0 ≤ c.strideB ∧ 0 ≤ c.strideD),
     "batch strides must be non-negative"),
   (decide (1 < c.batch → c.strideD ≠ 0), "stride_d of 0 would overlap batched outputs"),
   (decide (c.epilogue = .kBias → c.batch = 1),
     "the bias epilogue is only used non-batched (qkv projection)"),
   (decide (c.epilogue = .kBias → c.typeD = .r16F), "the bias epilogue requires FP16 D"),
   (isPowerOfTwo c.minAlignABytes && isPowerOfTwo c.minAlignBBytes && isPowerOfTwo c.minAlignDBytes,
    "minimum alignments must be powers of two")]

def validateConfig (c : GemmConfig) : Option String := ((configChecks c).find? fun p => !p.1).map (·.2)

def findPlan (g : CublasLtGemm) (config : GemmConfig) : Option Plan :=
  (g.planIndex config).bind (g.plans[·]?)

/-- the first candidate that is usable within the workspace -/
def selectAlgo (g : CublasLtGemm) (results : List AlgoResult) : Option AlgoResult :=
  results.find? fun r => r.succeeded && decide (r.workspaceSize ≤ g.workspaceBytes)

def makePlan (config : GemmConfig) (tag : String) : Option AlgoResult → Plan
  | some r => ⟨config, tag, true, r.algo, r.workspaceSize⟩
  | none => ⟨config, tag, false, 0, 0⟩

/-- `plans_.push_back` and `plan_index_.emplace` -/
def push (g : CublasLtGemm) (plan : Plan) : CublasLtGemm :=
  { g with
    plans := g.plans ++ [plan]
    planIndex := Function.update g.planIndex plan.config (some g.plans.length)
    queries := g.queries ++ [plan.config] }

def buildPlan (g : CublasLtGemm) (config : GemmConfig) (tag : String) (answers : BuildAnswers) :
    Except GemmError Plan × CublasLtGemm :=
  match validateConfig config, answers.descriptors, answers.heuristic with
  | some why, _, _ => (.error (.invalidConfig why config), g)
  | none, some what, _ => (.error (.cublas what config), g)
  | none, none, .failed status =>
    (.error (.cublas ("cublasLtMatmulAlgoGetHeuristic failed: " ++ status) config), g)
  | none, none, .notSupported =>
    let plan := makePlan config tag none
    (.ok plan, g.push plan)
  | none, none, .success results =>
    let plan := makePlan config tag (g.selectAlgo results)
    (.ok plan, g.push plan)

def probe (g : CublasLtGemm) (config : GemmConfig) (tag : String) (answers : BuildAnswers) :
    Except GemmError Bool × CublasLtGemm :=
  if ¬ g.initialized then (.error .notInitialized, g)
  else match g.findPlan (normalized config) with
    | some plan => (.ok plan.available, g)
    | none =>
      let (built, g) := g.buildPlan (normalized config) tag answers
      (built.map (·.available), g)

def planFor (g : CublasLtGemm) (config : GemmConfig) (capture : CaptureStatus) (tag : String)
    (answers : BuildAnswers) : Except GemmError Plan × CublasLtGemm :=
  match g.findPlan config with
  | some plan => (.ok plan, g)
  | none =>
    if ¬ g.initialized then (.error .notInitialized, g)
    else match capture with
      | .failed error => (.error (.captureQuery error config), g)
      | .active => (.error (.missingInCapture config), g)
      | .none => g.buildPlan config tag answers

/-- the calls on a plan that was looked up -/
def launch (config : GemmConfig) (answers : RunAnswers) (plan : Plan) : Except GemmError Plan :=
  if ¬ plan.available then .error (.unavailable config)
  else match config.epilogue, answers.biasAttribute, answers.matmul with
    | .kBias, some what, _ => .error (.cublas what config)
    | _, _, some what => .error (.cublas what config)
    | _, _, none => .ok plan

/-- `RunImpl`, with the plan that was enqueued -/
def runImpl (g : CublasLtGemm) (config : GemmConfig) (tag : String) (answers : RunAnswers) :
    Except GemmError Plan × CublasLtGemm :=
  if ¬ g.initialized then (.error .notInitialized, g)
  else
    let (found, g) := g.planFor (normalized config) answers.capture tag answers.build
    (found >>= launch (normalized config) answers, g)

/-! ## sequences of calls -/

inductive Call where
  | probe (config : GemmConfig) (tag : String) (answers : BuildAnswers)
  | run (config : GemmConfig) (tag : String) (answers : RunAnswers)
  deriving DecidableEq, Repr

/-- the cache after a call, thrown or not -/
def step (g : CublasLtGemm) : Call → CublasLtGemm
  | .probe config tag answers => (g.probe config tag answers).2
  | .run config tag answers => (g.runImpl config tag answers).2

def run (g : CublasLtGemm) (calls : List Call) : CublasLtGemm := calls.foldl step g

/-! ## what a call does to the cache -/

section
variable {g : CublasLtGemm}

theorem normalized_idem (config : GemmConfig) : normalized (normalized config) = normalized config := by
  unfold normalized
  by_cases h : config.batch = 1
  · simp only [if_pos h]
  · simp only [if_neg h]

theorem makePlan_config (config : GemmConfig) (tag : String) (r : Option AlgoResult) :
    (makePlan config tag r).config = config := by
  cases r <;> rfl

/-- a build fails and leaves the cache, or returns the plan that it pushed -/
theorem buildPlan_cases (config : GemmConfig) (tag : String) (answers : BuildAnswers) :
    (∃ e, g.buildPlan config tag answers = (.error e, g)) ∨
      ∃ plan : Plan, plan.config = config ∧
        g.buildPlan config tag answers = (.ok plan, g.push plan) := by
  unfold buildPlan
  cases validateConfig config with
  | some why => exact Or.inl ⟨_, rfl⟩
  | none =>
    cases answers.descriptors with
    | some what => exact Or.inl ⟨_, rfl⟩
    | none =>
      cases answers.heuristic with
      | failed status => exact Or.inl ⟨_, rfl⟩
      | notSupported => exact Or.inr ⟨_, makePlan_config config tag none, rfl⟩
      | success results => exact Or.inr ⟨_, makePlan_config config tag _, rfl⟩

/-- the cache stays, or has one more plan, of a configuration that was not found -/
def Grows (g g' : CublasLtGemm) : Prop :=
  g' = g ∨ ∃ plan : Plan, normalized plan.config = plan.config ∧ g.findPlan plan.config = none ∧
    g' = g.push plan

theorem grows_buildPlan {config : GemmConfig} (hmiss : g.findPlan (normalized config) = none)
    (tag : String)
    (answers : BuildAnswers) : Grows g (g.buildPlan (normalized config) tag answers).2 := by
  rcases buildPlan_cases (g := g) (normalized config) tag answers with ⟨e, he⟩ | ⟨plan, hplan, hbuilt⟩
  · exact Or.inl (congrArg Prod.snd he)
  · exact Or.inr ⟨plan, by rw [hplan, normalized_idem], hplan ▸ hmiss, congrArg Prod.snd hbuilt⟩

theorem grows_step (call : Call) : Grows g (g.step call) := by
  cases call with
  | probe config tag answers =>
    show Grows g (g.probe config tag answers).2
    unfold probe
    split
    · exact Or.inl rfl
    · cases hfind : g.findPlan (normalized config) with
      | some plan => exact Or.inl rfl
      | none => exact grows_buildPlan hfind tag answers
  | run config tag answers =>
    show Grows g (g.runImpl config tag answers).2
    unfold runImpl
    by_cases hinit : ¬ g.initialized
    · rw [if_pos hinit]
      exact Or.inl rfl
    rw [if_neg hinit]
    show Grows g (g.planFor (normalized config) answers.capture tag answers.build).2
    unfold planFor
    cases hfind : g.findPlan (normalized config) with
    | some plan => exact Or.inl rfl
    | none =>
      simp only [if_neg hinit]
      cases answers.capture with
      | failed error => exact Or.inl rfl
      | active => exact Or.inl rfl
      | none => exact grows_buildPlan hfind tag answers.build

/-! ## coherence -/

structure Coherent (g : CublasLtGemm) : Prop where
  indexes : Indexes g.planIndex (g.plans.map (·.config))
  normal : ∀ plan ∈ g.plans, normalized plan.config = plan.config
  queried : g.queries = g.plans.map (·.config)

theorem coherent_fresh (initialized : Bool) (workspaceBytes : Nat) :
    Coherent (fresh initialized workspaceBytes) where
  indexes := Indexes.empty
  normal _ h := absurd h List.not_mem_nil
  queried := rfl

theorem Coherent.findPlan_eq_some (h : Coherent g) {config : GemmConfig} {plan : Plan} :
    g.findPlan config = some plan ↔ plan ∈ g.plans ∧ plan.config = config := by
  unfold findPlan
  rw [Option.bind_eq_some_iff]
  constructor
  · rintro ⟨i, hi, hplan⟩
    have hkey := (h.indexes config i).mp hi
    rw [List.getElem?_map, hplan] at hkey
    exact ⟨List.mem_of_getElem? hplan, Option.some.inj hkey⟩
  · rintro ⟨hmem, rfl⟩
    obtain ⟨i, hi⟩ := List.getElem?_of_mem hmem
    exact ⟨i, (h.indexes plan.config i).mpr (by rw [List.getElem?_map, hi]; rfl), hi⟩

/-- not found is not indexed -/
theorem Coherent.index_of_miss (h : Coherent g) {config : GemmConfig}
    (hmiss : g.findPlan config = none) :
    g.planIndex config = none := by
  refine h.indexes.none_iff.mpr fun hmem => ?_
  obtain ⟨plan, hplan, rfl⟩ := List.mem_map.mp hmem
  rw [h.findPlan_eq_some.mpr ⟨hplan, rfl⟩] at hmiss
  cases hmiss

theorem Coherent.grows {g' : CublasLtGemm} (h : Coherent g) (hg : Grows g g') : Coherent g' := by
  rcases hg with rfl | ⟨plan, hnormal, hmiss, rfl⟩
  · exact h
  · have hpush := h.indexes.push (h.index_of_miss hmiss)
    rw [List.length_map] at hpush
    refine ⟨?_, ?_, ?_⟩
    · show Indexes (Function.update g.planIndex plan.config (some g.plans.length)) _
      rw [show (g.push plan).plans = g.plans ++ [plan] from rfl, List.map_append]
      exact hpush
    · intro p hp
      rcases List.mem_append.mp hp with hp | hp
      · exact h.normal p hp
      · exact List.mem_singleton.mp hp ▸ hnormal
    · show g.queries ++ [plan.config] = (g.plans ++ [plan]).map _
      rw [h.queried, List.map_append]
      rfl

theorem coherent_run (h : Coherent g) (calls : List Call) : Coherent (g.run calls) := by
  unfold run
  induction calls generalizing g with
  | nil => exact h
  | cons call calls ih => exact ih (h.grows (grows_step call))

/-! ## plans stay -/

theorem Coherent.findPlan_grows {g' : CublasLtGemm} (h : Coherent g) (hg : Grows g g')
    {config : GemmConfig} {plan : Plan}
    (hfind : g.findPlan config = some plan) : g'.findPlan config = some plan := by
  obtain ⟨hmem, hconfig⟩ := h.findPlan_eq_some.mp hfind
  refine (h.grows hg).findPlan_eq_some.mpr ⟨?_, hconfig⟩
  rcases hg with rfl | ⟨new, _, _, rfl⟩
  · exact hmem
  · exact List.mem_append_left _ hmem

theorem findPlan_run (h : Coherent g) (calls : List Call) {config : GemmConfig} {plan : Plan}
    (hfind : g.findPlan config = some plan) : (g.run calls).findPlan config = some plan := by
  unfold run
  induction calls generalizing g with
  | nil => exact hfind
  | cons call calls ih =>
    exact ih (h.grows (grows_step call)) (h.findPlan_grows (grows_step call) hfind)

end
end CublasLtGemm
end Redline
