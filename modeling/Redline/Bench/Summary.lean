import Redline.Bench.Metrics

/-!
# The summary of the profiling driver

`summarize` of `src/bench_main.cpp` over exact rationals, and the metrics of the harness for
the same traces.

* `tally_eq`         what the loop over the traces collects;
* `metrics_agree`    the two programs report the same figures, by the same percentile rule.
-/

namespace Redline
namespace BenchMain
open RunBench (Measurable Metrics)

/-- what `summarize` reads of a trace -/
structure RequestTrace where
  submitS : Rat
  tokenTimesS : List Rat
  deriving DecidableEq, Repr

structure Summary where
  wallWindowS : Rat
  totalNewTokens : Nat
  requestsWithTokens : Nat
  outputTokS : Rat
  ttftP50Ms : Rat
  ttftP99Ms : Rat
  hasItl : Bool
  itlP50Ms : Rat
  itlP99Ms : Rat
  hasDecodeRate : Bool
  decodeRateP50TokS : Rat
  decodeRateMinTokS : Rat
  decodeRateMaxTokS : Rat
  stepP50Ms : Rat
  stepP99Ms : Rat
  stepMeanMs : Rat
  stepMaxMs : Rat
  deriving DecidableEq, Repr

inductive Abort where
  | fatal (text : String)
  /-- an element read of an empty vector -/
  | undefined
  deriving DecidableEq, Repr

def percentile (values : List Rat) (p : Rat) : Except Abort Rat :=
  let values := values.insertionSort (· ≤ ·)
  if values.length = 1 then .ok (values.headD 0)
  else if values = [] then .error .undefined
  else
    let rank := p / 100 * ((values.length - 1 : Nat) : Rat)
    let low := ⌊rank⌋.toNat
    let high := min (low + 1) (values.length - 1)
    let fraction := rank - low
    .ok (values.getD low 0 + fraction * (values.getD high 0 - values.getD low 0))

/-! ## the loop over the traces -/

/-- the locals of the loop; an extremum of no trace is an infinity -/
structure Tally where
  totalNewTokens : Nat := 0
  requestsWithTokens : Nat := 0
  minSubmit : Option Rat := none
  maxLast : Option Rat := none
  ttftMs : List Rat := []
  itlMs : List Rat := []
  rates : List Rat := []
  deriving DecidableEq, Repr

/-- `std::min` with `+infinity` -/
def lower (m : Option Rat) (x : Rat) : Option Rat := some (m.elim x (min · x))

/-- `std::max` with `-infinity` -/
def upper (m : Option Rat) (x : Rat) : Option Rat := some (m.elim x (max · x))

def gaps (t : List Rat) : List Rat :=
  (List.range (t.length - 1)).map fun i => (t.getD (i + 1) 0 - t.getD i 0) * 1000

def Tally.visit (s : Tally) (tr : RequestTrace) : Tally :=
  let t := tr.tokenTimesS
  let s := { s with minSubmit := lower s.minSubmit tr.submitS
                    totalNewTokens := s.totalNewTokens + t.length }
  if t = [] then s  -- aborted before its first token
  else
    let front := t.headD 0
    let back := t.getLastD 0
    { s with requestsWithTokens := s.requestsWithTokens + 1
             maxLast := upper s.maxLast back
             ttftMs := s.ttftMs ++ [(front - tr.submitS) * 1000]
             itlMs := s.itlMs ++ gaps t
             rates := if 2 ≤ t.length ∧ front < back
               then s.rates ++ [((t.length - 1 : Nat) : Rat) / (back - front)] else s.rates }

def tally (traces : List RequestTrace) : Tally := traces.foldl Tally.visit {}

/-- a field that keeps its zero unless its block is there -/
def setIf (has : Bool) (value : Except Abort Rat) : Except Abort Rat := if has then value else .ok 0

def summarize (traces : List RequestTrace) (stepMs : List Rat) : Except Abort Summary := do
  let s := tally traces
  if s.requestsWithTokens = 0 then .error (.fatal "no request produced any token")
  else
    let wall := s.maxLast.getD 0 - s.minSubmit.getD 0
    if ¬ 0 < wall then .error (.fatal "non-positive wall window; timestamps are inconsistent")
    else
      let ttftP50 ← percentile s.ttftMs 50
      let ttftP99 ← percentile s.ttftMs 99
      let hasItl := !s.itlMs.isEmpty
      let itlP50 ← setIf hasItl (percentile s.itlMs 50)
      let itlP99 ← setIf hasItl (percentile s.itlMs 99)
      let hasDecodeRate := !s.rates.isEmpty
      let rateP50 ← setIf hasDecodeRate (percentile s.rates 50)
      let stepP50 ← percentile stepMs 50
      let stepP99 ← percentile stepMs 99
      return {
        wallWindowS := wall
        totalNewTokens := s.totalNewTokens
        requestsWithTokens := s.requestsWithTokens
        outputTokS := s.totalNewTokens / wall
        ttftP50Ms := ttftP50
        ttftP99Ms := ttftP99
        hasItl
        itlP50Ms := itlP50
        itlP99Ms := itlP99
        hasDecodeRate
        decodeRateP50TokS := rateP50
        decodeRateMinTokS := s.rates.min?.getD 0
        decodeRateMaxTokS := s.rates.max?.getD 0
        stepP50Ms := stepP50
        stepP99Ms := stepP99
        stepMeanMs := stepMs.sum / stepMs.length
        stepMaxMs := stepMs.foldl max 0 }

/-! ## the percentile rule -/

theorem percentile_ok {values : List Rat} (hn : values ≠ []) (p : Rat) :
    percentile values p = .ok (Percentile.percentile values p) := by
  unfold percentile
  by_cases h1 : (values.insertionSort (· ≤ ·)).length = 1
  · simp only [if_pos h1]
    rw [Percentile.percentile_single h1, List.headD_eq_head?_getD, List.head?_eq_getElem?,
      List.getD_eq_getElem?_getD]
  · simp only [if_neg h1, if_neg (Percentile.sorted_ne_nil hn)]
    unfold Percentile.percentile Percentile.atRank Percentile.rank
    rw [List.length_insertionSort]

/-! ## what the loop collects -/

/-- the driver's record of a request -/
def RequestTrace.of (t : RunBench.RequestTrace) : RequestTrace := ⟨t.enqueueTime, t.tokenTimes⟩

theorem gaps_eq (t : RunBench.RequestTrace) :
    gaps t.tokenTimes = (RunBench.interTokenLatencies t).map (· * 1000) := by
  unfold gaps RunBench.interTokenLatencies
  rw [List.map_map]
  rfl

theorem rates_step (l : List Rat) (t : RunBench.RequestTrace) :
    (if 2 ≤ t.tokenTimes.length ∧ t.first < t.last
      then l ++ [((t.tokenTimes.length - 1 : Nat) : Rat) / (t.last - t.first)] else l)
      = l ++ RunBench.decodeRates [t] := by
  unfold RunBench.decodeRates
  by_cases h : 2 ≤ t.tokenTimes.length ∧ t.first < t.last
  · rw [if_pos h, List.filter_cons_of_pos (by exact decide_eq_true h)]
    rfl
  · rw [if_neg h, List.filter_cons_of_neg (by exact fun hd => h (of_decide_eq_true hd))]
    exact (List.append_nil l).symm

/-- one turn of the loop over a trace with tokens -/
theorem visit_of (s : Tally) {t : RunBench.RequestTrace} (ht : t.tokenTimes ≠ []) :
    s.visit (.of t) = {
      totalNewTokens := s.totalNewTokens + t.numTokens
      requestsWithTokens := s.requestsWithTokens + 1
      minSubmit := lower s.minSubmit t.enqueueTime
      maxLast := upper s.maxLast t.last
      ttftMs := s.ttftMs ++ [(t.first - t.enqueueTime) * 1000]
      itlMs := s.itlMs ++ (RunBench.interTokenLatencies t).map (· * 1000)
      rates := s.rates ++ RunBench.decodeRates [t] } := by
  unfold Tally.visit
  dsimp only [RequestTrace.of]
  rw [if_neg ht, gaps_eq, ← rates_step]
  rfl

theorem foldl_lower (f : RunBench.RequestTrace → Rat) (m : Rat) (traces : List RunBench.RequestTrace) :
    traces.foldl (fun o t => lower o (f t)) (some m) = some ((traces.map f).foldl min m) := by
  induction traces generalizing m with
  | nil => rfl
  | cons t traces ih => exact ih (min m (f t))

theorem foldl_upper (f : RunBench.RequestTrace → Rat) (m : Rat) (traces : List RunBench.RequestTrace) :
    traces.foldl (fun o t => upper o (f t)) (some m) = some ((traces.map f).foldl max m) := by
  induction traces generalizing m with
  | nil => rfl
  | cons t traces ih => exact ih (max m (f t))

theorem decodeRates_cons (t : RunBench.RequestTrace) (traces : List RunBench.RequestTrace) :
    RunBench.decodeRates (t :: traces) = RunBench.decodeRates [t] ++ RunBench.decodeRates traces := by
  unfold RunBench.decodeRates
  rw [← List.map_append, ← List.filter_append]
  rfl

/-- the loop from any tally on -/
theorem foldl_visit (s : Tally) {traces : List RunBench.RequestTrace}
    (ht : ∀ t ∈ traces, t.tokenTimes ≠ []) :
    (traces.map RequestTrace.of).foldl Tally.visit s = {
      totalNewTokens := s.totalNewTokens + RunBench.totalTokens traces
      requestsWithTokens := s.requestsWithTokens + traces.length
      minSubmit := traces.foldl (fun o t => lower o t.enqueueTime) s.minSubmit
      maxLast := traces.foldl (fun o t => upper o t.last) s.maxLast
      ttftMs := s.ttftMs ++ (RunBench.ttfts traces).map (· * 1000)
      itlMs := s.itlMs ++ (RunBench.pooledItls traces).map (· * 1000)
      rates := s.rates ++ RunBench.decodeRates traces } := by
  induction traces generalizing s with
  | nil =>
    show s = _
    simp [RunBench.totalTokens, RunBench.ttfts, RunBench.pooledItls, RunBench.decodeRates]
  | cons t traces ih =>
    rw [List.map_cons, List.foldl_cons, visit_of s (ht t List.mem_cons_self),
      ih _ fun t' h => ht t' (List.mem_cons_of_mem t h), decodeRates_cons t traces]
    simp only [RunBench.totalTokens, RunBench.ttfts, RunBench.pooledItls, List.map_cons, List.sum_cons,
      List.length_cons, List.foldl_cons, List.flatMap_cons, List.map_append, List.append_assoc,
      List.singleton_append, Tally.mk.injEq, and_true]
    exact ⟨Nat.add_assoc _ _ _, by omega⟩

theorem tally_eq {traces : List RunBench.RequestTrace} (h : Measurable traces) :
    tally (traces.map .of) = {
      totalNewTokens := RunBench.totalTokens traces
      requestsWithTokens := traces.length
      minSubmit := some (RunBench.windowStart traces)
      maxLast := some (RunBench.windowEnd traces)
      ttftMs := (RunBench.ttfts traces).map (· * 1000)
      itlMs := (RunBench.pooledItls traces).map (· * 1000)
      rates := RunBench.decodeRates traces } := by
  unfold tally
  rw [foldl_visit {} h.tokens]
  cases traces with
  | nil => exact absurd rfl h.someTrace
  | cons t traces =>
    have hmin : (t :: traces).foldl (fun o t => lower o t.enqueueTime) none
        = some (RunBench.windowStart (t :: traces)) := foldl_lower (·.enqueueTime) t.enqueueTime traces
    have hmax : (t :: traces).foldl (fun o t => upper o t.last) none
        = some (RunBench.windowEnd (t :: traces)) := foldl_upper (·.last) t.last traces
    simp only [hmin, hmax, Nat.zero_add, List.nil_append]

/-! ## agreement -/

/-- the same figures, up to the scale -/
structure Agree (s : Summary) (m : Metrics) : Prop where
  window : s.wallWindowS = m.wallWindowS
  tokens : s.totalNewTokens = m.totalNewTokens
  throughput : s.outputTokS = m.throughputTokS
  ttftP50 : s.ttftP50Ms = m.ttftP50S * 1000
  ttftP99 : s.ttftP99Ms = m.ttftP99S * 1000
  itlP50 : m.itlP50S.map (· * 1000) = if s.hasItl then some s.itlP50Ms else none
  itlP99 : m.itlP99S.map (· * 1000) = if s.hasItl then some s.itlP99Ms else none
  rateP50 : m.decodeRateP50TokS = if s.hasDecodeRate then some s.decodeRateP50TokS else none
  rateMin : m.decodeRateMinTokS = if s.hasDecodeRate then some s.decodeRateMinTokS else none
  rateMax : m.decodeRateMaxTokS = if s.hasDecodeRate then some s.decodeRateMaxTokS else none

def orZero (values : List Rat) (f : List Rat → Rat) : Rat := if values = [] then 0 else f values

/-- the summary of traces that can be measured -/
def summaryOf (traces : List RunBench.RequestTrace) (stepMs : List Rat) : Summary where
  wallWindowS := RunBench.wallWindow traces
  totalNewTokens := RunBench.totalTokens traces
  requestsWithTokens := traces.length
  outputTokS := RunBench.totalTokens traces / RunBench.wallWindow traces
  ttftP50Ms := Percentile.percentile (RunBench.ttfts traces) 50 * 1000
  ttftP99Ms := Percentile.percentile (RunBench.ttfts traces) 99 * 1000
  hasItl := !(RunBench.pooledItls traces).isEmpty
  itlP50Ms := orZero (RunBench.pooledItls traces) (Percentile.percentile · 50 * 1000)
  itlP99Ms := orZero (RunBench.pooledItls traces) (Percentile.percentile · 99 * 1000)
  hasDecodeRate := !(RunBench.decodeRates traces).isEmpty
  decodeRateP50TokS := orZero (RunBench.decodeRates traces) (Percentile.percentile · 50)
  decodeRateMinTokS := (RunBench.decodeRates traces).min?.getD 0
  decodeRateMaxTokS := (RunBench.decodeRates traces).max?.getD 0
  stepP50Ms := Percentile.percentile stepMs 50
  stepP99Ms := Percentile.percentile stepMs 99
  stepMeanMs := stepMs.sum / stepMs.length
  stepMaxMs := stepMs.foldl max 0

/-- a percentile in milliseconds -/
theorem percentile_ms {values : List Rat} (hn : values ≠ []) (p : Rat) :
    percentile (values.map (· * 1000)) p = .ok (Percentile.percentile values p * 1000) := by
  rw [percentile_ok (fun h => hn (List.map_eq_nil_iff.mp h)),
    Percentile.percentile_scale (by norm_num) p]

theorem setIf_some {values : List Rat} {value : Except Abort Rat} {f : List Rat → Rat}
    (h : values ≠ [] → value = .ok (f values)) : setIf (!values.isEmpty) value
      = .ok (orZero values f) := by
  cases values with
  | nil => rfl
  | cons x xs => exact h (List.cons_ne_nil x xs)

theorem summarize_ok {traces : List RunBench.RequestTrace} (h : Measurable traces) {stepMs : List Rat}
    (hs : stepMs ≠ []) : summarize (traces.map .of) stepMs = .ok (summaryOf traces stepMs) := by
  have httfts : RunBench.ttfts traces ≠ [] := fun hnil => h.someTrace (List.map_eq_nil_iff.mp hnil)
  have hlen : traces.length ≠ 0 := fun h0 => h.someTrace (List.length_eq_zero_iff.mp h0)
  have hwindow : ¬¬ 0 < RunBench.windowEnd traces - RunBench.windowStart traces := not_not.mpr h.window
  have hitl := fun p => setIf_some (f := (Percentile.percentile · p * 1000))
    fun hn : RunBench.pooledItls traces ≠ [] => percentile_ms hn p
  have hrate := setIf_some (f := (Percentile.percentile · 50))
    fun hn : RunBench.decodeRates traces ≠ [] => percentile_ok hn 50
  unfold summarize
  simp only [tally_eq h, if_neg hlen, Option.getD_some, if_neg hwindow, percentile_ms httfts,
    List.isEmpty_map, hitl, hrate, percentile_ok hs]
  rfl

theorem extremum_eq {values : List Rat} {o : Option Rat} (h : values = [] ↔ o = none) :
    o = if (!values.isEmpty) = true then some (o.getD 0) else none := by
  cases values with
  | nil => exact h.mp rfl
  | cons x xs =>
    cases o with
    | none => exact absurd (h.mpr rfl) (List.cons_ne_nil x xs)
    | some v => rfl

theorem present_if (values : List Rat) (f : List Rat → Rat) : RunBench.present values f
    = if (!values.isEmpty) = true then some (orZero values f) else none := by
  cases values with
  | nil => rfl
  | cons x xs => rfl

theorem present_ms (values : List Rat) (p : Rat) :
    (RunBench.present values (Percentile.percentile · p)).map (· * 1000)
      = if (!values.isEmpty) = true then some
        (orZero values (Percentile.percentile · p * 1000)) else none := by
  cases values with
  | nil => rfl
  | cons x xs => rfl

theorem agree_of (traces : List RunBench.RequestTrace) (stepMs : List Rat) :
    Agree (summaryOf traces stepMs) (RunBench.metricsOf traces) where
  window := rfl
  tokens := rfl
  throughput := rfl
  ttftP50 := rfl
  ttftP99 := rfl
  itlP50 := present_ms (RunBench.pooledItls traces) 50
  itlP99 := present_ms (RunBench.pooledItls traces) 99
  rateP50 := present_if (RunBench.decodeRates traces) (Percentile.percentile · 50)
  rateMin := extremum_eq List.min?_eq_none_iff.symm
  rateMax := extremum_eq List.max?_eq_none_iff.symm

/-- **The two programs report the same figures of the same traces, and leave the same blocks out.
Their percentile does not depend on the order of the samples, does not fall when `p` grows, and
lies between the extreme samples.** -/
theorem metrics_agree {traces : List RunBench.RequestTrace} (h : Measurable traces) {stepMs : List Rat}
    (hs : stepMs ≠ []) :
    (∃ s m, summarize (traces.map .of) stepMs = .ok s ∧ RunBench.computeMetrics traces = .ok m ∧
      Agree s m) ∧
    ∃ rule : List Rat → Rat → Rat,
      (∀ values p, values ≠ [] → 0 ≤ p → p ≤ 100 →
        percentile values p = .ok (rule values p) ∧
          RunBench.percentile values p = .ok (rule values p)) ∧
      (∀ values values' p, values.Perm values' → rule values p = rule values' p) ∧
      (∀ values p p', values ≠ [] → 0 ≤ p → p ≤ p' → p' ≤ 100 → rule values p ≤ rule values p') ∧
      ∀ values p lo hi, 0 ≤ p → p ≤ 100 → values.min? = some lo → values.max? = some hi →
        lo ≤ rule values p ∧ rule values p ≤ hi := by
  refine ⟨⟨_, _, summarize_ok h hs, RunBench.computeMetrics_ok h, agree_of traces stepMs⟩,
    Percentile.percentile, ?_, ?_, ?_, ?_⟩
  · exact fun values p hn _ _ => ⟨percentile_ok hn p, RunBench.percentile_ok hn p⟩
  · exact fun values values' p hperm => Percentile.percentile_perm hperm p
  · exact fun values p p' hn h0 hle h1 => Percentile.percentile_mono hn h0 hle h1
  · intro values p lo hi h0 h1 hlo hhi
    have hn : values ≠ [] := List.ne_nil_of_mem (List.min?_mem hlo)
    exact Percentile.percentile_between hn h0 h1 (List.min?_eq_some_iff.mp hlo).2
      (List.max?_eq_some_iff.mp hhi).2

/-- two requests, one of a single token -/
theorem metrics_agree_two : ∃ s m,
    summarize ([⟨0, 0, [1, 3 / 2, 5 / 2], [7, 8, 9], ""⟩,
      ⟨1, 1 / 2, [2], [7], ""⟩].map RequestTrace.of) [1] = .ok s ∧
      RunBench.computeMetrics [⟨0, 0, [1, 3 / 2, 5 / 2], [7, 8, 9], ""⟩,
        ⟨1, 1 / 2, [2], [7], ""⟩] = .ok m ∧
      Agree s m :=
  (metrics_agree ⟨by decide, by decide, by decide +kernel⟩ (by decide)).1

end BenchMain
end Redline
