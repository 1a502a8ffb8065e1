import Redline.Bench.Trial

/-!
# The measuring driver

`selectMedianTrial`, `spreadExceeds`, `summarizeMetrics` and the measuring part of `main` of
`bench/run_bench.py`.

* `published_eq`         the published value is the lower middle of the sorted values;
* `flagMatches_iff`     when the variance flag agrees with the published median.
-/

namespace Redline
namespace RunBench

/-- the summarised metrics, in the order of `metricLabels` -/
inductive MetricName where
  | throughputTokS
  | decodeRateP50TokS
  | ttftP50S
  | ttftP99S
  | itlP50S
  | itlP99S
  deriving DecidableEq, Repr

def metricLabels : List (MetricName × String) :=
  [(.throughputTokS, "output token throughput over the full wall window (includes all prefill work), tok/s"),
    (.decodeRateP50TokS, "per-request decode rate (n_i - 1) / (t_i,last - t_i,0), p50 across requests, tok/s"),
    (.ttftP50S, "time to first token, p50 across requests, s"),
    (.ttftP99S, "time to first token, p99 across requests, s"),
    (.itlP50S, "inter-token latency pooled across requests, p50, s"),
    (.itlP99S, "inter-token latency pooled across requests, p99, s")]

/-- the value of a key that is there -/
def Metrics.get (m : Metrics) : MetricName → Option Rat
  | .throughputTokS => some m.throughputTokS
  | .decodeRateP50TokS => m.decodeRateP50TokS
  | .ttftP50S => some m.ttftP50S
  | .ttftP99S => some m.ttftP99S
  | .itlP50S => m.itlP50S
  | .itlP99S => m.itlP99S

/-! ## the median trial and the spread -/

def dispersionFraction : Rat := 3 / 100

def selectMedianTrial (values : List Rat) : Except BenchError Nat :=
  if values = [] then .error (.valueError "no trials")
  else
    let order := (List.range values.length).insertionSort fun i j => values.getD i 0 ≤ values.getD j 0
    .ok (order.getD ((values.length - 1) / 2) 0)

/-- `max(values) - min(values)` -/
def spread (values : List Rat) : Rat := values.max?.getD 0 - values.min?.getD 0

def spreadExceeds (values : List Rat) (fraction : Rat) : Except BenchError Bool :=
  if values.length < 2 then .ok false
  else do
    let median ← percentile values 50
    return decide (fraction * median < spread values)

structure Entry where
  value : Rat
  min : Rat
  max : Rat
  label : String
  deriving DecidableEq, Repr

/-- the entry of a metric that the median trial has -/
def summaryEntry (trials : List Metrics) (median : Metrics) (name : MetricName) (label : String) :
    Option Entry :=
  let values := trials.filterMap (·.get name)
  match median.get name, values.min?, values.max? with
  | some value, some lo, some hi => some ⟨value, lo, hi, label⟩
  | _, _, _ => none

def summarizeMetrics (trials : List Metrics) (median : Metrics) : List (MetricName × Entry) :=
  metricLabels.filterMap fun (name, label) => (summaryEntry trials median name label).map (name, ·)

/-! ## main -/

structure MeasuredTrial where
  trial : Trial
  index : Nat
  dispersionRerun : Bool
  deriving DecidableEq, Repr

structure Dispersion where
  metric : MetricName
  thresholdFraction : Rat
  values : List Rat
  reran : Bool
  flag : Bool
  deriving DecidableEq, Repr

/-- what `main` measures of a case -/
structure Result where
  warmup : List Metrics
  trials : List MeasuredTrial
  medianTrialIndex : Nat
  metrics : List (MetricName × Entry)
  dispersion : Dispersion
  deriving DecidableEq, Repr

def headlineMetric : MetricName := .throughputTokS

def headlineValues (trials : List MeasuredTrial) : List Rat :=
  trials.map (·.trial.metrics.throughputTokS)

/-- one more trial when the rule fires on the ones there are -/
def rerun (trials : List MeasuredTrial) (extra : Except BenchError Trial) :
    Except BenchError (Bool × List MeasuredTrial) := do
  let fired ← spreadExceeds (headlineValues trials) dispersionFraction
  match fired with
  | false => return (false, trials)
  | true => return (true, trials ++ [⟨← extra, trials.length, true⟩])

/-- `runs k` is what the adapter's `k`-th run returns -/
def main (runs : Nat → List RequestTrace) (workload : Workload) (warmup trials : Nat) :
    Except BenchError Result := do
  let warmups ← (List.range warmup).mapM fun k => runTrial (runs k) workload
  let measured ← (List.range trials).mapM fun index => do
    return ⟨← runTrial (runs (warmup + index)) workload, index, false⟩
  let (reran, measured) ← rerun measured (runTrial (runs (warmup + trials)) workload)
  let values := headlineValues measured
  let flagged ← spreadExceeds values dispersionFraction
  let medianIndex ← selectMedianTrial values
  let metrics := measured.map (·.trial.metrics)
  return {
    warmup := warmups.map (·.metrics)
    trials := measured
    medianTrialIndex := medianIndex
    metrics := match metrics[medianIndex]? with
      | some median => summarizeMetrics metrics median
      | none => []
    dispersion := ⟨headlineMetric, dispersionFraction, values, reran, flagged⟩ }

/-! ## sorted values -/

section
variable {values : List Rat}

theorem spreadExceeds_ok (fraction : Rat) : spreadExceeds values fraction
    = .ok (decide (2 ≤ values.length ∧
      fraction * Percentile.percentile values 50 < spread values)) := by
  unfold spreadExceeds
  by_cases hlen : values.length < 2
  · rw [if_pos hlen, decide_eq_false (fun h => absurd h.1 (by omega))]
  · have hn : values ≠ [] := fun h => hlen (by rw [h]; decide)
    rw [if_neg hlen, percentile_ok hn]
    show Except.ok _ = _
    simp only [not_lt.mp hlen, true_and]

/-- **The published value is the lower middle of the sorted values.** -/
theorem published_eq (hn : values ≠ []) : ∃ i, selectMedianTrial values = .ok i ∧
    i < values.length ∧ values.getD i 0 = (values.insertionSort (· ≤ ·)).getD
      ((values.length - 1) / 2) 0 := by
  let order := (List.range values.length).insertionSort fun i j => values.getD i 0 ≤ values.getD j 0
  have hpos := List.length_pos_iff.mpr hn
  have hlen : order.length = values.length :=
    (List.length_insertionSort _ _).trans List.length_range
  have hk : (values.length - 1) / 2 < order.length := by omega
  have hvalues : (List.range values.length).map (values.getD · 0) = values := by
    refine List.ext_getElem (by rw [List.length_map, List.length_range]) fun i hi hi' => ?_
    rw [List.getElem_map, List.getElem_range, List.getD_eq_getElem values 0 hi']
  have hsort : order.map (values.getD · 0) = values.insertionSort (· ≤ ·) := by
    have h := List.map_insertionSort (r := fun i j => values.getD i 0 ≤ values.getD j 0) (s := (· ≤ ·))
      (values.getD · 0) (List.range values.length) fun i _ j _ => Iff.rfl
    rw [hvalues] at h
    exact h
  refine ⟨order.getD ((values.length - 1) / 2) 0, if_neg hn, ?_, ?_⟩
  · rw [List.getD_eq_getElem order 0 hk]
    exact List.mem_range.mp ((List.perm_insertionSort _ _).subset (List.getElem_mem hk))
  · have hk' : (values.length - 1) / 2 < (order.map (values.getD · 0)).length := by
      rwa [List.length_map]
    rw [← hsort, List.getD_eq_getElem order 0 hk, List.getD_eq_getElem _ 0 hk', List.getElem_map]

theorem sort_eq {l : List Rat} (hperm : values.Perm l) (hs : l.Pairwise (· ≤ ·)) :
    values.insertionSort (· ≤ ·) = l :=
  List.Perm.eq_of_pairwise' (List.pairwise_insertionSort _ _) hs
    ((List.perm_insertionSort _ _).trans hperm)

theorem spread_eq {l : List Rat} {lo hi : Rat} (hperm : values.Perm l) (hlo : lo ∈ l) (hhi : hi ∈ l)
    (hle : ∀ v ∈ l, lo ≤ v ∧ v ≤ hi) : spread values = hi - lo := by
  have hmax : values.max? = some hi := List.max?_eq_some_iff.mpr
    ⟨hperm.symm.subset hhi, fun v hv => (hle v (hperm.subset hv)).2⟩
  have hmin : values.min? = some lo := List.min?_eq_some_iff.mpr
    ⟨hperm.symm.subset hlo, fun v hv => (hle v (hperm.subset hv)).1⟩
  unfold spread
  rw [hmax, hmin]
  rfl

/-! ## three trials and four -/

/-- the figures of three values in order -/
theorem three_values {a b c : Rat} (hperm : values.Perm [a, b, c]) (hab : a ≤ b) (hbc : b ≤ c) :
    Percentile.percentile values 50 = b ∧ spread values = c - a ∧
      (values.insertionSort (· ≤ ·)).getD ((values.length - 1) / 2) 0 = b := by
  have hs : [a, b, c].Pairwise (· ≤ ·) := by
    simp only [List.pairwise_cons, List.mem_cons, List.not_mem_nil, or_false,
      forall_eq_or_imp, forall_eq]
    exact ⟨⟨hab, hab.trans hbc⟩, hbc, fun _ h => h.elim, List.Pairwise.nil⟩
  have hrank : Percentile.rank values.length (50 : Rat) = 1 := by
    rw [hperm.length_eq]
    norm_num [Percentile.rank]
  refine ⟨?_, spread_eq hperm (by simp) (by simp) ?_, ?_⟩
  · unfold Percentile.percentile Percentile.atRank
    rw [sort_eq hperm hs, hrank, Int.floor_one]
    norm_num
  · simp only [List.mem_cons, List.not_mem_nil, or_false, forall_eq_or_imp, forall_eq]
    exact ⟨⟨le_refl _, hab.trans hbc⟩, ⟨hab, hbc⟩, hab.trans hbc, le_refl _⟩
  · rw [sort_eq hperm hs, hperm.length_eq]
    norm_num

/-- the figures of four values in order -/
theorem four_values {a b c d : Rat} (hperm : values.Perm [a, b, c, d]) (hab : a ≤ b) (hbc : b ≤ c)
    (hcd : c ≤ d) :
    Percentile.percentile values 50 = (b + c) / 2 ∧ spread values = d - a ∧
      (values.insertionSort (· ≤ ·)).getD ((values.length - 1) / 2) 0 = b := by
  have hs : [a, b, c, d].Pairwise (· ≤ ·) := by
    simp only [List.pairwise_cons, List.mem_cons, List.not_mem_nil, or_false,
      forall_eq_or_imp, forall_eq]
    exact ⟨⟨hab, hab.trans hbc, (hab.trans hbc).trans hcd⟩, ⟨hbc, hbc.trans hcd⟩, hcd,
      fun _ h => h.elim, List.Pairwise.nil⟩
  have hrank : Percentile.rank values.length (50 : Rat) = 3 / 2 := by
    rw [hperm.length_eq]
    norm_num [Percentile.rank]
  have hfloor : ⌊(3 / 2 : Rat)⌋ = 1 := by norm_num [Int.floor_eq_iff]
  refine ⟨?_, spread_eq hperm (by simp) (by simp) ?_, ?_⟩
  · unfold Percentile.percentile Percentile.atRank
    rw [sort_eq hperm hs, hrank, hfloor]
    norm_num
    ring
  · simp only [List.mem_cons, List.not_mem_nil, or_false, forall_eq_or_imp, forall_eq]
    exact ⟨⟨le_refl _, (hab.trans hbc).trans hcd⟩, ⟨hab, hbc.trans hcd⟩, ⟨hab.trans hbc, hcd⟩,
      (hab.trans hbc).trans hcd, le_refl _⟩
  · rw [sort_eq hperm hs, hperm.length_eq]
    norm_num

theorem three_fire {a b c : Rat} (hperm : values.Perm [a, b, c]) (hab : a ≤ b) (hbc : b ≤ c) :
    spreadExceeds values dispersionFraction = .ok (decide (3 / 100 * b < c - a)) := by
  obtain ⟨hmedian, hspread, _⟩ := three_values hperm hab hbc
  rw [spreadExceeds_ok, hmedian, hspread, hperm.length_eq]
  exact congrArg Except.ok (decide_eq_decide.mpr ⟨fun h => h.2, fun h => ⟨by simp, h⟩⟩)

theorem four_fire {a b c d : Rat} (hperm : values.Perm [a, b, c, d]) (hab : a ≤ b) (hbc : b ≤ c)
    (hcd : c ≤ d) :
    spreadExceeds values dispersionFraction = .ok (decide (3 / 200 * (b + c) < d - a)) := by
  obtain ⟨hmedian, hspread, _⟩ := four_values hperm hab hbc hcd
  have hhalf : dispersionFraction * ((b + c) / 2) = 3 / 200 * (b + c) := by
    unfold dispersionFraction
    ring
  rw [spreadExceeds_ok, hmedian, hspread, hhalf, hperm.length_eq]
  exact congrArg Except.ok (decide_eq_decide.mpr ⟨fun h => h.2, fun h => ⟨by simp, h⟩⟩)

/-! ## the flag and the published value -/

/-- the headline values `main` ends with: one more when the rule fires on the first -/
def endValues (first : List Rat) (extra : Rat) : Except BenchError (List Rat) := do
  match ← spreadExceeds first dispersionFraction with
  | false => return first
  | true => return first ++ [extra]

/-- `main` returns when the runs are accepted -/
theorem main_returns {runs : Nat → List RequestTrace} {workload : Workload} {warmup trials : Nat}
    (hruns : ∀ k, ∃ trial, runTrial (runs k) workload = .ok trial) (htrials : 1 ≤ trials) :
    ∃ result, main runs workload warmup trials = .ok result := by
  have hspread : ∀ values, ∃ fired, spreadExceeds values dispersionFraction = .ok fired :=
    fun values => ⟨_, spreadExceeds_ok dispersionFraction⟩
  unfold main
  refine Throw.exists_bind (Throw.exists_mapM fun k _ => hruns k) fun warmups _ => ?_
  refine Throw.exists_bind (Throw.exists_mapM fun index _ => ?_) fun measured hmeasured => ?_
  · exact Throw.exists_bind (hruns _) fun trial _ => ⟨_, rfl⟩
  have hlength := (Throw.mapM_eq_ok.mp hmeasured).length_eq
  rw [List.length_range] at hlength
  -- the re-run only adds a trial
  have hrerun : ∃ more, (∃ reran,
      rerun measured (runTrial (runs (warmup + trials)) workload)
        = .ok (reran, measured ++ more)) := by
    obtain ⟨fired, hfired⟩ := hspread (headlineValues measured)
    unfold rerun
    rw [hfired]
    cases fired with
    | false => exact ⟨[], false, by rw [List.append_nil]; rfl⟩
    | true =>
      obtain ⟨extra, hextra⟩ := hruns (warmup + trials)
      exact ⟨[_], true, by rw [hextra]; rfl⟩
  obtain ⟨more, reran, hrerun⟩ := hrerun
  rw [Throw.bind_of_ok hrerun]
  refine Throw.exists_bind (hspread _) fun flagged _ => ?_
  have hvalues : headlineValues (measured ++ more) ≠ [] := by
    unfold headlineValues
    rw [Ne, List.map_eq_nil_iff, List.append_eq_nil_iff, ← List.length_eq_zero_iff]
    omega
  obtain ⟨index, hindex, _⟩ := published_eq hvalues
  exact Throw.exists_bind ⟨index, hindex⟩ fun _ _ => ⟨_, rfl⟩

/-- what `main` records is about such values -/
theorem main_dispersion {runs : Nat → List RequestTrace} {workload : Workload} {warmup trials : Nat}
    {result : Result} (h : main runs workload warmup trials = .ok result) :
    (∃ first extra, first.length = trials ∧ endValues first extra = .ok result.dispersion.values) ∧
      spreadExceeds result.dispersion.values dispersionFraction = .ok result.dispersion.flag ∧
      selectMedianTrial result.dispersion.values = .ok result.medianTrialIndex := by
  obtain ⟨warmups, _, h⟩ := Throw.bind_eq_ok.mp h
  obtain ⟨measured, hmeasured, h⟩ := Throw.bind_eq_ok.mp h
  obtain ⟨⟨reran, all⟩, hrerun, h⟩ := Throw.bind_eq_ok.mp h
  obtain ⟨flagged, hflagged, h⟩ := Throw.bind_eq_ok.mp h
  obtain ⟨median, hmedian, h⟩ := Throw.bind_eq_ok.mp h
  obtain rfl := Except.ok.inj h
  refine ⟨?_, hflagged, hmedian⟩
  have hlen : (headlineValues measured).length = trials := by
    have hlength := (Throw.mapM_eq_ok.mp hmeasured).length_eq
    unfold headlineValues
    rw [List.length_map, ← hlength, List.length_range]
  obtain ⟨fired, hfired, hrest⟩ := Throw.bind_eq_ok.mp hrerun
  cases fired with
  | false =>
    obtain ⟨rfl, rfl⟩ := Prod.mk.inj (Except.ok.inj hrest)
    exact ⟨_, 0, hlen, Throw.bind_eq_ok.mpr ⟨false, hfired, rfl⟩⟩
  | true =>
    obtain ⟨extra, hextra, hrest⟩ := Throw.bind_eq_ok.mp hrest
    obtain ⟨rfl, rfl⟩ := Prod.mk.inj (Except.ok.inj hrest)
    refine ⟨_, extra.metrics.throughputTokS, hlen, Throw.bind_eq_ok.mpr ⟨true, hfired, ?_⟩⟩
    show Except.ok _ = Except.ok (headlineValues _)
    unfold headlineValues
    rw [List.map_append]
    rfl

/-- the first trials, each of its run -/
theorem measured_trials {runs : Nat → List RequestTrace} {workload : Workload} {warmup trials : Nat}
    {measured : List MeasuredTrial}
    (h : (List.range trials).mapM (fun index => do
      return (⟨← runTrial (runs (warmup + index)) workload, index,
        false⟩ : MeasuredTrial)) = .ok measured) :
    measured.length = trials ∧ ∀ i m, measured[i]? = some m →
      runTrial (runs (warmup + i)) workload = .ok m.trial ∧ m.dispersionRerun = false := by
  obtain ⟨hlen, hget⟩ := List.forall₂_iff_get.mp (Throw.mapM_eq_ok.mp h)
  rw [List.length_range] at hlen
  refine ⟨hlen.symm, fun i m hm => ?_⟩
  obtain ⟨hi, rfl⟩ := List.getElem?_eq_some_iff.mp hm
  obtain ⟨trial, htrial, hpure⟩ := Throw.bind_eq_ok.mp (hget i (by rw [List.length_range]; omega) hi)
  rw [List.get_eq_getElem, List.getElem_range] at htrial
  rw [← show _ = measured[i] from Except.ok.inj hpure]
  exact ⟨htrial, rfl⟩

/-- the trials that `main` records, in the order of their runs, and the marker of the re-run -/
theorem main_trials {runs : Nat → List RequestTrace} {workload : Workload} {warmup trials : Nat}
    {result : Result} (h : main runs workload warmup trials = .ok result) :
    (∀ i m, result.trials[i]? = some m → runTrial (runs (warmup + i)) workload = .ok m.trial) ∧
      result.dispersion.reran = result.trials.any (·.dispersionRerun) := by
  obtain ⟨warmups, _, h⟩ := Throw.bind_eq_ok.mp h
  obtain ⟨measured, hmeasured, h⟩ := Throw.bind_eq_ok.mp h
  obtain ⟨⟨reran, all⟩, hrerun, h⟩ := Throw.bind_eq_ok.mp h
  obtain ⟨flagged, _, h⟩ := Throw.bind_eq_ok.mp h
  obtain ⟨median, _, h⟩ := Throw.bind_eq_ok.mp h
  obtain rfl := Except.ok.inj h
  obtain ⟨hlen, hfirst⟩ := measured_trials hmeasured
  have hquiet : measured.any (·.dispersionRerun) = false := List.any_eq_false.mpr fun m hm => by
    obtain ⟨i, hi⟩ := List.mem_iff_getElem?.mp hm
    rw [(hfirst i m hi).2]
    exact Bool.false_ne_true
  obtain ⟨fired, _, hrest⟩ := Throw.bind_eq_ok.mp hrerun
  cases fired with
  | false =>
    obtain ⟨rfl, rfl⟩ := Prod.mk.inj (Except.ok.inj hrest)
    exact ⟨fun i m hm => (hfirst i m hm).1, hquiet.symm⟩
  | true =>
    obtain ⟨extra, hextra, hrest⟩ := Throw.bind_eq_ok.mp hrest
    obtain ⟨rfl, rfl⟩ := Prod.mk.inj (Except.ok.inj hrest)
    refine ⟨fun i m hm => ?_, by simp⟩
    rcases Nat.lt_or_ge i measured.length with hi | hi
    · rw [List.getElem?_append_left hi] at hm
      exact (hfirst i m hm).1
    · rw [List.getElem?_append_right hi] at hm
      obtain ⟨hzero, rfl⟩ := List.getElem?_eq_some_iff.mp hm
      obtain rfl : i = trials := by
        rw [List.length_singleton] at hzero
        omega
      simpa using hextra

/-- the dispersion block and the summary are of these trials -/
theorem main_summary {runs : Nat → List RequestTrace} {workload : Workload} {warmup trials : Nat}
    {result : Result} (h : main runs workload warmup trials = .ok result) :
    result.dispersion.metric = headlineMetric ∧
      result.dispersion.thresholdFraction = dispersionFraction ∧
      result.dispersion.values = headlineValues result.trials ∧
        result.medianTrialIndex < result.trials.length ∧
      ∃ median, (result.trials.map (·.trial.metrics))[result.medianTrialIndex]? = some median ∧
        result.metrics = summarizeMetrics (result.trials.map (·.trial.metrics)) median := by
  have hindex := (main_dispersion h).2.2
  obtain ⟨warmups, _, h⟩ := Throw.bind_eq_ok.mp h
  obtain ⟨measured, _, h⟩ := Throw.bind_eq_ok.mp h
  obtain ⟨⟨reran, all⟩, _, h⟩ := Throw.bind_eq_ok.mp h
  obtain ⟨flagged, _, h⟩ := Throw.bind_eq_ok.mp h
  obtain ⟨index, hmedian, h⟩ := Throw.bind_eq_ok.mp h
  obtain rfl := Except.ok.inj h
  have hne : headlineValues all ≠ [] := fun hnil => by
    rw [hnil] at hmedian
    cases hmedian
  obtain ⟨i, hi, hlt, _⟩ := published_eq hne
  obtain rfl := Except.ok.inj (hmedian.symm.trans hi)
  have hlt : index < all.length := by
    unfold headlineValues at hlt
    rwa [List.length_map] at hlt
  have hget : (all.map (·.trial.metrics))[index]? = some all[index].trial.metrics := by
    rw [List.getElem?_map, List.getElem?_eq_getElem hlt]
    rfl
  refine ⟨rfl, rfl, rfl, hlt, _, hget, ?_⟩
  simp only [hget]

/-- the flag against the value of the published trial -/
def FlagMatches (values : List Rat) (published : Nat) : Prop :=
  spreadExceeds values dispersionFraction = .ok true ↔ 3 / 100 * values.getD published 0 < spread values

theorem flagMatches_three {a b c : Rat} (hperm : values.Perm [a, b, c]) (hab : a ≤ b)
    (hbc : b ≤ c) {i : Nat} (hi : selectMedianTrial values = .ok i) : FlagMatches values i := by
  have hn : values ≠ [] := fun h => absurd (h ▸ hperm).length_eq (by simp)
  obtain ⟨_, hspread, hmiddle⟩ := three_values hperm hab hbc
  obtain ⟨j, hj, _, hvalue⟩ := published_eq hn
  obtain rfl := Except.ok.inj (hi.symm.trans hj)
  unfold FlagMatches
  rw [hvalue, hmiddle, hspread, three_fire hperm hab hbc, Except.ok.injEq, decide_eq_true_iff]

/-- over four values the flag is judged by the midpoint of the two middle ones, and the lower is published -/
theorem flagMatches_four {a b c d : Rat} (hperm : values.Perm [a, b, c, d]) (hab : a ≤ b)
    (hbc : b ≤ c) (hcd : c ≤ d) {i : Nat} (hi : selectMedianTrial values = .ok i) :
    FlagMatches values i ↔ (3 / 200 * (b + c) < d - a ↔ 3 / 100 * b < d - a) := by
  have hn : values ≠ [] := fun h => absurd (h ▸ hperm).length_eq (by simp)
  obtain ⟨_, hspread, hmiddle⟩ := four_values hperm hab hbc hcd
  obtain ⟨j, hj, _, hvalue⟩ := published_eq hn
  obtain rfl := Except.ok.inj (hi.symm.trans hj)
  unfold FlagMatches
  rw [hvalue, hmiddle, hspread, four_fire hperm hab hbc hcd, Except.ok.injEq, decide_eq_true_iff]

/-- the re-run's value put in its place -/
theorem flagMatches_rerun {first : List Rat} {p q r x : Rat} (hperm : first.Perm [p, q, r])
    (hpq : p ≤ q) (hqr : q ≤ r)
    (hfired : 3 / 100 * q < r - p) {i : Nat} (hi : selectMedianTrial (first ++ [x]) = .ok i) :
    FlagMatches (first ++ [x]) i ↔ x ≤ q ∨ 3 / 200 * (q + min x r) < max x r - p := by
  have hcons : (first ++ [x]).Perm (x :: [p, q, r]) :=
    (List.perm_append_singleton x first).trans (hperm.cons x)
  rcases le_total x q with hxq | hqx
  · have hmatches : FlagMatches (first ++ [x]) i := by
      rcases le_total x p with hxp | hpx
      · exact (flagMatches_four hcons hxp hpq hqr hi).mpr ⟨fun _ => by linarith, fun _ => by linarith⟩
      · exact (flagMatches_four (hcons.trans (List.Perm.swap p x [q, r])) hpx hxq hqr hi).mpr
          ⟨fun _ => by linarith, fun _ => by linarith⟩
    exact ⟨fun _ => Or.inl hxq, fun _ => hmatches⟩
  · have hswap : (first ++ [x]).Perm [p, q, x, r] :=
      (hcons.trans (List.Perm.swap p x [q, r])).trans ((List.Perm.swap q x [r]).cons p)
    have hor : x ≤ q ∨ 3 / 200 * (q + min x r) < max x r - p ↔
        3 / 200 * (q + min x r) < max x r - p := by
      refine ⟨fun h => h.elim (fun hxq => ?_) id, Or.inr⟩
      obtain rfl := le_antisymm hxq hqx
      rw [min_eq_left hqr, max_eq_right hqr]
      linarith
    rw [hor]
    rcases le_total x r with hxr | hrx
    · rw [flagMatches_four hswap hpq hqx hxr hi, min_eq_left hxr, max_eq_right hxr]
      exact ⟨fun h => h.mpr (by linarith), fun h => ⟨fun _ => by linarith, fun _ => h⟩⟩
    · rw [flagMatches_four (hswap.trans (((List.Perm.swap r x []).cons q).cons p)) hpq hqr hrx hi,
        min_eq_right hrx, max_eq_left hrx]
      exact ⟨fun h => h.mpr (by linarith), fun h => ⟨fun _ => by linarith, fun _ => h⟩⟩

/-- **The flag agrees with the published median exactly when the rule did not fire, or the re-run is at
most the first median, or the spread exceeds 3 percent of the midpoint of the two middle values.** -/
theorem flagMatches_iff {first : List Rat} {p q r x : Rat} (hperm : first.Perm [p, q, r])
    (hpq : p ≤ q) (hqr : q ≤ r)
    (hend : endValues first x = .ok values) {i : Nat} (hi : selectMedianTrial values = .ok i) :
    FlagMatches values i ↔ spreadExceeds first dispersionFraction = .ok false ∨ x ≤ q ∨
      3 / 200 * (q + min x r) < max x r - p := by
  have hfire := three_fire hperm hpq hqr
  unfold endValues at hend
  rw [hfire] at hend
  by_cases h : 3 / 100 * q < r - p
  · rw [decide_eq_true h] at hfire hend
    obtain rfl : first ++ [x] = values := Except.ok.inj hend
    rw [flagMatches_rerun hperm hpq hqr h hi, hfire]
    exact ⟨Or.inr, fun h => h.resolve_left fun h => absurd (Except.ok.inj h) (by decide)⟩
  · rw [decide_eq_false h] at hfire hend
    obtain rfl : first = values := Except.ok.inj hend
    exact ⟨fun _ => Or.inl hfire, fun _ => flagMatches_three hperm hpq hqr hi⟩

/-- three quiet trials, and three whose re-run comes out above them all -/
theorem flagMatches_cases : FlagMatches [100, 101, 102] 1 ∧
    FlagMatches [10301 / 100, 100, 100, 104] 2 := by
  have hquiet : endValues [100, 101, 102] 1 = .ok [100, 101, 102] := by decide +kernel
  have hrerun : endValues [10301 / 100, 100, 100] 104 = .ok [10301 / 100, 100, 100, 104] := by
    decide +kernel
  constructor
  · exact (flagMatches_iff (List.Perm.refl _) (by norm_num) (by norm_num) hquiet (by decide +kernel)).mpr
      (Or.inl (by decide +kernel))
  · have hperm : [10301 / 100, 100, 100].Perm [(100 : Rat), 100, 10301 / 100] := by decide +kernel
    refine (flagMatches_iff hperm (by norm_num) (by norm_num) hrerun (by decide +kernel)).mpr
      (Or.inr (Or.inr ?_))
    decide +kernel

/-- the rule fires on the first three, the re-run comes close below the highest, and the value 100 is
published unflagged with a spread of 3.01 -/
theorem unflagged_over_published : spreadExceeds [100, 100, 10301 / 100] dispersionFraction = .ok true ∧
    endValues [100, 100, 10301 / 100] 103 = .ok [100, 100, 10301 / 100, 103] ∧
    selectMedianTrial [100, 100, 10301 / 100, 103] = .ok 1 ∧
    spreadExceeds [100, 100, 10301 / 100, 103] dispersionFraction = .ok false ∧
    spread [100, 100, 10301 / 100, 103] = 301 / 100 ∧ ¬ FlagMatches [100, 100, 10301 / 100, 103] 1 := by
  refine ⟨by decide +kernel, by decide +kernel, by decide +kernel, by decide +kernel, by decide +kernel, ?_⟩
  intro h
  exact absurd (h.mpr (by decide +kernel)) (by decide +kernel)

end
end RunBench
end Redline
