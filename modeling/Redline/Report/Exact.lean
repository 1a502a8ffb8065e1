import Mathlib.Algebra.BigOperators.Ring.Finset
import Redline.Report.Written

/-!
# The auditor's functions over exact rationals

On the values of a written file the functions of `Recompute` are those of `Redline.Bench`.

* `percentile_exact`, `spreadExceeds_exact`, `selectMedianTrial_exact`   on a list of floats;
* `computeMetrics_exact`      on traces with tokens;
* `summarizeMetrics_exact`    on the metrics of trials.
-/

namespace Redline
namespace Report
open Py Py.Value RunBench Throw

/-! ## floats -/

theorem lt_float (x y : Rat) : lt (float x : Value Rat) (float y) = .ok (decide (x < y)) := by
  show Except.ok (FloatValue.compare (.finite x) (.finite y) == some .lt) = _
  unfold FloatValue.compare
  rcases lt_trichotomy x y with h | h | h
  · simp [h]
  · simp [h]
  · simp [h.not_gt, h.ne']

theorem le_float (x y : Rat) : le (float x : Value Rat) (float y) = .ok (decide (x ≤ y)) := by
  show Except.ok (FloatValue.compare (.finite x) (.finite y) == some .lt ||
    FloatValue.compare (.finite x) (.finite y) == some .eq) = _
  unfold FloatValue.compare
  rcases lt_trichotomy x y with h | h | h
  · simp [h, h.le]
  · simp [h]
  · simp [h.not_gt, h.ne', h.not_ge]

theorem le_int (x : Rat) (i : Int) : le (float x : Value Rat) (int i) = .ok (decide (x ≤ i)) :=
  le_float x i

theorem sub_float (x y : Rat) : sub (float x : Value Rat) (float y) = .ok (float (x - y)) := rfl

theorem mul_float (x y : Rat) : mul (float x : Value Rat) (float y) = .ok (float (x * y)) := rfl

theorem eq_float_self (x : Rat) : eq (float x : Value Rat) (float x) = true :=
  beq_iff_eq.mpr (FloatValue.compare_eq.mpr ⟨rfl, FloatValue.noConfusion⟩)

theorem toInt_float {x : Rat} (h : 0 ≤ x) : toInt (float x : Value Rat) = .ok ⌊x⌋ :=
  congrArg Except.ok (if_pos h)

theorem div_int (n : Int) {y : Rat} (hy : y ≠ 0) : div (int n : Value Rat) (float y)
    = .ok (float (n / y)) := by
  show (Number.div (.int n) (.float y)).map Json.num = _
  have h : Number.div (.int n) (.float y) = .ok (.float ((n : Rat) / y)) := by
    show (if FloatOps.value y = .finite 0 then _ else _) = _
    exact if_neg fun h => hy (FloatValue.finite.inj h)
  rw [h]
  rfl

/-- sorting by a key that compares without exceptions -/
theorem sortBy_key {α β : Type} {below : α → α → Except Exn Bool} {f : β → α} {key : β → Rat}
    {l : List β} (h : ∀ x ∈ l, ∀ y ∈ l, below (f x) (f y) = .ok (decide (key x < key y))) :
    sortBy below (l.map f) = .ok ((l.insertionSort fun x y => key x ≤ key y).map f) := by
  have hinsert : ∀ x (l : List β), (∀ y ∈ l, below (f y) (f x) = .ok (decide (key y < key x))) →
      Py.insert below (f x) (l.map f) = .ok ((l.orderedInsert (fun x y => key x ≤ key y) x).map f) := by
    intro x l hl
    induction l with
    | nil => rfl
    | cons y l ih =>
      rw [List.map_cons, Py.insert, hl y List.mem_cons_self]
      by_cases hlt : key y < key x
      · rw [List.orderedInsert_cons, if_neg (not_le.mpr hlt), decide_eq_true hlt]
        show (do return f y :: (← Py.insert below (f x) (l.map f))) = _
        rw [ih fun z hz => hl z (List.mem_cons_of_mem y hz)]
        rfl
      · rw [List.orderedInsert_cons, if_pos (not_lt.mp hlt), decide_eq_false hlt]
        rfl
  induction l with
  | nil => rfl
  | cons x l ih =>
    rw [List.map_cons, sortBy, ih fun y hy z hz =>
      h y (List.mem_cons_of_mem x hy) z (List.mem_cons_of_mem x hz), List.insertionSort_cons]
    refine hinsert x _ fun y hy => h y (List.mem_cons_of_mem x ?_) x List.mem_cons_self
    exact (List.mem_insertionSort _).mp hy

theorem sortBy_float (values : List Rat) :
    sortBy lt (values.map float : List (Value Rat)) = .ok ((values.insertionSort (· ≤ ·)).map float) :=
  sortBy_key fun x _ y _ => lt_float x y

theorem minimum_float {values : List Rat} {m : Rat} (h : values.min? = some m) :
    minimum (values.map float : List (Value Rat)) = .ok (float m) := by
  cases values with
  | nil => cases h
  | cons x xs =>
    obtain rfl : xs.foldl min x = m := Option.some.inj h
    show (xs.map float).foldlM _ (float x) = _
    clear h
    induction xs generalizing x with
    | nil => rfl
    | cons y ys ih =>
      rw [List.map_cons, List.foldlM_cons, lt_float]
      have hmin : (if decide (y < x) = true then (float y : Value Rat) else float x)
          = float (min x y) := by
        by_cases hlt : y < x
        · rw [if_pos (decide_eq_true hlt), min_eq_right hlt.le]
        · rw [if_neg (by simpa using hlt), min_eq_left (not_lt.mp hlt)]
      have hstep := ih (min x y)
      rw [← hmin] at hstep
      exact hstep

theorem maximum_float {values : List Rat} {m : Rat} (h : values.max? = some m) :
    maximum (values.map float : List (Value Rat)) = .ok (float m) := by
  cases values with
  | nil => cases h
  | cons x xs =>
    obtain rfl : xs.foldl max x = m := Option.some.inj h
    show (xs.map float).foldlM _ (float x) = _
    clear h
    induction xs generalizing x with
    | nil => rfl
    | cons y ys ih =>
      rw [List.map_cons, List.foldlM_cons, lt_float]
      have hmax : (if decide (x < y) = true then (float y : Value Rat) else float x)
          = float (max x y) := by
        by_cases hlt : x < y
        · rw [if_pos (decide_eq_true hlt), max_eq_right hlt.le]
        · rw [if_neg (by simpa using hlt), max_eq_left (not_lt.mp hlt)]
      have hstep := ih (max x y)
      rw [← hmax] at hstep
      exact hstep

/-! ## percentiles -/

theorem at?_float {values : List Rat} {i : Nat} (h : i < values.length) :
    at? (values.map float : List (Value Rat)) i = .ok (float (values.getD i 0)) := by
  unfold at?
  rw [List.getElem?_map, List.getElem?_eq_getElem h, List.getD_eq_getElem values 0 h]
  rfl

theorem percentile_exact {values : List Rat} (hn : values ≠ []) {p : Int} (h0 : 0 ≤ p) (h1 : p ≤ 100) :
    percentile (values.map float : List (Value Rat)) p
      = .ok (float (Percentile.percentile values p)) := by
  have hlen : (values.insertionSort (· ≤ ·)).length = values.length := List.length_insertionSort _ _
  have hne : (values.map float : List (Value Rat)).isEmpty = false := by
    cases values with
    | nil => exact absurd rfl hn
    | cons _ _ => rfl
  have hpos := List.length_pos_iff.mpr hn
  unfold percentile
  rw [hne, sortBy_float]
  show (if ((values.insertionSort (· ≤ ·)).map (float : Rat → Value Rat)).length = 1 then _ else _) = _
  rw [List.length_map]
  by_cases hone : (values.insertionSort (· ≤ ·)).length = 1
  · rw [if_pos hone, at?_float (by omega), Percentile.percentile_single hone]
  · rw [if_neg hone]
    have hp0 : (0 : Rat) ≤ p := by exact_mod_cast h0
    have hp1 : (p : Rat) ≤ 100 := by exact_mod_cast h1
    have hr := Percentile.rank_inRange (K := Rat) (values.insertionSort (· ≤ ·)).length hp0 hp1
    obtain ⟨_, _, hlow⟩ := hr.low (Percentile.sorted_ne_nil hn)
    have hdiv : div (int p : Value Rat) (float (FloatOps.lit 100)) = .ok (float ((p : Rat) / 100)) :=
      div_int p (show (100 : Rat) ≠ 0 by norm_num)
    let r := Percentile.rank (values.insertionSort (· ≤ ·)).length (p : Rat)
    have hrank : mul (float ((p : Rat) / 100) : Value Rat)
      (int ((values.insertionSort (· ≤ ·)).length - 1 : Nat))
        = .ok (float r) := rfl
    have hcast : ((⌊r⌋.toNat : Nat) : Rat) = (⌊r⌋ : Rat) := by
      have hfloor : ((⌊r⌋.toNat : Nat) : Int) = ⌊r⌋ :=
        Int.toNat_of_nonneg (Int.floor_nonneg.mpr hr.nonneg)
      exact_mod_cast congrArg (Int.cast : Int → Rat) hfloor
    have hfrac : sub (float r : Value Rat) (int ⌊r⌋) = .ok (float (r - (⌊r⌋.toNat : Nat))) := by
      rw [hcast]
      rfl
    have hhigh : min (⌊r⌋.toNat + 1) ((values.insertionSort (· ≤ ·)).length - 1)
        < (values.insertionSort (· ≤ ·)).length := by omega
    have hvalue : Percentile.percentile values (p : Rat)
        = Percentile.atRank (values.insertionSort (· ≤ ·)) r := by
      show _ = Percentile.atRank _ (Percentile.rank (values.insertionSort (· ≤ ·)).length (p : Rat))
      rw [hlen]
      rfl
    rw [hvalue]
    exact bind_eq_ok.mpr ⟨_, hdiv, bind_eq_ok.mpr ⟨_, hrank, bind_eq_ok.mpr ⟨_, toInt_float hr.nonneg,
      bind_eq_ok.mpr ⟨_, hfrac, bind_eq_ok.mpr ⟨_, at?_float hlow,
        bind_eq_ok.mpr ⟨_, at?_float hhigh, rfl⟩⟩⟩⟩⟩⟩

/-! ## the median trial and the spread -/

theorem getD_float {values : List Rat} {i : Nat} (h : i < values.length) :
    (values.map float : List (Value Rat)).getD i .null = float (values.getD i 0) := by
  rw [List.getD_eq_getElem values 0 h, List.getD_eq_getElem _ _ (by rwa [List.length_map]),
    List.getElem_map]

theorem selectMedianTrial_exact {values : List Rat} {i : Nat}
    (h : RunBench.selectMedianTrial values = .ok i) :
    selectMedianTrial (values.map float : List (Value Rat)) = .ok i := by
  cases values with
  | nil => cases h
  | cons x xs =>
    have hsort : sortBy (fun i j => lt (((x :: xs).map float : List (Value Rat)).getD i .null)
        (((x :: xs).map float : List (Value Rat)).getD j .null)) ((List.range (x :: xs).length).map id) =
        .ok (((List.range (x :: xs).length).insertionSort fun i j =>
          (x :: xs).getD i 0 ≤ (x :: xs).getD j 0).map id) :=
      sortBy_key fun i hi j hj => by
        rw [id, id, getD_float (List.mem_range.mp hi), getD_float (List.mem_range.mp hj)]
        exact lt_float _ _
    rw [List.map_id, List.map_id] at hsort
    have hlen : ((x :: xs).map float : List (Value Rat)).length = (x :: xs).length := List.length_map _
    unfold selectMedianTrial
    rw [hlen]
    refine bind_eq_ok.mpr ⟨_, hsort, ?_⟩
    exact congrArg Except.ok (Except.ok.inj h)

theorem spreadExceeds_exact {values : List Rat} {fraction : Rat} {b : Bool}
    (h : RunBench.spreadExceeds values fraction = .ok b) :
    spreadExceeds (values.map float : List (Value Rat)) (float fraction) = .ok b := by
  rw [spreadExceeds_ok] at h
  obtain rfl := Except.ok.inj h
  unfold spreadExceeds
  rw [List.length_map]
  by_cases hlen : values.length < 2
  · rw [if_pos hlen, decide_eq_false fun h => absurd h.1 (by omega)]
  · rw [if_neg hlen]
    have hn : values ≠ [] := fun h => hlen (by rw [h]; decide)
    obtain ⟨hi, hmax⟩ := Option.ne_none_iff_exists'.mp (mt List.max?_eq_none_iff.mp hn)
    obtain ⟨lo, hmin⟩ := Option.ne_none_iff_exists'.mp (mt List.min?_eq_none_iff.mp hn)
    have hspread : spread values = hi - lo := by
      unfold spread
      rw [hmax, hmin]
      rfl
    rw [hspread]
    refine bind_eq_ok.mpr ⟨_, maximum_float hmax,
      bind_eq_ok.mpr ⟨_, minimum_float hmin, bind_eq_ok.mpr ⟨_,
      sub_float hi lo, bind_eq_ok.mpr ⟨_, percentile_exact hn (by norm_num) (by norm_num),
        bind_eq_ok.mpr ⟨_,
      mul_float fraction _, ?_⟩⟩⟩⟩⟩
    rw [lt_float]
    exact congrArg Except.ok (decide_eq_decide.mpr ⟨fun h => ⟨by omega, h⟩, fun h => h.2⟩)

/-! ## the metrics of traces -/

/-- the trace that the auditor rebuilds from a record of these times -/
def floatTrace (t : RequestTrace) : Trace Rat where
  requestId := int t.requestId
  enqueueTime := float t.enqueueTime
  tokenTimes := t.tokenTimes
  tokenIds := t.tokenIds.map int

theorem first_exact {t : RequestTrace} (h : t.tokenTimes ≠ []) :
    (floatTrace t).first = float t.first := by
  unfold Trace.first Trace.times floatTrace RequestTrace.first
  cases hl : t.tokenTimes with
  | nil => exact absurd hl h
  | cons x xs => rfl

theorem last_exact {t : RequestTrace} (h : t.tokenTimes ≠ []) : (floatTrace t).last = float t.last := by
  unfold Trace.last Trace.times floatTrace RequestTrace.last
  show (t.tokenTimes.map (float : Rat → Value Rat)).getLastD .null = _
  have hmap : t.tokenTimes.map (float : Rat → Value Rat) ≠ [] := mt List.map_eq_nil_iff.mp h
  rw [List.getLastD_eq_getLast?, List.getLastD_eq_getLast?, List.getLast?_eq_getLast_of_ne_nil hmap,
    List.getLast?_eq_getLast_of_ne_nil h]
  exact List.getLast_map _

/-- successive differences, in the two ways that the sources write them -/
theorem interTokenLatencies_eq (t : RequestTrace) :
    RunBench.interTokenLatencies t = (t.tokenTimes.zip t.tokenTimes.tail).map fun p => p.2 - p.1 := by
  refine List.ext_getElem ?_ fun i hi hi' => ?_
  · simp [RunBench.interTokenLatencies, RequestTrace.numTokens]
  · have hlen : i < t.tokenTimes.length - 1 := by
      simpa [RunBench.interTokenLatencies, RequestTrace.numTokens] using hi
    simp [RunBench.interTokenLatencies,
      List.getElem?_eq_getElem (show i < t.tokenTimes.length by omega),
      List.getElem?_eq_getElem (show i + 1 < t.tokenTimes.length by omega)]

theorem interTokenLatencies_exact (t : RequestTrace) :
    interTokenLatencies (floatTrace t) = .ok ((RunBench.interTokenLatencies t).map float) := by
  have hzip : (floatTrace t).times.zip (floatTrace t).times.tail
      = (t.tokenTimes.zip t.tokenTimes.tail).map fun p => (float p.1, float p.2) := by
    show (t.tokenTimes.map float).zip (t.tokenTimes.map float).tail = _
    rw [← List.map_tail, List.zip_map]
    rfl
  unfold interTokenLatencies
  rw [hzip, List.mapM_map, interTokenLatencies_eq, List.map_map]
  exact mapM_ok fun p _ => sub_float p.2 p.1

/-- the rate of one trace -/
theorem decodeRate_exact {t : RequestTrace} (h : t.tokenTimes ≠ []) :
    decodeRate (floatTrace t) = .ok ((decodeRates [t]).map float) := by
  have hnum : (floatTrace t).numTokens = t.numTokens := rfl
  unfold decodeRate
  rw [hnum, first_exact h, last_exact h]
  by_cases hn : 2 ≤ t.numTokens
  · rw [if_pos hn, lt_float]
    by_cases hlt : t.first < t.last
    · have hrates : decodeRates [t] = [((t.numTokens - 1 : Nat) : Rat) / (t.last - t.first)] := by
        unfold decodeRates
        rw [List.filter_cons, if_pos (decide_eq_true ⟨hn, hlt⟩)]
        rfl
      rw [decide_eq_true hlt, hrates]
      refine bind_eq_ok.mpr ⟨true, rfl, bind_eq_ok.mpr ⟨_, sub_float t.last t.first, bind_eq_ok.mpr ⟨_,
        div_int _ (sub_pos.mpr hlt).ne', ?_⟩⟩⟩
      rfl
    · have hrates : decodeRates [t] = [] := by
        unfold decodeRates
        rw [List.filter_cons, if_neg (by simp [hlt])]
        rfl
      rw [decide_eq_false hlt, hrates]
      rfl
  · have hrates : decodeRates [t] = [] := by
      unfold decodeRates
      rw [List.filter_cons, if_neg (by simp [hn])]
      rfl
    rw [if_neg hn, hrates]
    rfl

theorem decodeRates_cons (t : RequestTrace) (ts : List RequestTrace) :
    decodeRates (t :: ts) = decodeRates [t] ++ decodeRates ts := by
  unfold decodeRates
  rw [← List.map_append, ← List.filter_append, List.singleton_append]

theorem decodeRates_flatten (traces : List RequestTrace) :
    ((traces.map fun t => (decodeRates [t]).map (float : Rat → Value Rat))).flatten
      = (decodeRates traces).map float := by
  induction traces with
  | nil => rfl
  | cons t ts ih => rw [List.map_cons, List.flatten_cons, ih, decodeRates_cons t ts, List.map_append]

theorem pooledItls_flatten (traces : List RequestTrace) :
    ((traces.map fun t => (RunBench.interTokenLatencies t).map (float : Rat → Value Rat))).flatten
      = (pooledItls traces).map float := by
  unfold pooledItls
  rw [List.map_flatMap, List.flatMap_def]

theorem optional_exact {values : List Rat} {entries : Except Exn (List (String × Value Rat))}
    {f : List Rat → List (String × Value Rat)} (h : values ≠ [] → entries = .ok (f values))
    (hnil : f [] = []) :
    optional (values.map float) entries = .ok (f values) := by
  cases values with
  | nil => exact congrArg Except.ok hnil.symm
  | cons x xs => exact h (List.cons_ne_nil x xs)

def itlEntries (values : List Rat) : List (String × Value Rat) :=
  ((present values (Percentile.percentile · 50)).map fun x => ("itl_p50_s", float x)).toList ++
  ((present values (Percentile.percentile · 99)).map fun x => ("itl_p99_s", float x)).toList

def rateEntries (values : List Rat) : List (String × Value Rat) :=
  ((present values (Percentile.percentile · 50)).map fun x =>
    ("decode_rate_p50_tok_s", float x)).toList ++
  (values.min?.map fun x => ("decode_rate_min_tok_s", float x)).toList ++
  (values.max?.map fun x => ("decode_rate_max_tok_s", float x)).toList

theorem itlEntries_exact (values : List Rat) :
    optional (values.map float) (do
      return [("itl_p50_s", ← percentile (values.map float) 50),
        ("itl_p99_s", ← percentile (values.map float) 99)])
      = .ok (itlEntries values) := by
  refine optional_exact (f := itlEntries) (fun hn => ?_) rfl
  have h50 := percentile_exact hn (p := 50) (by norm_num) (by norm_num)
  have h99 := percentile_exact hn (p := 99) (by norm_num) (by norm_num)
  unfold itlEntries present
  rw [if_neg hn, if_neg hn]
  exact bind_eq_ok.mpr ⟨_, h50, bind_eq_ok.mpr ⟨_, h99, rfl⟩⟩

theorem rateEntries_exact (values : List Rat) :
    optional (values.map float) (do
      return [("decode_rate_p50_tok_s", ← percentile (values.map float) 50),
        ("decode_rate_min_tok_s", ← minimum (values.map float)),
          ("decode_rate_max_tok_s", ← maximum (values.map float))])
      = .ok (rateEntries values) := by
  refine optional_exact (f := rateEntries) (fun hn => ?_) rfl
  have h50 := percentile_exact hn (p := 50) (by norm_num) (by norm_num)
  obtain ⟨hi, hmax⟩ := Option.ne_none_iff_exists'.mp (mt List.max?_eq_none_iff.mp hn)
  obtain ⟨lo, hmin⟩ := Option.ne_none_iff_exists'.mp (mt List.min?_eq_none_iff.mp hn)
  unfold rateEntries present
  rw [if_neg hn, hmax, hmin]
  exact bind_eq_ok.mpr ⟨_, h50, bind_eq_ok.mpr ⟨_, minimum_float hmin,
    bind_eq_ok.mpr ⟨_, maximum_float hmax, rfl⟩⟩⟩

/-- **The auditor recomputes the metrics that the writer computes of the same times.** -/
theorem computeMetrics_exact {traces : List RequestTrace} (hsome : traces ≠ [])
    (htokens : ∀ t ∈ traces, t.tokenTimes ≠ []) :
    computeMetrics (traces.map floatTrace)
      = if wallWindow traces ≤ 0 then .error .valueError else .ok (metricsJson (metricsOf traces)) := by
  have hne : (traces.map floatTrace).isEmpty = false := by
    cases traces with
    | nil => exact absurd rfl hsome
    | cons _ _ => rfl
  have hany : ((traces.map floatTrace).any fun t => t.tokenTimes.isEmpty) = false := by
    rw [List.any_map, List.any_eq_false]
    exact fun t ht => by simpa [floatTrace, List.isEmpty_iff] using htokens t ht
  have htotal : ((traces.map floatTrace).map fun t => (t.numTokens : Int)).sum
      = (totalTokens traces : Nat) := by
    unfold totalTokens
    rw [Nat.cast_list_sum, List.map_map, List.map_map]
    rfl
  have henqueue : (traces.map floatTrace).map (·.enqueueTime)
      = (traces.map (·.enqueueTime)).map float := by
    rw [List.map_map, List.map_map]
    rfl
  have hlast : (traces.map floatTrace).map (·.last) = (traces.map (·.last)).map float := by
    rw [List.map_map, List.map_map]
    exact List.map_congr_left fun t ht => last_exact (htokens t ht)
  have hstart : minimum ((traces.map (·.enqueueTime)).map (float : Rat → Value Rat))
      = .ok (float (windowStart traces)) := by
    obtain ⟨lo, hmin⟩ := Option.ne_none_iff_exists'.mp
      (mt List.min?_eq_none_iff.mp (mt List.map_eq_nil_iff.mp hsome : traces.map (·.enqueueTime) ≠ []))
    unfold windowStart
    rw [hmin]
    exact minimum_float hmin
  have hend : maximum ((traces.map (·.last)).map (float : Rat → Value Rat))
      = .ok (float (windowEnd traces)) := by
    obtain ⟨hi, hmax⟩ := Option.ne_none_iff_exists'.mp
      (mt List.max?_eq_none_iff.mp (mt List.map_eq_nil_iff.mp hsome : traces.map (·.last) ≠ []))
    unfold windowEnd
    rw [hmax]
    exact maximum_float hmax
  unfold computeMetrics
  rw [hne, hany, if_neg Bool.false_ne_true, if_neg Bool.false_ne_true]
  simp only [htotal]
  rw [henqueue, hlast, hstart, ok_bind, hend, ok_bind, sub_float, ok_bind,
    show windowEnd traces - windowStart traces = wallWindow traces from rfl, le_int,
      Int.cast_zero, ok_bind]
  by_cases hwall : wallWindow traces ≤ 0
  · rw [if_pos hwall, decide_eq_true hwall]
    rfl
  · rw [if_neg hwall, decide_eq_false hwall]
    have httft : (traces.map floatTrace).mapM (fun t => sub t.first t.enqueueTime)
        = .ok ((ttfts traces).map float) := by
      rw [List.mapM_map]
      unfold ttfts
      rw [List.map_map]
      refine mapM_ok fun t ht => ?_
      show sub (floatTrace t).first (float t.enqueueTime) = _
      rw [first_exact (htokens t ht)]
      rfl
    have hitls : (traces.map floatTrace).mapM interTokenLatencies
        = .ok (traces.map fun t => (RunBench.interTokenLatencies t).map float) := by
      rw [List.mapM_map]
      exact mapM_ok fun t _ => interTokenLatencies_exact t
    have hrates : (traces.map floatTrace).mapM decodeRate
        = .ok (traces.map fun t => (decodeRates [t]).map float) := by
      rw [List.mapM_map]
      exact mapM_ok fun t ht => decodeRate_exact (htokens t ht)
    have hn : ttfts traces ≠ [] := mt List.map_eq_nil_iff.mp hsome
    refine bind_eq_ok.mpr ⟨_, httft, bind_eq_ok.mpr ⟨_, hitls, bind_eq_ok.mpr ⟨_, hrates, ?_⟩⟩⟩
    simp only [pooledItls_flatten, decodeRates_flatten]
    refine bind_eq_ok.mpr ⟨_, div_int _ (not_le.mp hwall).ne', bind_eq_ok.mpr ⟨_,
      percentile_exact hn (p := 50) (by norm_num) (by norm_num), bind_eq_ok.mpr ⟨_,
      percentile_exact hn (p := 99) (by norm_num) (by norm_num), bind_eq_ok.mpr ⟨_, itlEntries_exact _,
      bind_eq_ok.mpr ⟨_, rateEntries_exact _, ?_⟩⟩⟩⟩⟩
    rw [List.length_map]
    refine congrArg Except.ok ?_
    unfold metricsJson itlEntries rateEntries
    simp only [List.append_assoc]
    rfl

/-! ## the summary -/

theorem lookup_metric (name : MetricName) (m : Metrics) :
    lookup (metricKey name) (metricsJson m) = (m.get name).map float := by
  unfold metricsJson
  cases name <;> simp [lookup_append, lookup_toList, metricKey, Metrics.get]

theorem summaryEntry_exact (trials : List Metrics) (median : Metrics) (name : MetricName)
    (label : String) :
    summaryEntry (trials.map fun m => .obj (metricsJson m)) (.obj (metricsJson median))
      (metricKey name) label
      = .ok ((RunBench.summaryEntry trials median name label).map fun e => entryJson (name,
        e)).toList := by
  have hone : ∀ m : Metrics, (do
      if ← contains (metricKey name) (.obj (metricsJson m)) then
        return [← getItem (metricKey name) (.obj (metricsJson m))]
      else return []) = .ok (((m.get name).map float).toList : List (Value Rat)) := by
    intro m
    have hlookup := lookup_metric name m
    rw [contains_obj, ok_bind]
    cases hget : m.get name with
    | none =>
      rw [hlookup, hget]
      rfl
    | some value =>
      rw [hget] at hlookup
      rw [hlookup, getItem_obj hlookup]
      rfl
  have hvalues : (trials.map fun m => (((m.get name).map float).toList : List (Value Rat))).flatten
      = (trials.filterMap (·.get name)).map float := by
    induction trials with
    | nil => rfl
    | cons m ms ih =>
      rw [List.map_cons, List.flatten_cons, ih, List.filterMap_cons]
      cases m.get name <;> rfl
  unfold summaryEntry
  rw [List.mapM_map]
  refine bind_eq_ok.mpr ⟨_, mapM_ok fun m _ => hone m, ?_⟩
  simp only [hvalues]
  have hlookup := lookup_metric name median
  unfold RunBench.summaryEntry
  rw [contains_obj, hlookup]
  cases hv : trials.filterMap (·.get name) with
  | nil => cases median.get name <;> rfl
  | cons x xs =>
    cases hmedian : median.get name with
    | none => rfl
    | some value =>
      rw [hmedian] at hlookup
      obtain ⟨hi, hmax⟩ :=
        Option.ne_none_iff_exists'.mp (mt List.max?_eq_none_iff.mp (List.cons_ne_nil x xs))
      obtain ⟨lo, hmin⟩ :=
        Option.ne_none_iff_exists'.mp (mt List.min?_eq_none_iff.mp (List.cons_ne_nil x xs))
      simp only [hmin, hmax]
      refine bind_eq_ok.mpr ⟨true, rfl,
        bind_eq_ok.mpr ⟨_, getItem_obj hlookup, bind_eq_ok.mpr ⟨_, minimum_float hmin,
        bind_eq_ok.mpr ⟨_, maximum_float hmax, rfl⟩⟩⟩⟩

/-- the labels under their names -/
theorem metricLabels_eq : metricLabels = RunBench.metricLabels.map fun p => (metricKey p.1, p.2) := rfl

variable {info : RunInfo} {trials : List MeasuredTrial}

theorem trialMetrics_exact : trialMetrics (trials.map (trialJson info))
    = .ok ((trials.map (·.trial.metrics)).map fun m => .obj (metricsJson m)) := by
  unfold trialMetrics
  rw [List.mapM_map, List.map_map]
  exact mapM_ok fun t _ => rfl

theorem summarizeMetrics_exact {i : Nat} {median : Metrics}
    (h : (trials.map (·.trial.metrics))[i]? = some median) :
    summarizeMetrics (trials.map (trialJson info)) i
      = .ok (.obj ((RunBench.summarizeMetrics (trials.map (·.trial.metrics)) median).map entryJson)) := by
  have hmedian : at? ((trials.map (·.trial.metrics)).map fun m => (.obj (metricsJson m) : Value Rat)) i
      = .ok (.obj (metricsJson median)) := by
    unfold at?
    rw [List.getElem?_map, h]
    rfl
  have hflatten : ∀ labels : List (MetricName × String),
      (labels.map fun p => ((RunBench.summaryEntry (trials.map (·.trial.metrics)) median p.1 p.2).map
        fun e => entryJson (p.1, e)).toList).flatten
      = (labels.filterMap fun p => (RunBench.summaryEntry (trials.map (·.trial.metrics)) median p.1 p.2).map
        (p.1, ·)).map entryJson := by
    intro labels
    induction labels with
    | nil => rfl
    | cons p ps ih =>
      rw [List.map_cons, List.flatten_cons, ih, List.filterMap_cons]
      cases RunBench.summaryEntry (trials.map (·.trial.metrics)) median p.1 p.2 <;> rfl
  unfold summarizeMetrics
  rw [metricLabels_eq]
  refine bind_eq_ok.mpr ⟨_, trialMetrics_exact, bind_eq_ok.mpr ⟨_, hmedian, ?_⟩⟩
  rw [List.mapM_map]
  refine bind_eq_ok.mpr ⟨_, mapM_ok fun p _ => summaryEntry_exact _ median p.1 p.2, ?_⟩
  rw [hflatten]
  rfl

end Report
end Redline
