import Redline.Bench.Rounded
import Redline.Report.Exact

/-!
# The audit of a written file

* `auditMetrics_iff`        metrics pass against recomputed ones exactly when they agree;
* `auditTrial_iff`          a written trial passes exactly when the rounding keeps its spans;
* `written_accepted_iff`    a written file passes exactly when each of its trials does.
-/

namespace Redline
namespace Report
open Py Py.Value RunBench Throw

/-! ## dicts with entries that may be left out -/

section
variable {F α : Type} [FloatOps F] (entries : List (String × (α → Option (Value F))))

def fields (a : α) : List (String × Value F) := entries.filterMap fun e => (e.2 a).map (e.1, ·)

variable {entries} {a b : α}

omit [FloatOps F] in
theorem mem_fields {p : String × Value F} : p ∈ fields entries a ↔ ∃ e ∈ entries, e.1 = p.1 ∧
    e.2 a = some p.2 := by
  unfold fields
  rw [List.mem_filterMap]
  refine exists_congr fun e => and_congr_right fun _ => ?_
  rw [Option.map_eq_some_iff]
  constructor
  · rintro ⟨v, hv, rfl⟩
    exact ⟨rfl, hv⟩
  · rintro ⟨hk, hv⟩
    exact ⟨p.2, hv, Prod.ext hk rfl⟩

omit [FloatOps F] in
theorem lookup_fields (hn : (entries.map Prod.fst).Nodup) {e : String × (α → Option (Value F))}
    (he : e ∈ entries) :
    lookup e.1 (fields entries a) = e.2 a := by
  induction entries with
  | nil => cases he
  | cons q es ih =>
    obtain ⟨hq, hrest⟩ := List.nodup_cons.mp hn
    have hcons : fields (q :: es) a = ((q.2 a).map (q.1, ·)).toList ++ fields es a := by
      unfold fields
      rw [List.filterMap_cons]
      cases q.2 a <;> rfl
    have hfirst : lookup e.1 ((q.2 a).map (q.1, ·)).toList = if q.1 = e.1 then q.2 a else none :=
      (lookup_toList e.1 q.1 id (q.2 a)).trans (by rw [Option.map_id, id])
    rw [hcons, lookup_append, hfirst]
    rcases List.mem_cons.mp he with rfl | he
    · -- no later entry has the key
      have hnone : lookup e.1 (fields es a) = none := lookup_eq_none.mpr fun p hp hk => by
        obtain ⟨e', he', hk', _⟩ := mem_fields.mp hp
        exact hq (List.mem_map.mpr ⟨e', he', hk'.trans hk⟩)
      rw [if_pos rfl, hnone, Option.or_none]
    · have hne : q.1 ≠ e.1 := fun hk => hq (hk ▸ List.mem_map_of_mem (f := Prod.fst) he)
      rw [if_neg hne, ih hrest he]
      rfl

/-- a stored entry passes against the recomputed one -/
def Matches (stored expected : Value F) : Prop := metricMatches stored expected = .ok true

theorem auditMetrics_fields {index : Nat} (hn : (entries.map Prod.fst).Nodup) :
    auditMetrics index (fields entries a) (fields entries b) = .ok () ↔
      ∀ e ∈ entries, Option.Rel Matches (e.2 a) (e.2 b) := by
  have hlookup : ∀ e ∈ entries, ∀ c : α, lookup e.1 (fields entries c) = e.2 c :=
    fun e he c => lookup_fields hn he
  unfold auditMetrics
  rw [bind_eq_ok]
  constructor
  · rintro ⟨_, hkeys, hall⟩ e he
    obtain ⟨hstored, hrecomputed⟩ := require_ok.mp hkeys
    cases ha : e.2 a with
    | none =>
      cases hb : e.2 b with
      | none => exact .none
      | some expected =>
        have h := hrecomputed (e.1, expected) (mem_fields.mpr ⟨e, he, rfl, hb⟩)
        rw [hlookup e he, ha] at h
        cases h
    | some got =>
      cases hb : e.2 b with
      | none =>
        have h := hstored (e.1, got) (mem_fields.mpr ⟨e, he, rfl, ha⟩)
        rw [hlookup e he, hb] at h
        cases h
      | some expected =>
        obtain ⟨got', hgot, h⟩ :=
          bind_eq_ok.mp (forM_eq_ok.mp hall (e.1, expected) (mem_fields.mpr ⟨e, he, rfl, hb⟩))
        obtain ⟨same, hsame, h⟩ := bind_eq_ok.mp h
        have hitem := getItem_obj ((hlookup e he a).trans ha)
        obtain rfl : got = got' := Except.ok.inj (hitem.symm.trans (lift_ok.mp hgot))
        rw [require_ok.mp h] at hsame
        exact .some (lift_ok.mp hsame)
  · intro h
    refine ⟨(), require_ok.mpr ⟨fun p hp => ?_, fun p hp => ?_⟩, forM_eq_ok.mpr fun p hp => ?_⟩
    all_goals
      obtain ⟨e, he, hk, hv⟩ := mem_fields.mp hp
      have hrel := h e he
      rw [hv] at hrel
      have hother := hlookup e he
      rw [hk] at hother
    · cases hb : e.2 b with
      | none =>
        rw [hb] at hrel
        cases hrel
      | some expected =>
        rw [hother, hb]
        rfl
    · cases ha : e.2 a with
      | none =>
        rw [ha] at hrel
        cases hrel
      | some got =>
        rw [hother, ha]
        rfl
    · cases ha : e.2 a with
      | none =>
        rw [ha] at hrel
        cases hrel
      | some got =>
        rw [ha] at hrel
        have hsame : Matches got p.2 := Option.rel_some_some.mp hrel
        exact bind_eq_ok.mpr ⟨got, lift_ok.mpr (getItem_obj ((hother a).trans ha)),
          bind_eq_ok.mpr ⟨true, lift_ok.mpr hsame, require_ok.mpr rfl⟩⟩

end

/-! ## metrics -/

/-- the entries of `metricsJson` -/
def metricEntries : List (String × (Metrics → Option (Value Rat))) :=
  [("total_new_tokens", fun m => some (int m.totalNewTokens)),
    ("wall_window_s", fun m => some (float m.wallWindowS)),
    ("throughput_tok_s", fun m => some (float m.throughputTokS)),
    ("ttft_p50_s", fun m => some (float m.ttftP50S)),
    ("ttft_p99_s", fun m => some (float m.ttftP99S)),
    ("num_requests", fun m => some (int m.numRequests)),
    ("itl_p50_s", fun m => m.itlP50S.map float), ("itl_p99_s", fun m => m.itlP99S.map float),
    ("decode_rate_p50_tok_s", fun m => m.decodeRateP50TokS.map float),
    ("decode_rate_min_tok_s", fun m => m.decodeRateMinTokS.map float),
    ("decode_rate_max_tok_s", fun m => m.decodeRateMaxTokS.map float)]

theorem metricsJson_eq (m : Metrics) : metricsJson m = fields metricEntries m := by
  obtain ⟨_, _, _, _, _, _, itl50, itl99, rate50, rateMin, rateMax⟩ := m
  cases itl50 <;> cases itl99 <;> cases rate50 <;> cases rateMin <;> cases rateMax <;> rfl

theorem leFloat_eq (x y : Rat) : leFloat x y = decide (x ≤ y) := Except.ok.inj (le_float x y)

theorem matches_float {x y : Rat} : Matches (float x : Value Rat) (float y) ↔ Close x y := by
  have hclose : metricMatches (float x : Value Rat) (float y)
    = .ok (closeFloats recomputeRelTol recomputeAbsTol x y) := rfl
  unfold Matches
  rw [hclose, Except.ok.injEq]
  by_cases hxy : x = y
  · subst hxy
    have heq : (FloatOps.value x).compare (FloatOps.value x) = some .eq :=
      FloatValue.compare_eq.mpr ⟨rfl, FloatValue.noConfusion⟩
    unfold closeFloats
    rw [if_pos heq]
    exact iff_of_true rfl (Or.inl (near_refl x))
  · have hne : (FloatOps.value x).compare (FloatOps.value y) ≠ some .eq := fun h =>
      hxy (FloatValue.finite.inj (FloatValue.compare_eq.mp h).1)
    unfold closeFloats
    rw [if_neg hne]
    show (leFloat |y - x| |recomputeRelTol * y| || leFloat |y - x| |recomputeRelTol * x| ||
      leFloat |y - x| recomputeAbsTol) = true ↔ _
    have hrel : ∀ z : Rat, |recomputeRelTol * z| = 5 / 10 ^ 4 * |z| := fun z => by
      rw [abs_mul, abs_of_pos (by unfold recomputeRelTol; norm_num)]
      rfl
    unfold Close Near recomputeAbsTol
    rw [leFloat_eq, leFloat_eq, leFloat_eq, Bool.or_eq_true, Bool.or_eq_true, decide_eq_true_iff,
      decide_eq_true_iff, decide_eq_true_iff, hrel, hrel, abs_sub_comm y x,
        mul_max_of_nonneg _ _ (by norm_num : (0 : Rat) ≤ 5 / 10 ^ 4),
      le_max_iff, or_comm (a := |x - y| ≤ 5 / 10 ^ 4 * |y|)]

theorem matches_int {i j : Int} : Matches (int i : Value Rat) (int j) ↔ i = j := by
  have h : metricMatches (int i : Value Rat) (int j) = .ok (eq (int i : Value Rat) (int j)) := rfl
  unfold Matches
  rw [h, Except.ok.injEq, eq_int, decide_eq_true_iff]

theorem rel_float {o p : Option Rat} : Option.Rel Matches (o.map (float : Rat → Value Rat))
    (p.map float) ↔
    Option.Rel Close o p := by
  cases o with
  | none =>
    cases p with
    | none => exact iff_of_true .none .none
    | some y => exact iff_of_false (fun h => by cases h) fun h => by cases h
  | some x =>
    cases p with
    | none => exact iff_of_false (fun h => by cases h) fun h => by cases h
    | some y =>
      rw [Option.map_some, Option.map_some, Option.rel_some_some, Option.rel_some_some]
      exact matches_float

/-- **The stored metrics pass exactly when the recomputed ones agree with them.** -/
theorem auditMetrics_iff {index : Nat} {m m' : Metrics} :
    auditMetrics index (metricsJson m) (metricsJson m') = .ok () ↔ Agree m m' := by
  rw [metricsJson_eq, metricsJson_eq, auditMetrics_fields (by decide)]
  unfold metricEntries
  simp only [List.forall_mem_cons, List.not_mem_nil, false_imp_iff, implies_true, and_true,
    Option.rel_some_some, matches_float, matches_int, rel_float, Int.ofNat_inj]
  exact ⟨fun ⟨h1, h2, h3, h4, h5, h6, h7, h8, h9, h10, h11⟩ => ⟨h1, h2, h3, h4, h5, h6, h7, h8,
    h9, h10, h11⟩, fun h => ⟨h.1, h.2, h.3, h.4, h.5, h.6, h.7, h.8, h.9, h.10, h.11⟩⟩

/-! ## requests -/

theorem decreases_of_ordered : ∀ {times : List Rat}, times.Pairwise (· ≤ ·) →
    decreases (times.map float : List (Value Rat)) = .ok false
  | [], _ => rfl
  | [_], _ => rfl
  | x :: y :: rest, h => by
    have hxy : ¬ y < x := not_lt.mpr (List.rel_of_pairwise_cons h List.mem_cons_self)
    have hrest := decreases_of_ordered (List.Pairwise.of_cons h)
    show (lt (float y : Value Rat) (float x) >>= fun b => if b = true then _ else _) = _
    rw [lt_float, decide_eq_false hxy]
    exact hrest

section
variable {epoch : Rat} {t : RequestTrace} {n index : Nat}

theorem ordered_recorded (h : t.tokenTimes.Pairwise (· ≤ ·)) :
    (recordedTrace epoch t).tokenTimes.Pairwise (· ≤ ·) :=
  List.pairwise_map.mpr (h.imp fun hab => round7_mono (sub_le_sub_right hab epoch))

/-- the auditor rebuilds the trace that the record describes -/
theorem auditRequest_recorded {seen : List (Value Rat)}
    (hnew : ∀ v ∈ seen, eq (int t.requestId) v = false)
    (hids : t.tokenIds.length = t.tokenTimes.length) (hlen : t.numTokens = n)
    (hordered : t.tokenTimes.Pairwise (· ≤ ·)) :
    auditRequest index (n : Nat) seen (recordJson (traceToJson t epoch))
      = .ok (floatTrace (recordedTrace epoch t)) := by
  have hfalls : decreases ((recordedTrace epoch t).tokenTimes.map float : List (Value Rat))
      = .ok false :=
    decreases_of_ordered (ordered_recorded hordered)
  have htimes : ((recordedTrace epoch t).tokenTimes.map float : List (Value Rat)).mapM toFloat
      = .ok (recordedTrace epoch t).tokenTimes := by
    rw [List.mapM_map]
    exact (mapM_ok (g := id) fun x _ => rfl).trans (by rw [List.map_id])
  have hseen : ¬ seen.any (eq (int t.requestId)) = true := by
    rw [List.any_eq_true]
    rintro ⟨v, hv, h⟩
    rw [hnew v hv] at h
    cases h
  unfold auditRequest
  refine bind_eq_ok.mpr ⟨int t.requestId, rfl, bind_eq_ok.mpr ⟨.arr (t.tokenIds.map int), rfl,
    bind_eq_ok.mpr ⟨.arr ((recordedTrace epoch t).tokenTimes.map float), rfl, ?_⟩⟩⟩
  have hhash : ¬ ¬ hashable (int t.requestId : Value Rat) = true := fun h => h rfl
  have hparallel : (t.tokenIds.map (int : Int → Value Rat)).length
      = ((recordedTrace epoch t).tokenTimes.map (float : Rat → Value Rat)).length := by
    rw [List.length_map, List.length_map, hids]
    exact numTokens_recorded.symm
  have hforced : ((t.tokenIds.map (int : Int → Value Rat)).length : Int) = (n : Nat) := by
    rw [List.length_map, hids]
    exact congrArg Nat.cast hlen
  dsimp only
  rw [if_neg hhash]
  exact bind_eq_ok.mpr ⟨(), require_ok.mpr hseen, bind_eq_ok.mpr ⟨(), require_ok.mpr hparallel,
    bind_eq_ok.mpr ⟨(), require_ok.mpr hforced, bind_eq_ok.mpr ⟨false, lift_ok.mpr hfalls,
    bind_eq_ok.mpr ⟨(), require_ok.mpr Bool.false_ne_true, bind_eq_ok.mpr ⟨_, lift_ok.mpr rfl,
    bind_eq_ok.mpr ⟨_, lift_ok.mpr htimes, rfl⟩⟩⟩⟩⟩⟩⟩

end

/-- the records of a trial give the traces back -/
theorem auditRequests_recorded {epoch : Rat} {n index : Nat} {traces : List RequestTrace}
    (hids : (traces.map (·.requestId)).Nodup)
    (hparallel : ∀ t ∈ traces, t.tokenIds.length = t.tokenTimes.length)
    (hlen : ∀ t ∈ traces, t.numTokens = n) (hordered : ∀ t ∈ traces, t.tokenTimes.Pairwise (· ≤ ·)) :
    auditRequests index (n : Nat) (traces.map fun t => recordJson (traceToJson t epoch))
      = .ok (traces.map fun t => floatTrace (recordedTrace epoch t)) := by
  have hloop : ∀ todo done : List RequestTrace, done ++ todo = traces →
      (todo.map fun t => recordJson (traceToJson t epoch)).foldlM (fun acc request => do
        return acc ++ [← auditRequest index (n : Nat) (acc.map Trace.requestId) request])
        (done.map fun t => floatTrace (recordedTrace epoch t))
      = .ok (traces.map fun t => floatTrace (recordedTrace epoch t)) := by
    intro todo
    induction todo with
    | nil =>
      intro done hdone
      rw [List.append_nil] at hdone
      rw [hdone]
      rfl
    | cons t ts ih =>
      intro done hdone
      have ht : t ∈ traces := hdone ▸ List.mem_append_right done List.mem_cons_self
      have hnew : ∀ v ∈ (done.map fun t => floatTrace (recordedTrace epoch t)).map Trace.requestId,
          eq (int t.requestId) v = false := by
        intro v hv
        obtain ⟨u, hu, rfl⟩ := List.mem_map.mp hv
        obtain ⟨d, hd, rfl⟩ := List.mem_map.mp hu
        show eq (int t.requestId) (int d.requestId) = false
        rw [eq_int]
        refine decide_eq_false fun heq => ?_
        rw [← hdone, List.map_append, List.map_cons] at hids
        exact List.disjoint_of_nodup_append hids (List.mem_map_of_mem (f := RequestTrace.requestId) hd)
          (heq ▸ List.mem_cons_self)
      have hrest := ih (done ++ [t]) (by rw [List.append_assoc, List.singleton_append, hdone])
      rw [List.map_append] at hrest
      rw [List.map_cons, List.foldlM_cons,
        auditRequest_recorded hnew (hparallel t ht) (hlen t ht) (hordered t ht)]
      exact hrest
  exact hloop traces [] rfl

/-! ## trials -/

section
variable {info : RunInfo} {m : MeasuredTrial} {traces : List RequestTrace} {n index : Nat}

/-- **A written trial passes exactly when the rounding keeps its spans.** -/
theorem auditTrial_iff (hn : 2 ≤ n) (hids : (traces.map (·.requestId)).Nodup)
    (hparallel : ∀ t ∈ traces, t.tokenIds.length = t.tokenTimes.length)
    (hlen : ∀ t ∈ traces, t.numTokens = n)
    (hordered : ∀ t ∈ traces, t.tokenTimes.Pairwise (· ≤ ·)) (hm : Measurable traces)
    (htrial : m.trial = ⟨metricsOf traces, traces.map fun t => traceToJson t (windowStart traces)⟩) :
    auditTrial (traces.length : Nat) (n : Nat) index (trialJson info m) = .ok () ↔
      Survives n traces := by
  obtain ⟨t, ts, rfl⟩ := List.exists_cons_of_ne_nil hm.someTrace
  have htokens := tokens_ne_nil hn hlen
  have hrequests : auditRequests index (n : Nat)
      ((t :: ts).map fun u => recordJson (traceToJson u (windowStart (t :: ts)))) = _ :=
    auditRequests_recorded hids hparallel hlen hordered
  have hrecomputed : computeMetrics ((recordedTraces (t :: ts)).map floatTrace) = _ :=
    computeMetrics_exact (List.cons_ne_nil _ _)
    (tokens_ne_nil hn (numTokens_recordedTraces hlen))
  have hcompose : (recordedTraces (t :: ts)).map floatTrace
      = (t :: ts).map fun u => floatTrace (recordedTrace (windowStart (t :: ts)) u) := List.map_map
  rw [hcompose] at hrecomputed
  have hrecords : m.trial.requests.map recordJson
      = (t :: ts).map fun u => recordJson (traceToJson u (windowStart (t :: ts))) := by
    rw [htrial]
    exact List.map_map
  have hmetrics : m.trial.metrics = metricsOf (t :: ts) := by rw [htrial]
  have hlength :
      (((t :: ts).map fun u => recordJson (traceToJson u (windowStart (t :: ts)))).length : Int)
      = ((t :: ts).length : Nat) := by rw [List.length_map]
  unfold auditTrial trialJson
  rw [hrecords, hmetrics]
  rw [← agree_iff hn hlen hm]
  show (require _ _ >>= fun _ => _) = .ok () ↔ _
  constructor
  · intro h
    obtain ⟨_, _, h⟩ := bind_eq_ok.mp h
    obtain ⟨got, hgot, h⟩ := bind_eq_ok.mp h
    obtain rfl := Except.ok.inj (hrequests.symm.trans hgot)
    rw [hrecomputed] at h
    by_cases hwall : wallWindow (recordedTraces (t :: ts)) ≤ 0
    · rw [if_pos hwall] at h
      cases h
    · rw [if_neg hwall] at h
      exact ⟨not_le.mp hwall, auditMetrics_iff.mp h⟩
  · rintro ⟨hwall, hagree⟩
    refine bind_eq_ok.mpr ⟨(), require_ok.mpr hlength, bind_eq_ok.mpr ⟨_, hrequests, ?_⟩⟩
    rw [hrecomputed, if_neg (not_le.mpr hwall)]
    exact auditMetrics_iff.mpr hagree

end

theorem auditTrials_iff {numRequests outputLen : Int} {trials : List (Value Rat)} : ∀ {index : Nat},
    auditTrials numRequests outputLen index trials = .ok () ↔
      ∀ i t, trials[i]? = some t → auditTrial numRequests outputLen (index + i) t = .ok () := by
  induction trials with
  | nil =>
    intro index
    exact ⟨fun _ i t h => (by cases h), fun _ => rfl⟩
  | cons trial trials ih =>
    intro index
    rw [auditTrials, bind_eq_ok]
    constructor
    · rintro ⟨_, hfirst, hrest⟩ i t ht
      cases i with
      | zero =>
        obtain rfl := Option.some.inj ht
        exact hfirst
      | succ i =>
        have h := ih.mp hrest i t ht
        rwa [Nat.add_assoc, Nat.add_comm 1 i] at h
    · intro h
      refine ⟨(), h 0 trial rfl, ih.mpr fun i t ht => ?_⟩
      have hi := h (i + 1) t ht
      rwa [Nat.add_comm i 1, ← Nat.add_assoc] at hi

/-! ## the dispersion block -/

section
variable {info : RunInfo} {trials : List MeasuredTrial}

theorem headlineValues_exact :
    ((trials.map (·.trial.metrics)).map fun m => (.obj (metricsJson m) : Value Rat)).mapM
    (getItem headlineMetric)
      = .ok ((headlineValues trials).map float) := by
  unfold headlineValues
  rw [List.mapM_map, List.mapM_map, List.map_map]
  exact mapM_ok fun t _ => getItem_obj (lookup_metric .throughputTokS t.trial.metrics)

theorem reruns_exact : (trials.map (trialJson info)).mapM (getD "dispersion_rerun")
    = .ok (trials.map fun t => if t.dispersionRerun then .bool true else .null) := by
  rw [List.mapM_map]
  refine mapM_ok fun t _ => ?_
  show getD "dispersion_rerun" (trialJson info t) = _
  unfold trialJson
  cases t.dispersionRerun <;> rfl

theorem reruns_any : (trials.map fun t =>
    if t.dispersionRerun then (.bool true : Value Rat) else .null).any truthy
    = trials.any (·.dispersionRerun) := by
  rw [List.any_map]
  refine congrArg (List.any trials) (funext fun t => ?_)
  show truthy (if t.dispersionRerun = true then (.bool true : Value Rat) else .null) = t.dispersionRerun
  cases t.dispersionRerun <;> rfl

theorem auditDispersion_exact {d : Dispersion} {index : Nat}
    (hmetric : d.metric = RunBench.headlineMetric)
    (hthreshold : d.thresholdFraction = dispersionFraction) (hvalues : d.values = headlineValues trials)
    (hflag : RunBench.spreadExceeds d.values dispersionFraction = .ok d.flag)
    (hindex : RunBench.selectMedianTrial d.values = .ok index)
    (hreran : d.reran = trials.any (·.dispersionRerun)) :
    auditDispersion (dispersionJson d) (int index) (trials.map (trialJson info)) = .ok () := by
  have hpositive : le (float d.thresholdFraction : Value Rat) (int 0) = .ok false := by
    rw [le_int, hthreshold]
    exact congrArg Except.ok (decide_eq_false (by unfold dispersionFraction; norm_num))
  have hself : eq (.arr (d.values.map float) : Value Rat) (.arr ((headlineValues trials).map float))
      = true := by
    rw [hvalues]
    refine eq_arr_self fun v hv => ?_
    obtain ⟨x, _, rfl⟩ := List.mem_map.mp hv
    exact eq_float_self x
  rw [hvalues] at hflag hindex
  unfold auditDispersion
  refine bind_eq_ok.mpr ⟨_, lift_ok.mpr trialMetrics_exact,
    bind_eq_ok.mpr ⟨_, lift_ok.mpr headlineValues_exact,
    bind_eq_ok.mpr ⟨.str (metricKey d.metric), lift_ok.mpr rfl, bind_eq_ok.mpr ⟨(), require_ok.mpr ?_,
    bind_eq_ok.mpr ⟨float d.thresholdFraction, lift_ok.mpr rfl, ?_⟩⟩⟩⟩⟩
  · rw [hmetric]
    rfl
  · refine bind_eq_ok.mpr ⟨false, lift_ok.mpr hpositive,
      bind_eq_ok.mpr ⟨(), require_ok.mpr Bool.false_ne_true,
      bind_eq_ok.mpr ⟨.arr (d.values.map float), lift_ok.mpr rfl,
        bind_eq_ok.mpr ⟨(), require_ok.mpr hself,
      bind_eq_ok.mpr ⟨_, lift_ok.mpr (selectMedianTrial_exact hindex),
        bind_eq_ok.mpr ⟨(), require_ok.mpr ?_,
      bind_eq_ok.mpr ⟨d.flag, lift_ok.mpr ?_, bind_eq_ok.mpr ⟨.bool d.flag, lift_ok.mpr rfl,
      bind_eq_ok.mpr ⟨(), require_ok.mpr ?_, bind_eq_ok.mpr ⟨_, lift_ok.mpr reruns_exact,
      bind_eq_ok.mpr ⟨.bool d.reran, lift_ok.mpr rfl, require_ok.mpr ?_⟩⟩⟩⟩⟩⟩⟩⟩⟩⟩⟩
    · rw [eq_int]
      exact decide_eq_true rfl
    · rw [hthreshold]
      exact spreadExceeds_exact hflag
    · rfl
    · rw [reruns_any, ← hreran]
      rfl

end

/-! ## the summary -/

section
variable {trials : List Metrics} {median : Metrics}

theorem metricKey_injective : Function.Injective metricKey := by
  intro a b h
  cases a <;> cases b <;> first | rfl | exact absurd h (by decide)

theorem summary_keys : (((RunBench.summarizeMetrics trials median).map entryJson).map Prod.fst).Nodup := by
  have hlabels : RunBench.metricLabels.Pairwise fun a b => a.1 ≠ b.1 := by decide
  unfold RunBench.summarizeMetrics
  rw [List.map_map]
  refine List.Pairwise.map (S := (· ≠ ·)) _ (R := fun a b => a.1 ≠ b.1)
    (fun a b h => metricKey_injective.ne h) ?_
  refine List.Pairwise.filterMap _ (fun a b hab x hx y hy => ?_) hlabels
  obtain ⟨_, _, rfl⟩ := Option.map_eq_some_iff.mp hx
  obtain ⟨_, _, rfl⟩ := Option.map_eq_some_iff.mp hy
  exact hab

theorem entry_self (p : MetricName × Entry) : eq (entryJson p).2 (entryJson p).2 = true := by
  refine eq_obj_self (by simp) fun q hq => ?_
  simp only [List.mem_cons, List.not_mem_nil, or_false] at hq
  rcases hq with rfl | rfl | rfl | rfl
  · exact eq_float_self _
  · exact eq_float_self _
  · exact eq_float_self _
  · simp [eq]

theorem summary_self : eq (.obj ((RunBench.summarizeMetrics trials median).map entryJson))
    (.obj ((RunBench.summarizeMetrics trials median).map entryJson)) = true := by
  refine eq_obj_self summary_keys fun q hq => ?_
  obtain ⟨p, _, rfl⟩ := List.mem_map.mp hq
  exact entry_self p

/-- the headline is always summarised, under its label -/
theorem headline_entry (h : trials ≠ []) : ∃ e :
    Entry, e.label = (RunBench.metricLabels.head (by decide)).2 ∧
    lookup headlineMetric ((RunBench.summarizeMetrics trials median).map entryJson)
      = some (entryJson (.throughputTokS, e)).2 := by
  have hvalues : trials.filterMap (·.get .throughputTokS) = trials.map (·.throughputTokS) :=
    List.filterMap_eq_map (f := Metrics.throughputTokS) ▸ rfl
  have hne : trials.map (·.throughputTokS) ≠ [] := mt List.map_eq_nil_iff.mp h
  obtain ⟨hi, hmax⟩ := Option.ne_none_iff_exists'.mp (mt List.max?_eq_none_iff.mp hne)
  obtain ⟨lo, hmin⟩ := Option.ne_none_iff_exists'.mp (mt List.min?_eq_none_iff.mp hne)
  let label := (RunBench.metricLabels.head (by decide)).2
  have hentry : RunBench.summaryEntry trials median .throughputTokS label
      = some ⟨median.throughputTokS, lo, hi, label⟩ := by
    unfold RunBench.summaryEntry
    simp only [hvalues, hmin, hmax]
    rfl
  have hmem : (.throughputTokS, ⟨median.throughputTokS, lo, hi,
      label⟩) ∈ RunBench.summarizeMetrics trials median := by
    unfold RunBench.summarizeMetrics
    refine List.mem_filterMap.mpr ⟨(.throughputTokS, label), List.mem_cons_self, ?_⟩
    exact congrArg (Option.map fun e => (MetricName.throughputTokS, e)) hentry
  exact ⟨_, rfl, lookup_of_mem summary_keys (List.mem_map_of_mem hmem)⟩

end

/-! ## the file -/

/-- what the structural checks ask of a file -/
structure WellFormed (fields : List (String × Value Rat)) (index : Nat) : Prop where
  version : lookup "schema_version" fields = some (int resultsSchemaVersion)
  keys : ∀ key ∈ requiredKeys, (lookup key fields).isSome = true
  forced : lookup "forced_length_ok" fields = some (.bool true)
  environment : ∃ environment, lookup "environment" fields = some (.obj environment) ∧
    (lookup "nvidia_smi_q" environment).isSome = true ∧
    (lookup "command_line" environment).isSome = true
  trials : ∃ trials, lookup "trials" fields = some trials ∧ truthy trials = true ∧
    ∃ medianIndex, lookup "median_trial_index" fields = some medianIndex ∧
      trialIndex medianIndex trials = .ok index
  metrics : ∃ metrics, lookup "metrics" fields = some (.obj metrics) ∧
    (∀ p ∈ metrics, ∀ key ∈ entryFields, contains key p.2 = .ok true) ∧
    ∃ entry label, lookup headlineMetric metrics = some entry ∧ getItem "label" entry = .ok label ∧
      contains "prefill" label = .ok true

/-- they leave the raw data -/
theorem WellFormed.validate {fields : List (String × Value Rat)} {index : Nat}
    (h : WellFormed fields index) :
    validateResult (.obj fields) = auditRawData (.obj fields) index := by
  obtain ⟨environment, henvironment, hsmi, hcommand⟩ := h.environment
  obtain ⟨trials, htrials, htruthy, medianIndex, hmedian, hindex⟩ := h.trials
  obtain ⟨metrics, hmetrics, hentries, entry, label, hheadline, hlabel, hprefill⟩ := h.metrics
  unfold validateResult
  simp only [h.version, h.forced, henvironment, htrials, hmetrics, hmedian, Option.getD_some]
  have hforM : metrics.forM (fun p => entryFields.forM fun key => do
      require (← lift (contains key p.2)) (.metricMissing p.1 key)) = (.ok () : Audit Rat Unit) :=
    forM_eq_ok.mpr fun p hp => forM_eq_ok.mpr fun key hkey =>
      bind_eq_ok.mpr ⟨true, lift_ok.mpr (hentries p hp key hkey), require_ok.mpr rfl⟩
  have hrequired : requiredKeys.forM (fun key => require (lookup key fields).isSome (.missingKey key))
      = (.ok () : Audit Rat Unit) := forM_eq_ok.mpr fun key hkey => require_ok.mpr (h.keys key hkey)
  have hheadlineSome : (lookup headlineMetric metrics).isSome = true := by rw [hheadline]; rfl
  refine (bind_of_ok (require_ok.mpr (eq_int 1 1))).trans ?_
  refine (bind_of_ok hrequired).trans ?_
  refine (bind_of_ok (require_ok.mpr trivial)).trans ?_
  refine (bind_of_ok (require_ok.mpr hsmi)).trans ?_
  refine (bind_of_ok (require_ok.mpr hcommand)).trans ?_
  refine (bind_of_ok (require_ok.mpr htruthy)).trans ?_
  refine (bind_of_ok (require_ok.mpr hheadlineSome)).trans ?_
  refine (bind_of_ok hforM).trans ?_
  refine (bind_of_ok (lift_ok.mpr (getItem_obj hheadline))).trans ?_
  refine (bind_of_ok (lift_ok.mpr hlabel)).trans ?_
  refine (bind_of_ok (lift_ok.mpr hprefill)).trans ?_
  refine (bind_of_ok (require_ok.mpr rfl)).trans ?_
  exact bind_of_ok hindex

section
variable {info : RunInfo} {case : Case} {result : Result}

theorem label_prefill : isInfix "prefill".toList (RunBench.metricLabels.head (by decide)).2.toList
    = true := by
  decide

theorem wellFormed_written {median : Metrics} (hindex : result.medianTrialIndex < result.trials.length)
    (hmetrics : result.metrics = RunBench.summarizeMetrics (result.trials.map (·.trial.metrics)) median) :
    ∃ fields, resultJson info case result = .obj fields ∧
      WellFormed fields result.medianTrialIndex := by
  have hne : result.trials.map (·.trial.metrics) ≠ [] := fun h => by
    rw [List.map_eq_nil_iff.mp h] at hindex
    cases hindex
  obtain ⟨e, hlabel, hheadline⟩ : ∃ e : Entry, _ ∧
      lookup headlineMetric ((RunBench.summarizeMetrics _ median).map entryJson) = _ :=
        headline_entry hne
  rw [← hmetrics] at hheadline
  have hprefill : contains "prefill" (.str e.label : Value Rat) = .ok true := by
    rw [contains_str, hlabel]
    exact congrArg Except.ok label_prefill
  have htruthy : truthy (.arr (result.trials.map (trialJson info)) : Value Rat) = true := by
    cases h : result.trials with
    | nil =>
      rw [h] at hindex
      cases hindex
    | cons t ts => rfl
  have htrialIndex : trialIndex (int result.medianTrialIndex)
      (.arr (result.trials.map (trialJson info)))
      = (.ok result.medianTrialIndex : Audit Rat Nat) := by
    refine bind_eq_ok.mpr ⟨(), require_ok.mpr (Int.natCast_nonneg _),
      bind_eq_ok.mpr ⟨_, lift_ok.mpr rfl, bind_eq_ok.mpr ⟨(), require_ok.mpr ?_, rfl⟩⟩⟩
    rw [List.length_map]
    exact_mod_cast hindex
  refine ⟨_, rfl, ⟨rfl, fun key hkey => ?_,
    rfl, ⟨_, rfl, rfl, rfl⟩, ⟨_, rfl, htruthy, _, rfl, htrialIndex⟩,
    ⟨_, rfl, fun p hp key hkey => ?_, _, _, hheadline, rfl, hprefill⟩⟩⟩
  · simp only [requiredKeys, List.mem_cons, List.not_mem_nil, or_false] at hkey
    rcases hkey with rfl | rfl | rfl | rfl | rfl | rfl <;> rfl
  · obtain ⟨q, _, rfl⟩ := List.mem_map.mp hp
    simp only [entryFields, List.mem_cons, List.not_mem_nil, or_false] at hkey
    rcases hkey with rfl | rfl | rfl | rfl <;> rfl

theorem workloadSize_num : workloadSize (workloadSummary (case.workload info.seed)) "num_requests"
    = .ok ((case.shape.numRequests : Nat) : Int) := by
  have hpos : (0 : Int) < (case.workload info.seed).requests.length := by
    rw [case_length]
    exact_mod_cast (case_sizes case).1
  rw [← case_length case info.seed]
  exact bind_eq_ok.mpr ⟨_, lift_ok.mpr rfl, bind_eq_ok.mpr ⟨(), require_ok.mpr hpos, rfl⟩⟩

theorem workloadSize_output : workloadSize (workloadSummary (case.workload info.seed)) "output_len"
    = .ok ((case.shape.outputLen : Nat) : Int) := by
  have hhead : ((case.workload info.seed).requests.head?.map (·.maxNewTokens)).getD 0
      = case.shape.outputLen := by
    have hlen := case_length case info.seed
    have hforced := case_forced case info.seed
    cases hr : (case.workload info.seed).requests with
    | nil =>
      rw [hr, List.length_nil] at hlen
      have := (case_sizes case).1
      omega
    | cons r rs =>
      rw [hr] at hforced
      exact hforced r List.mem_cons_self
  have hpos : (0 : Int) < (((case.workload info.seed).requests.head?.map (·.maxNewTokens)).getD 0 : Nat) := by
    rw [hhead]
    have := (case_sizes case).2
    omega
  rw [← hhead]
  exact bind_eq_ok.mpr ⟨_, lift_ok.mpr rfl, bind_eq_ok.mpr ⟨(), require_ok.mpr hpos, rfl⟩⟩

/-- of the raw data of a written file only the trials can fail -/
theorem auditRawData_written {runs : Nat → List RequestTrace} {warmup trials : Nat}
    (h : main runs (case.workload info.seed) warmup trials = .ok result) :
    auditRawData (resultJson info case result) result.medianTrialIndex = .ok () ↔
      auditTrials ((case.shape.numRequests : Nat) : Int) ((case.shape.outputLen : Nat) : Int) 0
        (result.trials.map (trialJson info)) = .ok () := by
  obtain ⟨_, hflag, hindex⟩ := main_dispersion h
  obtain ⟨hmetric, hthreshold, hvalues, _, median, hmedian, hmetrics⟩ := main_summary h
  have hsummary : summarizeMetrics (result.trials.map (trialJson info)) result.medianTrialIndex = _ :=
    summarizeMetrics_exact hmedian
  rw [← hmetrics] at hsummary
  have hself : eq (.obj (result.metrics.map entryJson)) (.obj (result.metrics.map entryJson))
      = true := by
    rw [hmetrics]
    exact summary_self
  have hdispersion : auditDispersion _ _ (result.trials.map (trialJson info)) = _ :=
    auditDispersion_exact hmetric hthreshold hvalues hflag hindex (main_trials h).2
  unfold auditRawData
  constructor
  · intro hok
    obtain ⟨w, hw, hok⟩ := bind_eq_ok.mp hok
    obtain rfl : workloadSummary (case.workload info.seed) = w := Except.ok.inj (lift_ok.mp hw)
    rw [workloadSize_num, ok_bind, workloadSize_output, ok_bind] at hok
    obtain ⟨ts, hts, hok⟩ := bind_eq_ok.mp hok
    obtain rfl : .arr (result.trials.map (trialJson info)) = ts := Except.ok.inj (lift_ok.mp hts)
    obtain ⟨ts, hts, hok⟩ := bind_eq_ok.mp hok
    obtain rfl : result.trials.map (trialJson info) = ts := Except.ok.inj (lift_ok.mp hts)
    obtain ⟨_, htrials, _⟩ := bind_eq_ok.mp hok
    exact htrials
  · intro htrials
    refine bind_eq_ok.mpr ⟨workloadSummary (case.workload info.seed), lift_ok.mpr rfl, ?_⟩
    rw [workloadSize_num, ok_bind, workloadSize_output, ok_bind]
    exact bind_eq_ok.mpr ⟨_, lift_ok.mpr rfl,
      bind_eq_ok.mpr ⟨_, lift_ok.mpr rfl, bind_eq_ok.mpr ⟨(), htrials,
      bind_eq_ok.mpr ⟨_, lift_ok.mpr hsummary, bind_eq_ok.mpr ⟨_, lift_ok.mpr rfl,
      bind_eq_ok.mpr ⟨(), require_ok.mpr hself, bind_eq_ok.mpr ⟨_, lift_ok.mpr rfl,
      bind_eq_ok.mpr ⟨_, lift_ok.mpr rfl, hdispersion⟩⟩⟩⟩⟩⟩⟩⟩

section
variable {runs : Nat → List RequestTrace} {warmup trials : Nat}
  (h : main runs (case.workload info.seed) warmup trials = .ok result)

include h

theorem validate_written : validateResult (resultJson info case result) = .ok () ↔
    ∀ i (hi : i < result.trials.length), auditTrial ((case.shape.numRequests : Nat) : Int)
      ((case.shape.outputLen : Nat) : Int) (0 + i) (trialJson info result.trials[i]) = .ok () := by
  obtain ⟨_, _, _, hlt, median, _, hmetrics⟩ := main_summary h
  obtain ⟨fields, hfields, hwell⟩ : ∃ fields, resultJson info case result = .obj fields ∧ _ :=
    wellFormed_written hlt hmetrics
  rw [hfields, hwell.validate, ← hfields, auditRawData_written h, auditTrials_iff]
  constructor
  · intro hall i hi
    refine hall i _ ?_
    rw [List.getElem?_map, List.getElem?_eq_getElem hi]
    rfl
  · intro hall i t ht
    rw [List.getElem?_map] at ht
    obtain ⟨m, hm, rfl⟩ := Option.map_eq_some_iff.mp ht
    obtain ⟨hi, rfl⟩ := List.getElem?_eq_some_iff.mp hm
    exact hall i hi

theorem auditTrial_written {i : Nat} (hi : i < result.trials.length)
    (hf : Faithful (case.workload info.seed) (runs (warmup + i))) :
    auditTrial ((case.shape.numRequests : Nat) : Int) ((case.shape.outputLen : Nat) : Int) (0 + i)
      (trialJson info result.trials[i]) = .ok () ↔
        Survives case.shape.outputLen (runs (warmup + i)) := by
  have hrun := (main_trials h).1 i _ (List.getElem?_eq_getElem hi)
  obtain ⟨_, hm, hrecord⟩ := (runTrial_iff (case_distinct case info.seed)).mp hrun
  have hlength : (runs (warmup + i)).length = case.shape.numRequests := by
    have hperm := hf.oneToOne.length_eq
    rwa [List.length_map, List.length_map, case_length] at hperm
  have hlen : ∀ t ∈ runs (warmup + i), t.numTokens = case.shape.outputLen := by
    intro t ht
    obtain ⟨r, hr, hpair⟩ := List.mem_map.mp (hf.oneToOne.matched.known t ht)
    exact (congrArg Prod.snd hpair).symm.trans (case_forced case info.seed r hr)
  rw [← hlength]
  exact auditTrial_iff (case_sizes case).2
    (hf.oneToOne.nodup (case_distinct case info.seed)) hf.ids hlen hf.ordered
    hm hrecord

/-- **A file that the driver writes passes the audit exactly when the rounding keeps, in each of its
trials, the window and the least, the greatest and the middle decode span.** -/
theorem written_accepted_iff (hruns : ∀ i < result.trials.length,
    Faithful (case.workload info.seed) (runs (warmup + i))) :
    validateResult (resultJson info case result) = .ok () ↔
      ∀ i < result.trials.length, Survives case.shape.outputLen (runs (warmup + i)) := by
  rw [validate_written h]
  exact forall₂_congr fun i hi => auditTrial_written h hi (hruns i hi)

end
end

/-! ## a run of 64 requests whose times the file rounds -/

def plainInfo : RunInfo where
  engine := "redline"
  seed := 0
  versionInfo := []
  commandLine := ["run_bench"]
  nvidiaSmiQ := .null
  otherCaptures := []
  startedUtc _ := "2025-01-01T00:00:00+00:00"
  engineStats := .null
  ltAlgoReport := .null

/-- the tokens of request `r`, each a third of a second after a full one -/
def thirdTrace (r : Nat) : RequestTrace :=
  ⟨r, r, (List.range 256).map fun k => ((r + k : Nat) : Rat) + 1 / 3,
    (List.range 256).map fun _ => 1000, "length"⟩

/-- the traces of a run, the last request first -/
def thirdTraces : List RequestTrace := ((List.range 64).map thirdTrace).reverse

theorem mem_thirdTraces {t : RequestTrace} : t ∈ thirdTraces ↔ ∃ r < 64, thirdTrace r = t := by
  unfold thirdTraces
  simp only [List.mem_reverse, List.mem_map, List.mem_range]

theorem thirdTrace_first (r : Nat) : (thirdTrace r).first = (r : Rat) + 1 / 3 := by
  unfold RequestTrace.first thirdTrace
  rw [List.range_succ_eq_map]
  rfl

theorem thirdTrace_last (r : Nat) : (thirdTrace r).last = ((r + 255 : Nat) : Rat) + 1 / 3 := by
  unfold RequestTrace.last thirdTrace
  rw [List.range_succ, List.map_append, List.map_singleton, List.getLastD_eq_getLast?,
    List.getLast?_concat]
  rfl

theorem thirdTraces_faithful : Faithful (Case.primary.workload 0) thirdTraces where
  oneToOne := by
    have hpairs : (Case.primary.workload 0).requests.map (·.pair)
        = ((List.range 64).map thirdTrace).map (·.pair) := by
      unfold Case.workload syntheticWorkload
      simp only [List.map_map]
      refine List.map_congr_left fun r _ => ?_
      show ((r : Int), 256) = ((r : Int), ((List.range 256).map _).length)
      rw [List.length_map, List.length_range]
    rw [OneToOne, hpairs, thirdTraces, List.map_reverse]
    exact List.reverse_perm _
  ids t ht := by
    obtain ⟨r, _, rfl⟩ := mem_thirdTraces.mp ht
    exact (List.length_map _).trans (List.length_map _).symm
  ordered t ht := by
    obtain ⟨r, _, rfl⟩ := mem_thirdTraces.mp ht
    refine List.pairwise_map.mpr (List.pairwise_lt_range.imp fun {a b} h => ?_)
    have hle : ((r + a : Nat) : Rat) ≤ ((r + b : Nat) : Rat) := Nat.cast_le.mpr (by omega)
    linarith
  submitted t ht x hx := by
    obtain ⟨r, _, rfl⟩ := mem_thirdTraces.mp ht
    obtain ⟨k, _, rfl⟩ := List.mem_map.mp hx
    have hle : (r : Rat) ≤ ((r + k : Nat) : Rat) := Nat.cast_le.mpr (by omega)
    show (r : Rat) ≤ ((r + k : Nat) : Rat) + 1 / 3
    linarith

theorem thirdTraces_window : 300 ≤ wallWindow thirdTraces := by
  have hstart : windowStart thirdTraces = 0 := by
    refine windowStart_eq ⟨thirdTrace 0,
      mem_thirdTraces.mpr ⟨0, by decide, rfl⟩, by norm_num [thirdTrace]⟩ fun t ht => ?_
    obtain ⟨r, _, rfl⟩ := mem_thirdTraces.mp ht
    exact Nat.cast_nonneg r
  have hend : windowEnd thirdTraces = 318 + 1 / 3 := by
    refine windowEnd_eq ⟨thirdTrace 63, mem_thirdTraces.mpr ⟨63, by decide, rfl⟩, ?_⟩ fun t ht => ?_
    · rw [thirdTrace_last]
      norm_num
    · obtain ⟨r, hr, rfl⟩ := mem_thirdTraces.mp ht
      rw [thirdTrace_last]
      have hle : ((r + 255 : Nat) : Rat) ≤ ((318 : Nat) : Rat) := Nat.cast_le.mpr (by omega)
      norm_num at hle ⊢
      linarith
  unfold wallWindow
  rw [hstart, hend]
  norm_num

/-- the record rounds each of the token times, and the file passes -/
theorem written_accepted_thirds : ∃ result, main (fun _ => thirdTraces)
    (Case.primary.workload 0) 1 3 = .ok result ∧
    validateResult (resultJson plainInfo .primary result) = .ok () := by
  have htokens : ∀ t ∈ thirdTraces, t.tokenTimes ≠ [] := by
    intro t ht
    obtain ⟨r, _, rfl⟩ := mem_thirdTraces.mp ht
    exact List.ne_nil_of_length_pos (by rw [thirdTrace, List.length_map, List.length_range]; decide)
  have hwindow := thirdTraces_window
  have hlong : Survives Case.primary.shape.outputLen thirdTraces := by
    refine survives_of_long htokens (by linarith) fun t ht => Or.inr ?_
    obtain ⟨r, _, rfl⟩ := mem_thirdTraces.mp ht
    rw [thirdTrace_first, thirdTrace_last, Nat.cast_add]
    norm_num
  have hmeasurable : Measurable thirdTraces :=
    ⟨List.ne_nil_of_mem (mem_thirdTraces.mpr ⟨0, by decide, rfl⟩), htokens, by linarith⟩
  obtain ⟨result, hmain⟩ := @main_returns (fun _ => thirdTraces) (Case.primary.workload 0) 1 3
    (fun _ => ⟨_, (runTrial_iff (case_distinct .primary 0)).mpr ⟨thirdTraces_faithful.oneToOne.matched, hmeasurable, rfl⟩⟩)
    (by decide)
  exact ⟨result, hmain, (@written_accepted_iff plainInfo _ _ _ _ _ hmain fun _ _ =>
    thirdTraces_faithful).mpr
    fun _ _ => hlong⟩

/-! ## a run whose tokens come in one burst -/

/-- 256 tokens at these times -/
def traceAt (times : List Rat) : RequestTrace := ⟨0, 0, times, times.map fun _ => 1000, "length"⟩

/-- 255 tokens after a second, the last one 40 ns later -/
def burst : List Rat := List.replicate 255 1 ++ [1 + 4 / 10 ^ 8]

theorem faithful_traceAt {times : List Rat} (hlen : times.length = 256)
    (hordered : times.Pairwise (· ≤ ·))
    (hpos : ∀ x ∈ times, 0 ≤ x) : Faithful (Case.batch1.workload 0) [traceAt times] where
  oneToOne := List.Perm.of_eq (by
    show [((0 : Int), times.length)] = _
    rw [hlen]
    rfl)
  ids t ht := by
    obtain rfl := List.mem_singleton.mp ht
    exact List.length_map _
  ordered t ht := by
    obtain rfl := List.mem_singleton.mp ht
    exact hordered
  submitted t ht := by
    obtain rfl := List.mem_singleton.mp ht
    exact hpos

/-- the last token's 40 ns are rounded away, and with them the decode rates that the file states -/
theorem burst_rejected : Faithful (Case.batch1.workload 0) [traceAt burst] ∧
    ∃ result, main (fun _ => [traceAt burst]) (Case.batch1.workload 0) 0 1 = .ok result ∧
      validateResult (resultJson plainInfo .batch1 result) ≠ .ok () := by
  have hlast : ∀ x ∈ burst, (1 : Rat) ≤ x := fun x hx => by
    rcases List.mem_append.mp hx with hx | hx
    · exact (List.eq_of_mem_replicate hx).ge
    · obtain rfl := List.mem_singleton.mp hx
      norm_num
  have hordered : burst.Pairwise (· ≤ ·) := List.pairwise_append.mpr
    ⟨List.pairwise_replicate.mpr (Or.inr (le_refl _)), List.pairwise_singleton _ _, fun a ha b hb => by
      rw [List.eq_of_mem_replicate ha]
      exact hlast b (List.mem_append_right _ hb)⟩
  have hcount : burst.length = 256 := by
    unfold burst
    rw [List.length_append, List.length_replicate, List.length_singleton]
  have hfaithful := faithful_traceAt hcount hordered fun x hx => by linarith [hlast x hx]
  refine ⟨hfaithful, ?_⟩
  have hsome : ((main (fun _ => [traceAt burst]) (Case.batch1.workload 0) 0 1).toOption).isSome
      = true := by
    decide +kernel
  cases hmain : main (fun _ => [traceAt burst]) (Case.batch1.workload 0) 0 1 with
  | error e =>
    rw [hmain] at hsome
    cases hsome
  | ok result =>
    refine ⟨result, rfl, fun hok => ?_⟩
    obtain ⟨_, _, _, hlt, _⟩ := main_summary hmain
    have hpos : 0 < result.trials.length := by omega
    have hpassed := (@validate_written plainInfo .batch1 result _ 0 1 hmain).mp hok 0 hpos
    have hsurvives :=
      (@auditTrial_written plainInfo .batch1 result _ 0 1 hmain 0 hpos hfaithful).mp hpassed
    exact absurd hsurvives.least (by decide +kernel)

end Report
end Redline
