import Redline.Report.Sections

/-!
# The tables show the raw data

* `Measured`   a trial with the metrics that its own token times bear out;
* `Audited`    what `validate_result` establishes of a file, over its trials;
* `Backs`      a cell against the trials of its file, `BacksRow` a row.

`rendered_backed`: every file is a row, and every cell of it comes from the trials of the file.
-/

namespace Redline
namespace Report
open Py Py.Value Throw

variable {F : Type} [FloatOps F] {py : Builtins F}

/-! ## trials -/

/-- a stored metric passes against the recomputed one -/
def Stands (stored : List (String × Value F)) (p : String × Value F) : Prop :=
  ∃ got, lookup p.1 stored = some got ∧ metricMatches got p.2 = .ok true

/-- a trial whose metrics `stored` are those of its requests -/
inductive Measured (numRequests outputLen : Int) (index : Nat) (trial : Value F)
    (stored : List (String × Value F)) : Prop where
  | mk (fields : List (String × Value F)) (shape : trial = .obj fields) (requests : List (Value F))
      (some : lookup "requests" fields = some (.arr requests)) (count : requests.length = numRequests)
      (traces : List (Trace F)) (audited : auditRequests index outputLen requests = .ok traces)
      (recomputed : List (String × Value F)) (computed : computeMetrics traces = .ok recomputed)
      (metrics : lookup "metrics" fields = .some (.obj stored))
      (keys : ∀ p ∈ stored, (lookup p.1 recomputed).isSome) (stands : ∀ p ∈ recomputed, Stands stored p)

theorem auditMetrics_ok {index : Nat} {stored recomputed : List (String × Value F)}
    (h : auditMetrics index stored recomputed = .ok ()) :
    (∀ p ∈ stored, (lookup p.1 recomputed).isSome) ∧ ∀ p ∈ recomputed, Stands stored p := by
  unfold auditMetrics at h
  obtain ⟨_, hkeys, h⟩ := bind_eq_ok.mp h
  refine ⟨(require_ok.mp hkeys).1, fun p hp => ?_⟩
  obtain ⟨got, hgot, h⟩ := bind_eq_ok.mp (forM_eq_ok.mp h p hp)
  obtain ⟨same, hsame, h⟩ := bind_eq_ok.mp h
  obtain ⟨ps, hps, hlookup⟩ := getItem_ok (lift_ok.mp hgot)
  rw [Json.obj.inj hps]
  refine ⟨got, hlookup, ?_⟩
  rw [lift_ok.mp hsame, require_ok.mp h]

theorem auditTrial_ok {numRequests outputLen : Int} {index : Nat} {trial : Value F}
    (h : auditTrial numRequests outputLen index trial = .ok ()) :
    ∃ stored, Measured numRequests outputLen index trial stored := by
  unfold auditTrial at h
  cases trial with
  | obj fields =>
    dsimp only at h
    split at h
    · next r rs hrequests =>
      obtain ⟨_, hl, h⟩ := bind_eq_ok.mp h
      obtain rfl := Except.ok.inj hl
      obtain ⟨_, hcount, h⟩ := bind_eq_ok.mp h
      obtain ⟨traces, htraces, h⟩ := bind_eq_ok.mp h
      cases hc : computeMetrics traces with
      | error e => rw [hc] at h; cases e <;> cases h
      | ok recomputed =>
        rw [hc] at h
        obtain ⟨_, hr, h⟩ := bind_eq_ok.mp h
        obtain rfl := Except.ok.inj hr
        split at h
        · next stored hstored =>
          obtain ⟨hkeys, hstands⟩ := auditMetrics_ok h
          exact ⟨stored, fields, rfl, _, hrequests, require_ok.mp hcount, traces, htraces, _, hc,
            hstored, hkeys, hstands⟩
        · cases h
    · obtain ⟨_, hl, _⟩ := bind_eq_ok.mp h
      cases hl
  | _ => cases h

theorem auditTrials_ok {numRequests outputLen : Int} {trials : List (Value F)} : ∀ {index : Nat},
    auditTrials numRequests outputLen index trials = .ok () →
    ∃ stored : List (List (String × Value F)), stored.length = trials.length ∧
      ∀ i trial metrics, trials[i]? = some trial → stored[i]? = some metrics →
        Measured numRequests outputLen (index + i) trial metrics := by
  induction trials with
  | nil => exact fun _ => ⟨[], rfl, nofun⟩
  | cons trial trials ih =>
    intro index h
    rw [auditTrials] at h
    obtain ⟨_, hfirst, hrest⟩ := bind_eq_ok.mp h
    obtain ⟨metrics, hm⟩ := auditTrial_ok hfirst
    obtain ⟨stored, hlen, hall⟩ := ih hrest
    refine ⟨metrics :: stored, congrArg (· + 1) hlen, fun i t m ht hs => ?_⟩
    cases i with
    | zero =>
      obtain rfl := Option.some.inj ht
      obtain rfl := Option.some.inj hs
      exact hm
    | succ i =>
      have := hall i t m ht hs
      rwa [Nat.add_assoc, Nat.add_comm 1 i] at this

/-! ## files -/

/-- what the audit establishes of a file -/
structure Audited (result : Value F) where
  fields : List (String × Value F)
  shape : result = .obj fields
  environment : List (String × Value F)
  captured : lookup "environment" fields = some (.obj environment)
  command : (lookup "command_line" environment).isSome
  workload : List (String × Value F)
  ran : lookup "workload" fields = some (.obj workload)
  numRequests : Int
  requests : ∃ v, lookup "num_requests" workload = some v ∧ asInt v = some numRequests
  outputLen : Int
  tokens : ∃ v, lookup "output_len" workload = some v ∧ asInt v = some outputLen
  trials : List (Value F)
  listed : ∃ v, lookup "trials" fields = some v ∧ elements v = .ok trials
  /-- the metrics of the trials -/
  stored : List (List (String × Value F))
  each : stored.length = trials.length
  measured : ∀ i trial metrics, trials[i]? = some trial → stored[i]? = some metrics →
    Measured numRequests outputLen i trial metrics
  /-- the median trial -/
  index : Nat
  metrics : List (String × Value F)
  printed : lookup "metrics" fields = some (.obj metrics)
  entries : ∀ p ∈ metrics, ∀ key ∈ entryFields, contains key p.2 = .ok true
  summary : Value F
  summarized : summarizeMetrics trials index = .ok summary
  derived : eq (.obj metrics) summary = true
  dispersion : List (String × Value F)
  spread : lookup "dispersion" fields = some (.obj dispersion)
  headline : List (Value F)
  values : trialMetrics trials >>= (fun metrics => metrics.mapM (getItem headlineMetric)) = .ok headline
  threshold : Value F
  given : (lookup "threshold_fraction" dispersion).getD .null = threshold
  median : selectMedianTrial headline = .ok index
  flag : spreadExceeds headline threshold = .ok (truthy ((lookup "flag" dispersion).getD .null))

omit [FloatOps F] in
theorem workloadSize_ok {workload : Value F} {key : String} {n : Int}
    (h : workloadSize workload key = .ok n) :
    ∃ ps v, workload = .obj ps ∧ lookup key ps = some v ∧ asInt v = some n := by
  unfold workloadSize at h
  obtain ⟨v, hv, hrest⟩ := bind_eq_ok.mp h
  obtain ⟨ps, hps, hget⟩ := getD_ok (lift_ok.mp hv)
  cases hn : asInt v with
  | none => rw [hn] at hrest; cases hrest
  | some i =>
    rw [hn] at hrest
    obtain ⟨_, _, hrest⟩ := bind_eq_ok.mp hrest
    obtain rfl := Except.ok.inj hrest
    cases hl : lookup key ps with
    | none =>
      rw [hl] at hget
      rw [← hget] at hn
      cases hn
    | some w =>
      rw [hl] at hget
      exact ⟨ps, w, hps, hl, by rw [← hn, ← hget]; rfl⟩

/-- an index that equals a number is that number -/
theorem eq_index {v : Value F} {i : Int} {n : Nat} (hi : asInt v = some i)
    (h : eq v (int n) = true) : i.toNat = n := by
  have hnum : ∀ j : Int, eqNumber (.int j) (int n : Value F) = true → j = n := fun j hj => by
    have := (FloatValue.compare_eq.mp (beq_iff_eq.mp hj)).1
    exact_mod_cast FloatValue.finite.inj this
  cases v with
  | bool b =>
    rw [eq] at h
    obtain rfl := Option.some.inj hi
    rw [hnum _ h]
    rfl
  | num m =>
    cases m with
    | int j =>
      rw [eq] at h
      obtain rfl := Option.some.inj hi
      rw [hnum _ h]
      rfl
    | float x => cases hi
  | _ => cases hi

omit [FloatOps F] in
theorem trialIndex_ok {medianIndex trials : Value F} {index : Nat}
    (h : trialIndex medianIndex trials = .ok index) :
    ∃ i : Int, asInt medianIndex = some i ∧ i.toNat = index := by
  unfold trialIndex at h
  cases hi : asInt medianIndex with
  | none => rw [hi] at h; cases h
  | some i =>
    rw [hi] at h
    obtain ⟨_, _, h⟩ := bind_eq_ok.mp h
    obtain ⟨_, _, h⟩ := bind_eq_ok.mp h
    obtain ⟨_, _, h⟩ := bind_eq_ok.mp h
    exact ⟨i, rfl, Except.ok.inj h⟩

theorem auditDispersion_ok {dispersion medianIndex : Value F} {trials : List (Value F)}
    (h : auditDispersion dispersion medianIndex trials = .ok ()) :
    ∃ ps headline, dispersion = .obj ps ∧
      trialMetrics trials >>= (fun metrics => metrics.mapM (getItem headlineMetric)) = .ok headline ∧
      (∃ n : Nat, eq medianIndex (int n) = true ∧ selectMedianTrial headline = .ok n) ∧
      spreadExceeds headline ((lookup "threshold_fraction" ps).getD .null)
        = .ok (truthy ((lookup "flag" ps).getD .null)) := by
  unfold auditDispersion at h
  obtain ⟨metrics, hmetrics, h⟩ := bind_eq_ok.mp h
  obtain ⟨headline, hheadline, h⟩ := bind_eq_ok.mp h
  obtain ⟨metric, hmetric, h⟩ := bind_eq_ok.mp h
  obtain ⟨_, _, h⟩ := bind_eq_ok.mp h
  obtain ⟨threshold, hthreshold, h⟩ := bind_eq_ok.mp h
  obtain ⟨ps, rfl, _⟩ := getD_ok (lift_ok.mp hmetric)
  rw [getD_obj] at hthreshold
  obtain rfl := Except.ok.inj (lift_ok.mp hthreshold)
  split at h
  · cases h
  · obtain ⟨_, _, h⟩ := bind_eq_ok.mp h
    obtain ⟨_, _, h⟩ := bind_eq_ok.mp h
    obtain ⟨_, _, h⟩ := bind_eq_ok.mp h
    obtain ⟨_, _, h⟩ := bind_eq_ok.mp h
    obtain ⟨expected, hexpected, h⟩ := bind_eq_ok.mp h
    obtain ⟨_, hmedian, h⟩ := bind_eq_ok.mp h
    obtain ⟨exceeds, hexceeds, h⟩ := bind_eq_ok.mp h
    obtain ⟨flag, hflag, h⟩ := bind_eq_ok.mp h
    obtain ⟨_, hsame, _⟩ := bind_eq_ok.mp h
    rw [getD_obj] at hflag
    obtain rfl := Except.ok.inj (lift_ok.mp hflag)
    refine ⟨ps, headline, rfl, bind_eq_ok.mpr ⟨metrics, lift_ok.mp hmetrics, lift_ok.mp hheadline⟩,
      ⟨expected, require_ok.mp hmedian, lift_ok.mp hexpected⟩, ?_⟩
    rw [require_ok.mp hsame]
    exact lift_ok.mp hexceeds

omit [FloatOps F] in
theorem lookup_of_getD {key : String} {ps : List (String × Value F)} {w : Value F}
    (h : (lookup key ps).getD .null = w) (hw : w ≠ .null) : lookup key ps = some w := by
  cases hl : lookup key ps with
  | none => rw [hl] at h; exact absurd h.symm hw
  | some v => rw [hl] at h; exact congrArg some h

/-- **What a valid file is.** -/
theorem audited {result : Value F} (h : validateResult result = .ok ()) :
    Nonempty (Audited result) := by
  unfold validateResult at h
  cases result with
  | obj fields =>
    dsimp only at h
    obtain ⟨_, _, h⟩ := bind_eq_ok.mp h
    obtain ⟨_, _, h⟩ := bind_eq_ok.mp h
    obtain ⟨_, _, h⟩ := bind_eq_ok.mp h
    split at h
    · next environment henvironment =>
      obtain ⟨_, _, h⟩ := bind_eq_ok.mp h
      obtain ⟨_, hcommand, h⟩ := bind_eq_ok.mp h
      obtain ⟨_, _, h⟩ := bind_eq_ok.mp h
      split at h
      · next metrics hmetrics =>
        obtain ⟨_, _, h⟩ := bind_eq_ok.mp h
        obtain ⟨_, hentries, h⟩ := bind_eq_ok.mp h
        obtain ⟨_, _, h⟩ := bind_eq_ok.mp h
        obtain ⟨_, _, h⟩ := bind_eq_ok.mp h
        obtain ⟨_, _, h⟩ := bind_eq_ok.mp h
        obtain ⟨_, _, h⟩ := bind_eq_ok.mp h
        obtain ⟨index, hindex, h⟩ := bind_eq_ok.mp h
        unfold auditRawData at h
        obtain ⟨w, hw, h⟩ := bind_eq_ok.mp h
        obtain ⟨numRequests, hnum, h⟩ := bind_eq_ok.mp h
        obtain ⟨outputLen, hout, h⟩ := bind_eq_ok.mp h
        obtain ⟨v, hv, h⟩ := bind_eq_ok.mp h
        obtain ⟨trials, htrials, h⟩ := bind_eq_ok.mp h
        obtain ⟨_, haudit, h⟩ := bind_eq_ok.mp h
        obtain ⟨summary, hsummary, h⟩ := bind_eq_ok.mp h
        obtain ⟨m, hm, h⟩ := bind_eq_ok.mp h
        obtain ⟨_, hderived, h⟩ := bind_eq_ok.mp h
        obtain ⟨d, hd, h⟩ := bind_eq_ok.mp h
        obtain ⟨i, hi, h⟩ := bind_eq_ok.mp h
        have hfield : ∀ {key : String} {u : Value F},
          (lift (getItem key (.obj fields)) : Audit F _) = .ok u →
            lookup key fields = some u := fun hu => by
          obtain ⟨ps, hps, hl⟩ := getItem_ok (lift_ok.mp hu)
          rwa [Json.obj.inj hps]
        have hprinted := lookup_of_getD hmetrics nofun
        obtain ⟨stored, heach, hmeasured⟩ := auditTrials_ok haudit
        obtain ⟨ps, headline, hps, hvalues, ⟨n, hn, hmedian⟩, hflag⟩ := auditDispersion_ok h
        obtain ⟨j, hj, hj'⟩ := trialIndex_ok hindex
        obtain ⟨ws, v1, hws, hl1, hv1⟩ := workloadSize_ok hnum
        obtain ⟨ws', v2, hws', hl2, hv2⟩ := workloadSize_ok hout
        have hmetric : m = .obj metrics := Option.some.inj ((hfield hm).symm.trans hprinted)
        have hws0 : ws = ws' := Json.obj.inj (hws.symm.trans hws')
        have hidx : n = index := by
          rw [hfield hi] at hj
          exact (eq_index hj hn).symm.trans hj'
        exact ⟨{
          fields, shape := rfl
          environment, captured := lookup_of_getD henvironment nofun
          command := require_ok.mp hcommand
          workload := ws, ran := by rw [hfield hw, hws]
          numRequests, requests := ⟨v1, hl1, hv1⟩
          outputLen, tokens := ⟨v2, hws0 ▸ hl2, hv2⟩
          trials, listed := ⟨v, hfield hv, lift_ok.mp htrials⟩
          stored, each := heach, measured := fun i t ms ht hs => Nat.zero_add i ▸ hmeasured i t ms ht hs
          index, metrics, printed := hprinted
          entries := fun p hp key hkey => by
            obtain ⟨b, hb, hreq⟩ := bind_eq_ok.mp (forM_eq_ok.mp (forM_eq_ok.mp hentries p hp) key hkey)
            rw [lift_ok.mp hb, require_ok.mp hreq]
          summary, summarized := lift_ok.mp hsummary
          derived := hmetric ▸ require_ok.mp hderived
          dispersion := ps, spread := by rw [hfield hd, hps]
          headline, values := hvalues
          threshold := _, given := rfl
          median := hidx ▸ hmedian
          flag := hflag }⟩
      · cases h
    · cases h
  | _ => cases h

/-! ## cells -/

/-- the figures of the trials for a metric -/
def Audited.figures {result : Value F} (a : Audited result) (metric : String) : List (Value F) :=
  a.stored.filterMap (lookup metric)

/-- `shown` is a figure in the unit of its column -/
def InUnit (metric : String) (figure shown : Value F) : Prop :=
  ∃ v, eq v figure = true ∧ mul v
    (float (FloatOps.lit (if metric ∈ msMetrics then 1000 else 1))) = .ok shown

/-- a cell of the row of a file: a dash where the median trial has no such figure, else its figure between
the least and the greatest, and the dagger when the headline figures spread -/
inductive Backs {result : Value F} (a : Audited result) (metric : String) : Option (Cell F) → Prop where
  | dash (trial : List (String × Value F)) (median : a.stored[a.index]? = some trial)
      (missing : lookup metric trial = none) : Backs a metric none
  | shown (trial : List (String × Value F)) (median : a.stored[a.index]? = some trial)
      (value least greatest : Value F)
      (middle : lookup metric trial = some value) (min : minimum (a.figures metric) = .ok least)
      (max : maximum (a.figures metric) = .ok greatest) (exceeds : Bool)
      (spread : spreadExceeds a.headline a.threshold = .ok exceeds) (cell : Cell F)
      (value_eq : InUnit metric value cell.value) (min_eq : InUnit metric least cell.min)
      (max_eq : InUnit metric greatest cell.max)
        (dagger : cell.dagger = (exceeds && metric == headlineMetric)) :
      Backs a metric (some cell)

/-- the row of a file: a cell for each column; the headline, which is first, is shown and has the dagger
exactly when the headline figures spread -/
structure BacksRow {result : Value F} (a : Audited result) (row : Row F) : Prop where
  cells : List.Forall₂ (Backs a) columns row.cells
  headline : ∃ cell, row.cells.head? = some (some cell) ∧
    spreadExceeds a.headline a.threshold = .ok cell.dagger

section
variable {result : Value F} (a : Audited result)

theorem Audited.trialMetrics_eq : trialMetrics a.trials = .ok (a.stored.map .obj) := by
  refine mapM_eq_ok.mpr (List.forall₂_map_right_iff.mpr (List.forall₂_iff_get.mpr ⟨a.each.symm,
    fun i h1 h2 => ?_⟩))
  have hm := a.measured i _ _ (List.getElem?_eq_getElem h1) (List.getElem?_eq_getElem h2)
  obtain ⟨fields, shape, _, _, _, _, _, _, _, metrics, _, _⟩ := hm
  show getItem "metrics" a.trials[i] = _
  rw [shape]
  exact getItem_obj metrics

theorem summaryEntry_obj (trials : List (List (String × Value F))) (median : List (String × Value F))
    (name label : String) :
    summaryEntry (trials.map .obj) (.obj median) name label =
      if (trials.filterMap (lookup name)).isEmpty then .ok []
      else if (lookup name median).isSome then do
        return [(name, .obj [("value", ← getItem name (.obj median)),
          ("min", ← minimum (trials.filterMap (lookup name))),
          ("max", ← maximum (trials.filterMap (lookup name))), ("label", .str label)])]
      else .ok [] := by
  have hfigures : (trials.map .obj).mapM (fun metrics : Value F => do
      if ← contains name metrics then return [← getItem name metrics] else return [])
      = .ok (trials.map fun m => (lookup name m).toList) := by
    refine mapM_eq_ok.mpr (List.forall₂_map_right_iff.mpr (List.forall₂_map_left_iff.mpr
      (List.forall₂_same.mpr fun m _ => ?_)))
    rw [contains_obj]
    cases hl : lookup name m with
    | none => rfl
    | some v =>
      show getItem name (.obj m) >>= _ = _
      rw [getItem_obj hl]
      rfl
  have hflatten : (trials.map fun m => (lookup name m).toList).flatten
      = trials.filterMap (lookup name) := by
    rw [← List.flatMap_def]
    exact (List.filterMap_eq_flatMap_toList _ _).symm
  unfold summaryEntry
  rw [hfigures]
  simp only [ok_bind, hflatten, contains_obj]
  rfl

/-- what the summary has of a metric -/
theorem summaryEntry_ok {trials : List (List (String × Value F))} {median : List (String × Value F)}
    {name label : String} {entries : List (String × Value F)}
    (h : summaryEntry (trials.map .obj) (.obj median) name label = .ok entries)
    {p : String × Value F} (hp : p ∈ entries) :
    p.1 = name ∧ ∃ value least greatest, lookup name median = some value ∧
      minimum (trials.filterMap (lookup name)) = .ok least ∧
        maximum (trials.filterMap (lookup name)) = .ok greatest ∧
      p.2 = .obj [("value", value), ("min", least), ("max", greatest), ("label", .str label)] := by
  rw [summaryEntry_obj] at h
  split at h
  · rw [← Except.ok.inj h] at hp
    cases hp
  · cases hl : lookup name median with
    | none =>
      rw [hl] at h
      rw [← Except.ok.inj h] at hp
      cases hp
    | some value =>
      rw [hl] at h
      obtain ⟨v, hv, h⟩ := bind_eq_ok.mp h
      obtain ⟨least, hleast, h⟩ := bind_eq_ok.mp h
      obtain ⟨greatest, hgreatest, h⟩ := bind_eq_ok.mp h
      rw [getItem_obj hl] at hv
      rw [← Except.ok.inj h, List.mem_singleton] at hp
      rw [hp]
      exact ⟨rfl, value, least, greatest, rfl, hleast, hgreatest, by rw [Except.ok.inj hv]⟩

/-- a metric of the median trial is summarised -/
theorem summaryEntry_has {trials : List (List (String × Value F))} {median : List (String × Value F)}
    {name label : String} {entries : List (String × Value F)}
    (h : summaryEntry (trials.map .obj) (.obj median) name label = .ok entries)
    (hm : median ∈ trials) {value : Value F}
    (hv : lookup name median = some value) : ∃ p ∈ entries, p.1 = name := by
  have hne : (trials.filterMap (lookup name)).isEmpty = false := by
    rw [List.isEmpty_eq_false_iff_exists_mem]
    exact ⟨value, List.mem_filterMap.mpr ⟨median, hm, hv⟩⟩
  rw [summaryEntry_obj, hne, hv] at h
  obtain ⟨_, _, h⟩ := bind_eq_ok.mp h
  obtain ⟨_, _, h⟩ := bind_eq_ok.mp h
  obtain ⟨_, _, h⟩ := bind_eq_ok.mp h
  rw [← Except.ok.inj h]
  exact ⟨_, List.mem_singleton_self _, rfl⟩

/-- the summary is made of the entries of the metrics, for the median trial -/
theorem Audited.summary_eq : ∃ trial entries, a.stored[a.index]? = some trial ∧
    metricLabels.mapM (fun q => summaryEntry (a.stored.map .obj) (.obj trial) q.1 q.2) = .ok entries ∧
    eq (.obj a.metrics) (.obj entries.flatten) = true := by
  have hsummary := a.summarized
  unfold summarizeMetrics at hsummary
  rw [a.trialMetrics_eq, ok_bind] at hsummary
  obtain ⟨median, hmedian, hrest⟩ := bind_eq_ok.mp hsummary
  obtain ⟨entries, hentries, hobj⟩ := bind_eq_ok.mp hrest
  have hderived := a.derived
  rw [← Except.ok.inj hobj] at hderived
  unfold at? at hmedian
  rw [List.getElem?_map] at hmedian
  cases ht : a.stored[a.index]? with
  | none => rw [ht] at hmedian; cases hmedian
  | some trial =>
    rw [ht] at hmedian
    obtain rfl := Except.ok.inj hmedian
    exact ⟨trial, entries, rfl, hentries, hderived⟩

/-- **An entry of the summary** has the figures of the trials. -/
theorem Audited.entry {name : String} {entry : Value F} (h : lookup name a.metrics = some entry) :
    ∃ trial value least greatest, a.stored[a.index]? = some trial ∧ lookup name trial = some value ∧
      minimum (a.figures name) = .ok least ∧ maximum (a.figures name) = .ok greatest ∧
      (∃ v, getItem "value" entry = .ok v ∧ eq v value = true) ∧
      (∃ v, getItem "min" entry = .ok v ∧ eq v least = true) ∧
      ∃ v, getItem "max" entry = .ok v ∧ eq v greatest = true := by
  obtain ⟨trial, entries, htrial, hentries, hderived⟩ := a.summary_eq
  obtain ⟨ps, hps, _, hpairs⟩ := eq_obj hderived
  obtain ⟨w, hw, heq⟩ := eqPairs_lookup hpairs (name, entry) (mem_of_lookup (Json.obj.inj hps ▸ h))
  -- the entry of the summary it equals
  obtain ⟨es, hes, hmem⟩ := List.mem_flatten.mp (mem_of_lookup hw)
  obtain ⟨q, _, hq⟩ := of_mem_mapM hentries hes
  obtain ⟨hname, value, least, greatest, hvalue, hleast, hgreatest, rfl⟩ := summaryEntry_ok hq hmem
  obtain rfl : name = q.1 := hname
  obtain ⟨fields, rfl, _, hfields⟩ := eq_obj heq
  have hfield : ∀ key ∈ entryFields, ∃ v, lookup key fields = some v := fun key hkey => by
    have hin := a.entries _ (mem_of_lookup h) key hkey
    rw [contains_obj] at hin
    exact Option.isSome_iff_exists.mp (Except.ok.inj hin)
  have hsame : ∀ {key : String} {v u : Value F}, lookup key fields = some v →
      lookup key [("value", value), ("min", least), ("max", greatest), ("label", .str q.2)] = some u →
      eq v u = true := fun hv hu => by
    obtain ⟨u', hu', he⟩ := eqPairs_lookup hfields _ (mem_of_lookup hv)
    rw [← Option.some.inj (hu'.symm.trans hu)]
    exact he
  obtain ⟨v1, h1⟩ := hfield "value" (by decide)
  obtain ⟨v2, h2⟩ := hfield "min" (by decide)
  obtain ⟨v3, h3⟩ := hfield "max" (by decide)
  exact ⟨trial, value, least, greatest, htrial, hvalue, hleast, hgreatest,
    ⟨v1, getItem_obj h1, hsame h1 (by simp)⟩, ⟨v2, getItem_obj h2, hsame h2 (by simp)⟩,
    ⟨v3, getItem_obj h3, hsame h3 (by simp)⟩⟩

/-- **A metric that is not printed** is none of the median trial's. -/
theorem Audited.missing (hkeys : wellKeyed result = true) {name : String}
    (hname : name ∈ metricLabels.map Prod.fst)
    (h : lookup name a.metrics = none) : ∃ trial, a.stored[a.index]? = some trial ∧
      lookup name trial = none := by
  obtain ⟨trial, entries, htrial, hentries, hderived⟩ := a.summary_eq
  refine ⟨trial, htrial, ?_⟩
  cases hl : lookup name trial with
  | none => rfl
  | some value =>
    obtain ⟨q, hq, rfl⟩ := List.mem_map.mp hname
    obtain ⟨es, hes, hentry⟩ := mem_mapM hentries hq
    obtain ⟨p, hp, hpname⟩ := summaryEntry_has hentry (List.mem_of_getElem? htrial) hl
    have hin : q.1 ∈ entries.flatten.map Prod.fst :=
      List.mem_map.mpr ⟨p, List.mem_flatten.mpr ⟨es, hes, hp⟩, hpname⟩
    have hmetrics : wellKeyed (.obj a.metrics) = true := wellKeyed_lookup (a.shape ▸ hkeys) a.printed
    have hperm := eq_keys (wellKeyed_obj hmetrics).1 hderived
    obtain ⟨p', hp', hkey⟩ := List.mem_map.mp (hperm.symm.subset hin)
    exact absurd hkey (lookup_eq_none.mp h p' hp')

/-- the median trial has a headline figure -/
theorem Audited.headline_some {trial : List (String × Value F)} (h : a.stored[a.index]? = some trial) :
    ∃ value, lookup headlineMetric trial = some value := by
  have hvalues := a.values
  rw [a.trialMetrics_eq, ok_bind] at hvalues
  obtain ⟨value, _, hvalue⟩ := mem_mapM hvalues (List.mem_map_of_mem (List.mem_of_getElem? h))
  obtain ⟨ps, hps, hl⟩ := getItem_ok hvalue
  exact ⟨value, Json.obj.inj hps ▸ hl⟩

theorem Audited.field {key : String} {v : Value F} (h : lookup key a.fields = some v) :
    getItem key result = .ok v := by
  obtain ⟨fields, rfl⟩ : ∃ fields, result = .obj fields := ⟨a.fields, a.shape⟩
  exact getItem_obj ((Json.obj.inj a.shape) ▸ h)

theorem Audited.item {r : Loaded F} (a : Audited r.result) {key : String} {v : Value F}
    (h : lookup key a.fields = some v) : r.item key = .ok v :=
  lift_ok.mpr (a.field h)

/-- a cell against the entry it is made from -/
theorem formatCell_backed {metric : String} {entry : Value F}
    (hentry : lookup metric a.metrics = some entry) {cell : Cell F}
    (h : formatCell entry metric (truthy ((lookup "flag" a.dispersion).getD .null) && metric == headlineMetric) = .ok cell) :
    Backs a metric (some cell) := by
  obtain ⟨trial, value, least, greatest, htrial, hvalue, hleast, hgreatest, ⟨v1, hv1, he1⟩,
      ⟨v2, hv2, he2⟩, v3, hv3, he3⟩ :=
    a.entry hentry
  unfold formatCell at h
  simp only [hv1, hv2, hv3, ok_bind] at h
  obtain ⟨shown1, hs1, h⟩ := bind_eq_ok.mp h
  obtain ⟨shown2, hs2, h⟩ := bind_eq_ok.mp h
  obtain ⟨shown3, hs3, h⟩ := bind_eq_ok.mp h
  rw [← Except.ok.inj h]
  exact .shown trial htrial value least greatest hvalue hleast hgreatest _ a.flag _ ⟨v1, he1, hs1⟩
    ⟨v2, he2, hs2⟩
    ⟨v3, he3, hs3⟩ rfl

/-- the headline of a backed row is shown -/
theorem Audited.backsRow {row : Row F} (h : List.Forall₂ (Backs a) columns row.cells) :
    BacksRow a row := by
  refine ⟨h, ?_⟩
  cases hcells : row.cells with
  | nil => rw [hcells] at h; cases h
  | cons first rest =>
    rw [hcells] at h
    cases h with
    | cons hfirst _ =>
      cases hfirst with
      | dash trial median missing =>
        obtain ⟨value, hvalue⟩ := a.headline_some median
        exact absurd (hvalue.symm.trans missing) nofun
      | shown trial median value least greatest middle min max exceeds spread cell value_eq min_eq max_eq dagger =>
        refine ⟨cell, rfl, ?_⟩
        rw [dagger, spread, show ("throughput_tok_s" == headlineMetric) = true from rfl, Bool.and_true]

/-- **A row shows the trials of its file.** -/
theorem renderRow_backed {r : Loaded F} {row : Row F} (hkeys : wellKeyed r.result = true)
    (a : Audited r.result) (h : renderRow py r = .ok row) : BacksRow a row := by
  unfold renderRow at h
  rw [a.item a.spread, ok_bind, getD_obj] at h
  obtain ⟨flag, hflag, h⟩ := bind_eq_ok.mp h
  obtain rfl := Except.ok.inj (lift_ok.mp hflag)
  obtain ⟨label, _, h⟩ := bind_eq_ok.mp h
  rw [a.item a.printed, ok_bind] at h
  obtain ⟨cells, hcells, h⟩ := bind_eq_ok.mp h
  rw [← Except.ok.inj h]
  refine a.backsRow ?_
  obtain ⟨hlen, hcells⟩ := List.forall₂_iff_zip.mp (mapM_eq_ok.mp hcells)
  refine List.forall₂_iff_zip.mpr ⟨hlen, fun {metric cell} hmem => ?_⟩
  have hcell := hcells hmem
  obtain ⟨o, ho, hcell⟩ := bind_eq_ok.mp hcell
  obtain rfl : lookup metric a.metrics = o := Except.ok.inj (lift_ok.mp ho)
  cases hentry : lookup metric a.metrics with
  | none =>
    rw [hentry] at hcell
    rw [← Except.ok.inj hcell]
    have hname : metric ∈ metricLabels.map Prod.fst := (List.of_mem_zip hmem).1
    obtain ⟨trial, htrial, hnone⟩ := a.missing hkeys hname hentry
    exact .dash trial htrial hnone
  | some entry =>
    -- an entry has the keys of a cell, so it is no `None`
    obtain ⟨_, _, _, _, _, _, _, _, ⟨_, hv, _⟩, _⟩ := a.entry hentry
    obtain ⟨fields, rfl, _⟩ := getItem_ok hv
    rw [hentry] at hcell
    obtain ⟨c, hc, hcell⟩ := bind_eq_ok.mp hcell
    rw [← Except.ok.inj hcell]
    exact formatCell_backed a hentry (lift_ok.mp hc)

end

/-! ## documents -/

theorem renderSection_rows {case : Value F} {engines : List (Loaded F)} {s : Section F}
    (h : renderSection py case engines = .ok s) :
    ∀ row ∈ s.rows, renderRow py row.result = .ok row := by
  cases engines with
  | nil => cases h
  | cons first rest =>
    obtain ⟨_, _, h⟩ := bind_eq_ok.mp h
    obtain ⟨_, _, h⟩ := bind_eq_ok.mp h
    obtain ⟨rows, hrows, h⟩ := bind_eq_ok.mp h
    rw [← Except.ok.inj h]
    intro row hrow
    obtain ⟨r, _, hr⟩ := of_mem_mapM hrows hrow
    rwa [renderRow_result hr]

theorem renderMarkdown_rows {results : List (Loaded F)} {doc : Document F}
    (h : renderMarkdown py results = .ok doc) :
    ∀ s ∈ doc.sections, ∀ row ∈ s.rows, renderRow py row.result = .ok row := by
  unfold renderMarkdown at h
  split at h
  · cases h
  obtain ⟨_, _, h⟩ := bind_eq_ok.mp h
  obtain ⟨_, _, h⟩ := bind_eq_ok.mp h
  obtain ⟨_, _, h⟩ := bind_eq_ok.mp h
  obtain ⟨sections, hsections, h⟩ := bind_eq_ok.mp h
  obtain ⟨_, _, h⟩ := bind_eq_ok.mp h
  obtain ⟨_, _, h⟩ := bind_eq_ok.mp h
  obtain ⟨_, _, h⟩ := bind_eq_ok.mp h
  obtain ⟨_, _, h⟩ := bind_eq_ok.mp h
  rw [← Except.ok.inj h]
  intro s hs
  obtain ⟨c, _, hc⟩ := of_mem_mapM hsections hs
  exact renderSection_rows hc

theorem loadFile_audited {file : ResultFile F} {r : Loaded F} (h : loadFile file = .ok r) :
    file.content = .ok r.result ∧ file.path = r.source ∧ Nonempty (Audited r.result) := by
  unfold loadFile at h
  split at h
  · cases h
  · cases h
  · next result hcontent =>
    split at h
    · next hvalid =>
      rw [← Except.ok.inj h]
      exact ⟨hcontent, rfl, audited hvalid⟩
    · cases h
    · cases h

theorem loadResults_ok {files : List (ResultFile F)} {results : List (Loaded F)}
    (h : loadResults files = .ok results) :
    files.mapM loadFile = .ok results := by
  unfold loadResults at h
  by_cases hempty : files.isEmpty = true
  · rw [if_pos hempty] at h
    cases h
  · rwa [if_neg hempty] at h

section
variable {files : List (ResultFile F)} {doc : Document F} (hdoc : render py files = .ok doc)
include hdoc

/-- a row is a file that was given, with its trials -/
theorem rendered_row (hkeys : ∀ r ∈ recorded files, wellKeyed r.result = true) {s : Section F}
    (hs : s ∈ doc.sections) {row : Row F} (hrow : row ∈ s.rows) :
    ∃ file ∈ files, file.content = .ok row.result.result ∧ file.path = row.result.source ∧
      ∃ a : Audited row.result.result, BacksRow a row := by
  obtain ⟨results, hresults, hdoc⟩ := bind_eq_ok.mp hdoc
  obtain ⟨groups, hG, hsections, _⟩ := renderMarkdown_sections hdoc
  obtain ⟨g, hg, hshows⟩ := hsections s hs
  have hmem : row.result ∈ results := (hG.mem _).mpr ⟨g, hg, (hshows.rows _).mpr ⟨row, hrow, rfl⟩⟩
  obtain ⟨file, hfile, hr⟩ := of_mem_mapM (loadResults_ok hresults) hmem
  obtain ⟨hcontent, hpath, ⟨a⟩⟩ := loadFile_audited hr
  exact ⟨file, hfile, hcontent, hpath, a,
    renderRow_backed (hkeys _ ((loadResults_recorded hresults).symm ▸ hmem)) a
      (renderMarkdown_rows hdoc s hs row hrow)⟩

/-- a file that was given is a row -/
theorem rendered_file {file : ResultFile F} (hfile : file ∈ files) :
    ∃ s ∈ doc.sections, ∃ row ∈ s.rows, file.content = .ok row.result.result ∧
      file.path = row.result.source := by
  obtain ⟨results, hresults, hdoc⟩ := bind_eq_ok.mp hdoc
  obtain ⟨groups, hG, _, hgroups⟩ := renderMarkdown_sections hdoc
  obtain ⟨r, hr, hload⟩ := mem_mapM (loadResults_ok hresults) hfile
  obtain ⟨hcontent, hpath, _⟩ := loadFile_audited hload
  obtain ⟨g, hg, hrg⟩ := (hG.mem r).mp hr
  obtain ⟨s, hs, hshows⟩ := hgroups g hg
  obtain ⟨row, hrow, rfl⟩ := (hshows.rows r).mp hrg
  exact ⟨s, hs, row, hrow, hcontent, hpath⟩

end

/-- **The tables show the raw data and all of it.**  Every row of a document is a file that was given; each
of its cells has the figure of the median trial with the least and the greatest of the figures that the
trials' own token times bear out, and is a dash exactly where the median trial has none; the headline is
always shown and has the dagger exactly when the headline figures spread; every file given is a row.
`json.loads` makes dicts, so no key of a file comes twice. -/
theorem rendered_backed (F : Type) [FloatOps F] (py : Builtins F) (files : List (ResultFile F))
    (doc : Document F) (hkeys : ∀ r ∈ recorded files, wellKeyed r.result = true)
    (hdoc : render py files = .ok doc) :
    (∀ s ∈ doc.sections, ∀ row ∈ s.rows, ∃ file ∈ files, file.content = .ok row.result.result ∧
      file.path = row.result.source ∧ ∃ a : Audited row.result.result, BacksRow a row) ∧
    ∀ file ∈ files, ∃ s ∈ doc.sections, ∃ row ∈ s.rows, file.content = .ok row.result.result ∧
      file.path = row.result.source := by
  exact ⟨fun s hs row hrow => rendered_row hdoc hkeys hs hrow,
    fun file hfile => rendered_file hdoc hfile⟩

/-- one request of one token, `t` after it was enqueued -/
def shortTrial (t : Rat) : Value Rat :=
  .obj [("metrics", .obj [("total_new_tokens", int 1), ("wall_window_s", float t),
    ("throughput_tok_s", float (1 / t)),
      ("ttft_p50_s", float t), ("ttft_p99_s", float t), ("num_requests", int 1)]),
    ("requests", .arr [.obj [("request_id", int 0), ("enqueue_time_s", float 0),
      ("token_times_s", .arr [float t]),
      ("token_ids", .arr [int 5]), ("finish_reason", .str "length")]])]

/-- two trials at 1 and at 2 tokens a second: a spread, and no inter-token latency -/
def shortResult : Value Rat :=
  .obj [("schema_version", int 1), ("engine", .str "redline"), ("case", .str "batch1"),
    ("workload", .obj [("num_requests", int 1), ("input_len", int 8), ("output_len", int 1)]),
    ("engine_config", .obj [("engine", .str "redline")]),
    ("environment", .obj [("command_line", .arr [.str "run_bench.py"]), ("nvidia_smi_q", .null)]),
    ("trials", .arr [shortTrial 1, shortTrial (1 / 2)]), ("median_trial_index", int 0),
    ("metrics", .obj ((metricLabels.filter fun q => q.1 ∈ ["throughput_tok_s", "ttft_p50_s",
      "ttft_p99_s"]).map
      fun (name, label) => (name, .obj [("value", float 1),
        ("min", float (if name = headlineMetric then 1 else 1 / 2)),
        ("max", float (if name = headlineMetric then 2 else 1)), ("label", .str label)]))),
    ("dispersion", .obj [("metric", .str headlineMetric), ("threshold_fraction", float (3 / 100)),
      ("values", .arr [float 1, float 2]), ("reran", .bool false), ("flag", .bool true)]),
    ("forced_length_ok", .bool true)]

/-- a file that spreads beside one of one trial -/
def shortAndSmall : List (ResultFile Rat) :=
  [⟨"redline_batch1.json", .ok shortResult⟩, ⟨"vllm_batch1.json", .ok (smallResult "vllm" 8)⟩]

/-- the cells of the rows: the figures, and the daggers -/
def shownCells (doc : Document Rat) : List (List (Option (List Rat × Bool))) :=
  doc.sections.flatMap fun s => s.rows.map fun row => row.cells.map fun cell => cell.map fun c =>
    ([c.value, c.min, c.max].filterMap fun v => match v with
      | .num (.float x) => some x
      | _ => none, c.dagger)

theorem shortAndSmall_runs : (∀ r ∈ recorded shortAndSmall, wellKeyed r.result = true) ∧
    (checkResults plainBuiltins shortAndSmall).toOption = some 0 ∧
    (render plainBuiltins shortAndSmall).toOption.map shownCells = some
      [[some ([1, 1, 2], true), none, some ([1000, 500, 1000], false),
        some ([1000, 500, 1000], false), none, none],
        [some ([1, 1, 1], false), some ([1, 1, 1], false), some ([1000, 1000, 1000], false),
          some ([1000, 1000, 1000], false), some ([1000, 1000, 1000], false),
            some ([1000, 1000, 1000], false)]] := by
  decide +kernel

theorem rendered_backed_two : ∃ doc, render plainBuiltins shortAndSmall = .ok doc ∧
    shownCells doc =
      [[some ([1, 1, 2], true), none, some ([1000, 500, 1000], false),
        some ([1000, 500, 1000], false), none, none],
        [some ([1, 1, 1], false), some ([1, 1, 1], false), some ([1000, 1000, 1000], false),
          some ([1000, 1000, 1000], false), some ([1000, 1000, 1000], false),
            some ([1000, 1000, 1000], false)]] ∧
    ∀ s ∈ doc.sections, ∀ row ∈ s.rows, ∃ file ∈ shortAndSmall, file.content = .ok row.result.result ∧
      file.path = row.result.source ∧ ∃ a : Audited row.result.result, BacksRow a row := by
  obtain ⟨hkeys, _, hrender⟩ := shortAndSmall_runs
  obtain ⟨doc, hdoc, hcells⟩ := ok_of_map_toOption hrender
  exact ⟨doc, hdoc, hcells, (rendered_backed Rat plainBuiltins shortAndSmall doc hkeys hdoc).1⟩

end Report
end Redline
