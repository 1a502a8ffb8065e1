import Redline.Report.Renders

/-!
# What a file gets past the check

`--check` promises a directory that renders, and tables that a file's own word cannot dress up.

* `passing_renders_iff`   files that pass render, or the renderer ends with an exception that nobody
                          catches: a file without `input_len` does that;
* `dagger_iff`            a file that spreads beyond the rule has its dagger, unless the threshold that
                          it states itself clears it.
-/

namespace Redline
namespace Report
open Py Py.Value Throw

variable {F : Type} [FloatOps F] {py : Builtins F}

/-! ## exceptions that escape -/

/-- no `ReportError`: nobody catches it -/
def Raised.Escapes {P : Type} : Raised P → Prop
  | .report _ => False
  | .exn _ => True

omit [FloatOps F] in
theorem lift_escapes {α : Type} (x : Except Exn α) : Throws Raised.Escapes (lift x : Outcome F α) := by
  cases x with
  | ok a => exact throws_ok a
  | error e => exact throws_error trivial

section
variable {r : Loaded F} {results : List (Loaded F)}

omit [FloatOps F] in
theorem item_escapes (r : Loaded F) (key : String) : Throws Raised.Escapes (r.item key) :=
  lift_escapes _

omit [FloatOps F] in
theorem hashed_escapes (v : Value F) : Throws Raised.Escapes (hashed v) :=
  throws_ite (throws_ok v) (throws_error trivial)

theorem engineRowLabel_escapes (r : Loaded F) : Throws Raised.Escapes (engineRowLabel py r) := by
  unfold engineRowLabel
  refine (item_escapes r _).bind fun engine => (lift_escapes _).bind fun config =>
    (lift_escapes _).bind fun version => ?_
  cases engine with
  | str name => exact throws_ok _
  | _ => exact throws_error trivial

theorem byEngine_escapes (results : List (Loaded F)) : Throws Raised.Escapes (byEngine results) := by
  unfold byEngine engineSortKey
  refine (throws_mapM fun r _ => ?_).bind fun keyed => (lift_escapes _).bind fun _ => throws_ok _
  exact ((item_escapes r _).bind fun _ => throws_ok _).bind fun _ => throws_ok _

omit [FloatOps F] in
theorem workloadDims_escapes (r : Loaded F) : Throws Raised.Escapes (workloadDims r) :=
  (item_escapes r _).bind fun _ => (lift_escapes _).bind fun _ => (lift_escapes _).bind fun _ =>
    (lift_escapes _).bind fun _ => throws_ok _

theorem renderRow_escapes (r : Loaded F) : Throws Raised.Escapes (renderRow py r) := by
  unfold renderRow
  refine (item_escapes r _).bind fun _ => (lift_escapes _).bind fun _ =>
    (engineRowLabel_escapes r).bind fun _ => (item_escapes r _).bind fun metrics =>
    (throws_mapM fun metric _ => (lift_escapes _).bind fun entry => ?_).bind fun _ => throws_ok _
  cases entry with
  | none => exact throws_ok _
  | some v =>
    cases v with
    | null => exact throws_ok _
    | _ => exact (lift_escapes _).bind fun _ => throws_ok _

theorem renderSection_escapes (case : Value F) (engines : List (Loaded F)) :
    Throws Raised.Escapes (renderSection py case engines) := by
  cases engines with
  | nil => exact throws_error trivial
  | cons sample rest =>
    exact (workloadDims_escapes sample).bind fun _ => (byEngine_escapes _).bind fun ordered =>
      (throws_mapM fun r _ => renderRow_escapes r).bind fun _ => throws_ok _

omit [FloatOps F] in
theorem measurementDates_escapes (results : List (Loaded F)) :
    Throws Raised.Escapes (measurementDates py results) := by
  unfold measurementDates
  exact (throws_mapM fun r _ => (lift_escapes _).bind fun _ => lift_escapes _).bind fun _ =>
    lift_escapes _

theorem engineVersions_escapes (results : List (Loaded F)) :
    Throws Raised.Escapes (engineVersions py results) := by
  unfold engineVersions
  refine (throws_mapM fun r _ => (lift_escapes _).bind fun _ =>
    (throws_mapM fun _ _ => lift_escapes _).bind fun _ => (item_escapes r _).bind fun engine => ?_).bind
    fun _ => throws_ok _
  cases engine with
  | str name => exact throws_ok _
  | _ => exact throws_error trivial

theorem reproductionLines_escapes (results : List (Loaded F)) :
    Throws Raised.Escapes (reproductionLines py results) := by
  unfold reproductionLines
  refine (throws_mapM fun r _ => (item_escapes r _).bind fun _ => (hashed_escapes _).bind fun _ =>
    (item_escapes r _).bind fun _ => (hashed_escapes _).bind fun _ => (item_escapes r _).bind fun _ =>
    (lift_escapes _).bind fun _ => (lift_escapes _).bind fun _ => throws_ok _).bind fun _ => ?_
  exact (lift_escapes _).bind fun _ => throws_ok _

/-- **The renderer** of files that passed: no `ReportError` is left. -/
theorem renderMarkdown_escapes (hne : results ≠ []) (hC : Checks py results)
    (henvironment : ∃ environment, checkSameEnvironment py results = .ok environment) :
    Throws Raised.Escapes (renderMarkdown py results) := by
  obtain ⟨environment, henvironment⟩ := henvironment
  obtain ⟨groups, hgroups, _⟩ := groupByCase_returns hC
  unfold renderMarkdown
  rw [if_neg fun h => hne (List.isEmpty_iff.mp h), henvironment, ok_bind, hgroups, ok_bind]
  exact (lift_escapes _).bind fun cases => (throws_mapM fun c _ => renderSection_escapes _ _).bind
    fun _ => (measurementDates_escapes _).bind fun _ => (byEngine_escapes _).bind fun _ =>
    (engineVersions_escapes _).bind fun _ => (reproductionLines_escapes _).bind fun _ => throws_ok _

end

/-- **A passed check is no promise to render.**  Files that pass are rendered exactly when their cases
sort, each command line is a sequence and the first file of each case has its `input_len`; if not, the
renderer ends with an exception of the interpreter and not with a `ReportError`. -/
theorem passing_renders_iff (F : Type) [FloatOps F] (hF : ExactInts F) (py : Builtins F)
    (files : List (ResultFile F)) (hcheck : checkResults py files = .ok 0) :
    ((∃ doc, render py files = .ok doc) ↔ Renderable (recorded files)) ∧
      (¬ Renderable (recorded files) → ∃ e, render py files = .error (.exn e)) := by
  obtain ⟨hrender, hne, haudited, hC, henvironment⟩ := checked_load hcheck
  have hiff := renderMarkdown_returns_iff hF hne haudited hC henvironment
  have hescapes := renderMarkdown_escapes hne hC henvironment
  rw [hrender]
  refine ⟨hiff, fun hR => ?_⟩
  cases hdoc : renderMarkdown py (recorded files) with
  | ok doc => exact absurd (hiff.mp ⟨doc, hdoc⟩) hR
  | error raised =>
    cases raised with
    | report problem => exact (hescapes _ hdoc).elim
    | exn e => exact ⟨e, rfl⟩

/-- a file with another value of a field -/
def withField (key : String) (value : Value F) : Value F → Value F
  | .obj fields => .obj (fields.map fun p => if p.1 = key then (key, value) else p)
  | v => v

/-- `smallResult` without the `input_len` of its workload -/
def unsized : List (ResultFile Rat) :=
  [⟨"redline_batch1.json", .ok (withField "workload"
    (.obj [("num_requests", int 1), ("output_len", int 2)]) (smallResult "redline" 1024))⟩]

theorem unsized_runs : (checkResults plainBuiltins unsized).toOption = some 0 ∧
    (render plainBuiltins unsized).isOk = false := by
  decide +kernel

theorem unsized_not_rendered : ¬ ∃ doc, render plainBuiltins unsized = .ok doc :=
  fun h => Bool.noConfusion ((isOk_iff.mpr h).symm.trans unsized_runs.2)

/-- it passes, and it is not rendered -/
theorem passing_unsized : ¬ ∀ files, checkResults plainBuiltins files = .ok 0 →
    ∃ doc, render plainBuiltins files = .ok doc :=
  fun h => unsized_not_rendered (h unsized (eq_ok_of_toOption unsized_runs.1))

/-- of two sets of files that pass, one renders and one raises -/
theorem passing_renders_both : (∃ doc, render plainBuiltins (twoEngines 1024 1024) = .ok doc) ∧
    Renderable (recorded (twoEngines 1024 1024)) ∧ ¬ Renderable (recorded unsized) ∧
    ∃ e, render plainBuiltins unsized = .error (.exn e) := by
  have hF : ExactInts Rat := fun x i _ => rfl
  obtain ⟨hsized, _⟩ := passing_renders_iff Rat hF plainBuiltins (twoEngines 1024 1024)
    (eq_ok_of_toOption twoEngines_runs.1)
  obtain ⟨hunsized, hraises⟩ := passing_renders_iff Rat hF plainBuiltins unsized
    (eq_ok_of_toOption unsized_runs.1)
  have hdoc := isOk_iff.mp twoEngines_runs.2
  have hnot : ¬ Renderable (recorded unsized) := fun hR => unsized_not_rendered (hunsized.mpr hR)
  exact ⟨hdoc, hsized.mp hdoc, hnot, hraises hnot⟩

/-! ## the dagger -/

/-- the headline figures of the trials that a file records -/
def headlineFigures (result : Value F) : Except Exn (List (Value F)) := do
  let trials ← elements (← getItem "trials" result)
  (← trialMetrics trials).mapM (getItem headlineMetric)

/-- they spread beyond `limit` times their median -/
def Spreads (limit result : Value F) : Prop :=
  (do spreadExceeds (← headlineFigures result) limit) = .ok true

/-- `DISPERSION_FRACTION`, the rule for all files -/
def dispersionLimit : Value F := float (FloatOps.lit (3 / 100))

/-- the threshold that a file states itself -/
def statedThreshold (result : Value F) : Except Exn (Value F) := do
  getD "threshold_fraction" (← getItem "dispersion" result)

/-- the document has a row of the file with the dagger at its headline -/
def Daggered (py : Builtins F) (files : List (ResultFile F)) (r : Loaded F) : Prop :=
  ∃ doc, render py files = .ok doc ∧ ∃ s ∈ doc.sections, ∃ row ∈ s.rows, row.result = r ∧
    ∃ cell, row.cells.head? = some (some cell) ∧ cell.dagger = true

section
variable {result : Value F} (a : Audited result)

theorem Audited.spreads_iff {limit : Value F} :
    Spreads limit result ↔ spreadExceeds a.headline limit = .ok true := by
  have hfigures : headlineFigures result = .ok a.headline := by
    obtain ⟨v, hv, htrials⟩ := a.listed
    unfold headlineFigures
    rw [a.field hv, ok_bind, htrials]
    exact a.values
  unfold Spreads
  rw [hfigures, ok_bind]

theorem Audited.states : statedThreshold result = .ok a.threshold := by
  unfold statedThreshold
  rw [a.field a.spread, ok_bind, getD_obj, a.given]

end

/-- a dagger is within the file's own word -/
theorem Daggered.stated {files : List (ResultFile F)} {r : Loaded F} (h : Daggered py files r)
    (hkeys : ∀ r ∈ recorded files, wellKeyed r.result = true) :
    ∃ threshold, statedThreshold r.result = .ok threshold ∧ Spreads threshold r.result := by
  obtain ⟨doc, hdoc, s, hs, row, hrow, rfl, cell, hcell, hdagger⟩ := h
  obtain ⟨_, _, _, _, a, hback⟩ := rendered_row hdoc hkeys hs hrow
  obtain ⟨shown, hshown, hexceeds⟩ := hback.headline
  obtain rfl : cell = shown := Option.some.inj (Option.some.inj (hcell.symm.trans hshown))
  rw [hdagger] at hexceeds
  exact ⟨a.threshold, a.states, a.spreads_iff.mpr hexceeds⟩

/-- **A file clears its own dagger.**  Figures of a file that passes spread beyond the rule and have their
dagger, unless they stay within the threshold that the file states itself, or the set of files does not
render. -/
theorem dagger_iff (F : Type) [FloatOps F] (hF : ExactInts F) (py : Builtins F)
    (files : List (ResultFile F)) (hkeys : ∀ r ∈ recorded files, wellKeyed r.result = true)
    (hcheck : checkResults py files = .ok 0) (path : String) (result : Value F)
    (hfile : ⟨path, .ok result⟩ ∈ files) :
    (Spreads dispersionLimit result → Daggered py files ⟨path, result⟩) ↔
      (Spreads dispersionLimit result → Renderable (recorded files) ∧
        ∃ threshold, statedThreshold result = .ok threshold ∧ Spreads threshold result) := by
  obtain ⟨hrender, hne, haudited, hC, henvironment⟩ := checked_load hcheck
  have hiff := renderMarkdown_returns_iff hF hne haudited hC henvironment
  refine imp_congr_right fun _ => ⟨fun hdagger => ?_, ?_⟩
  · obtain ⟨doc, hdoc, _⟩ := id hdagger
    exact ⟨hiff.mp ⟨doc, hrender ▸ hdoc⟩, hdagger.stated hkeys⟩
  · rintro ⟨hR, threshold, hthreshold, hspread⟩
    obtain ⟨doc, hdoc⟩ := hiff.mpr hR
    rw [← hrender] at hdoc
    obtain ⟨s, hs, row, hrow, hcontent, hpath⟩ := rendered_file hdoc hfile
    obtain ⟨_, _, _, _, a, hback⟩ := rendered_row hdoc hkeys hs hrow
    obtain ⟨cell, hcell, hexceeds⟩ := hback.headline
    obtain rfl : result = row.result.result := Except.ok.inj hcontent
    obtain rfl : path = row.result.source := hpath
    obtain rfl : a.threshold = threshold := Except.ok.inj (a.states.symm.trans hthreshold)
    rw [a.spreads_iff.mp hspread] at hexceeds
    exact ⟨doc, hdoc, s, hs, row, hrow, rfl, cell, hcell, (Except.ok.inj hexceeds).symm⟩

/-- `shortResult` when it takes a spread as large as the median for none -/
def lenientResult : Value Rat :=
  withField "dispersion" (.obj [("metric", .str headlineMetric), ("threshold_fraction", float 1),
    ("values", .arr [float 1, float 2]), ("reran", .bool false), ("flag", .bool false)]) shortResult

def lenient : List (ResultFile Rat) := [⟨"redline_batch1.json", .ok lenientResult⟩]

theorem lenient_runs : (∀ r ∈ recorded lenient, wellKeyed r.result = true) ∧
    (checkResults plainBuiltins lenient).toOption = some 0 ∧
    (do spreadExceeds (← headlineFigures lenientResult) dispersionLimit).toOption = some true ∧
    (do spreadExceeds (← headlineFigures lenientResult) (← statedThreshold lenientResult)).toOption
      = some false := by
  decide +kernel

theorem lenient_spreads : Spreads dispersionLimit lenientResult :=
  eq_ok_of_toOption lenient_runs.2.2.1

theorem lenient_not_stated : ¬ ∃ threshold, statedThreshold lenientResult = .ok threshold ∧
    Spreads threshold lenientResult := by
  rintro ⟨threshold, hthreshold, hspread⟩
  have hown := eq_ok_of_toOption lenient_runs.2.2.2
  rw [hthreshold] at hown
  exact Bool.noConfusion (Except.ok.inj (hown.symm.trans hspread))

/-- twice the rate in one trial as in the other, and no dagger -/
theorem dagger_cleared : ¬ ∀ files : List (ResultFile Rat),
    (∀ r ∈ recorded files, wellKeyed r.result = true) → checkResults plainBuiltins files = .ok 0 →
      ∀ path result, ⟨path, .ok result⟩ ∈ files → Spreads dispersionLimit result →
        Daggered plainBuiltins files ⟨path, result⟩ := fun h => by
  obtain ⟨hkeys, hcheck, _⟩ := lenient_runs
  have hdagger := h lenient hkeys (eq_ok_of_toOption hcheck) _ _ (List.mem_singleton_self _)
    lenient_spreads
  exact lenient_not_stated (hdagger.stated hkeys)

/-- files that are seen to render -/
theorem renderable_of_ok (hF : ExactInts F) {files : List (ResultFile F)} {doc : Document F}
    (hcheck : checkResults py files = .ok 0) (hdoc : render py files = .ok doc) :
    Renderable (recorded files) := by
  obtain ⟨hrender, hne, haudited, hC, henvironment⟩ := checked_load hcheck
  exact (renderMarkdown_returns_iff hF hne haudited hC henvironment).mp ⟨doc, hrender ▸ hdoc⟩

/-- two files that spread alike: the one that states the rule has its dagger, the other has none -/
theorem dagger_both :
    Daggered plainBuiltins shortAndSmall ⟨"redline_batch1.json", shortResult⟩ ∧
    ¬ Daggered plainBuiltins lenient ⟨"redline_batch1.json", lenientResult⟩ := by
  have hF : ExactInts Rat := fun x i _ => rfl
  constructor
  · obtain ⟨hkeys, hcheck, hrender⟩ := shortAndSmall_runs
    obtain ⟨doc, hdoc, _⟩ := ok_of_map_toOption hrender
    have hcheck := eq_ok_of_toOption hcheck
    have hR := renderable_of_ok hF hcheck hdoc
    have hspread : Spreads dispersionLimit shortResult := eq_ok_of_toOption (by decide +kernel)
    exact (dagger_iff Rat hF plainBuiltins shortAndSmall hkeys hcheck _ _ (List.mem_cons_self ..)).mpr
      (fun _ => ⟨hR, _, rfl, hspread⟩) hspread
  · intro h
    obtain ⟨hkeys, hcheck, _⟩ := lenient_runs
    obtain ⟨_, hown⟩ := (dagger_iff Rat hF plainBuiltins lenient hkeys (eq_ok_of_toOption hcheck) _ _
      (List.mem_singleton_self _)).mp (fun _ => h) lenient_spreads
    exact lenient_not_stated hown

end Report
end Redline
