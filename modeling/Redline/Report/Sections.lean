import Redline.Report.Render

/-!
# The sections of a document

* `groupByCase_grouped`   `by_case` holds every file once, under the case of the first one that has it;
* `sections_share_iff`    when every row of a section states the workload of its header.
-/

namespace Redline
namespace Report
open Py Py.Value Throw

variable {F : Type} [FloatOps F] {py : Builtins F}

/-! ## the groups -/

omit [FloatOps F] in
theorem hashed_ok {v w : Value F} : hashed v = .ok w ↔ v = w ∧ hashable v = true := by
  unfold hashed
  by_cases h : hashable v = true
  · rw [if_pos h]
    exact ⟨fun he => ⟨Except.ok.inj he, h⟩, fun he => congrArg Except.ok he.1⟩
  · rw [if_neg h]
    exact ⟨fun he => (by cases he), fun he => absurd he.2 h⟩

/-- a file's case, which a dict can have for a key -/
def Loaded.HasCase (r : Loaded F) (case : Value F) : Prop :=
  r.item "case" = .ok case ∧ hashable case = true

/-- a group stands under the case of its first file, and the others have that case -/
structure OfCase (g : Value F × List (Loaded F)) : Prop where
  key : ∃ first rest, g.2 = first :: rest ∧ first.HasCase g.1 ∧
    ∀ r ∈ rest, ∃ case, r.HasCase case ∧ eq g.1 case = true

/-- the groups of a list of files -/
structure Grouped (results : List (Loaded F)) (groups : ByCase F) : Prop where
  ofCase : ∀ g ∈ groups, OfCase g
  distinct : groups.Pairwise fun g g' => eq g.1 g'.1 = false
  mem : ∀ r, r ∈ results ↔ ∃ g ∈ groups, r ∈ g.2

section
variable {case : Value F} {r : Loaded F} {groups : ByCase F}

theorem addResult_mem {x : Loaded F} :
    (∃ g ∈ addResult case r groups, x ∈ g.2) ↔ (∃ g ∈ groups, x ∈ g.2) ∨ x = r := by
  induction groups with
  | nil => simp [addResult]
  | cons g groups ih =>
    unfold addResult
    by_cases h : eq g.1 case = true
    · rw [if_pos h]
      simp only [List.exists_mem_cons_iff, List.mem_append, List.mem_singleton]
      exact or_right_comm
    · rw [if_neg h]
      simp only [List.exists_mem_cons_iff, ih, or_assoc]

theorem addResult_ofCase (hr : r.HasCase case) (h : ∀ g ∈ groups, OfCase g) :
    ∀ g ∈ addResult case r groups, OfCase g := by
  induction groups with
  | nil =>
    intro g hg
    obtain rfl := List.mem_singleton.mp hg
    exact ⟨r, [], rfl, hr, fun _ h => absurd h List.not_mem_nil⟩
  | cons g groups ih =>
    unfold addResult
    have hrest := ih fun g' hg' => h g' (List.mem_cons_of_mem _ hg')
    by_cases heq : eq g.1 case = true
    · rw [if_pos heq]
      intro g' hg'
      rcases List.mem_cons.mp hg' with rfl | hg'
      · obtain ⟨first, rest, hg, hfirst, hothers⟩ := (h g List.mem_cons_self).key
        refine ⟨first, rest ++ [r], by rw [hg]; rfl, hfirst, fun x hx => ?_⟩
        rcases List.mem_append.mp hx with hx | hx
        · exact hothers x hx
        · obtain rfl := List.mem_singleton.mp hx
          exact ⟨case, hr, heq⟩
      · exact h g' (List.mem_cons_of_mem _ hg')
    · rw [if_neg heq]
      intro g' hg'
      rcases List.mem_cons.mp hg' with rfl | hg'
      · exact h g' List.mem_cons_self
      · exact hrest g' hg'

/-- a key is old, or the new case that no group has -/
theorem addResult_keys {g : Value F × List (Loaded F)} (hg : g ∈ addResult case r groups) :
    (∃ g' ∈ groups, g'.1 = g.1) ∨ g.1 = case ∧ ∀ g' ∈ groups, eq g'.1 case = false := by
  induction groups with
  | nil =>
    obtain rfl := List.mem_singleton.mp hg
    exact Or.inr ⟨rfl, fun _ h => absurd h List.not_mem_nil⟩
  | cons g0 groups ih =>
    unfold addResult at hg
    by_cases h : eq g0.1 case = true
    · rw [if_pos h] at hg
      rcases List.mem_cons.mp hg with rfl | hg
      · exact Or.inl ⟨g0, List.mem_cons_self, rfl⟩
      · exact Or.inl ⟨g, List.mem_cons_of_mem _ hg, rfl⟩
    · rw [if_neg h] at hg
      rcases List.mem_cons.mp hg with rfl | hg
      · exact Or.inl ⟨g, List.mem_cons_self, rfl⟩
      · rcases ih hg with ⟨g', hg', heq⟩ | ⟨heq, hnew⟩
        · exact Or.inl ⟨g', List.mem_cons_of_mem _ hg', heq⟩
        · refine Or.inr ⟨heq, List.forall_mem_cons.mpr ⟨Bool.eq_false_iff.mpr h, hnew⟩⟩

theorem addResult_distinct (h : groups.Pairwise fun g g' => eq g.1 g'.1 = false) :
    (addResult case r groups).Pairwise fun g g' => eq g.1 g'.1 = false := by
  induction groups with
  | nil => exact List.pairwise_singleton _ _
  | cons g groups ih =>
    obtain ⟨hg, hgroups⟩ := List.pairwise_cons.mp h
    unfold addResult
    by_cases heq : eq g.1 case = true
    · rw [if_pos heq]
      exact List.pairwise_cons.mpr ⟨hg, hgroups⟩
    · rw [if_neg heq]
      refine List.pairwise_cons.mpr ⟨fun g' hg' => ?_, ih hgroups⟩
      rcases addResult_keys hg' with ⟨g0, hg0, hkey⟩ | ⟨hkey, _⟩
      · rw [← hkey]
        exact hg g0 hg0
      · rw [hkey]
        exact Bool.eq_false_iff.mpr heq

end

/-- **Each file stands in the group of its case.** -/
theorem groupByCase_grouped {results : List (Loaded F)} {groups : ByCase F}
    (h : groupByCase py results = .ok groups) : Grouped results groups := by
  have hnil : Grouped ([] : List (Loaded F)) [] :=
    ⟨fun _ h => absurd h List.not_mem_nil, .nil, fun _ => by simp⟩
  refine foldlM_ok Grouped (fun done groups r groups' hG hstep => ?_) results [] [] groups hnil h
  obtain ⟨case0, hcase0, hstep⟩ := bind_eq_ok.mp hstep
  obtain ⟨case, hcase, hstep⟩ := bind_eq_ok.mp hstep
  obtain ⟨rfl, hhash⟩ := hashed_ok.mp hcase
  obtain ⟨engine0, _, hstep⟩ := bind_eq_ok.mp hstep
  obtain ⟨engine, _, hstep⟩ := bind_eq_ok.mp hstep
  obtain ⟨named, _, hstep⟩ := bind_eq_ok.mp hstep
  have hadded : groups' = addResult case0 r groups := by
    split at hstep
    · cases hstep
    · obtain ⟨clash, _, hstep⟩ := bind_eq_ok.mp hstep
      split at hstep
      · obtain ⟨_, _, hstep⟩ := bind_eq_ok.mp hstep
        cases hstep
      · exact (Except.ok.inj hstep).symm
  rw [hadded]
  refine ⟨addResult_ofCase ⟨hcase0, hhash⟩ hG.ofCase, addResult_distinct hG.distinct, fun x => ?_⟩
  rw [addResult_mem, ← hG.mem x, List.mem_append, List.mem_singleton]

/-! ## the rows -/

theorem byEngine_perm {results sorted : List (Loaded F)} (h : byEngine results = .ok sorted) :
    sorted.Perm results := by
  obtain ⟨keyed, hkeyed, h⟩ := bind_eq_ok.mp h
  obtain ⟨ordered, hordered, h⟩ := bind_eq_ok.mp h
  obtain rfl := Except.ok.inj h
  have hsnd : ∀ l k, List.Forall₂
      (fun r p => (do return (← engineSortKey r, r) : Outcome F _) = .ok p) l k →
      k.map Prod.snd = l := by
    intro l k hf
    induction hf with
    | nil => rfl
    | cons hp _ ih =>
      obtain ⟨_, _, hp⟩ := bind_eq_ok.mp hp
      rw [List.map_cons, ih, ← Except.ok.inj hp]
  rw [← hsnd results keyed (mapM_eq_ok.mp hkeyed)]
  exact (sortBy_perm (lift_ok.mp hordered)).map Prod.snd

theorem renderRow_result {r : Loaded F} {row : Row F} (h : renderRow py r = .ok row) :
    row.result = r := by
  obtain ⟨_, _, h⟩ := bind_eq_ok.mp h
  obtain ⟨_, _, h⟩ := bind_eq_ok.mp h
  obtain ⟨_, _, h⟩ := bind_eq_ok.mp h
  obtain ⟨_, _, h⟩ := bind_eq_ok.mp h
  obtain ⟨_, _, h⟩ := bind_eq_ok.mp h
  rw [← Except.ok.inj h]

/-- the section of a group -/
structure Shows (s : Section F) (g : Value F × List (Loaded F)) : Prop where
  header : ∃ first rest, g.2 = first :: rest ∧ workloadDims first = .ok s.header
  rows : ∀ r, r ∈ g.2 ↔ ∃ row ∈ s.rows, row.result = r

theorem renderSection_shows {g : Value F × List (Loaded F)} {s : Section F}
    (h : renderSection py g.1 g.2 = .ok s) :
    Shows s g := by
  obtain ⟨case, engines⟩ := g
  cases engines with
  | nil => cases h
  | cons first rest =>
    obtain ⟨header, hheader, h⟩ := bind_eq_ok.mp h
    obtain ⟨sorted, hsorted, h⟩ := bind_eq_ok.mp h
    obtain ⟨rows, hrows, h⟩ := bind_eq_ok.mp h
    obtain rfl := Except.ok.inj h
    refine ⟨⟨first, rest, rfl, hheader⟩, fun r => ?_⟩
    show r ∈ first :: rest ↔ _
    rw [← (byEngine_perm hsorted).mem_iff]
    constructor
    · intro hr
      obtain ⟨row, hrow, heq⟩ := mem_mapM hrows hr
      exact ⟨row, hrow, renderRow_result heq⟩
    · rintro ⟨row, hrow, rfl⟩
      obtain ⟨r, hr, heq⟩ := of_mem_mapM hrows hrow
      rw [renderRow_result heq]
      exact hr

/-- **The sections of a document are those of its groups.** -/
theorem renderMarkdown_sections {results : List (Loaded F)} {doc : Document F}
    (h : renderMarkdown py results = .ok doc) :
    ∃ groups, Grouped results groups ∧ (∀ s ∈ doc.sections, ∃ g ∈ groups, Shows s g) ∧
      ∀ g ∈ groups, ∃ s ∈ doc.sections, Shows s g := by
  unfold renderMarkdown at h
  split at h
  · cases h
  obtain ⟨_, _, h⟩ := bind_eq_ok.mp h
  obtain ⟨groups, hgroups, h⟩ := bind_eq_ok.mp h
  obtain ⟨cases, hcases, h⟩ := bind_eq_ok.mp h
  obtain ⟨sections, hsections, h⟩ := bind_eq_ok.mp h
  obtain ⟨_, _, h⟩ := bind_eq_ok.mp h
  obtain ⟨_, _, h⟩ := bind_eq_ok.mp h
  obtain ⟨_, _, h⟩ := bind_eq_ok.mp h
  obtain ⟨_, _, h⟩ := bind_eq_ok.mp h
  obtain rfl := Except.ok.inj h
  have hperm := sortBy_perm (lift_ok.mp hcases)
  refine ⟨groups, groupByCase_grouped hgroups, fun s hs => ?_, fun g hg => ?_⟩
  · obtain ⟨c, hc, heq⟩ := of_mem_mapM hsections hs
    obtain ⟨g, hg, rfl⟩ := List.mem_map.mp (hperm.mem_iff.mp hc)
    exact ⟨g, hg, renderSection_shows heq⟩
  · have hc := hperm.mem_iff.mpr (List.mem_map.mpr ⟨g, hg, rfl⟩)
    obtain ⟨s, hs, heq⟩ := mem_mapM hsections hc
    exact ⟨s, hs, renderSection_shows heq⟩

/-! ## one workload -/

/-- two files record the same case -/
def SameCase (a b : Loaded F) : Prop := ∃ c d, a.HasCase c ∧ b.HasCase d ∧ eq c d = true

/-- a file of a group has the key of the group -/
theorem OfCase.key_of {g : Value F × List (Loaded F)} (h : OfCase g) {r : Loaded F} (hr : r ∈ g.2)
    {case : Value F}
    (hcase : r.HasCase case) {k : Value.Key} (hk : case.key = some k) : g.1.key = some k := by
  obtain ⟨first, rest, hg, hfirst, hrest⟩ := h.key
  rw [hg] at hr
  rcases List.mem_cons.mp hr with rfl | hr
  · rw [Except.ok.inj (hfirst.1.symm.trans hcase.1)]
    exact hk
  · obtain ⟨case', hcase', heq⟩ := hrest r hr
    obtain rfl : case' = case := Except.ok.inj (hcase'.1.symm.trans hcase.1)
    obtain ⟨k', h1, h2⟩ := (eq_iff_key hfirst.2).mp heq
    rw [h1, ← h2, hk]

/-- no two groups have one key -/
theorem Grouped.same {results : List (Loaded F)} {groups : ByCase F} (hG : Grouped results groups)
    {g g' : Value F × List (Loaded F)} (hg : g ∈ groups) (hg' : g' ∈ groups) {k : Value.Key}
    (hk : g.1.key = some k) (hk' : g'.1.key = some k) : g = g' := by
  have hhash : ∀ h ∈ groups, hashable h.1 = true := fun h hh => by
    obtain ⟨_, _, _, hfirst, _⟩ := (hG.ofCase h hh).key
    exact hfirst.2
  obtain ⟨i, hi, rfl⟩ := List.getElem_of_mem hg
  obtain ⟨j, hj, rfl⟩ := List.getElem_of_mem hg'
  have hall := List.pairwise_iff_getElem.mp hG.distinct
  rcases Nat.lt_trichotomy i j with hlt | rfl | hlt
  · have heq := (eq_iff_key (hhash _ hg)).mpr ⟨k, hk, hk'⟩
    rw [hall i j hi hj hlt] at heq
    cases heq
  · rfl
  · have heq := (eq_iff_key (hhash _ hg')).mpr ⟨k, hk', hk⟩
    rw [hall j i hj hi hlt] at heq
    cases heq

theorem renderMarkdown_share_iff {results : List (Loaded F)} {doc : Document F}
    (hdoc : renderMarkdown py results = .ok doc) :
    (∀ s ∈ doc.sections, ∀ row ∈ s.rows, workloadDims row.result = .ok s.header) ↔
      ∀ a ∈ results, ∀ b ∈ results, SameCase a b → workloadDims a = workloadDims b := by
  obtain ⟨groups, hG, hsections, hgroups⟩ := renderMarkdown_sections hdoc
  constructor
  · rintro hshare a ha b hb ⟨c, d, hc, hd, hcd⟩
    obtain ⟨g, hg, hag⟩ := (hG.mem a).mp ha
    obtain ⟨g', hg', hbg⟩ := (hG.mem b).mp hb
    obtain ⟨k, hkc, hkd⟩ := (eq_iff_key hc.2).mp hcd
    have hkey : g.1.key = some k := (hG.ofCase g hg).key_of hag hc hkc
    have hkey' : g'.1.key = some k := (hG.ofCase g' hg').key_of hbg hd hkd
    obtain rfl := hG.same hg hg' hkey hkey'
    obtain ⟨s, hs, hshows⟩ := hgroups g hg
    obtain ⟨row, hrow, hra⟩ := (hshows.rows a).mp hag
    obtain ⟨row', hrow', hrb⟩ := (hshows.rows b).mp hbg
    rw [← hra, ← hrb, hshare s hs row hrow, hshare s hs row' hrow']
  · intro hall s hs row hrow
    obtain ⟨g, hg, hshows⟩ := hsections s hs
    obtain ⟨first, rest, hlist, hheader⟩ := hshows.header
    have hmem : row.result ∈ g.2 := (hshows.rows _).mpr ⟨row, hrow, rfl⟩
    obtain ⟨first', rest', hlist', hfirst, hrest⟩ := (hG.ofCase g hg).key
    obtain ⟨rfl, rfl⟩ := List.cons.inj (hlist.symm.trans hlist')
    rw [hlist] at hmem
    rcases List.mem_cons.mp hmem with heq | hmem
    · rw [heq]
      exact hheader
    · obtain ⟨case, hcase, heq⟩ := hrest _ hmem
      have hin : ∀ r ∈ first :: rest, r ∈ results := fun r hr => (hG.mem r).mpr ⟨g, hg, hlist ▸ hr⟩
      rw [← hheader]
      exact (hall first (hin first List.mem_cons_self) _ (hin _ (List.mem_cons_of_mem _ hmem))
        ⟨g.1, case, hfirst, hcase, heq⟩).symm

/-- the files that were read -/
def recorded (files : List (ResultFile F)) : List (Loaded F) :=
  files.filterMap fun file => match file.content with
    | .ok result => some ⟨file.path, result⟩
    | .error _ => none

theorem loadFile_ok {file : ResultFile F} {r : Loaded F} (h : loadFile file = .ok r) :
    ∃ result, file.content = .ok result ∧ r = ⟨file.path, result⟩ := by
  unfold loadFile at h
  split at h
  · cases h
  · cases h
  · rename_i result hcontent
    split at h
    · exact ⟨result, hcontent, (Except.ok.inj h).symm⟩
    · cases h
    · cases h

theorem loadResults_recorded {files : List (ResultFile F)} {results : List (Loaded F)}
    (h : loadResults files = .ok results) : results = recorded files := by
  unfold loadResults at h
  by_cases hempty : files.isEmpty = true
  · rw [if_pos hempty] at h
    cases h
  rw [if_neg hempty] at h
  have hall := mapM_eq_ok.mp h
  clear h hempty
  unfold recorded
  induction hall with
  | nil => rfl
  | cons hfile _ ih =>
    obtain ⟨result, hcontent, rfl⟩ := loadFile_ok hfile
    rw [List.filterMap_cons_some (by rw [hcontent]), ih]

/-- **Every row states the workload of its header exactly when any two files of one case record one
workload.** -/
theorem sections_share_iff {files : List (ResultFile F)} {doc : Document F}
    (hdoc : render py files = .ok doc) :
    (∀ s ∈ doc.sections, ∀ row ∈ s.rows, workloadDims row.result = .ok s.header) ↔
      ∀ a ∈ recorded files, ∀ b ∈ recorded files, SameCase a b → workloadDims a = workloadDims b := by
  obtain ⟨results, hresults, hdoc⟩ := bind_eq_ok.mp hdoc
  rw [← loadResults_recorded hresults]
  exact renderMarkdown_share_iff hdoc

/-! ## two files -/

/-- the texts of a file without versions, captures and dates -/
def plainBuiltins : Builtins Rat where
  str v := match v with
    | .str s => s
    | _ => ""
  search _ _ := none
  isMatch _ _ := false

/-- one trial of one request of two tokens, one second apart -/
def smallTrial : Value Rat :=
  .obj [("metrics", .obj [("total_new_tokens", int 2), ("wall_window_s", float 2),
    ("throughput_tok_s", float 1),
      ("ttft_p50_s", float 1), ("ttft_p99_s", float 1), ("num_requests", int 1), ("itl_p50_s", float 1),
      ("itl_p99_s", float 1), ("decode_rate_p50_tok_s", float 1), ("decode_rate_min_tok_s", float 1),
      ("decode_rate_max_tok_s", float 1)]),
    ("requests", .arr [.obj [("request_id", int 0), ("enqueue_time_s", float 0),
      ("token_times_s", .arr [float 1, float 2]), ("token_ids", .arr [int 5, int 6]),
      ("finish_reason", .str "length")]])]

def smallResult (engine : String) (inputLen : Int) : Value Rat :=
  .obj [("schema_version", int 1), ("engine", .str engine), ("case", .str "batch1"),
    ("workload", .obj [("num_requests", int 1), ("input_len", int inputLen), ("output_len", int 2)]),
    ("engine_config", .obj [("engine", .str engine)]),
    ("environment", .obj [("command_line", .arr [.str "run_bench.py"]), ("nvidia_smi_q", .null)]),
    ("trials", .arr [smallTrial]), ("median_trial_index", int 0),
    ("metrics", .obj (metricLabels.map fun (name, label) =>
      (name, .obj [("value", float 1), ("min", float 1), ("max", float 1), ("label", .str label)]))),
    ("dispersion", .obj [("metric", .str headlineMetric), ("threshold_fraction", float (3 / 100)),
      ("values", .arr [float 1]), ("reran", .bool false), ("flag", .bool false)]),
    ("forced_length_ok", .bool true)]

/-- two engines of one case -/
def twoEngines (inputLen inputLen' : Int) : List (ResultFile Rat) :=
  [⟨"redline_batch1.json", .ok (smallResult "redline" inputLen)⟩,
    ⟨"vllm_batch1.json", .ok (smallResult "vllm" inputLen')⟩]

/-- the input lengths of the rows, beside the one of their header -/
def inputLens (doc : Document Rat) : List (List (Option Int) × Option Int) :=
  doc.sections.map fun s => (s.rows.map fun row => match workloadDims row.result with
    | .ok d => asInt d.inputLen
    | .error _ => none, asInt s.header.inputLen)

theorem inputLens_of_shared {doc : Document Rat}
    (h : ∀ s ∈ doc.sections, ∀ row ∈ s.rows, workloadDims row.result = .ok s.header) :
    ∀ p ∈ inputLens doc, ∀ n ∈ p.1, n = p.2 := by
  intro p hp n hn
  obtain ⟨s, hs, rfl⟩ := List.mem_map.mp hp
  obtain ⟨row, hrow, rfl⟩ := List.mem_map.mp hn
  rw [h s hs row hrow]

/-- two files of one workload pass, and they render -/
theorem twoEngines_runs : (checkResults plainBuiltins (twoEngines 1024 1024)).toOption = some 0 ∧
    (render plainBuiltins (twoEngines 1024 1024)).isOk = true := by
  decide +kernel

theorem sections_share_two : ∃ doc, render plainBuiltins (twoEngines 1024 1024) = .ok doc ∧
    ((∀ s ∈ doc.sections, ∀ row ∈ s.rows, workloadDims row.result = .ok s.header) ↔
      ∀ a ∈ recorded (twoEngines 1024 1024), ∀ b ∈ recorded (twoEngines 1024 1024),
        SameCase a b → workloadDims a = workloadDims b) := by
  obtain ⟨doc, hdoc⟩ := isOk_iff.mp twoEngines_runs.2
  exact ⟨doc, hdoc, sections_share_iff hdoc⟩

/-- the check accepts 1024 and 512 tokens in one section -/
theorem mixed_workloads_accepted :
    (checkResults plainBuiltins (twoEngines 1024 512)).toOption = some 0 ∧
    ∃ doc, render plainBuiltins (twoEngines 1024 512) = .ok doc ∧
      ¬ ∀ s ∈ doc.sections, ∀ row ∈ s.rows, workloadDims row.result = .ok s.header := by
  have hruns : (checkResults plainBuiltins (twoEngines 1024 512)).toOption = some 0 ∧
      (render plainBuiltins (twoEngines 1024 512)).toOption.map inputLens
        = some [([some 1024, some 512], some 1024)] := by
    decide +kernel
  obtain ⟨doc, hdoc, hlens⟩ := ok_of_map_toOption hruns.2
  refine ⟨hruns.1, doc, hdoc, fun hshare => ?_⟩
  have hall :=
    inputLens_of_shared hshare ([some 1024, some 512], some 1024)
      (by rw [hlens]; exact List.mem_cons_self)
  exact absurd (hall (some 512) (by decide)) (by decide)

end Report
end Redline
