import Redline.Bench.Workload
import Redline.Lib.Extended
import Redline.Lib.FirstDiff

/-!
# The equivalence gate

`equivalence_gate`, `hf_margin_review` and `gate_passes` of `bench/run_bench.py`: the engines' token
streams against the first engine's, and the verdict.

* `equivalenceGate_eq`     the transcript of the gate, where each engine kept its lengths;
* `reviewed_passes_iff`    the verdict after the review of the margins;
* `gate_sound`             the divergences, the match flag, and the verdict under any margins and after a
                           review.
-/

namespace Redline
namespace RunBench
open FirstDiff

/-- a Python float, without its rounding -/
abbrev Number := Extended Rat

/-- `EQUIVALENCE_MARGIN` -/
def equivalenceMargin : Number := .real (1 / 10)

def equivalenceWorkload (seed : Int) : Workload := syntheticWorkload "equivalence" ⟨5, 64, 32, 0⟩ seed

/-- what the review adds to a divergence -/
structure Review where
  hfMargin : Number
  hfTop1Token : Int
  hfTop2Token : Int
  hfTop1Logit : Number
  hfTop2Logit : Number

structure Divergence where
  position : Nat
  referenceToken : Int
  candidateToken : Int
  hfMargin : Option Number
  /-- the tokens and logits of a review -/
  review : Option Review := none

structure Comparison where
  reference : String
  candidate : String
  requestId : Int
  /-- the key `match` -/
  matched : Bool
  firstDivergence : Option Divergence

structure Transcript where
  prompts : List (List Int)
  engines : List String
  streams : String → Option (List (List Int))
  comparisons : List Comparison
  allMatch : Bool

inductive GateError where
  | bench (error : BenchError)
  | requestKey (requestId : Int)
  | engineKey (engine : String)
  | index (requestId : Int)
  | weights (dtype : String)

/-! ## the turns of the engines -/

/-- an adapter, by its name and by what its turn returns -/
structure Turn where
  name : String
  traces : List RequestTrace

/-- `by_id`: a later trace replaces one of the same id -/
def byId (traces : List RequestTrace) (requestId : Int) : Option RequestTrace :=
  traces.reverse.find? fun t => t.requestId == requestId

def streamOf (traces : List RequestTrace) (requestId : Int) : Except GateError (List Int) :=
  match byId traces requestId with
  | none => .error (.requestKey requestId)
  | some trace => .ok trace.tokenIds

/-- `streams` and `order` -/
structure Recorded where
  streams : String → Option (List (List Int))
  order : List String

def takeTurn (workload : Workload) (recorded : Recorded) (turn : Turn) : Except GateError Recorded := do
  (assertForcedLengths turn.traces workload).mapError .bench
  let streams ← workload.requests.mapM fun r => streamOf turn.traces r.requestId
  return ⟨Function.update recorded.streams turn.name (some streams), recorded.order ++ [turn.name]⟩

/-! ## comparisons -/

/-- `streams[engine][request_id]`; the ids are not negative -/
def stream (streams : String → Option (List (List Int))) (engine : String) (requestId : Int) :
    Except GateError (List Int) :=
  match streams engine with
  | none => .error (.engineKey engine)
  | some all =>
    match all[requestId.toNat]? with
    | none => .error (.index requestId)
    | some tokens => .ok tokens

def divergence (refTokens candTokens : List Int) : Option Divergence :=
  (firstDiff refTokens candTokens).map fun position =>
    { position := position
      referenceToken := refTokens.getD position 0
      candidateToken := candTokens.getD position 0
      hfMargin := none }

def compareTokens (reference candidate : String) (requestId : Int)
    (refTokens candTokens : List Int) : Comparison where
  reference := reference
  candidate := candidate
  requestId := requestId
  matched := (divergence refTokens candTokens).isNone && refTokens.length == candTokens.length
  firstDivergence := divergence refTokens candTokens

def compareStreams (streams : String → Option (List (List Int))) (reference candidate : String)
    (requestId : Int) :
    Except GateError Comparison := do
  let refTokens ← stream streams reference requestId
  let candTokens ← stream streams candidate requestId
  return compareTokens reference candidate requestId refTokens candTokens

def comparisons (workload : Workload) (recorded : Recorded) : Except GateError (List Comparison) :=
  match recorded.order with
  | [] => .ok []
  | reference :: candidates => do
    let rows ← candidates.mapM fun candidate =>
      workload.requests.mapM fun request =>
        compareStreams recorded.streams reference candidate request.requestId
    return rows.flatten

def equivalenceGate (turns : List Turn) (seed : Int) : Except GateError Transcript := do
  let workload := equivalenceWorkload seed
  let recorded ← turns.foldlM (takeTurn workload) ⟨fun _ => none, []⟩
  let comparisons ← comparisons workload recorded
  return {
    prompts := workload.requests.map (·.promptTokenIds)
    engines := recorded.order
    streams := recorded.streams
    comparisons := comparisons
    allMatch := comparisons.foldl (fun allMatch c => allMatch && c.matched) true }

/-! ## the verdict -/

def passes (threshold : Number) (comparison : Comparison) : Bool :=
  comparison.matched ||
    match comparison.firstDivergence with
    | none => false
    | some divergence =>
      match divergence.hfMargin with
      | none => false
      | some margin => margin.below threshold

def gatePasses (transcript : Transcript) (marginThreshold : Number := equivalenceMargin) : Bool :=
  if transcript.allMatch then true else transcript.comparisons.all (passes marginThreshold)

/-! ## the review -/

/-- the model of the review, by its weights and by what its forward pass gives after a prefix -/
structure HfModel where
  dtype : String
  topTwo : List Int → Review

def promptOf (transcript : Transcript) (requestId : Int) : Except GateError (List Int) :=
  match transcript.prompts[requestId.toNat]? with
  | none => .error (.index requestId)
  | some prompt => .ok prompt

/-- a comparison with a divergence to review -/
def toReview (c : Comparison) : Bool := !c.matched && c.firstDivergence.isSome

def reviewComparison (model : HfModel) (transcript : Transcript) (reference : String) (c : Comparison) :
    Except GateError Comparison :=
  match c.matched, c.firstDivergence with
  | false, some divergence => do
    let prompt ← promptOf transcript c.requestId
    let tokens ← stream transcript.streams reference c.requestId
    let top := model.topTwo (prompt ++ tokens.take divergence.position)
    return { c with firstDivergence := some { divergence with hfMargin := some top.hfMargin, review := some top } }
  | _, _ => return c

/-- with the number of the reviewed divergences, where the review ran -/
def hfMarginReview (model : HfModel) (transcript : Transcript) :
    Except GateError (Option Nat × Transcript) :=
  match transcript.comparisons with
  | [] => return (none, transcript)
  | first :: _ =>
    let divergences := transcript.comparisons.filter toReview
    if divergences.isEmpty then return (none, transcript)
    else if model.dtype ≠ "torch.float16" then .error (.weights model.dtype)
    else do
      let reviewed ← transcript.comparisons.mapM (reviewComparison model transcript first.reference)
      return (some divergences.length, { transcript with comparisons := reviewed })

/-- the slots `hf_margin` of the divergences, filled in any way -/
def Transcript.fill (margin : String → Int → Option Number) (transcript : Transcript) : Transcript :=
  { transcript with
    comparisons := transcript.comparisons.map fun c =>
      { c with firstDivergence := c.firstDivergence.map fun d =>
        { d with hfMargin := margin c.candidate c.requestId } } }

/-! ## the transcript -/

section
variable {turns : List Turn} {seed : Int}

/-- the stream of a request, empty without a trace -/
def Turn.tokens (turn : Turn) (requestId : Int) : List Int :=
  ((byId turn.traces requestId).map (·.tokenIds)).getD []

def Turn.Forced (seed : Int) (turn : Turn) : Prop :=
  assertForcedLengths turn.traces (equivalenceWorkload seed) = .ok ()

def requestIds (seed : Int) : List Int := (equivalenceWorkload seed).requests.map (·.requestId)

/-- the rows of the comparisons: each candidate, each request -/
def rows : List Turn → List Int → List Comparison
  | [], _ => []
  | reference :: candidates, ids => candidates.flatMap fun candidate => ids.map fun id =>
      compareTokens reference.name candidate.name id (reference.tokens id) (candidate.tokens id)

theorem streamOf_eq {traces : List RequestTrace} {name : String} {id : Int}
    (h : id ∈ traces.map (·.requestId)) :
    streamOf traces id = .ok (Turn.tokens ⟨name, traces⟩ id) := by
  obtain ⟨t, ht, hid⟩ := List.mem_map.mp h
  unfold streamOf Turn.tokens
  cases hfind : byId traces id with
  | some trace => rfl
  | none => exact absurd (beq_iff_eq.mpr hid) (List.find?_eq_none.mp hfind t (List.mem_reverse.mpr ht))

/-- what a turn adds -/
def Recorded.push (seed : Int) (recorded : Recorded) (turn : Turn) : Recorded :=
  ⟨Function.update recorded.streams turn.name (some ((requestIds seed).map turn.tokens)),
    recorded.order ++ [turn.name]⟩

theorem equivalence_distinct (seed : Int) : (equivalenceWorkload seed).Distinct :=
  synthetic_distinct seed _ _

theorem takeTurn_iff {recorded recorded' : Recorded} {turn : Turn} :
    takeTurn (equivalenceWorkload seed) recorded turn = .ok recorded' ↔
      turn.Forced seed ∧ recorded' = recorded.push seed turn := by
  unfold takeTurn
  have hstreams : turn.Forced seed → (equivalenceWorkload seed).requests.mapM
      (fun r => streamOf turn.traces r.requestId) = .ok ((requestIds seed).map turn.tokens) := by
    intro hforced
    have htraced := ((assertForcedLengths_iff (equivalence_distinct seed)).mp hforced).traced
    unfold requestIds
    rw [List.map_map]
    exact Throw.mapM_ok fun r hr => streamOf_eq (htraced r hr)
  rw [Throw.bind_eq_ok]
  constructor
  · rintro ⟨_, hcheck, hrest⟩
    have hforced : turn.Forced seed := Throw.mapError_eq_ok.mp hcheck
    rw [Throw.bind_of_ok (hstreams hforced)] at hrest
    exact ⟨hforced, (Except.ok.inj hrest).symm⟩
  · rintro ⟨hforced, rfl⟩
    exact ⟨(), Throw.mapError_eq_ok.mpr hforced, Throw.bind_of_ok (hstreams hforced)⟩

theorem push_order (recorded : Recorded) :
    (turns.foldl (Recorded.push seed) recorded).order = recorded.order ++ turns.map (·.name) := by
  induction turns generalizing recorded with
  | nil => exact (List.append_nil _).symm
  | cons turn turns ih =>
    rw [List.foldl_cons, ih]
    exact List.append_assoc _ _ _

theorem push_frame {name : String} (hname : name ∉ turns.map (·.name)) (recorded : Recorded) :
    (turns.foldl (Recorded.push seed) recorded).streams name = recorded.streams name := by
  induction turns generalizing recorded with
  | nil => rfl
  | cons turn turns ih =>
    rw [List.map_cons, List.mem_cons, not_or] at hname
    rw [List.foldl_cons, ih hname.2]
    exact Function.update_of_ne hname.1 _ _

theorem push_streams (hnames : (turns.map (·.name)).Nodup) (recorded : Recorded) {turn : Turn}
    (hturn : turn ∈ turns) :
    (turns.foldl (Recorded.push seed) recorded).streams turn.name
      = some ((requestIds seed).map turn.tokens) := by
  induction turns generalizing recorded with
  | nil => cases hturn
  | cons first turns ih =>
    obtain ⟨hfirst, hrest⟩ := List.nodup_cons.mp hnames
    rw [List.foldl_cons]
    rcases List.mem_cons.mp hturn with rfl | hturn
    · rw [push_frame hfirst]
      exact Function.update_self _ _ _
    · exact ih hrest _ hturn

theorem requestIds_getElem? {id : Int} (hid : id ∈ requestIds seed) :
    (requestIds seed)[id.toNat]? = some id := by
  have hids : requestIds seed = (List.range 5).map fun (r : Nat) => (r : Int) := rfl
  rw [hids] at hid ⊢
  obtain ⟨r, hr, rfl⟩ := List.mem_map.mp hid
  rw [List.getElem?_map, Int.toNat_natCast, List.getElem?_range (List.mem_range.mp hr)]
  rfl

theorem stream_eq {streams : String → Option (List (List Int))} {turn : Turn} {id : Int}
    (h : streams turn.name = some ((requestIds seed).map turn.tokens)) (hid : id ∈ requestIds seed) :
    stream streams turn.name id = .ok (turn.tokens id) := by
  unfold stream
  rw [h]
  simp only [List.getElem?_map, requestIds_getElem? hid]
  rfl

theorem comparisons_eq {recorded : Recorded} (horder : recorded.order = turns.map (·.name))
    (hstreams : ∀ turn ∈ turns, recorded.streams turn.name = some ((requestIds seed).map turn.tokens)) :
    comparisons (equivalenceWorkload seed) recorded = .ok (rows turns (requestIds seed)) := by
  unfold comparisons
  rw [horder]
  cases turns with
  | nil => rfl
  | cons reference candidates =>
    rw [List.forall_mem_cons] at hstreams
    have hrow : ∀ candidate ∈ candidates, (equivalenceWorkload seed).requests.mapM
        (fun request => compareStreams recorded.streams reference.name candidate.name request.requestId) =
        .ok ((requestIds seed).map fun id =>
          compareTokens reference.name candidate.name id (reference.tokens id)
            (candidate.tokens id)) := by
      intro candidate hcandidate
      unfold requestIds
      rw [List.map_map]
      refine Throw.mapM_ok fun request hrequest => ?_
      have hid : request.requestId ∈ requestIds seed := List.mem_map_of_mem hrequest
      unfold compareStreams
      rw [Throw.bind_of_ok (stream_eq hstreams.1 hid),
        Throw.bind_of_ok (stream_eq (hstreams.2 candidate hcandidate) hid)]
      rfl
    have hrows : (candidates.map (·.name)).mapM
        (fun candidate => (equivalenceWorkload seed).requests.mapM
        fun request => compareStreams recorded.streams reference.name candidate request.requestId) =
        .ok (candidates.map fun candidate => (requestIds seed).map fun id =>
          compareTokens reference.name candidate.name id (reference.tokens id)
            (candidate.tokens id)) := by
      rw [List.mapM_map]
      exact Throw.mapM_ok hrow
    show (List.mapM _ (candidates.map (·.name)) >>= fun rows => Except.ok rows.flatten) = _
    rw [Throw.bind_of_ok hrows]
    rfl

/-- the transcript of turns that kept their lengths -/
def transcriptOf (turns : List Turn) (seed : Int) : Transcript where
  prompts := (equivalenceWorkload seed).requests.map (·.promptTokenIds)
  engines := turns.map (·.name)
  streams := (turns.foldl (Recorded.push seed) ⟨fun _ => none, []⟩).streams
  comparisons := rows turns (requestIds seed)
  allMatch := (rows turns (requestIds seed)).foldl (fun allMatch c => allMatch && c.matched) true

theorem equivalenceGate_eq (hnames : (turns.map (·.name)).Nodup) {transcript : Transcript} :
    equivalenceGate turns seed = .ok transcript ↔
      (∀ turn ∈ turns, turn.Forced seed) ∧ transcript = transcriptOf turns seed := by
  have hfold : ∀ {recorded : Recorded},
      turns.foldlM (takeTurn (equivalenceWorkload seed)) ⟨fun _ => none, []⟩ = .ok recorded ↔
      (∀ turn ∈ turns, turn.Forced seed) ∧
        recorded = turns.foldl (Recorded.push seed) ⟨fun _ => none, []⟩ :=
    Throw.foldlM_iff (p := Turn.Forced seed) (g := Recorded.push seed) fun _ _ _ => takeTurn_iff
  have hcomparisons : comparisons (equivalenceWorkload seed)
      (turns.foldl (Recorded.push seed) ⟨fun _ => none, []⟩)
      = .ok (rows turns (requestIds seed)) :=
    comparisons_eq (push_order _) fun turn hturn => push_streams hnames _ hturn
  have horder : (turns.foldl (Recorded.push seed) ⟨fun _ => none, []⟩).order = turns.map (·.name) :=
    push_order _
  unfold equivalenceGate
  rw [Throw.bind_eq_ok]
  constructor
  · rintro ⟨recorded, hrun, hrest⟩
    obtain ⟨hforced, rfl⟩ := hfold.mp hrun
    rw [Throw.bind_of_ok hcomparisons, horder] at hrest
    exact ⟨hforced, (Except.ok.inj hrest).symm⟩
  · rintro ⟨hforced, rfl⟩
    refine ⟨_, hfold.mpr ⟨hforced, rfl⟩, ?_⟩
    rw [Throw.bind_of_ok hcomparisons, horder]
    rfl

/-! ## what the transcript says -/

/-- a comparison says of two streams what there is to say -/
structure Records (refTokens candTokens : List Int) (c : Comparison) : Prop where
  position : ∀ i, (∃ d, c.firstDivergence = some d ∧ d.position = i) ↔ IsFirst refTokens candTokens i
  none_iff : c.firstDivergence = none ↔ ¬ ∃ i, IsFirst refTokens candTokens i
  tokens : ∀ d, c.firstDivergence = some d → refTokens[d.position]? = some d.referenceToken ∧
    candTokens[d.position]? = some d.candidateToken ∧ d.hfMargin = none
  matched : c.matched = true ↔ candTokens = refTokens

theorem divergence_eq_some {refTokens candTokens : List Int} {d : Divergence} :
    divergence refTokens candTokens = some d ↔ IsFirst refTokens candTokens d.position ∧
      d = ⟨d.position, refTokens.getD d.position 0, candTokens.getD d.position 0, none, none⟩ := by
  unfold divergence
  rw [Option.map_eq_some_iff]
  constructor
  · rintro ⟨i, hi, rfl⟩
    exact ⟨firstDiff_eq_some.mp hi, rfl⟩
  · rintro ⟨hi, hd⟩
    exact ⟨d.position, firstDiff_eq_some.mpr hi, hd.symm⟩

theorem divergence_eq_none {refTokens candTokens : List Int} :
    divergence refTokens candTokens = none ↔ ¬ ∃ i, IsFirst refTokens candTokens i := by
  unfold divergence
  rw [Option.map_eq_none_iff]
  constructor
  · rintro hnone ⟨i, hi⟩
    rw [firstDiff_eq_some.mpr hi] at hnone
    cases hnone
  · intro h
    cases hfirst : firstDiff refTokens candTokens with
    | none => rfl
    | some i => exact absurd ⟨i, firstDiff_eq_some.mp hfirst⟩ h

theorem compareTokens_matched {reference candidate : String} {id : Int}
    {refTokens candTokens : List Int} :
    (compareTokens reference candidate id refTokens candTokens).matched = true ↔
      candTokens = refTokens := by
  show ((divergence refTokens candTokens).isNone && refTokens.length == candTokens.length) = true ↔ _
  unfold divergence
  rw [Bool.and_eq_true, Option.isNone_iff_eq_none, Option.map_eq_none_iff, beq_iff_eq,
    ← FirstDiff.eq_iff]
  exact eq_comm

theorem compareTokens_records (reference candidate : String) (id : Int)
    (refTokens candTokens : List Int) :
    Records refTokens candTokens (compareTokens reference candidate id refTokens candTokens) where
  position i := by
    constructor
    · rintro ⟨d, hd, rfl⟩
      exact (divergence_eq_some.mp hd).1
    · intro hi
      exact ⟨⟨i, refTokens.getD i 0, candTokens.getD i 0, none, none⟩,
        divergence_eq_some.mpr ⟨hi, rfl⟩, rfl⟩
  none_iff := divergence_eq_none
  tokens d hd := by
    obtain ⟨hfirst, heq⟩ := divergence_eq_some.mp hd
    have hleft := List.getElem?_eq_getElem hfirst.left
    have hright := List.getElem?_eq_getElem hfirst.right
    rw [heq]
    refine ⟨?_, ?_, rfl⟩
    · show refTokens[d.position]? = some (refTokens.getD d.position 0)
      rw [List.getD_eq_getElem?_getD, hleft]
      rfl
    · show candTokens[d.position]? = some (candTokens.getD d.position 0)
      rw [List.getD_eq_getElem?_getD, hright]
      rfl
  matched := compareTokens_matched

theorem foldl_matched (l : List Comparison) (b : Bool) :
    l.foldl (fun allMatch c => allMatch && c.matched) b = true ↔ b = true ∧ ∀ c ∈ l,
      c.matched = true := by
  induction l generalizing b with
  | nil => simp
  | cons c l ih =>
    rw [List.foldl_cons, ih, Bool.and_eq_true, List.forall_mem_cons, and_assoc]

theorem mem_rows {ids : List Int} {c : Comparison} : c ∈ rows turns ids ↔
    ∃ reference candidates, turns = reference :: candidates ∧ ∃ candidate ∈ candidates, ∃ id ∈ ids,
      c = compareTokens reference.name candidate.name id (reference.tokens id)
        (candidate.tokens id) := by
  cases turns with
  | nil => exact ⟨fun h => absurd h List.not_mem_nil, by rintro ⟨_, _, h, _⟩; cases h⟩
  | cons reference candidates =>
    constructor
    · intro h
      obtain ⟨candidate, hcandidate, hc⟩ := List.mem_flatMap.mp h
      obtain ⟨id, hid, rfl⟩ := List.mem_map.mp hc
      exact ⟨reference, candidates, rfl, candidate, hcandidate, id, hid, rfl⟩
    · rintro ⟨_, _, heq, candidate, hcandidate, id, hid, rfl⟩
      obtain ⟨rfl, rfl⟩ := List.cons.inj heq
      exact List.mem_flatMap.mpr ⟨candidate, hcandidate, List.mem_map.mpr ⟨id, hid, rfl⟩⟩

/-- each candidate's stream of each request, with the reference's -/
def EachPair (turns : List Turn) (ids : List Int) (P : Turn → Turn → Int → Prop) : Prop :=
  ∀ reference candidates, turns = reference :: candidates → ∀ candidate ∈ candidates, ∀ id ∈ ids,
    P reference candidate id

theorem EachPair.congr {ids : List Int} {P Q : Turn → Turn → Int → Prop}
    (h : ∀ reference candidates, turns = reference :: candidates → ∀ candidate ∈ candidates, ∀ id ∈ ids,
      (P reference candidate id ↔ Q reference candidate id)) :
    EachPair turns ids P ↔ EachPair turns ids Q :=
  ⟨fun hP reference candidates hturns candidate hcandidate id hid =>
      (h reference candidates hturns candidate hcandidate id hid).mp
        (hP reference candidates hturns candidate hcandidate id hid),
    fun hQ reference candidates hturns candidate hcandidate id hid =>
      (h reference candidates hturns candidate hcandidate id hid).mpr
        (hQ reference candidates hturns candidate hcandidate id hid)⟩

theorem forall_rows {ids : List Int} {P : Comparison → Prop} : (∀ c ∈ rows turns ids, P c) ↔
    EachPair turns ids fun reference candidate id =>
      P (compareTokens reference.name candidate.name id (reference.tokens id) (candidate.tokens id)) := by
  constructor
  · intro h reference candidates hturns candidate hcandidate id hid
    exact h _ (mem_rows.mpr ⟨reference, candidates, hturns, candidate, hcandidate, id, hid, rfl⟩)
  · intro h c hc
    obtain ⟨reference, candidates, hturns, candidate, hcandidate, id, hid, rfl⟩ := mem_rows.mp hc
    exact h reference candidates hturns candidate hcandidate id hid

/-- streams that match the first engine's match each other -/
theorem eachPair_identical {ids : List Int} :
    (EachPair turns ids fun reference candidate id => candidate.tokens id = reference.tokens id) ↔
      ∀ a ∈ turns, ∀ b ∈ turns, ∀ id ∈ ids, a.tokens id = b.tokens id := by
  constructor
  · intro h
    cases turns with
    | nil => exact fun a ha => absurd ha List.not_mem_nil
    | cons reference candidates =>
      have href : ∀ a ∈ reference :: candidates, ∀ id ∈ ids, a.tokens id = reference.tokens id := by
        intro a ha id hid
        rcases List.mem_cons.mp ha with rfl | ha
        · rfl
        · exact h reference candidates rfl a ha id hid
      exact fun a ha b hb id hid => (href a ha id hid).trans (href b hb id hid).symm
  · rintro h reference candidates rfl candidate hcandidate id hid
    exact h candidate (List.mem_cons_of_mem _ hcandidate) reference List.mem_cons_self id hid

/-! ## what the verdict says -/

/-- a number strictly below the threshold; NaN is not below anything -/
def Small (threshold : Number) (margin : Option Number) : Prop :=
  ∃ m, margin = some m ∧ m.below threshold = true

theorem passes_iff {threshold : Number} {c : Comparison} : passes threshold c = true ↔
    (c.matched = false → ∃ d, c.firstDivergence = some d ∧ Small threshold d.hfMargin) := by
  unfold passes Small
  cases c.matched with
  | true => simp
  | false =>
    cases c.firstDivergence with
    | none => simp
    | some d =>
      cases hmargin : d.hfMargin with
      | none => simp [hmargin]
      | some m => simp [hmargin]

theorem gatePasses_iff {t : Transcript} {threshold : Number}
    (hall : t.allMatch = true → ∀ c ∈ t.comparisons, c.matched = true) :
    gatePasses t threshold = true ↔ ∀ c ∈ t.comparisons, passes threshold c = true := by
  unfold gatePasses
  rw [← List.all_eq_true]
  split
  · rename_i hmatch
    refine iff_of_true rfl (List.all_eq_true.mpr fun c hc => ?_)
    unfold passes
    rw [hall hmatch c hc]
    rfl
  · exact Iff.rfl

theorem allMatch_iff {ids : List Int} :
    (rows turns ids).foldl (fun allMatch c => allMatch && c.matched) true = true ↔
      ∀ a ∈ turns, ∀ b ∈ turns, ∀ id ∈ ids, a.tokens id = b.tokens id := by
  rw [foldl_matched, forall_rows, ← eachPair_identical]
  unfold EachPair
  simp only [true_and, compareTokens_matched]

/-- the verdict on a transcript whose divergences got the margins in any way -/
theorem verdict {t : Transcript} (hmatch : t.allMatch = (transcriptOf turns seed).allMatch)
    {change : Divergence → String → Int → Divergence}
    (hrows : t.comparisons = (rows turns (requestIds seed)).map fun c =>
      { c with firstDivergence := c.firstDivergence.map fun d => change d c.candidate c.requestId }) (threshold : Number) :
    gatePasses t threshold = true ↔ EachPair turns (requestIds seed) fun reference candidate id =>
      candidate.tokens id ≠ reference.tokens id →
        ∃ d, IsFirst (reference.tokens id) (candidate.tokens id) d.position ∧
          divergence (reference.tokens id) (candidate.tokens id) = some d ∧
          Small threshold (change d candidate.name id).hfMargin := by
  have hall : t.allMatch = true → ∀ c ∈ t.comparisons, c.matched = true := by
    intro h
    rw [hrows, List.forall_mem_map]
    exact ((foldl_matched _ _).mp (hmatch ▸ h)).2
  rw [gatePasses_iff hall, hrows, List.forall_mem_map, forall_rows]
  refine EachPair.congr fun reference _ _ candidate _ id _ => ?_
  rw [passes_iff, ← Bool.not_eq_true]
  refine imp_congr (not_congr (@compareTokens_matched reference.name candidate.name id _ _)) ?_
  constructor
  · rintro ⟨d', hd', hsmall⟩
    obtain ⟨d, hd, rfl⟩ := Option.map_eq_some_iff.mp hd'
    exact ⟨d, (divergence_eq_some.mp hd).1, hd, hsmall⟩
  · rintro ⟨d, _, hd, hsmall⟩
    exact ⟨_, Option.map_eq_some_iff.mpr ⟨d, hd, rfl⟩, hsmall⟩

/-- the verdict on any filling of the margins -/
theorem fill_verdict (margin : String → Int → Option Number) (threshold : Number) :
    gatePasses ((transcriptOf turns seed).fill margin) threshold = true ↔
      EachPair turns (requestIds seed) fun reference candidate id => candidate.tokens id ≠ reference.tokens id →
        (∃ i, IsFirst (reference.tokens id) (candidate.tokens id) i) ∧ Small threshold (margin candidate.name id) := by
  rw [@verdict turns seed ((transcriptOf turns seed).fill margin) rfl
    (fun d candidate id => { d with hfMargin := margin candidate id }) rfl threshold]
  refine EachPair.congr fun reference _ _ candidate _ id _ => imp_congr_right fun _ => ?_
  constructor
  · rintro ⟨d, hfirst, _, hsmall⟩
    exact ⟨⟨d.position, hfirst⟩, hsmall⟩
  · rintro ⟨⟨i, hfirst⟩, hsmall⟩
    exact ⟨⟨i, (reference.tokens id).getD i 0, (candidate.tokens id).getD i 0, none, none⟩, hfirst,
      divergence_eq_some.mpr ⟨hfirst, rfl⟩, hsmall⟩

/-! ## any streams -/

/-- an engine that returns the streams of a family, of any lengths, with as many time stamps as were asked for -/
def turnOf (seed : Int) (family : String → Int → List Int) (name : String) : Turn where
  name := name
  traces := (equivalenceWorkload seed).requests.map fun r =>
    ⟨r.requestId, 0, List.replicate r.maxNewTokens 0, family name r.requestId, "length"⟩

theorem turnOf_forced (family : String → Int → List Int) (name : String) :
    (turnOf seed family name).Forced seed := by
  refine (assertForcedLengths_iff (equivalence_distinct seed)).mpr ⟨fun t ht => ?_, fun r hr => ?_⟩
  · obtain ⟨r, hr, rfl⟩ := List.mem_map.mp ht
    refine List.mem_map.mpr ⟨r, hr, ?_⟩
    show (r.requestId, r.maxNewTokens) = (r.requestId, (List.replicate r.maxNewTokens (0 : Rat)).length)
    rw [List.length_replicate]
  · unfold turnOf
    rw [List.map_map]
    exact List.mem_map.mpr ⟨r, hr, rfl⟩

theorem turnOf_tokens (family : String → Int → List Int) (name : String) {id : Int}
    (hid : id ∈ requestIds seed) :
    (turnOf seed family name).tokens id = family name id := by
  obtain ⟨r, hr, rfl⟩ := List.mem_map.mp hid
  unfold Turn.tokens
  cases hfind : byId (turnOf seed family name).traces r.requestId with
  | none =>
    have hmem : (⟨r.requestId, 0, List.replicate r.maxNewTokens 0, family name r.requestId,
      "length"⟩ : RequestTrace) ∈
        (turnOf seed family name).traces.reverse := List.mem_reverse.mpr (List.mem_map_of_mem hr)
    exact absurd (beq_iff_eq.mpr rfl) (List.find?_eq_none.mp hfind _ hmem)
  | some t =>
    obtain ⟨r', _, rfl⟩ := List.mem_map.mp (List.mem_reverse.mp (List.mem_of_find?_eq_some hfind))
    have hsame : r'.requestId = r.requestId :=
      beq_iff_eq.mp
        (List.find?_some (p := fun t : RequestTrace => t.requestId == r.requestId) hfind)
    show family name r'.requestId = family name r.requestId
    rw [hsame]

/-! ## the verdict after a review -/

/-- the prompt of a request -/
def prompt (seed requestId : Int) : List Int :=
  (List.range 64).map fun (p : Nat) => tokenId seed requestId p

theorem promptOf_eq {id : Int} (hid : id ∈ requestIds seed) :
    promptOf (transcriptOf turns seed) id = .ok (prompt seed id) := by
  have hids : requestIds seed = (List.range 5).map fun (r : Nat) => (r : Int) := rfl
  have hprompts : (transcriptOf turns seed).prompts = (requestIds seed).map (prompt seed) := rfl
  unfold promptOf
  rw [hprompts]
  simp only [List.getElem?_map, requestIds_getElem? hid]
  rfl

/-- what the review writes into a divergence -/
def reviewed (model : HfModel) (seed : Int) (reference : Turn) (d : Divergence) (id : Int) :
    Divergence :=
  let top := model.topTwo (prompt seed id ++ (reference.tokens id).take d.position)
  { d with hfMargin := some top.hfMargin, review := some top }

theorem reviewComparison_eq {model : HfModel} {reference candidate : Turn} {id : Int}
    (hstreams : (transcriptOf turns seed).streams reference.name = some ((requestIds seed).map reference.tokens))
    (hid : id ∈ requestIds seed) :
    reviewComparison model (transcriptOf turns seed) reference.name
        (compareTokens reference.name candidate.name id (reference.tokens id) (candidate.tokens id)) =
      .ok { compareTokens reference.name candidate.name id (reference.tokens id) (candidate.tokens id) with
        firstDivergence := (divergence (reference.tokens id) (candidate.tokens id)).map fun d =>
          reviewed model seed reference d id } := by
  unfold reviewComparison compareTokens
  cases hd : divergence (reference.tokens id) (candidate.tokens id) with
  | none => cases hlen : (reference.tokens id).length == (candidate.tokens id).length <;> rfl
  | some d =>
    show (promptOf (transcriptOf turns seed) id >>= _) = _
    rw [Throw.bind_of_ok (promptOf_eq hid), Throw.bind_of_ok (stream_eq hstreams hid)]
    rfl

/-- a review leaves a transcript without divergences as it is, and fills the slot of each divergence of another -/
theorem review_cases {model : HfModel} {ran : Option Nat} {t' : Transcript} {reference : Turn} {candidates : List Turn}
    (hturns : turns = reference :: candidates)
    (hstreams : (transcriptOf turns seed).streams reference.name = some ((requestIds seed).map reference.tokens))
    (h : hfMarginReview model (transcriptOf turns seed) = .ok (ran, t')) :
    (t' = transcriptOf turns seed ∧ ∀ c ∈ rows turns (requestIds seed), toReview c = false) ∨
    (t'.allMatch = (transcriptOf turns seed).allMatch ∧
      t'.comparisons = (rows turns (requestIds seed)).map fun c =>
        { c with firstDivergence := c.firstDivergence.map fun d => reviewed model seed reference d c.requestId }) := by
  have hrow : ∀ c ∈ rows turns (requestIds seed), c.reference = reference.name ∧
      reviewComparison model (transcriptOf turns seed) reference.name c =
        .ok { c with firstDivergence := c.firstDivergence.map fun d => reviewed model seed reference d c.requestId } := by
    intro c hc
    obtain ⟨_, _, heq, candidate, _, id, hid, rfl⟩ := mem_rows.mp hc
    obtain ⟨rfl, rfl⟩ := List.cons.inj (hturns.symm.trans heq)
    exact ⟨rfl, reviewComparison_eq hstreams hid⟩
  have hcomparisons : (transcriptOf turns seed).comparisons = rows turns (requestIds seed) := rfl
  unfold hfMarginReview at h
  rw [hcomparisons] at h
  cases hrows : rows turns (requestIds seed) with
  | nil =>
    rw [hrows] at h
    cases h
    exact .inl ⟨rfl, fun c hc => absurd hc List.not_mem_nil⟩
  | cons first rest =>
    rw [hrows] at hrow h
    simp only [(hrow first List.mem_cons_self).1] at h
    split at h
    · rename_i hempty
      cases h
      have hnone := List.isEmpty_iff.mp hempty
      refine .inl ⟨rfl, fun c hc => ?_⟩
      by_contra hreview
      exact List.not_mem_nil (hnone ▸ List.mem_filter.mpr ⟨hc, Bool.eq_true_of_not_eq_false hreview⟩)
    · obtain ⟨_, hrest⟩ := Throw.ite_error_eq_ok.mp h
      rw [Throw.bind_of_ok (Throw.mapM_ok fun c hc => (hrow c hc).2)] at hrest
      cases hrest
      exact .inr ⟨rfl, rfl⟩

/-- the verdict after the review: each stream that is not the reference's diverges from it where the model,
after the prefix that the two share, has its two best tokens close together -/
theorem reviewed_passes_iff (hnames : (turns.map (·.name)).Nodup) {model : HfModel}
    {ran : Option Nat} {t t' : Transcript}
    (ht : equivalenceGate turns seed = .ok t) (hreview : hfMarginReview model t = .ok (ran, t'))
    (threshold : Number) :
    gatePasses t' threshold = true ↔
      EachPair turns (requestIds seed) fun reference candidate id => candidate.tokens id
        ≠ reference.tokens id →
        ∃ i, IsFirst (reference.tokens id) (candidate.tokens id) i ∧
          (model.topTwo (prompt seed id ++ (candidate.tokens id).take i)).hfMargin.below threshold
            = true := by
  obtain ⟨_, rfl⟩ := (equivalenceGate_eq hnames).mp ht
  have hstreams : ∀ turn ∈ turns, (transcriptOf turns seed).streams turn.name =
      some ((requestIds seed).map turn.tokens) := fun turn hturn => push_streams hnames _ hturn
  cases hturns : turns with
  | nil =>
    subst hturns
    cases hreview
    exact iff_of_true rfl fun reference candidates h => nomatch h
  | cons reference candidates =>
    rw [← hturns]
    rcases review_cases hturns (hstreams reference (hturns ▸ List.mem_cons_self)) hreview with
      ⟨rfl, hnone⟩ | ⟨hmatch, hrows⟩
    · -- without a divergence there is no margin, on either side
      have hsame : (transcriptOf turns seed).comparisons = (rows turns (requestIds seed)).map fun c =>
          { c with firstDivergence := c.firstDivergence.map fun d => d } := by
        simp only [Option.map_id', List.map_id']
        rfl
      rw [@verdict turns seed (transcriptOf turns seed) rfl (fun d _ _ => d) hsame threshold]
      refine EachPair.congr fun reference candidates hturns candidate hcandidate id hid =>
        imp_congr_right fun hne => ?_
      have hreview : toReview (compareTokens reference.name candidate.name id (reference.tokens id)
          (candidate.tokens id)) = false := forall_rows.mp hnone reference candidates hturns candidate hcandidate id hid
      have hmatched := mt (@compareTokens_matched reference.name candidate.name id _ _).mp hne
      have hdivergence : divergence (reference.tokens id) (candidate.tokens id) = none := by
        unfold toReview at hreview
        rw [Bool.eq_false_of_not_eq_true hmatched, Bool.not_false, Bool.true_and] at hreview
        exact Option.isNone_iff_eq_none.mp (Option.isSome_eq_false_iff.mp hreview)
      have hfirst := divergence_eq_none.mp hdivergence
      exact ⟨fun ⟨d, hd, _⟩ => absurd ⟨_, hd⟩ hfirst, fun ⟨i, hi, _⟩ => absurd ⟨i, hi⟩ hfirst⟩
    · rw [@verdict turns seed t' hmatch
        (fun d _ id => reviewed model seed reference d id) hrows threshold]
      refine EachPair.congr fun reference' _ hturns' candidate _ id _ => imp_congr_right fun _ => ?_
      obtain ⟨rfl, rfl⟩ := List.cons.inj (hturns.symm.trans hturns')
      constructor
      · rintro ⟨d, hfirst, _, m, hm, hbelow⟩
        refine ⟨d.position, hfirst, ?_⟩
        rw [← hfirst.take_eq]
        exact Option.some.inj hm ▸ hbelow
      · rintro ⟨i, hfirst, hbelow⟩
        rw [← hfirst.take_eq] at hbelow
        exact ⟨⟨i, (reference.tokens id).getD i 0, (candidate.tokens id).getD i 0, none, none⟩, hfirst,
          divergence_eq_some.mpr ⟨hfirst, rfl⟩, _, rfl, hbelow⟩

/-! ## the gate -/

/-- **The gate is sound.** Every family of streams can be recorded; the transcript names the first
divergences, its flag says whether all streams are the same, and its verdict whether each stream that is
not the reference's diverges from it with a small margin, the model's own after a review. -/
theorem gate_sound (seed : Int) :
    (∀ (names : List String) (family : String → Int → List Int), ∃ turns : List Turn,
      turns.map (·.name) = names ∧
      ∀ turn ∈ turns, turn.Forced seed ∧ ∀ id ∈ requestIds seed, turn.tokens id = family turn.name id) ∧
    ∀ turns : List Turn, (turns.map (·.name)).Nodup →
      ((∃ t, equivalenceGate turns seed = .ok t) ↔ ∀ turn ∈ turns, turn.Forced seed) ∧
      ∀ t, equivalenceGate turns seed = .ok t →
        (∀ turn ∈ turns, t.streams turn.name = some ((requestIds seed).map turn.tokens)) ∧
        (∀ reference candidates, turns = reference :: candidates →
          t.comparisons.map (fun c => (c.reference, c.candidate, c.requestId)) =
            candidates.flatMap fun candidate => (requestIds seed).map fun id =>
              (reference.name, candidate.name, id)) ∧
        (EachPair turns (requestIds seed) fun reference candidate id =>
          ∃ c ∈ t.comparisons, c.reference = reference.name ∧ c.candidate = candidate.name ∧
            c.requestId = id ∧
            Records (reference.tokens id) (candidate.tokens id) c) ∧
        (t.allMatch = true ↔ ∀ a ∈ turns, ∀ b ∈ turns, ∀ id ∈ requestIds seed,
          a.tokens id = b.tokens id) ∧
        (∀ (margin : String → Int → Option Number) (threshold : Number),
          gatePasses (t.fill margin) threshold = true ↔
            EachPair turns (requestIds seed) fun reference candidate id =>
              candidate.tokens id ≠ reference.tokens id →
                (∃ i, IsFirst (reference.tokens id) (candidate.tokens id) i) ∧
                  Small threshold (margin candidate.name id)) ∧
        ∀ (model : HfModel) ran t', hfMarginReview model t = .ok (ran, t') → ∀ threshold,
          (gatePasses t' threshold = true ↔
            EachPair turns (requestIds seed) fun reference candidate id =>
              candidate.tokens id ≠ reference.tokens id →
                ∃ i, IsFirst (reference.tokens id) (candidate.tokens id) i ∧
                  (model.topTwo (prompt seed id ++ (candidate.tokens id).take i)).hfMargin.below threshold = true) := by
  refine ⟨fun names family => ⟨names.map (turnOf seed family), ?_, ?_⟩,
    fun turns hnames => ⟨?_, fun t ht => ?_⟩⟩
  · rw [List.map_map]
    exact List.map_id names
  · rw [List.forall_mem_map]
    exact fun name _ => ⟨turnOf_forced family name, fun id hid => turnOf_tokens family name hid⟩
  · exact ⟨fun ⟨_, ht⟩ => ((equivalenceGate_eq hnames).mp ht).1,
      fun h => ⟨_, (equivalenceGate_eq hnames).mpr ⟨h, rfl⟩⟩⟩
  · have heq := ((equivalenceGate_eq hnames).mp ht).2
    subst heq
    refine ⟨fun turn hturn => push_streams hnames _ hturn, ?_, ?_, allMatch_iff, fill_verdict,
      fun model ran t' hreview threshold => reviewed_passes_iff hnames ht hreview threshold⟩
    · rintro reference candidates rfl
      show List.map _ (List.flatMap _ _) = _
      rw [List.map_flatMap]
      simp only [List.map_map]
      rfl
    · intro reference candidates hturns candidate hcandidate id hid
      exact ⟨_, mem_rows.mpr ⟨reference, candidates, hturns, candidate, hcandidate, id, hid, rfl⟩,
        rfl, rfl, rfl, compareTokens_records _ _ _ _ _⟩

/-- two engines whose streams diverge at the second token -/
def divergingStreams (name : String) (_ : Int) : List Int :=
  if name = "redline" then [1, 2, 3] else [1, 5]

theorem gate_sound_diverging :
    ∃ t, equivalenceGate (["redline", "vllm"].map (turnOf 0 divergingStreams)) 0 = .ok t ∧
    t.allMatch = false ∧ gatePasses (t.fill fun _ _ => some (.real (1 / 20))) equivalenceMargin = true ∧
    gatePasses (t.fill fun _ _ => some .nan) equivalenceMargin = false := by
  obtain ⟨hreturns, hsound⟩ :=
    (gate_sound 0).2 (["redline", "vllm"].map (turnOf 0 divergingStreams)) (by decide)
  have hforced : ∀ turn ∈ ["redline", "vllm"].map (turnOf 0 divergingStreams), turn.Forced 0 :=
    List.forall_mem_map.mpr fun name _ => turnOf_forced _ name
  obtain ⟨t, ht⟩ := hreturns.mpr hforced
  obtain ⟨_, _, _, hall, hverdict, _⟩ := hsound t ht
  have hzero : (0 : Int) ∈ requestIds 0 := by decide
  have htokens : ∀ name, ∀ id ∈ requestIds 0,
      (turnOf 0 divergingStreams name).tokens id = divergingStreams name id :=
    fun name id hid => turnOf_tokens _ name hid
  have hne : (turnOf 0 divergingStreams "vllm").tokens 0
      ≠ (turnOf 0 divergingStreams "redline").tokens 0 := by
    rw [htokens _ 0 hzero, htokens _ 0 hzero]
    decide
  refine ⟨t, ht, ?_, ?_, ?_⟩
  · refine Bool.eq_false_of_not_eq_true fun h => hne ?_
    exact hall.mp h _ (.tail _ (.head _)) _ (.head _) 0 hzero
  · refine (hverdict _ _).mpr fun reference candidates hturns candidate hcandidate id hid _ => ?_
    obtain ⟨rfl, rfl⟩ := List.cons.inj hturns
    obtain rfl := List.mem_singleton.mp hcandidate
    rw [htokens _ id hid, htokens _ id hid]
    have hfirst : firstDiff [1, 2, 3] [(1 : Int), 5] = some 1 := by decide
    exact ⟨⟨1, firstDiff_eq_some.mp hfirst⟩, _, rfl, by decide +kernel⟩
  · refine Bool.eq_false_of_not_eq_true fun h => ?_
    obtain ⟨_, m, hm, hbelow⟩ := (hverdict _ _).mp h _ _ rfl _ (.head _) 0 hzero hne
    rw [← Option.some.inj hm, Extended.nan_below] at hbelow
    cases hbelow

end
end RunBench
end Redline
