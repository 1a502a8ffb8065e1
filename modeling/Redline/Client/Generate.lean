import Redline.Engine.Notice

/-!
# The client's pump

`generate` of the Python client: submit prompts while the engine has capacity, step, and give every
result to the completion of its request, until all are finished.  It raises what the engine raises,
and on results that cannot be: for an id it did not submit, for a request that already finished, or
none at all for too long.

`Gathers` says what its local state is worth: every completion holds what was reported about its
request.  `Gathers.stepped`: the results of a step keep that, and none of them is unexpected.
-/

namespace Redline
open Prog

def kMaxWaitingRequests : Nat := 1024

/-- `HasCapacity` -/
def Engine.hasCapacity (e : Engine) : Bool := decide (e.sched.waiting.length < kMaxWaitingRequests)

/-- `FinishReasonName` -/
def FinishReason.name : FinishReason → String
  | .kNone => ""
  | .kEos => "eos"
  | .kLength => "length"
  | .kAborted => "aborted"

/-! ## generate -/

/-- `_MAX_IDLE_STEPS` -/
def maxIdleSteps : Nat := 4096

structure Completion where
  requestId : Nat
  tokenIds : List Int := []
  finishReason : String := ""
  deriving DecidableEq, Repr

/-- the completion with one more result; an abort notice has no token -/
def Completion.told (c : Completion) (x : StepResult) : Completion :=
  { c with
    tokenIds := if x.finishReason.name ≠ "aborted" then c.tokenIds ++ [x.token] else c.tokenIds
    finishReason := if x.finished then x.finishReason.name else c.finishReason }

/-- one budget for all prompts, or one per prompt -/
inductive MaxNewTokens where
  | int (n : Int)
  | sequence (ns : List Int)

/-- what `generate` raises -/
inductive GenerateError where
  | budgets (entries prompts : Nat)
  /-- out of `add_request` -/
  | invalidArgument (e : InvalidArgument)
  /-- out of `step` -/
  | executor (e : ExecutorError)
  | noProgress (unfinished : Int)
  | unknownId (id : Nat)
  | alreadyFinished (id : Nat) (reason : String)

def GenerateError.message : GenerateError → String
  | .budgets entries prompts => "max_new_tokens has " ++ toString entries ++ " entries for " ++
      toString prompts ++ " prompts; pass an int or one budget per prompt"
  | .invalidArgument e => e.message
  | .executor e => e.message
  | .noProgress unfinished => "engine made no progress across " ++ toString maxIdleSteps ++
      " consecutive step() calls with " ++ toString unfinished ++ " request(s) in flight"
  | .unknownId id => "engine emitted a result for unknown request id " ++ toString id ++
      "; generate() must be the engine's only driver while it runs"
  | .alreadyFinished id reason => "engine emitted a result for request id " ++ toString id ++
      " after it finished ('" ++ reason ++ "'); generate() must be the engine's only driver " ++
      "while it runs"

/-- the local state about the submitted requests; `byId` points into `completions` -/
structure Gathered where
  completions : List Completion := []
  byId : Nat → Option Nat := fun _ => none
  unfinished : Int := 0
  /-- the calls of `on_token` -/
  heard : List (Nat × Int × Bool × String) := []

namespace Gathered

/-- a request was added -/
def submitted (g : Gathered) (id : Nat) : Gathered :=
  { g with
    completions := g.completions ++ [{ requestId := id }]
    byId := Function.update g.byId id (some g.completions.length)
    unfinished := g.unfinished + 1 }

/-- a result goes to its completion -/
def take (g : Gathered) (x : StepResult) : Except GenerateError Gathered :=
  match g.byId x.requestId with
  | none => .error (.unknownId x.requestId)
  | some i =>
    let completion := g.completions.getD i { requestId := x.requestId }
    if completion.finishReason ≠ "" then
      .error (.alreadyFinished x.requestId completion.finishReason)
    else .ok { g with
      completions := g.completions.set i (completion.told x)
      unfinished := if x.finished then g.unfinished - 1 else g.unfinished
      heard :=
        if x.finishReason.name ≠ "aborted" then
          g.heard ++ [(x.requestId, x.token, x.finished, x.finishReason.name)]
        else g.heard }

def takeAll (g : Gathered) : List StepResult → Except GenerateError Gathered
  | [] => .ok g
  | x :: results =>
    match g.take x with
    | .error err => .error err
    | .ok g1 => g1.takeAll results

end Gathered

section
variable {κ δ : Type}

/-- the local state of `generate`, and the engine -/
structure Generation (δ : Type) where
  w : EngineRun δ
  gathered : Gathered := {}
  /-- the prompts from `next_index` on, with their budgets -/
  rest : List (List Int × Int)
  idleSteps : Nat := 0

/-- what `generate` asks for -/
def jobArgs (ignoreEos : Bool) (job : List Int × Int) : RequestArgs :=
  { promptTokens := job.1
    maxNewTokens := job.2
    ignoreEos }

/-- submit while the engine has capacity -/
def submit (ignoreEos : Bool) (w : EngineRun δ) (g : Gathered) : List (List Int × Int) →
    Option (Except GenerateError (EngineRun δ × Gathered × List (List Int × Int)))
  | [] => some (.ok (w, g, []))
  | job :: rest =>
    if w.engine.hasCapacity then
      match w.engine.addRequest (jobArgs ignoreEos job) with
      | none => none
      | some (.error err) => some (.error (.invalidArgument err))
      | some (.ok (id, e)) =>
        submit ignoreEos { w with
          engine := e
          events := w.events ++ [.added id (jobArgs ignoreEos job)] } (g.submitted id) rest
    else some (.ok (w, g, job :: rest))

/-- what the last call of `step` returned or threw -/
def EngineRun.returned (w : EngineRun δ) : Except ExecutorError (List StepResult) :=
  match w.events.getLast? with
  | some (.stepped _ out) => out
  | _ => .ok []

/-- step, and gather the results -/
def Generation.advance (env : Environment κ δ) (k : κ) (p : Generation δ) :
    Option (Except GenerateError (Generation δ)) := do
  let w1 ← EngineRun.step env p.w (.step k)
  match w1.returned with
  | .error err => return .error (.executor err)
  | .ok [] =>
    if maxIdleSteps < p.idleSteps + 1 then return .error (.noProgress p.gathered.unfinished)
    else return .ok { p with w := w1, idleSteps := p.idleSteps + 1 }
  | .ok results =>
    match p.gathered.takeAll results with
    | .error err => return .error err
    | .ok g1 => return .ok { p with w := w1, gathered := g1, idleSteps := 0 }

/-- how far `generate` came -/
inductive Generated (δ : Type) where
  | returned (p : Generation δ)
  | raised (err : GenerateError)
  /-- about to take one more step -/
  | running (p : Generation δ)

/-- the loop, for as many steps as there are entries in `ks` -/
def Generation.loop (env : Environment κ δ) (ignoreEos : Bool) :
    List κ → Generation δ → Option (Generated δ)
  | ks, p =>
    if p.rest = [] ∧ p.gathered.unfinished = 0 then some (.returned p)
    else match submit ignoreEos p.w p.gathered p.rest with
      | none => none
      | some (.error err) => some (.raised err)
      | some (.ok (w, gathered, rest)) =>
        match ks with
        | [] => some (.running { p with w, gathered, rest })
        | k :: ks =>
          match Generation.advance env k { p with w, gathered, rest } with
          | none => none
          | some (.error err) => some (.raised err)
          | some (.ok p1) => p1.loop env ignoreEos ks

/-- the prompts with their budgets -/
def jobs (prompts : List (List Int)) : MaxNewTokens → Except GenerateError (List (List Int × Int))
  | .int n => .ok (prompts.map fun p => (p, n))
  | .sequence ns =>
    if ns.length ≠ prompts.length then .error (.budgets ns.length prompts.length)
    else .ok (prompts.zip ns)

/-- `generate` on the engine `e`; `ks` is what the environment does during the steps -/
def generate (env : Environment κ δ) (e : Engine) (d : δ) (prompts : List (List Int))
    (maxNewTokens : MaxNewTokens) (ignoreEos : Bool) (ks : List κ) : Option (Generated δ) :=
  match jobs prompts maxNewTokens with
  | .error err => some (.raised err)
  | .ok rest => Generation.loop env ignoreEos ks { w := .init e d, rest }

end

/-! ## gathering -/

theorem FinishReason.name_inj {a b : FinishReason} (h : a.name = b.name) : a = b := by
  revert h
  cases a <;> cases b <;> decide

/-- the completions are those of the ids from `first + 1` on -/
structure Indexed (first : Nat) (g : Gathered) : Prop where
  byId : ∀ id i, g.byId id = some i ↔ id = first + i + 1 ∧ i < g.completions.length
  unfinished : g.unfinished = (g.completions.countP fun c => c.finishReason == "" : Nat)

section
variable {first : Nat} {g : Gathered}

theorem Indexed.submitted (h : Indexed first g) :
    Indexed first (g.submitted (first + g.completions.length + 1)) := by
  refine ⟨fun id i => ?_, ?_⟩
  · show Function.update g.byId _ _ id = _ ↔ _ ∧ i < (g.completions ++ [_]).length
    rw [List.length_append, List.length_singleton]
    by_cases hid : id = first + g.completions.length + 1
    · rw [hid, Function.update_self, Option.some.injEq]
      omega
    · rw [Function.update_of_ne hid, h.byId]
      omega
  · show g.unfinished + 1 = ((g.completions ++ [_]).countP _ : Nat)
    rw [List.countP_append, h.unfinished]
    rfl

/-- a result about an open completion -/
theorem Indexed.take (h : Indexed first g) {x : StepResult} {i : Nat} {c : Completion}
    (hid : x.requestId = first + i + 1) (hc : g.completions[i]? = some c)
    (hopen : c.finishReason = "") (hterm : x.finished = decide (x.finishReason ≠ .kNone)) :
    ∃ g', g.take x = .ok g' ∧ Indexed first g' ∧ g'.completions = g.completions.set i (c.told x) := by
  have hi : i < g.completions.length := (List.getElem?_eq_some_iff.mp hc).1
  have hget : g.completions[i] = c := (List.getElem?_eq_some_iff.mp hc).2
  have hgetD : ∀ d, g.completions.getD i d = c := fun d => by
    rw [List.getD_eq_getElem?_getD, hc]
    rfl
  have hby : g.byId x.requestId = some i := (h.byId _ _).mpr ⟨hid, hi⟩
  have htake : g.take x = .ok { g with
      completions := g.completions.set i (c.told x)
      unfinished := if x.finished then g.unfinished - 1 else g.unfinished
      heard :=
        if x.finishReason.name ≠ "aborted" then
          g.heard ++ [(x.requestId, x.token, x.finished, x.finishReason.name)]
        else g.heard } := by
    unfold Gathered.take
    simp only [hby, hgetD]
    exact if_neg (not_not.mpr hopen)
  refine ⟨_, htake, ⟨fun id j => ?_, ?_⟩, rfl⟩
  · show g.byId id = some j ↔ _ ∧ j < (g.completions.set i _).length
    rw [List.length_set]
    exact h.byId id j
  · have hpos : 0 < g.completions.countP fun c => c.finishReason == "" :=
      List.countP_pos_iff.mpr ⟨c, List.mem_of_getElem? hc, by rw [hopen]; rfl⟩
    have hname : x.finishReason.name = "" ↔ x.finishReason = .kNone :=
      ⟨fun e => FinishReason.name_inj (e.trans rfl : _ = FinishReason.name .kNone), fun e => by
        rw [e]; rfl⟩
    show (if x.finished then g.unfinished - 1 else g.unfinished)
      = ((g.completions.set i (c.told x)).countP _ : Nat)
    rw [List.countP_set hi, hget, hopen, h.unfinished]
    unfold Completion.told
    by_cases hr : x.finishReason = .kNone
    · rw [hterm, hr]
      simp [hopen]
      omega
    · rw [hterm]
      simp [hr, hname]
      omega

theorem about_cons (id : Nat) (x : StepResult) (results : List StepResult) :
    about id (x :: results) = if x.requestId = id then x :: about id results else about id results := by
  unfold about
  rw [List.filter_cons]
  by_cases h : x.requestId = id <;> simp [h]

/-- **The results of one step**, about different open completions. -/
theorem Indexed.takeAll (results : List StepResult) : ∀ {g : Gathered}, Indexed first g →
    (results.map (·.requestId)).Nodup →
    (∀ x ∈ results, x.finished = decide (x.finishReason ≠ .kNone)) →
    (∀ x ∈ results, ∃ i c, x.requestId = first + i + 1 ∧ g.completions[i]? = some c ∧
      c.finishReason = "") →
    ∃ g', g.takeAll results = .ok g' ∧ Indexed first g' ∧
      g'.completions.length = g.completions.length ∧
      ∀ (i : Nat) (c : Completion), g.completions[i]? = some c →
        g'.completions[i]? = some ((about (first + i + 1) results).foldl Completion.told c) := by
  induction results with
  | nil => exact fun {g} h _ _ _ => ⟨g, rfl, h, rfl, fun i c hc => hc⟩
  | cons x results ih =>
    intro g h hnd hterm hopen
    rw [List.map_cons, List.nodup_cons] at hnd
    obtain ⟨i, c, hid, hc, hreason⟩ := hopen x List.mem_cons_self
    obtain ⟨g1, htake, h1, hset⟩ := h.take hid hc hreason (hterm x List.mem_cons_self)
    have hi : i < g.completions.length := (List.getElem?_eq_some_iff.mp hc).1
    obtain ⟨g2, htakes, h2, hlen, hslots⟩ := ih h1 hnd.2
      (fun y hy => hterm y (List.mem_cons_of_mem _ hy)) fun y hy => by
        obtain ⟨j, c', hid', hc', hreason'⟩ := hopen y (List.mem_cons_of_mem _ hy)
        refine ⟨j, c', hid', ?_, hreason'⟩
        have hne : i ≠ j := by
          rintro rfl
          exact hnd.1 (hid.trans hid'.symm ▸ List.mem_map_of_mem hy)
        rw [hset, List.getElem?_set_ne hne]
        exact hc'
    refine ⟨g2, ?_, h2, hlen.trans (by rw [hset, List.length_set]), fun j c' hc' => ?_⟩
    · unfold Gathered.takeAll
      rw [htake]
      exact htakes
    · rw [about_cons]
      by_cases hij : i = j
      · subst hij
        obtain rfl : c = c' := Option.some.inj (hc.symm.trans hc')
        rw [if_pos hid]
        exact hslots i (c.told x) (by rw [hset, List.getElem?_set_self hi])
      · rw [if_neg (by omega)]
        exact hslots j c' (by rw [hset, List.getElem?_set_ne hij]; exact hc')

end

/-! ## what is gathered -/

/-- the completion of a request, after the reports `l` about it -/
def collected (q : Request) (l : List StepResult) : Completion :=
  { requestId := q.id
    tokenIds := (l.filter fun x => decide (x.finishReason ≠ .kAborted)).map (·.token)
    finishReason := q.finishReason.name }

theorem Notice.collected {q q' : Request} {l : List StepResult} (h : Notice q q' l)
    (hid : q'.id = q.id) (l0 : List StepResult) :
    l.foldl Completion.told (collected q l0) = collected q' (l0 ++ l) := by
  unfold Redline.collected
  rw [hid]
  cases h with
  | silent same => simp [same]
  | evicted before after => simp [Completion.told, FinishReason.name, after]
  | told token before natural =>
    have hname : q'.finishReason.name ≠ "aborted" := fun e => natural (FinishReason.name_inj e)
    by_cases hr : q'.finishReason = .kNone
    · simp [Completion.told, FinishReason.name, before, hr]
    · simp [Completion.told, natural, hname, hr]

/-- the completions say what was reported about the requests from `first` on; the earlier requests
are finished -/
structure Gathers (first : Nat) (s : Scheduler) (told : List StepResult) (g : Gathered) : Prop
    extends Indexed first g where
  count : s.nextPtr = first + g.completions.length
  slot : ∀ (i : Nat) (c : Completion), g.completions[i]? = some c →
    c = collected (s.heap (first + i)) (about (first + i + 1) told)
  old : ∀ r < first, (s.heap r).finishReason ≠ .kNone

section
variable {T : Nat} {o : SchedulerOptions} {first : Nat} {e e' : Engine} {told results : List StepResult}
  {g : Gathered}

/-- **Gathering the results of a step.** -/
theorem Gathers.stepped (h : Gathers first e.sched told g) (hT : Tells e e' results)
    (hids : ∀ r, (e'.sched.heap r).id = (e.sched.heap r).id)
    (hn : e'.sched.nextPtr = e.sched.nextPtr) :
    ∃ g', g.takeAll results = .ok g' ∧ Gathers first e'.sched (told ++ results) g' := by
  -- a reported request was unfinished
  have hgoing : ∀ x ∈ results, ∀ r, x.requestId = r + 1 → (e.sched.heap r).finishReason = .kNone ∧
      x.finished = decide (x.finishReason ≠ .kNone) := by
    intro x hx r hid
    have hmem : x ∈ about (r + 1) results := List.mem_filter.mpr ⟨hx, beq_iff_eq.mpr hid⟩
    have hr := hT.notice r
    generalize about (r + 1) results = l at hr hmem
    cases hr with
    | silent same => cases hmem
    | evicted before after => rw [List.mem_singleton.mp hmem]; exact ⟨before, rfl⟩
    | told token before natural => rw [List.mem_singleton.mp hmem]; exact ⟨before, rfl⟩
  obtain ⟨g', htake, hI, hlen, hslots⟩ := h.toIndexed.takeAll results hT.nodup
    (fun x hx => by
      obtain ⟨r, _, hid⟩ := hT.known x hx
      exact (hgoing x hx r hid).2)
    (fun x hx => by
      obtain ⟨r, hr, hid⟩ := hT.known x hx
      have hnone := (hgoing x hx r hid).1
      have hfirst : first ≤ r := by
        by_contra hlt
        exact h.old r (Nat.not_le.mp hlt) hnone
      have hc := h.count
      obtain ⟨i, rfl⟩ := Nat.exists_eq_add_of_le hfirst
      have hi : i < g.completions.length := by omega
      refine ⟨i, _, hid, List.getElem?_eq_getElem hi, ?_⟩
      rw [h.slot i _ (List.getElem?_eq_getElem hi)]
      unfold collected
      rw [hnone]
      rfl)
  refine ⟨g', htake, hI, by rw [hn, hlen]; exact h.count, fun i c hc => ?_, fun r hr => ?_⟩
  · have hi : i < g.completions.length := hlen ▸ (List.getElem?_eq_some_iff.mp hc).1
    have hold := hslots i _ (List.getElem?_eq_getElem hi)
    rw [hold] at hc
    rw [← Option.some.inj hc, h.slot i _ (List.getElem?_eq_getElem hi), about_append]
    exact (hT.notice (first + i)).collected (hids _) _
  · have hr' := hT.notice r
    have hne := h.old r hr
    generalize about (r + 1) results = l at hr'
    cases hr' with
    | silent same => rw [same]; exact hne
    | evicted before after => exact absurd before hne
    | told token before natural => exact absurd before hne

/-- a new request has a fresh completion -/
theorem Gathers.added (hE : EngineInv T o e) (h : Gathers first e.sched told g) (a : RequestArgs)
    (hknown : ∀ x ∈ told, x.requestId < e.sched.nextPtr + 1) :
    Gathers first (e.added a).sched told (g.submitted e.nextRequestId) := by
  have hnext : e.nextRequestId = first + g.completions.length + 1 := by
    rw [hE.nextId, h.count]
  rw [hnext]
  have hheap : ∀ r, r ≠ e.sched.nextPtr → (e.added a).sched.heap r = e.sched.heap r :=
    fun r hr => Function.update_of_ne hr _ _
  refine ⟨h.toIndexed.submitted, ?_, fun i c hc => ?_, fun r hr => ?_⟩
  · show e.sched.nextPtr + 1 = first + (g.completions ++ [_]).length
    rw [List.length_append, h.count]
    rfl
  · have hc' : (g.completions ++ [{ requestId := first + g.completions.length + 1 }])[i]? = some c := hc
    by_cases hi : i < g.completions.length
    · rw [List.getElem?_append_left hi] at hc'
      rw [hheap _ (by rw [h.count]; omega)]
      exact h.slot i c hc'
    · rw [List.getElem?_append_right (Nat.not_lt.mp hi)] at hc'
      have hil : i = g.completions.length := by
        have := (List.getElem?_eq_some_iff.mp hc').1
        rw [List.length_singleton] at this
        omega
      subst hil
      rw [Nat.sub_self] at hc'
      have hnil : about (first + g.completions.length + 1) told = [] :=
        about_nil fun x hx => Nat.ne_of_lt (h.count ▸ hknown x hx)
      have hnew : (e.added a).sched.heap (first + g.completions.length)
          = a.request e.nextRequestId := by
        rw [← h.count]
        exact Function.update_self ..
      rw [hnil, hnew, ← Option.some.inj hc', hnext]
      rfl
  · rw [hheap r (by rw [h.count]; omega)]
    exact h.old r hr

end
end Redline
