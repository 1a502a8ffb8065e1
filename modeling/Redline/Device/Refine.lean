import Redline.Device.Alone
import Redline.Device.Run
import Redline.Engine.Emission

/-!
# The engine refines greedy decoding

The device runs `F` over the rows of a launch in order; a row finds the cells of the earlier
positions through its block table (`greedyRow`).

The simulation relates each accepted request with `alone F eos a n`, the reference after as many
tokens as the request has (`Follows`).  What carries it is `Backed`: the pool holds, for each
admitted request, the cache of its own tokens, so that the row of its newest token yields the next
token of the reference (`Launched.newest`).

`refines_greedy`: under `reserve_full` every request follows its reference at all times, agrees with
it when it has finished, and finishes.
-/

namespace Redline
open Prog Ledger Decoding

section
variable {κ : Type} (F : Numerics κ)

/-- what a row reads, the earlier positions of its extent, and what it gives -/
def greedyRow (_ : Option Nat) (row : DeviceRow) (d : Pool κ) : κ × Int :=
  F row.inputId row.position
    ((List.range (min row.position row.extent)).map fun p => d (cellOf row.table p))

/-- a row within its extent reads all earlier positions -/
theorem greedyRow_within {row : DeviceRow} (h : row.position < row.extent) (i : Option Nat)
    (d : Pool κ) : greedyRow F i row d
      = F row.inputId row.position ((List.range row.position).map fun p => d (cellOf row.table p)) := by
  unfold greedyRow
  rw [Nat.min_eq_left (Nat.le_of_lt h)]

/-- a chunk yields the token of its last row, a decode batch one for each row -/
def greedyDevice : Device (Pool κ) := fun l d =>
  let out := runRows (greedyRow F) l.items d
  (.ok fun t => if l.prefill then out.1.getLastD 0 else out.1.getD t 0, out.2)

def greedy : Environment Unit (Pool κ) := { dev := fun _ => greedyDevice F }

/-- the pool holds the caches of the requests -/
def cachedRows : Expect κ := fun tokens _ p => entry F 0 tokens p

theorem cachedRows_stable : (cachedRows F).Stable :=
  fun tokens t _ _ hp => entry_append F 0 tokens [t] hp

/-- **A row finds the cache** of the tokens before it. -/
theorem computes_greedyRow (x : Executor) (s : Scheduler) :
    Computes (cachedRows F) x s (greedyRow F) := by
  intro len d r row hB hr hrow
  have hlt : len r < (s.heap r).tokens.length := (List.getElem?_eq_some_iff.mp hrow.token).1
  have hcells : (List.range (len r)).map (fun p => d (cellOf row.table p))
      = cells F 0 ((s.heap r).tokens.take (len r)) := by
    refine eq_cells F 0 _ (Nat.le_of_lt hlt) _ (by simp) fun p hp => ?_
    rw [List.getElem?_map, List.getElem?_range hp, Option.map_some,
      hrow.cell (Nat.lt_trans hp hrow.within)]
    exact (hB.content r hr p hp).symm
  have hwithin : row.position < row.extent := by
    rw [hrow.position]
    exact hrow.within
  unfold cachedRows entry
  rw [greedyRow_within F hwithin, hrow.token, hrow.position, hcells]
  rfl

theorem runsRows_greedy (k : Unit) : RunsRows (greedyRow F) ((greedy F).dev k) :=
  ⟨fun _ _ _ _ h => (congrArg Prod.snd h).symm, fun _ _ _ _ h => nomatch h⟩

theorem greedy_keepsOld (T : Nat) (o : SchedulerOptions) : (greedy F).KeepsOld T o :=
  fun _ _ _ _ _ _ _ _ _ _ _ _ => rfl

end

/-! ## the argmax of a launch -/

theorem length_runRows {ι : Type} (f : Option Nat → DeviceRow → Pool ι → ι × Int)
    (items : List (Option Nat × DeviceRow)) : ∀ d, (runRows f items d).1.length = items.length := by
  induction items with
  | nil => exact fun d => rfl
  | cons i items ih => exact fun d => congrArg Nat.succ (ih _)

theorem length_owners (rows : List DeviceRow) : ∀ batch, (owners batch rows).length = rows.length := by
  induction rows with
  | nil => intro batch; cases batch <;> rfl
  | cons row rows ih => intro batch; cases batch <;> exact congrArg Nat.succ (ih _)

theorem owners_get {batch : List Nat} : ∀ {rows : List DeviceRow} {i r : Nat} {row : DeviceRow},
    batch[i]? = some r → rows[i]? = some row → (owners batch rows)[i]? = some (some r, row) := by
  induction batch with
  | nil => intro rows i r row h _; simp at h
  | cons r' batch ih =>
    intro rows i r row h h'
    match rows, i, h, h' with
    | row' :: rows, 0, h, h' =>
      obtain rfl := Option.some.inj h
      obtain rfl := Option.some.inj h'
      rfl
    | row' :: rows, i + 1, h, h' => exact ih h (show rows[i]? = _ from h')

section
variable {T : Nat} {o : SchedulerOptions} {s s' : Scheduler} {plan : StepPlan} {x : Executor}
  {ι : Type} {E : Expect ι} {d : Pool ι} {f : Option Nat → DeviceRow → Pool ι → ι × Int} {l : Launch}

/-- row `t` of a chunk -/
theorem Launched.item_chunk (hL : Launched x o s plan l) {r : Nat} (hp : plan.prefill = some r) :
    l.prefill = true ∧ l.items.length = plan.prefillEnd - plan.prefillBegin ∧
      ∀ t < plan.prefillEnd - plan.prefillBegin, l.items[t]?
        = some (some r, x.chunkRow (s.heap r) plan.prefillEnd (plan.prefillBegin + t)) := by
  cases hL with
  | batch rows prefill busy ok live max => rw [prefill] at hp; cases hp
  | chunk r' prefill ok =>
    obtain rfl : r' = r := Option.some.inj (prefill.symm.trans hp)
    refine ⟨rfl, (length_owners _ _).trans (by simp), fun t ht => owners_get ?_ ?_⟩
    · rw [List.getElem?_replicate, if_pos ht]
    · rw [List.getElem?_map, List.getElem?_range ht]
      rfl

/-- row `i` of a decode batch -/
theorem Launched.item_row (hL : Launched x o s plan l) {i r : Nat} (hp : plan.prefill = none)
    (hi : plan.decode[i]? = some r) :
    l.prefill = false ∧ l.items[i]? = some (some r, x.decodeRow (s.heap r)) := by
  cases hL with
  | chunk r' prefill ok => rw [prefill] at hp; cases hp
  | batch rows prefill busy ok live max =>
    refine ⟨rfl, owners_get hi ?_⟩
    have hlt : i < plan.decode.length := (List.getElem?_eq_some_iff.mp hi).1
    show (x.decodeRows (plan.decode.map s.heap) rows)[i]? = _
    unfold Executor.decodeRows
    rw [List.getElem?_append_left (by simpa using hlt), List.getElem?_map, List.getElem?_map, hi]
    rfl

/-- the row of the newest token of `r` yields `token` -/
def Newest (E : Expect ι) (r : Nat) (q : Request) (token : Int) : Prop :=
  ∃ v, E q.tokens r (q.seqLen - 1) = some (v, token)

/-- the last row of a last chunk -/
theorem Launched.newest_last (h : Inv T o s) (hP : Scheduler.PlanOk o s plan)
    (hL : Launched x o s plan l) (hf : Computes E x s f) (hB : BackedNow E s d) {r : Nat}
    (hp : plan.prefill = some r) (hb : plan.prefillBegin < plan.prefillEnd)
    (hlast : plan.prefillEnd = (s.heap r).seqLen) :
    l.prefill = true ∧ Newest E r (s.heap r) ((runRows f l.items d).1.getLastD 0) := by
  obtain ⟨hpre, hlen, hitem⟩ := hL.item_chunk hp
  obtain ⟨v, out, hout, hE⟩ := ((hL.feeds h hP).1.run h hf d hB).2 _ r _
    (hitem (plan.prefillEnd - plan.prefillBegin - 1) (by omega))
  have hget : (runRows f l.items d).1.getLastD 0 = out := by
    rw [List.getLastD_eq_getLast?, List.getLast?_eq_getElem?, length_runRows, hlen, hout]
    rfl
  have hpos : plan.prefillBegin + (plan.prefillEnd - plan.prefillBegin - 1)
      = (s.heap r).seqLen - 1 := by omega
  refine ⟨hpre, v, ?_⟩
  rw [hget, ← hpos]
  exact hE

/-- a decode row -/
theorem Launched.newest_row (h : Inv T o s) (hP : Scheduler.PlanOk o s plan)
    (hL : Launched x o s plan l) (hf : Computes E x s f) (hB : BackedNow E s d) {i r : Nat}
    (hp : plan.prefill = none) (hi : plan.decode[i]? = some r) :
    l.prefill = false ∧ Newest E r (s.heap r) ((runRows f l.items d).1.getD i 0) := by
  obtain ⟨hpre, hitem⟩ := hL.item_row hp hi
  obtain ⟨v, out, hout, hE⟩ := ((hL.feeds h hP).1.run h hf d hB).2 _ r _ hitem
  refine ⟨hpre, v, ?_⟩
  rw [List.getD_eq_getElem?_getD, hout]
  exact hE

/-! ## what a call tells a request -/

/-- the stream of the request stays where it is -/
structure Kept (q q' : Request) : Prop where
  asked : q'.asked = q.asked
  outputs : q'.outputTokens = q.outputTokens
  reason : q'.finishReason = q.finishReason

/-- a call says nothing about a request, or tells its next token; `l` are its reports -/
inductive Heard (E : Expect ι) (o : SchedulerOptions) (r : Nat) (q q' : Request) :
    List StepResult → Prop where
  | silent (kept : Kept q q') : Heard E o r q q' []
  | told (q1 : Request) (token : Int) (kept : Kept q q1) (going : q.finishReason = .kNone)
      (newest : Newest E r q token) (eq : q' = sampledReq o q1 token) :
      Heard E o r q q' [sampledResult o q1 token]

theorem Kept.trans {q q1 q2 : Request} (h : Kept q q1) (h' : Kept q1 q2) : Kept q q2 :=
  ⟨h'.asked.trans h.asked, h'.outputs.trans h.outputs, h'.reason.trans h.reason⟩

theorem Kept.tokens {q q' : Request} (h : Kept q q') : q'.tokens = q.tokens := by
  have hp : q'.promptTokens = q.promptTokens := congrArg NewRequest.promptTokens h.asked
  unfold Request.tokens
  rw [hp, h.outputs]

theorem Heard.of_kept {r : Nat} {q q1 q' : Request} {l : List StepResult} (h : Kept q q1)
    (hS : Heard E o r q1 q' l) : Heard E o r q q' l := by
  cases hS with
  | silent kept => exact .silent (h.trans kept)
  | told q2 token kept going newest eq =>
    obtain ⟨v, hv⟩ := newest
    refine .told q2 token (h.trans kept) (h.reason.symm.trans going) ⟨v, ?_⟩ eq
    rw [← h.tokens, ← Request.length_tokens, ← h.tokens, Request.length_tokens]
    exact hv

/-- **Completing** a plan that evicts nobody tells each scheduled request the token of its newest
row. -/
theorem Completed.heard (h : Inv T o s) (hids : ∀ r < s.nextPtr, (s.heap r).id = r + 1)
    (hab : plan.aborted = []) {sampled : List Int} {results : List StepResult}
    (hC : Scheduler.Completed T o s plan sampled results s')
    (hfirst : ∀ r token, plan.prefill = some r → plan.prefillEnd = (s.heap r).seqLen →
      sampled = [token] → Newest E r (s.heap r) token)
    (hrow : ∀ (i : Nat) r token, plan.decode[i]? = some r → sampled[i]? = some token →
      Newest E r (s.heap r) token) (r : Nat) :
    Heard E o r (s.heap r) (s'.heap r) (about (r + 1) results) := by
  have hnot : ∀ r, r ∉ plan.aborted := fun r => by rw [hab]; exact List.not_mem_nil
  have hA := Completed.answer h hids (by rw [hab]; exact List.nodup_nil)
    (fun r hr => absurd hr (hnot r)) hC r
  generalize about (r + 1) results = l at hA ⊢
  cases hA with
  | evicted victim eq => exact absurd victim (hnot r)
  | none victim out eq => exact .silent ⟨by rw [eq], by rw [eq], by rw [eq]⟩
  | chunk prefill more eq => exact .silent ⟨by rw [eq]; rfl, by rw [eq]; rfl, by rw [eq]; rfl⟩
  | first prefill token tokens last eq =>
    obtain ⟨hm, _, he⟩ := Completed.slice hC prefill
    have hpre := h.prefill r hm
    have hseq : plan.prefillEnd = (s.heap r).seqLen := by
      unfold Request.seqLen Request.numOutputTokens
      rw [he, last, hpre.outputs]
      rfl
    exact .told _ token ⟨rfl, rfl, rfl⟩ hpre.reason (hfirst r token prefill hseq tokens) eq
  | row i token row tokens eq =>
    have hm := (Completed.scheduled hC).2 r (List.mem_of_getElem? row)
    exact .told _ token ⟨rfl, rfl, rfl⟩ (h.running r hm).reason (hrow i r token row tokens) eq

end

section
variable {κ : Type} {F : Numerics κ} {T : Nat} {o : SchedulerOptions} {w w' : EngineRun (Pool κ)}

/-- under `reserve_full` planning keeps every stream -/
theorem Planned.kept (hpol : o.admissionPolicy = .kReserveFull) {s s1 : Scheduler} {plan : StepPlan}
    (h : Inv T o s) (hP : Scheduler.Planned T o s plan s1) :
    plan.aborted = [] ∧ ∀ r, Kept (s.heap r) (s1.heap r) := by
  have hab : plan.aborted = [] := by
    by_contra hne
    have he := ((Planned.aborted_iff h hP).mp hne).1
    rw [h.options, hpol] at he
    cases he
  exact ⟨hab, fun r => ⟨(Planned.carried hP r).asked, (Planned.carried hP r).outputs,
    Planned.reason hP (by rw [hab]; exact List.not_mem_nil)⟩⟩

/-- **A step tells each request the token of its newest row**, or nothing. -/
theorem Ended.heard {e e' : Engine} {plan : StepPlan} {d d' : Pool κ} {k : Unit}
    {out : Except ExecutorError (List StepResult)} (hE : EngineInv T o e)
    (hP : Scheduler.PlanOk o e.sched plan) (hab : plan.aborted = [])
    (hB : BackedNow (cachedRows F) e.sched d)
    (hend : Engine.Ended T o ((greedy F).dev k) d e plan out e' d') (r : Nat) :
    Heard (cachedRows F) o r (e.sched.heap r) (e'.sched.heap r)
      (about (r + 1) (Event.stepped plan out).results) := by
  cases hend with
  | idle empty => exact .silent ⟨rfl, rfl, rfl⟩
  | evictions prefill decode results s completed =>
    refine Completed.heard hE.sched hE.ids hab completed (fun r token hp => ?_)
      (fun i r token hi => ?_) r
    · rw [prefill] at hp; cases hp
    · rw [decode] at hi; cases hi
  | refused m err launch busy => exact .silent ⟨rfl, rfl, rfl⟩
  | threw m done l err d' launch launched device busy => cases device
  | done m done l argmax d' results s launch launched device completed =>
    have hargmax : argmax = fun t => if l.prefill then (runRows (greedyRow F) l.items d).1.getLastD 0
        else (runRows (greedyRow F) l.items d).1.getD t 0 :=
      (Except.ok.inj (congrArg Prod.fst device)).symm
    refine Completed.heard hE.sched hE.ids hab completed (fun r token hp hlast hs => ?_)
      (fun i r token hi hs => ?_) r
    · have hslice : plan.prefillBegin < plan.prefillEnd := by
        cases launched with
        | chunk r' prefill ok => exact ok.slice.1
        | batch rows prefill busy ok live max => rw [prefill] at hp; cases hp
      obtain ⟨hpre, hn⟩ :=
        launched.newest_last hE.sched hP (computes_greedyRow F _ _) hB hp hslice hlast
      have htoken : token = argmax 0 := by
        cases ht : l.tokens with
        | zero => rw [ht] at hs; cases hs
        | succ n =>
          have := congrArg List.head? hs
          rw [ht, List.range_succ_eq_map] at this
          exact (Option.some.inj this).symm
      rw [htoken, hargmax]
      simp only [hpre, if_true]
      exact hn
    · have hp : plan.prefill = none := by
        cases launched with
        | chunk r' prefill ok =>
          cases hP with
          | prefill y rest queue shape blocks => rw [shape] at hi; cases hi
          | decode shape running blocks victims => rw [shape] at prefill; cases prefill
        | batch rows prefill busy ok live max => exact prefill
      obtain ⟨hpre, hn⟩ := launched.newest_row hE.sched hP (computes_greedyRow F _ _) hB hp hi
      have htoken : token = argmax i := by
        rw [List.getElem?_map] at hs
        obtain ⟨j, hj, rfl⟩ := Option.map_eq_some_iff.mp hs
        rw [List.getElem?_range (by
          have := (List.getElem?_eq_some_iff.mp hj).1
          simpa using this)] at hj
        rw [Option.some.inj hj]
      rw [htoken, hargmax]
      simp only [hpre]
      exact hn

/-! ## the simulation -/

/-- what the caller asked for -/
def Request.args (q : Request) : RequestArgs :=
  { promptTokens := q.promptTokens
    maxNewTokens := q.maxNewTokens
    ignoreEos := q.ignoreEos
    forcedTokens := q.forcedTokens }

/-- the reports about a request and its record agree with a reference -/
structure Follows (t : Alone κ) (id : Nat) (q : Request) (events : List Event) : Prop where
  emitted : (about id (reports events)).map (fun x => x.token) = t.emitted
  appended : q.outputTokens = t.appended
  reason : q.finishReason = t.reason

/-- the reference after as many tokens as the request has -/
def Request.alone (F : Numerics κ) (eos : List Int) (q : Request) : Alone κ :=
  Redline.alone F eos q.args q.numOutputTokens

theorem args_of_asked {q q' : Request} (h : q'.asked = q.asked) : q'.args = q.args := by
  have h1 : q'.promptTokens = _ := congrArg NewRequest.promptTokens h
  have h2 : q'.maxNewTokens = _ := congrArg NewRequest.maxNewTokens h
  have h3 : q'.ignoreEos = _ := congrArg NewRequest.ignoreEos h
  have h4 : q'.forcedTokens = _ := congrArg NewRequest.forcedTokens h
  unfold Request.args
  rw [h1, h2, h3, h4]
  rfl

/-- **One call, one request**: it follows its reference for one more token, or for none. -/
theorem Heard.follows {r : Nat} {q q' : Request} {events : List Event} {event : Event}
    (hp : q.promptTokens ≠ [])
    (hS : Heard (cachedRows F) o r q q' (about (r + 1) event.results))
    (h : Follows (q.alone F o.eosTokenIds) (r + 1) q events) :
    Follows (q'.alone F o.eosTokenIds) (r + 1) q' (events ++ [event]) := by
  have hrep : about (r + 1) (reports (events ++ [event]))
      = about (r + 1) (reports events) ++ about (r + 1) event.results := by
    rw [reports_append, about_append]
  generalize about (r + 1) event.results = l at hS hrep
  cases hS with
  | silent kept =>
    have halone : q'.alone F o.eosTokenIds = q.alone F o.eosTokenIds := by
      unfold Request.alone Request.numOutputTokens
      rw [args_of_asked kept.asked, kept.outputs]
    rw [halone]
    exact ⟨by rw [hrep, List.append_nil]; exact h.emitted, kept.outputs.trans h.appended,
      kept.reason.trans h.reason⟩
  | told q1 token kept going newest eq =>
    have hn : (q.alone F o.eosTokenIds).reason = .kNone := h.reason.symm.trans going
    have htoken : token = (q.alone F o.eosTokenIds).fed.2 := by
      obtain ⟨v, hv⟩ := newest
      obtain ⟨v', hv'⟩ := alone_newest hn hp
      have happ : q.tokens = q.args.promptTokens ++ (q.alone F o.eosTokenIds).appended := by
        rw [← h.appended]
        rfl
      unfold cachedRows at hv
      rw [happ] at hv
      exact (Prod.mk.inj (Option.some.inj (hv.symm.trans hv'))).2
    have hargs : q1.args = q.args := args_of_asked kept.asked
    have hnext : q'.alone F o.eosTokenIds = Alone.next F o.eosTokenIds q.args
        (q.alone F o.eosTokenIds) := by
      have hlen : q'.numOutputTokens = q.numOutputTokens + 1 := by
        unfold Request.numOutputTokens
        rw [eq, outputTokens_sampledReq, List.length_append, kept.outputs]
        rfl
      unfold Request.alone
      rw [hlen, alone_succ, eq, args_of_asked (asked_sampledReq o q1 token), hargs]
    have happended : Scheduler.appendedToken q1 token = (q.alone F o.eosTokenIds).token q.args := by
      unfold Scheduler.appendedToken Alone.token
      rw [kept.outputs, h.appended, ← hargs, htoken]
      rfl
    rw [hnext]
    refine ⟨?_, ?_, ?_⟩
    · rw [hrep, List.map_append, h.emitted, Alone.next_emitted hn, ← htoken]
      rfl
    · rw [eq, outputTokens_sampledReq, kept.outputs, h.appended,
        Alone.next_appended _ _ _ hn, happended]
    · have hmax : (q1.numOutputTokens : Int) = (q.alone F o.eosTokenIds).appended.length := by
        unfold Request.numOutputTokens
        rw [kept.outputs, h.appended]
      rw [eq, finishReason_sampledReq (kept.reason.trans going), Alone.next_reason hn, ← hmax,
        ← happended, ← hargs]
      rfl

/-- every accepted request follows its reference -/
structure Followed (F : Numerics κ) (o : SchedulerOptions) (w : EngineRun (Pool κ)) : Prop where
  backed : BackedNow (cachedRows F) w.engine.sched w.device
  follows : ∀ r < w.engine.sched.nextPtr, Follows ((w.engine.sched.heap r).alone F o.eosTokenIds)
    (r + 1) (w.engine.sched.heap r) w.events
  known : ∀ x ∈ reports w.events, x.requestId < w.engine.sched.nextPtr + 1
  logged : ∀ r a, .added (r + 1) a ∈ w.events →
    r < w.engine.sched.nextPtr ∧ (w.engine.sched.heap r).args = a

theorem Followed.init (e : Engine) (hn : e.sched.nextPtr = 0) (hr : e.sched.running = [])
    (hp : e.sched.prefillQueue = []) (d : Pool κ) : Followed F o (.init e d) := by
  have hadm : e.sched.admitted = [] := by
    unfold Scheduler.admitted
    rw [hr, hp]
    rfl
  have hout : ∀ r, r ∉ (EngineRun.init e d).engine.sched.admitted := fun r hr => by
    rw [show (EngineRun.init e d).engine.sched.admitted = [] from hadm] at hr
    exact List.not_mem_nil hr
  refine ⟨⟨fun r hr => absurd hr (hout r), fun r hr => absurd hr (hout r)⟩, fun r hr => ?_,
    fun x hx => absurd hx List.not_mem_nil, fun r a ha => absurd ha List.not_mem_nil⟩
  have hr' : r < e.sched.nextPtr := hr
  omega

theorem Followed.added (h : Followed F o w) (hE : EngineInv T o w.engine) (a : RequestArgs) :
    Followed F o { w with
      engine := w.engine.added a
      events := w.events ++ [.added w.engine.nextRequestId a] } := by
  have hrep : reports (w.events ++ [.added w.engine.nextRequestId a]) = reports w.events := by
    rw [reports_append]
    exact List.append_nil _
  have hnew : (w.engine.added a).sched.heap w.engine.sched.nextPtr
      = a.request w.engine.nextRequestId := Function.update_self ..
  have hold : ∀ r < w.engine.sched.nextPtr,
      (w.engine.added a).sched.heap r = w.engine.sched.heap r :=
    fun r hr => Function.update_of_ne (Nat.ne_of_lt hr) _ _
  refine ⟨Backed.added hE.sched h.backed, fun r hr => ?_, fun x hx => ?_, fun r b hb => ?_⟩
  · show Follows (((w.engine.added a).sched.heap r).alone F o.eosTokenIds) (r + 1)
      ((w.engine.added a).sched.heap r) (w.events ++ [.added w.engine.nextRequestId a])
    rcases Nat.lt_succ_iff_lt_or_eq.mp hr with hr | rfl
    · rw [hold r hr]
      obtain ⟨h1, h2, h3⟩ := h.follows r hr
      exact ⟨by rw [hrep]; exact h1, h2, h3⟩
    · rw [hnew]
      refine ⟨?_, rfl, rfl⟩
      rw [hrep, about_nil fun x hx => Nat.ne_of_lt (h.known x hx)]
      rfl
  · rw [hrep] at hx
    exact Nat.lt_succ_of_lt (h.known x hx)
  · show r < w.engine.sched.nextPtr + 1 ∧ ((w.engine.added a).sched.heap r).args = b
    rcases List.mem_append.mp hb with hb | hb
    · obtain ⟨h1, h2⟩ := h.logged r b hb
      exact ⟨Nat.lt_succ_of_lt h1, by rw [hold r h1]; exact h2⟩
    · obtain ⟨hid, rfl⟩ := Event.added.inj (List.mem_singleton.mp hb)
      rw [hE.nextId] at hid
      obtain rfl := Nat.succ.inj hid
      exact ⟨Nat.lt_succ_self _, by rw [hnew]; rfl⟩

/-- what a returning step reports is about accepted requests -/
theorem Ended.known {e e' : Engine} {plan : StepPlan} {d d' : Pool κ} {k : Unit}
    {out : Except ExecutorError (List StepResult)} (hE : EngineInv T o e) (hab : plan.aborted = [])
    (hend : Engine.Ended T o ((greedy F).dev k) d e plan out e' d') :
    ∀ x ∈ (Event.stepped plan out).results, x.requestId < e.sched.nextPtr + 1 := by
  have hv : ∀ r ∈ plan.aborted, r < e.sched.nextPtr := fun r hr => by rw [hab] at hr; cases hr
  cases hend with
  | idle empty => exact fun x hx => absurd hx List.not_mem_nil
  | evictions prefill decode results s completed =>
    exact Completed.known hE.sched completed hE.ids hv
  | refused m err launch busy => exact fun x hx => absurd hx List.not_mem_nil
  | threw m done l err d' launch launched device busy => cases device
  | done m done l argmax d' results s launch launched device completed =>
    exact Completed.known hE.sched completed hE.ids hv

/-- **One call.** -/
theorem Followed.stepped (hpol : o.admissionPolicy = .kReserveFull) (h : Followed F o w)
    (hE : EngineInv T o w.engine) {c : EngineCall Unit}
    (hs : EngineRun.Stepped T o (greedy F) w c w') : Followed F o w' := by
  have hback := Backed.stepped (cachedRows_stable F) (computes_greedyRow F) (runsRows_greedy F)
    (greedy_keepsOld F T o) hE hs h.backed
  cases hs with
  | refused a err =>
    have hrep : reports (w.events ++ [.refused err]) = reports w.events := by
      rw [reports_append]
      exact List.append_nil _
    refine ⟨hback, fun r hr => ?_, fun x hx => h.known x (hrep ▸ hx), fun r b hb => ?_⟩
    · obtain ⟨h1, h2, h3⟩ := h.follows r hr
      exact ⟨by rw [hrep]; exact h1, h2, h3⟩
    · rcases List.mem_append.mp hb with hb | hb
      · exact h.logged r b hb
      · cases List.mem_singleton.mp hb
  | added a accepted => exact h.added hE a
  | stepped k plan s out e d plans planned ended =>
    have hE1 := Engine.EngineInv.planned hE planned
    have hn : e.sched.nextPtr = w.engine.sched.nextPtr :=
      ended.asked.1.trans (Planned.nextPtr planned)
    obtain ⟨hab, hkept⟩ := Planned.kept hpol hE.sched planned
    have hB1 : BackedNow (cachedRows F) s w.device :=
      Backed.planned hE.sched planned h.backed fun _ _ _ _ _ _ => rfl
    refine ⟨hback, fun r hr => ?_, fun x hx => ?_, fun r b hb => ?_⟩
    · have hr' : r < w.engine.sched.nextPtr := hn ▸ hr
      have hp : (w.engine.sched.heap r).promptTokens ≠ [] :=
        List.length_pos_iff.mp (hE.sched.valid r hr').prompt_pos
      exact ((Ended.heard hE1 (planned.planOk hE.sched) hab hB1 ended r).of_kept (hkept r)).follows hp
        (h.follows r hr')
    · show x.requestId < e.sched.nextPtr + 1
      rw [reports_append, List.mem_append] at hx
      rw [hn]
      rcases hx with hx | hx
      · exact h.known x hx
      · rw [← Planned.nextPtr planned]
        exact Ended.known hE1 hab ended x hx
    · rcases List.mem_append.mp hb with hb | hb
      · obtain ⟨h1, h2⟩ := h.logged r b hb
        refine ⟨by rw [hn]; exact h1, ?_⟩
        rw [← h2]
        exact args_of_asked ((ended.asked.2 r).trans (hkept r).asked)
      · cases List.mem_singleton.mp hb

end

/-! ## draining -/

/-- the call ended with an exception of the executor -/
def Event.threw : Event → Bool
  | .stepped _ (.error _) => true
  | _ => false

/-- no call threw -/
def Calm (events : List Event) : Prop := ∀ event ∈ events, event.threw = false

instance (events : List Event) : Decidable (Calm events) :=
  inferInstanceAs (Decidable (∀ event ∈ events, event.threw = false))

section
variable {κ δ : Type} {T : Nat} {o : SchedulerOptions}

/-- **A step that returns** takes something off the work left. -/
theorem Ended.pending (hb : 1 ≤ o.maxBatch) {e e' : Engine} (hE : EngineInv T o e) {plan : StepPlan}
    {s : Scheduler} (hP : Scheduler.Planned T o e.sched plan s) {dev : Device δ} {d d' : δ}
    {out : Except ExecutorError (List StepResult)}
    (hend : Engine.Ended T o dev d { e with sched := s } plan out e' d')
    (hout : (Event.stepped plan out).threw = false) :
    e'.sched.pending o ≤ e.sched.pending o - 1 := by
  cases hend with
  | idle empty =>
    -- nothing was planned, so nothing is left
    have hall : ∀ r < e.sched.nextPtr, (e.sched.heap r).state = .kFinished := by
      intro r hr
      by_contra hst
      rw [StepPlan.empty, Bool.and_eq_true, Bool.and_eq_true] at empty
      rcases Planned.nonempty hE.sched hb (hE.sched.busy hr hst) hP with h | h | h
      · exact h (Option.isNone_iff_eq_none.mp empty.1.1)
      · exact h (List.isEmpty_iff.mp empty.1.2)
      · exact h (List.isEmpty_iff.mp empty.2)
    have hreq : s.requests = e.sched.requests := by
      unfold Scheduler.requests
      rw [Planned.nextPtr hP]
    have h0 : e.sched.pending o = 0 :=
      held_zero fun r hr => todo_finished (hall r (List.mem_range.mp hr))
    have hle : s.pending o ≤ e.sched.pending o := by
      unfold Scheduler.pending
      rw [hreq]
      exact held_le_held fun r _ => (Planned.todo_le hE.sched hP).1 r
    show s.pending o ≤ _
    omega
  | evictions prefill decode results s' completed => exact pending_step hE.sched hb hP completed
  | refused m err launch busy => cases hout
  | threw m done l err d' launch launched device busy => cases hout
  | done m done l argmax d' results s' launch launched device completed =>
    exact pending_step hE.sched hb hP completed

/-- **Steps that return finish every request**, once there are enough of them. -/
theorem drain_steps (env : Environment κ δ) (hb : 1 ≤ o.maxBatch) (k : κ) (m : Nat) :
    ∀ w : EngineRun δ, EngineInv T o w.engine → ∃ w',
      run (EngineRun.step env) w (List.replicate m (.step k)) = some w' ∧
      EngineInv T o w'.engine ∧ (∃ l, w'.events = w.events ++ l) ∧
      (Calm w'.events → w'.engine.sched.pending o ≤ w.engine.sched.pending o - m) := by
  induction m with
  | zero => exact fun w hE => ⟨w, rfl, hE, ⟨[], (List.append_nil _).symm⟩, fun _ => Nat.le_refl _⟩
  | succ m ih =>
    intro w hE
    obtain ⟨w1, hs, hE1, hstep⟩ := EngineRun.step_spec env hE (.step k)
    obtain ⟨w2, hr, hE2, ⟨l, hl⟩, hle⟩ := ih w1 hE1
    cases hstep with
    | stepped k plan s out e d plans planned ended =>
      refine ⟨w2, by rw [List.replicate_succ, run_cons, hs]; exact hr, hE2,
        ⟨.stepped plan out :: l, by rw [hl, List.append_assoc]; rfl⟩, fun hcalm => ?_⟩
      have hthrew : (Event.stepped plan out).threw = false := hcalm _ (by rw [hl]; simp)
      have h1 := Ended.pending hb hE planned ended hthrew
      have h2 := hle hcalm
      have h3 : e.sched.pending o ≤ w.engine.sched.pending o - 1 := h1
      have h4 : w2.engine.sched.pending o ≤ e.sched.pending o - m := h2
      omega

end

/-- **The engine refines greedy decoding.**  Under `reserve_full` the reports about a request, the
tokens appended to it and its finish reason are at all times those of the reference after as many
tokens, and those of the whole reference once it has finished.  Steps that do not throw finish
everything. -/
theorem refines_greedy (κ : Type) (F : Numerics κ) (config : ModelConfig) (options : EngineOptions)
    (captured : Bool) (probe : Nat → Nat → Option PrefillGemmMode) (e : Engine)
    (he : Engine.make config options captured probe = .ok e)
    (hpol : options.admissionPolicy = .kReserveFull) (d0 : Pool κ) (cs : List (EngineCall Unit)) :
    ∃ w, run (EngineRun.step (greedy F)) (.init e d0) cs = some w ∧
      (∀ r a, .added (r + 1) a ∈ w.events →
        Follows (alone F config.eosTokenIds a (w.engine.sched.heap r).numOutputTokens) (r + 1)
          (w.engine.sched.heap r) w.events ∧
        ((w.engine.sched.heap r).state = .kFinished →
          Follows (reference F config.eosTokenIds a) (r + 1) (w.engine.sched.heap r) w.events)) ∧
      ∀ m, w.engine.sched.totalBudget (Engine.schedulerOptions config options) ≤ m →
        ∃ w', run (EngineRun.step (greedy F)) w (List.replicate m (.step ())) = some w' ∧
          (Calm w'.events → ∀ r a, .added (r + 1) a ∈ w'.events →
            Follows (reference F config.eosTokenIds a) (r + 1) (w'.engine.sched.heap r) w'.events) := by
  have hE0 := EngineInv.make he
  have h0 : Followed F (Engine.schedulerOptions config options) (.init e d0) := by
    obtain ⟨x, _, rfl⟩ := Engine.make_eq he
    exact Followed.init _ rfl rfl rfl d0
  have hrun : ∀ w : EngineRun (Pool κ), EngineInv e.totalBlocks (Engine.schedulerOptions config options)
      w.engine → Followed F (Engine.schedulerOptions config options) w → ∀ cs : List (EngineCall Unit),
      ∃ w', run (EngineRun.step (greedy F)) w cs = some w' ∧
        EngineInv e.totalBlocks (Engine.schedulerOptions config options) w'.engine ∧
        Followed F (Engine.schedulerOptions config options) w' := fun w hE hF cs =>
    EngineRun.run_keeps _ (fun w c w' hE hF hs => hF.stepped hpol hE hs) hE hF cs
  -- what a state of the simulation says about one request
  have hfollows : ∀ w : EngineRun (Pool κ), EngineInv e.totalBlocks
      (Engine.schedulerOptions config options) w.engine →
      Followed F (Engine.schedulerOptions config options) w → ∀ r a, .added (r + 1) a ∈ w.events →
      r < w.engine.sched.nextPtr ∧
      Follows (alone F config.eosTokenIds a (w.engine.sched.heap r).numOutputTokens) (r + 1)
        (w.engine.sched.heap r) w.events ∧
      ((w.engine.sched.heap r).state = .kFinished →
        Follows (reference F config.eosTokenIds a) (r + 1) (w.engine.sched.heap r) w.events) := by
    intro w hE hF r a ha
    obtain ⟨hr, rfl⟩ := hF.logged r a ha
    have hfol := hF.follows r hr
    refine ⟨hr, hfol, fun hfin => ?_⟩
    have hreason := (hE.sched.finished_iff hr).mp hfin
    have hmax : 0 < (w.engine.sched.heap r).args.maxNewTokens := (hE.sched.valid r hr).maxNew_pos
    rw [hfol.reason] at hreason
    have href := alone_settled hmax hreason
    exact href ▸ hfol
  obtain ⟨w, hw, hE, hF⟩ := hrun _ hE0 h0 cs
  refine ⟨w, hw, fun r a ha => (hfollows w hE hF r a ha).2, fun m hm => ?_⟩
  obtain ⟨w', hw', hE', _, hpend⟩ := drain_steps (greedy F) hE0.batch_pos () m w hE
  obtain ⟨w1, hw1, _, hF'⟩ := hrun w hE hF (List.replicate m (.step ()))
  obtain rfl : w1 = w' := Option.some.inj (hw1.symm.trans hw')
  refine ⟨w1, hw', fun hcalm r a ha => ?_⟩
  obtain ⟨hr, _, hdone⟩ := hfollows w1 hE' hF' r a ha
  refine hdone (hE'.sched.pending_eq_zero ?_ r hr)
  have hbudget : w.engine.sched.pending (Engine.schedulerOptions config options)
      ≤ w.engine.sched.totalBudget (Engine.schedulerOptions config options) :=
    held_le_held fun _ _ => todo_le_budget
  have := hpend hcalm
  omega

/-- two requests share the pool; the second one is scripted and stops at the end of sequence -/
def tinyWorkload : List (EngineCall Unit) :=
  [.addRequest { promptTokens := [1, 2, 3], maxNewTokens := 2 },
    .addRequest { promptTokens := [4], maxNewTokens := 4, forcedTokens := [5, 7] }]

def tinyNumerics : Numerics Int := fun t p cells => (t + p, (t + cells.sum) % 10)

theorem refines_greedy_example : ∃ w w',
    run (EngineRun.step (greedy tinyNumerics)) (.init (tinyEngine .kReserveFull) fun _ => 0)
      tinyWorkload = some w ∧
    run (EngineRun.step (greedy tinyNumerics)) w (List.replicate 8 (.step ())) = some w' ∧
    Follows (reference tinyNumerics [7] { promptTokens := [1, 2, 3], maxNewTokens := 2 }) 1
      (w'.engine.sched.heap 0) w'.events ∧
    Follows (reference tinyNumerics [7]
      { promptTokens := [4], maxNewTokens := 4, forcedTokens := [5, 7] }) 2
      (w'.engine.sched.heap 1) w'.events := by
  obtain ⟨w, hw, _, h⟩ := refines_greedy Int tinyNumerics tinyConfig (tinyOptions .kReserveFull) true
    tinyProbe (tinyEngine .kReserveFull) (tinyEngine_make .kReserveFull) rfl (fun _ => 0) tinyWorkload
  have hbudget : (run (EngineRun.step (greedy tinyNumerics))
      (.init (tinyEngine .kReserveFull) fun _ => 0) tinyWorkload).map (fun w =>
        w.engine.sched.totalBudget (Engine.schedulerOptions tinyConfig (tinyOptions .kReserveFull)))
      = some 8 := by decide
  rw [hw] at hbudget
  obtain ⟨w', hw', hall⟩ := h 8 (Nat.le_of_eq (Option.some.inj hbudget))
  have hlog : (run (EngineRun.step (greedy tinyNumerics))
      (.init (tinyEngine .kReserveFull) fun _ => 0) (tinyWorkload ++ List.replicate 8 (.step ()))).map
        (fun w => (decide (Calm w.events), w.events.take 2)) = some (true,
          [.added 1 { promptTokens := [1, 2, 3], maxNewTokens := 2 },
            .added 2 { promptTokens := [4], maxNewTokens := 4, forcedTokens := [5, 7] }]) := by rfl
  rw [run_append, hw, Option.bind_some, hw', Option.map_some, Option.some.injEq, Prod.mk.injEq] at hlog
  have hmem : ∀ event ∈ w'.events.take 2, event ∈ w'.events := fun event => List.mem_of_mem_take
  rw [hlog.2] at hmem
  have hcalm := of_decide_eq_true hlog.1
  exact ⟨w, w', hw, hw', hall hcalm 0 _ (hmem _ List.mem_cons_self),
    hall hcalm 1 _ (hmem _ (List.mem_cons_of_mem _ List.mem_cons_self))⟩

end Redline
