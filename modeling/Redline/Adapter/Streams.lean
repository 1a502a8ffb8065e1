import Redline.Adapter.Loop

/-!
# The streams of the adapter

`Stream` says what the client of a request and its queue hold of the reports about it.
`Ghost` adds to a trial what its state forgets: the order in which the engine accepted the requests,
and the reports that went into each queue and out of it.  The id of a request is its place in the
order (`idOf`).

`Streams.route`: the pump routes the results of a step, all of them to known requests, and what it
put into the queues is what was reported.
-/

namespace Redline
namespace RedlineAdapter
open RunBench

/-! ## what a client heard -/

def Item.of (x : StepResult) : Item := .emission x.token x.finished x.finishReason.name

/-- the tokens among reports; an abort has none -/
def heardTokens (l : List StepResult) : List Int :=
  (l.filter fun x => decide (x.finishReason ≠ .kAborted)).map (·.token)

theorem heardTokens_append (l l' : List StepResult) :
    heardTokens (l ++ l') = heardTokens l ++ heardTokens l' := by
  unfold heardTokens
  rw [List.filter_append, List.map_append]

/-- it saw that the pump failed -/
def ClientTask.gaveUp : ClientTask → Bool
  | .raised .pumpFailed => true
  | _ => false

def PumpTask.failed : PumpTask → Bool
  | .raised _ => true
  | _ => false

/-- what the end of the pump leaves in a queue -/
def sentinel (failed gaveUp : Bool) : List Item := if failed && !gaveUp then [.pumpFailed] else []

/-- a client that took the reports `consumed`, with `queued` in its queue -/
structure Stream (name : Int) (failed : Bool) (c : Client) (queue : List Item)
    (consumed queued : List StepResult) : Prop where
  named : c.trace.requestId = name
  tokens : c.trace.tokenIds = heardTokens consumed
  times : c.trace.tokenTimes.length = c.trace.tokenIds.length
  queue : queue = queued.map Item.of ++ sentinel failed c.task.gaveUp
  /-- until its last report it goes on -/
  going : Trial.returnedTask c.task = false →
    (∀ x ∈ consumed, x.finished = false) ∧ c.trace.finishReason = ""
  done : Trial.returnedTask c.task = true → ∃ l x, consumed = l ++ [x] ∧ x.finished = true ∧
    c.trace.finishReason = x.finishReason.name

/-- what is forgotten -/
structure Ghost where
  order : List Nat
  consumed : Nat → List StepResult
  queued : Nat → List StepResult

/-- the id of a request, `first` requests after which the trial began -/
def idOf (first : Nat) (order : List Nat) (i : Nat) : Nat := first + order.idxOf i + 1

/-- the reports that were delivered to the pump -/
def Ghost.delivered (G : Ghost) (i : Nat) : List StepResult := G.consumed i ++ G.queued i

/-- a report of the end was delivered -/
def Ghost.ended (G : Ghost) (i : Nat) : Bool := (G.delivered i).any (·.finished)

section
variable {δ : Type} {first total : Nat} {requests : List WorkloadRequest} {G : Ghost}
  {t : Trial δ} {U : List StepResult} {name : Int}

/-- the requests of a workload have different ids -/
def Distinct (requests : List WorkloadRequest) : Prop := (requests.map (·.requestId)).Nodup

instance (requests : List WorkloadRequest) : Decidable (Distinct requests) :=
  inferInstanceAs (Decidable (requests.map (·.requestId)).Nodup)

theorem Distinct.inj (h : Distinct requests) {i j : Nat} (hi : i < requests.length)
    (hj : j < requests.length) (he : requestId requests i = requestId requests j) : i = j := by
  have hget : ∀ k, k < requests.length →
      (requests.map (·.requestId))[k]? = some (requestId requests k) := fun k hk => by
    rw [List.getElem?_map, requestId, request, List.getD_eq_getElem?_getD, List.getElem?_eq_getElem hk]
    rfl
  refine (List.getElem?_inj (by rwa [List.length_map]) h).mp ?_
  rw [hget i hi, hget j hj, he]

/-- every report is in its stream, but for those in `U`, which the pump did not get yet -/
structure Streams (first : Nat) (requests : List WorkloadRequest) (G : Ghost) (t : Trial δ)
    (U : List StepResult) : Prop where
  distinct : Distinct requests
  client : ∀ i < requests.length, Stream (requestId requests i) t.pump.failed (t.clients i)
    (t.queues (requestId requests i)) (G.consumed i) (G.queued i)
  all : ∀ i < requests.length, about (idOf first G.order i) (reports t.w.events)
    = G.delivered i ++ about (idOf first G.order i) U
  finished : t.finished = (List.range requests.length).countP G.ended

/-! ## the trial goes on -/

/-- nothing of the streams changes -/
theorem Streams.frame {t' : Trial δ} (h : Streams first requests G t U)
    (hpump : t'.pump.failed = t.pump.failed) (hevents : t'.w.events = t.w.events)
    (hfinished : t'.finished = t.finished)
    (hclients : ∀ i < requests.length, Stream (requestId requests i) t.pump.failed (t.clients i)
        (t.queues (requestId requests i)) (G.consumed i) (G.queued i) →
      Stream (requestId requests i) t.pump.failed (t'.clients i) (t'.queues (requestId requests i))
        (G.consumed i) (G.queued i)) :
    Streams first requests G t' U :=
  ⟨h.distinct, fun i hi => hpump ▸ hclients i hi (h.client i hi), hevents ▸ h.all,
    hfinished ▸ h.finished⟩

/-- a client that goes on to another `await` -/
theorem Stream.goOn {failed : Bool} {c : Client} {queue : List Item} {consumed queued : List StepResult}
    (h : Stream name failed c queue consumed queued) {task : ClientTask}
    (hback : task.gaveUp = c.task.gaveUp)
    (hreturned : Trial.returnedTask task = Trial.returnedTask c.task) :
    Stream name failed { c with task } queue consumed queued :=
  ⟨h.named, h.tokens, h.times, by rw [h.queue, hback], fun hn => h.going (hreturned ▸ hn),
    fun hd => h.done (hreturned ▸ hd)⟩

/-- a report more, into the queue -/
theorem Stream.put {c : Client} {queue : List Item} {consumed queued : List StepResult}
    (h : Stream name false c queue consumed queued) (x : StepResult) :
    Stream name false c (queue ++ [.of x]) consumed (queued ++ [x]) := by
  refine ⟨h.named, h.tokens, h.times, ?_, h.going, h.done⟩
  rw [h.queue, List.map_append]
  simp [sentinel]

/-- the pump ends -/
theorem Stream.fail {c : Client} {queue : List Item} {consumed queued : List StepResult}
    (h : Stream name false c queue consumed queued) (hback : c.task.gaveUp = false) :
    Stream name true c (queue ++ [.pumpFailed]) consumed queued := by
  refine ⟨h.named, h.tokens, h.times, ?_, h.going, h.done⟩
  rw [h.queue, hback]
  simp [sentinel]

/-! ## routing -/

/-- the ghost after a report was put into the queue of `i` -/
def Ghost.put (G : Ghost) (i : Nat) (x : StepResult) : Ghost :=
  { G with queued := Function.update G.queued i (G.queued i ++ [x]) }

theorem Ghost.delivered_put (i : Nat) (x : StepResult) :
    (G.put i x).delivered = Function.update G.delivered i (G.delivered i ++ [x]) := by
  funext j
  show G.consumed j ++ Function.update G.queued i _ j = _
  by_cases hj : j = i
  · rw [hj, Function.update_self, Function.update_self, ← List.append_assoc]
    rfl
  · rw [Function.update_of_ne hj, Function.update_of_ne hj]
    rfl

/-- ending one more of a range -/
theorem countP_ended {p p' : Nat → Bool} {i : Nat} (hi : i < total) (hp : p i = false)
    (hp' : ∀ j, p' j = true ↔ j = i ∨ p j = true) :
    (List.range total).countP p' = (List.range total).countP p + 1 :=
  countP_union (l := [i]) (List.nodup_singleton i)
    (fun r hr => by rw [List.mem_singleton.mp hr]; exact ⟨hi, hp⟩)
    fun r _ => by rw [List.mem_singleton]; exact hp' r

/-- **One report** goes into the queue of its request. -/
theorem Streams.put (h : Streams first requests G t U) {x : StepResult} {rest : List StepResult}
    (hU : U = x :: rest) (hpump : t.pump.failed = false) {i : Nat} (hi : i < requests.length)
    (hid : x.requestId = idOf first G.order i)
    (hother : ∀ j < requests.length, j ≠ i → idOf first G.order j ≠ idOf first G.order i)
    (hstory : ∃ q, Story q (about (idOf first G.order i) (reports t.w.events))) :
    Streams first requests (G.put i x) (t.put (requestId requests i) x) rest := by
  subst hU
  have hdelivered := Ghost.delivered_put (G := G) i x
  -- nothing ended before
  have hnone : ∀ y ∈ G.delivered i, y.finished = false := by
    obtain ⟨q, hq⟩ := hstory
    rw [h.all i hi, about_cons, if_pos hid] at hq
    exact hq.split
  refine ⟨h.distinct, fun j hj => ?_, fun j hj => ?_, ?_⟩
  · show Stream _ t.pump.failed (t.clients j)
      (Function.update t.queues (requestId requests i) _ (requestId requests j)) (G.consumed j)
      (Function.update G.queued i _ j)
    by_cases hij : j = i
    · subst hij
      rw [Function.update_self, Function.update_self, hpump]
      exact (hpump ▸ h.client j hj).put x
    · rw [Function.update_of_ne fun e => hij (h.distinct.inj hj hi e), Function.update_of_ne hij]
      exact h.client j hj
  · show about (idOf first G.order j) (reports t.w.events) = (G.put i x).delivered j ++ _
    rw [h.all j hj, hdelivered, about_cons]
    by_cases hij : j = i
    · subst hij
      rw [Function.update_self, if_pos hid, List.append_assoc]
      rfl
    · have hne : x.requestId ≠ idOf first G.order j := fun e => hother j hj hij (e.symm.trans hid)
      rw [Function.update_of_ne hij, if_neg hne]
      rfl
  · show (if x.finished then t.finished + 1 else t.finished) = (List.range requests.length).countP _
    have hended : ∀ j, (G.put i x).ended j
        = if j = i then G.ended i || x.finished else G.ended j := by
      intro j
      unfold Ghost.ended
      rw [hdelivered]
      by_cases hij : j = i
      · rw [hij, Function.update_self, if_pos rfl, List.any_append]
        simp
      · rw [Function.update_of_ne hij, if_neg hij]
    have hi0 : G.ended i = false := by
      unfold Ghost.ended
      rw [List.any_eq_false]
      exact fun y hy => by rw [hnone y hy]; nofun
    cases hx : x.finished with
    | true =>
      rw [if_pos rfl, h.finished]
      refine (countP_ended hi hi0 fun j => ?_).symm
      rw [hended]
      by_cases hij : j = i <;> simp [hij, hx]
    | false =>
      rw [if_neg nofun, h.finished]
      refine List.countP_congr fun j _ => ?_
      rw [hended]
      by_cases hij : j = i <;> simp [hij, hx]

/-- what the pump leaves alone as it routes -/
structure Fed (t t' : Trial δ) : Prop where
  w : t'.w = t.w
  calls : t'.calls = t.calls
  replies : t'.replies = t.replies
  engineToRequest : t'.engineToRequest = t.engineToRequest
  pump : t'.pump = t.pump
  gathered : t'.gathered = t.gathered
  main : t'.main = t.main
  poisoned : t'.poisoned = t.poisoned
  clients : t'.clients = t.clients

theorem Fed.refl (t : Trial δ) : Fed t t := ⟨rfl, rfl, rfl, rfl, rfl, rfl, rfl, rfl, rfl⟩

theorem idOf_inj {order : List Nat} {i j : Nat} (hi : i ∈ order)
    (h : idOf first order j = idOf first order i) : j = i := by
  unfold idOf at h
  have hlt := List.idxOf_lt_length_of_mem hi
  have hj : j ∈ order := List.idxOf_lt_length_iff.mp (by omega)
  have hget := List.getElem_idxOf (List.idxOf_lt_length_of_mem hj)
  have hget' := List.getElem_idxOf hlt
  rw [← hget, ← hget']
  congr 1
  omega

/-- **The pump routes the results of a step.** -/
theorem Streams.route (results : List StepResult) : ∀ {G : Ghost} {t : Trial δ},
    Streams first requests G t (results ++ U) → t.pump.failed = false →
    (∀ i ∈ G.order, i < requests.length) →
    (∀ i ∈ G.order, ∃ q, Story q (about (idOf first G.order i) (reports t.w.events))) →
    (∀ x ∈ results, ∃ i ∈ G.order, t.engineToRequest x.requestId = some (requestId requests i) ∧
      x.requestId = idOf first G.order i) →
    ∃ G' t', t.route results = (t', none) ∧ G'.order = G.order ∧ Fed t t' ∧
      Streams first requests G' t' U := by
  induction results with
  | nil => exact fun {G t} h _ _ _ _ => ⟨G, t, rfl, rfl, .refl t, h⟩
  | cons x results ih =>
    intro G t h hpump hlt hstory hknown
    obtain ⟨i, hi, hmap, hid⟩ := hknown x List.mem_cons_self
    have h1 : Streams first requests (G.put i x) (t.put (requestId requests i) x) (results ++ U) :=
      h.put rfl hpump (hlt i hi) hid (fun j _ hji e => hji (idOf_inj hi e)) (hstory i hi)
    obtain ⟨G', t', hroute, horder, hfed, h'⟩ := ih h1 hpump hlt hstory
      fun y hy => hknown y (List.mem_cons_of_mem _ hy)
    refine ⟨G', t', ?_, horder, { hfed with }, h'⟩
    unfold Trial.route
    rw [hmap]
    exact hroute

/-! ## an item is taken -/

/-- the ghost after the client of `i` took the next report of its queue -/
def Ghost.take (G : Ghost) (i : Nat) (x : StepResult) (queued : List StepResult) : Ghost :=
  { G with
    consumed := Function.update G.consumed i (G.consumed i ++ [x])
    queued := Function.update G.queued i queued }

theorem Ghost.delivered_take {i : Nat} {x : StepResult} {queued : List StepResult}
    (h : G.queued i = x :: queued) : (G.take i x queued).delivered = G.delivered := by
  funext j
  show Function.update G.consumed i _ j ++ Function.update G.queued i _ j = _
  by_cases hj : j = i
  · subst hj
    rw [Function.update_self, Function.update_self]
    unfold delivered
    rw [h, List.append_assoc]
    rfl
  · rw [Function.update_of_ne hj, Function.update_of_ne hj]
    rfl

/-- the trace has the token, unless it is an abort -/
theorem recorded {trace : RequestTrace} {consumed : List StepResult} (x : StepResult) (now : Rat)
    (htokens : trace.tokenIds = heardTokens consumed)
    (htimes : trace.tokenTimes.length = trace.tokenIds.length) :
    let trace' := if x.finishReason.name ≠ "aborted" then record trace x.token now else trace
    trace'.requestId = trace.requestId ∧ trace'.tokenIds = heardTokens (consumed ++ [x]) ∧
      trace'.tokenTimes.length = trace'.tokenIds.length ∧
      trace'.finishReason = trace.finishReason := by
  intro trace'
  rw [heardTokens_append, ← htokens]
  by_cases hx : x.finishReason = .kAborted
  · have heq : trace' = trace := if_neg (by rw [hx]; decide)
    rw [heq]
    exact ⟨rfl, by simp [heardTokens, hx], htimes, rfl⟩
  · have heq : trace' = record trace x.token now :=
      if_pos fun e => hx (FinishReason.name_inj e)
    rw [heq]
    refine ⟨rfl, by simp [record, heardTokens, hx], ?_, rfl⟩
    show (trace.tokenTimes ++ [now]).length = (trace.tokenIds ++ [x.token]).length
    rw [List.length_append, List.length_append, htimes]
    rfl

/-- a client takes a report -/
theorem Stream.take {failed : Bool} {c : Client} {queue : List Item} {consumed queued : List StepResult}
    {x : StepResult} (h : Stream name failed c queue consumed (x :: queued))
    (htask : c.task = .streaming)
    (now : Rat) : Stream name failed (c.heard now x.token x.finished x.finishReason.name)
      (queued.map Item.of ++ sentinel failed false) (consumed ++ [x]) queued := by
  obtain ⟨hunfinished, hreason⟩ := h.going (by rw [htask]; rfl)
  obtain ⟨h0, h1, h2, h3⟩ := recorded x now h.tokens h.times
  unfold Client.heard
  cases hx : x.finished with
  | true =>
    rw [if_pos rfl]
    exact ⟨h0.trans h.named, h1, h2, rfl, nofun, fun _ => ⟨consumed, x, rfl, hx, rfl⟩⟩
  | false =>
    rw [if_neg nofun]
    have hback : c.task.gaveUp = false := by rw [htask]; rfl
    refine ⟨h0.trans h.named, h1, h2, by rw [hback], fun _ => ⟨fun y hy => ?_, h3.trans hreason⟩, fun hd => ?_⟩
    · rcases List.mem_append.mp hy with hy | hy
      · exact hunfinished y hy
      · rw [List.mem_singleton.mp hy]
        exact hx
    · rw [htask] at hd
      cases hd

/-- where the client goes on -/
theorem heard_task (c : Client) (now : Rat) (token : Int) (finished : Bool) (reason : String) :
    (c.heard now token finished reason).task = if finished then .returned else c.task := by
  unfold Client.heard
  cases finished <;> rfl

/-- a client that takes the sentinel -/
theorem Stream.giveUp {c : Client} {queue : List Item} {consumed : List StepResult} {failed : Bool}
    (h : Stream name failed c queue consumed []) (htask : c.task = .streaming) :
    Stream name failed { c with task := .raised .pumpFailed } [] consumed [] := by
  refine ⟨h.named, h.tokens, h.times, ?_, fun _ => h.going (by rw [htask]; rfl), nofun⟩
  simp [sentinel, ClientTask.gaveUp]

end
end RedlineAdapter
end Redline
