import Redline.Client.Pump
import Redline.Device.Layered

/-!
# The completions of the client are decoded prompts

`generate` over the layered device of a fresh engine, from the prompts to the token ids.  The run of
the pump is a run of the engine, which under `reserve_full` refines greedy decoding; what is reported
about a request is then its whole reference, and nothing else, since nothing is aborted
(`run_natural`).
-/

namespace Redline
open Prog Decoding

/-! ## nothing is aborted -/

section
variable {T : Nat} {o : SchedulerOptions}

theorem Completed.natural {s s' : Scheduler} {plan : StepPlan} {sampled : List Int}
    {results : List StepResult} (hC : Scheduler.Completed T o s plan sampled results s')
    (hab : plan.aborted = []) : ∀ x ∈ results, x.finishReason ≠ .kAborted := by
  intro x hx
  cases hC with
  | chunk r rest queue shape more none state inv =>
    rw [none] at hx
    exact absurd hx List.not_mem_nil
  | first r rest token queue shape last tokens emits applied =>
    rw [emits, List.mem_singleton] at hx
    rw [hx]
    exact reasonOf_ne_aborted o _ _
  | rows shape running tokens emits applied =>
    rw [emits, hab, List.map_nil, List.nil_append] at hx
    obtain ⟨p, _, rfl⟩ := List.mem_map.mp hx
    exact reasonOf_ne_aborted o _ _

variable {κ δ : Type} {env : Environment κ δ} {w w' : EngineRun δ}

/-- no report so far is an abort -/
def Natural (events : List Event) : Prop := ∀ x ∈ reports events, x.finishReason ≠ .kAborted

theorem Natural.append {events : List Event} {event : Event} (h : Natural events)
    (h' : ∀ x ∈ event.results, x.finishReason ≠ .kAborted) : Natural (events ++ [event]) := by
  intro x hx
  rw [reports_append, List.mem_append] at hx
  exact hx.elim (h x) (h' x)

theorem Natural.stepped (hpol : o.admissionPolicy = .kReserveFull) (hE : EngineInv T o w.engine)
    (h : Natural w.events) {c : EngineCall κ} (hs : EngineRun.Stepped T o env w c w') :
    Natural w'.events := by
  cases hs with
  | refused a err => exact h.append fun x hx => absurd hx List.not_mem_nil
  | added a accepted => exact h.append fun x hx => absurd hx List.not_mem_nil
  | stepped k plan s out e d plans planned ended =>
    refine h.append ?_
    have hab := (Planned.kept hpol hE.sched planned).1
    cases ended with
    | idle empty => exact fun x hx => absurd hx List.not_mem_nil
    | evictions prefill decode results s' completed => exact Completed.natural completed hab
    | refused m err launch busy => exact fun x hx => absurd hx List.not_mem_nil
    | threw m done l err d' launch launched device busy => exact fun x hx => absurd hx List.not_mem_nil
    | done m done l argmax d' results s' launch launched device completed =>
      exact Completed.natural completed hab

/-- **Under `reserve_full` no run reports an abort.** -/
theorem run_natural (hpol : o.admissionPolicy = .kReserveFull) (hE : EngineInv T o w.engine)
    (h : Natural w.events) {calls : List (EngineCall κ)}
    (hr : run (EngineRun.step env) w calls = some w') : Natural w'.events := by
  obtain ⟨w1, hr1, _, h1⟩ := EngineRun.run_keeps (fun w => Natural w.events)
    (fun _ _ _ hE h hs => h.stepped hpol hE hs) hE h calls
  obtain rfl : w1 = w' := Option.some.inj (hr1.symm.trans hr)
  exact h1

end

/-! ## the completions -/

section
variable {κ : Type} (F : Numerics κ) (eos : List Int) (ignoreEos : Bool)

/-- the completion of the `i`-th prompt, if the prompt is decoded alone -/
def decodedAlone (i : Nat) (job : List Int × Int) : Completion :=
  let t := reference F eos (jobArgs ignoreEos job)
  { requestId := i + 1
    tokenIds := t.emitted
    finishReason := t.reason.name }

/-- what is collected about a request that follows its reference -/
theorem Follows.collected {i : Nat} {job : List Int × Int} {q : Request}
    {events : List Event}
    (h : Follows (reference F eos (jobArgs ignoreEos job)) (i + 1) q events) (hid : q.id = i + 1)
    (hnat : Natural events) :
    collected q (about (i + 1) (reports events)) = decodedAlone F eos ignoreEos i job := by
  have hall : (about (i + 1) (reports events)).filter (fun x => decide (x.finishReason ≠ .kAborted))
      = about (i + 1) (reports events) := by
    refine List.filter_eq_self.mpr fun x hx => decide_eq_true (hnat x ?_)
    exact (List.mem_filter.mp hx).1
  unfold Redline.collected decodedAlone
  rw [hall, hid, h.emitted, h.reason]

/-- every prompt was decoded as if alone; what is raised has a reason -/
def Generated.Decoded {γ δ : Type} (o : SchedulerOptions) (env : Environment γ δ) (w0 : EngineRun δ)
    (all : List (List Int × Int)) : Generated δ → Prop
  | .running _ => False
  | .raised err => Raises o env w0 ignoreEos all err
  | .returned p => p.gathered.completions = all.mapIdx (decodedAlone F eos ignoreEos)

end

/-- **`generate` decodes every prompt as if alone.**  On a fresh engine under `reserve_full`, over
kernels that compute `M` in whatever batches, chunks, blocks and padding the engine launches them,
the completions `generate` returns are in the order of the prompts the greedy decoding of each.  It
raises what the engine raises, or gives up on a prompt of more than `_MAX_IDLE_STEPS + 1` chunks. -/
theorem generate_reference (V C : Type) (M : RowMath V C) (config : ModelConfig)
    (options : EngineOptions) (captured : Bool) (probe : Nat → Nat → Option PrefillGemmMode)
    (e : Engine) (he : Engine.make config options captured probe = .ok e)
    (hpol : options.admissionPolicy = .kReserveFull)
    (slab0 : Slab V C) (prompts : List (List Int)) (maxNewTokens : MaxNewTokens) (ignoreEos : Bool)
    (all : List (List Int × Int)) (hjobs : jobs prompts maxNewTokens = .ok all) (n : Nat)
    (hn : (all.map (cost (Engine.schedulerOptions config options))).sum ≤ n) :
    ∃ out, generate (layered M e.executor) e slab0 prompts maxNewTokens ignoreEos
        (List.replicate n ()) = some out ∧
      out.Decoded (M.numerics config.numLayers.toNat) config.eosTokenIds ignoreEos
        (Engine.schedulerOptions config options) (layered M e.executor) (.init e slab0) all := by
  have hE0 : EngineInv e.totalBlocks (Engine.schedulerOptions config options) e := EngineInv.make he
  obtain ⟨x, _, hmake⟩ := Engine.make_eq he
  have hzero : e.sched.nextPtr = 0 := by rw [hmake]; rfl
  have h0 :=
    Pumping.start (d := slab0) hE0 (fun r hr => absurd hr (by rw [hzero]; exact Nat.not_lt_zero r))
    (layered M e.executor) ignoreEos all
  have hnone : e.sched.pending (Engine.schedulerOptions config options) = 0 := by
    unfold Scheduler.pending Scheduler.requests
    rw [hzero]
    rfl
  obtain ⟨out, hloop, hend⟩ := h0.loops (List.replicate n ()) (by
    show e.sched.pending _ + _ ≤ _
    rw [hnone, Nat.zero_add, List.length_replicate]
    exact hn)
  refine ⟨out, by unfold generate; rw [hjobs]; exact hloop, ?_⟩
  have hfirst : (EngineRun.init e slab0).engine.sched.nextPtr = e.sched.nextPtr := rfl
  have hsound := hend.sound hfirst
  rw [hzero] at hfirst
  cases hend with
  | raised err raises => exact raises
  | returned p pumping done =>
    obtain ⟨hlen, hnext, hfinished, hslot⟩ := hsound
    rw [hfirst] at hnext hslot
    -- the run of the pump, in step with rows in order
    obtain ⟨calls, hran⟩ := pumping.ran
    have hL0 : InStep config.numLayers.toNat (.init e slab0.cells) (.init e slab0) :=
      ⟨rfl, fun _ _ _ _ => rfl, rfl⟩
    obtain ⟨w1, w1', _, hr', hE1, _, hF1, hL1⟩ := layered_run he hpol hE0 ⟨_, rfl⟩
      (Followed.make he (M.numerics config.numLayers.toNat) slab0.cells) hL0 calls
    obtain rfl : w1' = p.w := Option.some.inj (hr'.symm.trans hran)
    have hnat : Natural p.w.events :=
      run_natural (w := .init e slab0) hpol hE0 (fun x hx => absurd hx List.not_mem_nil) hran
    refine List.ext_getElem (by rw [hlen, List.length_mapIdx]) fun i hi hi' => ?_
    have hjob : i < all.length := by rw [← hlen]; exact hi
    obtain ⟨hadded, c, hc, _, _, hcollected⟩ := hslot i all[i] (List.getElem?_eq_getElem hjob)
    rw [Nat.zero_add] at hadded hcollected
    have hdone := hfinished i (by rw [hnext, Nat.zero_add]; exact hjob)
    rw [hL1.events] at hadded
    rw [hL1.engine] at hdone
    obtain ⟨hlt, _, hfollows⟩ := hF1.settled hE1 hadded
    rw [List.getElem?_eq_getElem hi, Option.some.injEq] at hc
    rw [hc, List.getElem_mapIdx, hcollected, hL1.engine]
    refine Follows.collected _ _ _ ?_ (hE1.ids i hlt) hnat
    rw [hL1.events]
    exact hfollows hdone

theorem generate_reference_example : ∃ p,
    generate (layered tinyMath (tinyEngine .kReserveFull).executor) (tinyEngine .kReserveFull)
      tinySlab [[1, 2, 3], [4]] (.sequence [2, 3]) true (List.replicate 8 ()) = some (.returned p) ∧
    p.gathered.completions = [([1, 2, 3], 2), ([4], 3)].mapIdx
      (decodedAlone (tinyMath.numerics tinyConfig.numLayers.toNat) tinyConfig.eosTokenIds true) := by
  obtain ⟨out, hout, hdecoded⟩ := generate_reference Int Int tinyMath tinyConfig
    (tinyOptions .kReserveFull) true tinyProbe (tinyEngine .kReserveFull)
    (tinyEngine_make .kReserveFull) rfl tinySlab [[1, 2, 3], [4]]
    (.sequence [2, 3]) true [([1, 2, 3], 2), ([4], 3)] rfl 8 (by decide +kernel)
  have hran : (generate (layered tinyMath (tinyEngine .kReserveFull).executor)
      (tinyEngine .kReserveFull) tinySlab [[1, 2, 3], [4]] (.sequence [2, 3]) true
      (List.replicate 8 ())).map (fun out => out.completions.length) = some 2 := by decide +kernel
  rw [hout, Option.map_some, Option.some.injEq] at hran
  cases out with
  | running p => exact hdecoded.elim
  | raised err => cases hran
  | returned p => exact ⟨p, hout, hdecoded⟩

end Redline
