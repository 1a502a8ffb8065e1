import Mathlib.Tactic.Positivity
import Redline.Bench.Trial

/-!
# The record against the metrics

The record of a trial has its times rebased and rounded to 7 decimals, and its metrics come from
the times before.

* `wallWindow_recorded`     the window of the record is the rounded window;
* `agree_iff`               the metrics of the record are within the tolerance of the written ones
                            exactly when the rounding keeps four spans (`Survives`);
* `survives_of_long`        it does when the window and the decode spans are not short.
-/

namespace Redline
namespace RunBench

/-! ## the record -/

/-- the trace that the record of a trace describes -/
def recordedTrace (epoch : Rat) (t : RequestTrace) : RequestTrace :=
  { t with enqueueTime := round7 (t.enqueueTime - epoch)
           tokenTimes := t.tokenTimes.map fun x => round7 (x - epoch) }

def recordedTraces (traces : List RequestTrace) : List RequestTrace :=
  traces.map (recordedTrace (windowStart traces))

/-- one trace for each request, of the forced length, with times in order from its submit on; the ids
are recorded with the times -/
structure Faithful (workload : Workload) (traces : List RequestTrace) : Prop where
  oneToOne : OneToOne workload traces
  ids : ∀ t ∈ traces, t.tokenIds.length = t.tokenTimes.length
  ordered : ∀ t ∈ traces, t.tokenTimes.Pairwise (· ≤ ·)
  submitted : ∀ t ∈ traces, ∀ x ∈ t.tokenTimes, t.enqueueTime ≤ x

theorem round7_error (x : Rat) : |x - round7 x| ≤ 1 / 10 ^ 7 / 2 :=
  HalfEven.abs_sub_toUnit (by norm_num) x

theorem round7_mono {x y : Rat} (h : x ≤ y) : round7 x ≤ round7 y :=
  HalfEven.toUnit_mono (by norm_num) h

theorem round7_zero : round7 0 = 0 := by
  unfold round7 HalfEven.toUnit
  rw [zero_div]
  have h : HalfEven.halfEven (0 : Rat) = 0 := by exact_mod_cast HalfEven.halfEven_intCast (K := Rat) 0
  rw [h]
  norm_num

/-- a difference of two times moves by at most the unit -/
theorem difference_error (epoch x y : Rat) :
    |(x - y) - (round7 (x - epoch) - round7 (y - epoch))| ≤ 1 / 10 ^ 7 := by
  have hx := abs_le.mp (round7_error (x - epoch))
  have hy := abs_le.mp (round7_error (y - epoch))
  exact abs_le.mpr ⟨by linarith [hx.1, hy.2], by linarith [hx.2, hy.1]⟩

section
variable {epoch : Rat} {t : RequestTrace}

theorem numTokens_recorded : (recordedTrace epoch t).numTokens = t.numTokens := List.length_map _

theorem first_recorded (h : t.tokenTimes ≠ []) : (recordedTrace epoch t).first = round7
    (t.first - epoch) := by
  unfold RequestTrace.first recordedTrace
  cases hl : t.tokenTimes with
  | nil => exact absurd hl h
  | cons x xs => rfl

theorem last_recorded (h : t.tokenTimes ≠ []) : (recordedTrace epoch t).last = round7
    (t.last - epoch) := by
  have hmap : (t.tokenTimes.map fun x => round7 (x - epoch)) ≠ [] := mt List.map_eq_nil_iff.mp h
  unfold RequestTrace.last recordedTrace
  rw [List.getLastD_eq_getLast?, List.getLastD_eq_getLast?, List.getLast?_eq_getLast_of_ne_nil hmap,
    List.getLast?_eq_getLast_of_ne_nil h]
  exact List.getLast_map _

theorem itls_recorded : List.Forall₂ (fun a b => |a - b| ≤ 1 / 10 ^ 7) (interTokenLatencies t)
    (interTokenLatencies (recordedTrace epoch t)) := by
  unfold interTokenLatencies
  rw [numTokens_recorded]
  refine List.forall₂_map_left_iff.mpr
    (List.forall₂_map_right_iff.mpr (List.forall₂_same.mpr fun i hi => ?_))
  have hlen : i + 1 < t.tokenTimes.length := by
    have := List.mem_range.mp hi
    unfold RequestTrace.numTokens at this
    omega
  have hget : ∀ j < t.tokenTimes.length,
      (recordedTrace epoch t).tokenTimes.getD j 0 = round7 (t.tokenTimes.getD j 0 - epoch) := by
    intro j hj
    rw [List.getD_eq_getElem _ 0 (by unfold recordedTrace; rwa [List.length_map]),
      List.getD_eq_getElem _ 0 hj]
    exact List.getElem_map _
  rw [hget _ hlen, hget _ (by omega)]
  exact difference_error epoch _ _

end

/-! ## the window -/

section
variable {traces : List RequestTrace}

theorem windowStart_eq {x : Rat} (hmem : ∃ t ∈ traces, t.enqueueTime = x)
    (hle : ∀ t ∈ traces, x ≤ t.enqueueTime) :
    windowStart traces = x := by
  have hmin : (traces.map (·.enqueueTime)).min? = some x := List.min?_eq_some_iff.mpr
    ⟨List.mem_map.mpr hmem, fun _ hb => by obtain ⟨t, ht, rfl⟩ := List.mem_map.mp hb; exact hle t ht⟩
  unfold windowStart
  rw [hmin]
  rfl

theorem windowEnd_eq {x : Rat} (hmem : ∃ t ∈ traces, t.last = x) (hle : ∀ t ∈ traces, t.last ≤ x) :
    windowEnd traces = x := by
  have hmax : (traces.map (·.last)).max? = some x := List.max?_eq_some_iff.mpr
    ⟨List.mem_map.mpr hmem, fun _ hb => by obtain ⟨t, ht, rfl⟩ := List.mem_map.mp hb; exact hle t ht⟩
  unfold windowEnd
  rw [hmax]
  rfl

theorem windowStart_spec (h : traces ≠ []) :
    (∃ t ∈ traces, t.enqueueTime = windowStart traces) ∧ ∀ t ∈ traces,
      windowStart traces ≤ t.enqueueTime := by
  obtain ⟨x, hmin⟩ := Option.ne_none_iff_exists'.mp
    (mt List.min?_eq_none_iff.mp (mt List.map_eq_nil_iff.mp h : traces.map (·.enqueueTime) ≠ []))
  have hx : windowStart traces = x := by
    unfold windowStart
    rw [hmin]
    rfl
  obtain ⟨hmem, hle⟩ := List.min?_eq_some_iff.mp hmin
  rw [hx]
  exact ⟨List.mem_map.mp hmem, fun t ht => hle _ (List.mem_map_of_mem ht)⟩

theorem windowEnd_spec (h : traces ≠ []) :
    (∃ t ∈ traces, t.last = windowEnd traces) ∧ ∀ t ∈ traces, t.last ≤ windowEnd traces := by
  obtain ⟨x, hmax⟩ := Option.ne_none_iff_exists'.mp
    (mt List.max?_eq_none_iff.mp (mt List.map_eq_nil_iff.mp h : traces.map (·.last) ≠ []))
  have hx : windowEnd traces = x := by
    unfold windowEnd
    rw [hmax]
    rfl
  obtain ⟨hmem, hle⟩ := List.max?_eq_some_iff.mp hmax
  rw [hx]
  exact ⟨List.mem_map.mp hmem, fun t ht => hle _ (List.mem_map_of_mem ht)⟩

/-- **The window of the record is the rounded window.** -/
theorem wallWindow_recorded (h : traces ≠ []) (htokens : ∀ t ∈ traces, t.tokenTimes ≠ []) :
    wallWindow (recordedTraces traces) = round7 (wallWindow traces) := by
  obtain ⟨⟨a, ha, hstart⟩, hlow⟩ := windowStart_spec h
  obtain ⟨⟨b, hb, hend⟩, hhigh⟩ := windowEnd_spec h
  have hstart' : windowStart (recordedTraces traces) = 0 := by
    refine windowStart_eq ⟨_, List.mem_map_of_mem ha, ?_⟩ fun t ht => ?_
    · show round7 (a.enqueueTime - windowStart traces) = 0
      rw [hstart, sub_self, round7_zero]
    · obtain ⟨u, hu, rfl⟩ := List.mem_map.mp ht
      exact round7_zero.symm.le.trans (round7_mono (sub_nonneg.mpr (hlow u hu)))
  have hend' : windowEnd (recordedTraces traces) = round7 (wallWindow traces) := by
    refine windowEnd_eq ⟨_, List.mem_map_of_mem hb, ?_⟩ fun t ht => ?_
    · rw [last_recorded (htokens b hb), hend]
      rfl
    · obtain ⟨u, hu, rfl⟩ := List.mem_map.mp ht
      rw [last_recorded (htokens u hu)]
      exact round7_mono (sub_le_sub_right (hhigh u hu) _)
  unfold wallWindow
  rw [hstart', hend', sub_zero]
  rfl

theorem ttfts_recorded (htokens : ∀ t ∈ traces, t.tokenTimes ≠ []) :
    List.Forall₂ (fun a b => |a - b| ≤ 1 / 10 ^ 7) (ttfts traces) (ttfts (recordedTraces traces)) := by
  unfold ttfts recordedTraces
  rw [List.map_map]
  refine List.forall₂_map_left_iff.mpr
    (List.forall₂_map_right_iff.mpr (List.forall₂_same.mpr fun t ht => ?_))
  show |t.first - t.enqueueTime -
    ((recordedTrace _ t).first - round7 (t.enqueueTime - windowStart traces))| ≤ _
  rw [first_recorded (htokens t ht)]
  exact difference_error _ _ _

theorem pooledItls_recorded :
    List.Forall₂ (fun a b => |a - b| ≤ 1 / 10 ^ 7) (pooledItls traces)
      (pooledItls (recordedTraces traces)) := by
  unfold pooledItls recordedTraces
  rw [List.flatMap_map]
  generalize windowStart traces = epoch
  induction traces with
  | nil => exact List.Forall₂.nil
  | cons t ts ih =>
    rw [List.flatMap_cons, List.flatMap_cons]
    exact List.rel_append itls_recorded ih

/-! ## decode spans -/

/-- from the first token to the last, of the requests for which this takes time -/
def decodeSpans (traces : List RequestTrace) : List Rat :=
  (traces.map fun t => t.last - t.first).filter fun s => decide (0 < s)

/-- 0 of no samples -/
def least (l : List Rat) : Rat := l.min?.getD 0

def greatest (l : List Rat) : Rat := l.max?.getD 0

/-- the harmonic mean of the two middle samples, 0 of none -/
def middle (l : List Rat) : Rat := (Percentile.percentile (l.map (·⁻¹)) 50)⁻¹

theorem mem_decodeSpans {s : Rat} : s ∈ decodeSpans traces ↔ 0 < s ∧ ∃ t ∈ traces,
    t.last - t.first = s := by
  unfold decodeSpans
  rw [List.mem_filter, List.mem_map, decide_eq_true_iff, and_comm]

theorem span_recorded {epoch : Rat} {t : RequestTrace} (h : t.tokenTimes ≠ []) :
    (recordedTrace epoch t).last - (recordedTrace epoch t).first = round7 (t.last - epoch) - round7
    (t.first - epoch) := by
  rw [last_recorded h, first_recorded h]

/-- a span of the record is one before the rounding, at most a unit away -/
theorem of_mem_decodeSpans_recorded (htokens : ∀ t ∈ traces, t.tokenTimes ≠ []) {s : Rat}
    (h : s ∈ decodeSpans (recordedTraces traces)) :
    ∃ s' ∈ decodeSpans traces, |s' - s| ≤ 1 / 10 ^ 7 := by
  obtain ⟨hpos, u, hu, rfl⟩ := mem_decodeSpans.mp h
  obtain ⟨t, ht, rfl⟩ := List.mem_map.mp hu
  rw [span_recorded (htokens t ht)] at hpos ⊢
  refine ⟨t.last - t.first, mem_decodeSpans.mpr ⟨?_, t, ht, rfl⟩, difference_error _ _ _⟩
  by_contra hle
  have := round7_mono (show t.last - windowStart traces ≤ t.first - windowStart traces by linarith)
  linarith

/-- a span is one of the record, at most a unit away, unless it is rounded away -/
theorem mem_decodeSpans_recorded (htokens : ∀ t ∈ traces, t.tokenTimes ≠ []) {s : Rat}
    (h : s ∈ decodeSpans traces) :
    s ≤ 1 / 10 ^ 7 ∨ ∃ s' ∈ decodeSpans (recordedTraces traces), |s - s'| ≤ 1 / 10 ^ 7 := by
  obtain ⟨hpos, t, ht, rfl⟩ := mem_decodeSpans.mp h
  have herror := difference_error (windowStart traces) t.last t.first
  rcases le_or_gt (round7 (t.last - windowStart traces) - round7 (t.first - windowStart traces)) 0 with hle | hlt
  · exact Or.inl (by linarith [(abs_le.mp herror).2])
  · refine Or.inr ⟨_, mem_decodeSpans.mpr ⟨?_, _, List.mem_map_of_mem ht, rfl⟩, ?_⟩
    · rwa [span_recorded (htokens t ht)]
    · rwa [span_recorded (htokens t ht)]

section
variable {l : List Rat}

theorem least_spec (h : l ≠ []) : least l ∈ l ∧ ∀ s ∈ l, least l ≤ s := by
  obtain ⟨x, hmin⟩ := Option.ne_none_iff_exists'.mp (mt List.min?_eq_none_iff.mp h)
  have hx : least l = x := by
    unfold least
    rw [hmin]
    rfl
  rw [hx]
  exact List.min?_eq_some_iff.mp hmin

theorem greatest_spec (h : l ≠ []) : greatest l ∈ l ∧ ∀ s ∈ l, s ≤ greatest l := by
  obtain ⟨x, hmax⟩ := Option.ne_none_iff_exists'.mp (mt List.max?_eq_none_iff.mp h)
  have hx : greatest l = x := by
    unfold greatest
    rw [hmax]
    rfl
  rw [hx]
  exact List.max?_eq_some_iff.mp hmax

/-- two greatest, each with one in the other list that is near it -/
theorem abs_greatest {g g' s s' δ : Rat} (h : |s - g'| ≤ δ) (hs : s ≤ g) (h' : |g - s'| ≤ δ)
    (hs' : s' ≤ g') : |g - g'| ≤ δ := by
  have hlow := (abs_le.mp h).1
  have hhigh := (abs_le.mp h').2
  exact abs_le.mpr ⟨by linarith, by linarith⟩

/-- two least, likewise -/
theorem abs_least {g g' s s' δ : Rat} (h : |s - g'| ≤ δ) (hs : g ≤ s) (h' : |g - s'| ≤ δ)
    (hs' : g' ≤ s') : |g - g'| ≤ δ := by
  have hhigh := (abs_le.mp h).2
  have hlow := (abs_le.mp h').1
  exact abs_le.mpr ⟨by linarith, by linarith⟩

theorem middle_pos (h : l ≠ []) (hpos : ∀ s ∈ l, 0 < s) : 0 < middle l := by
  have hmap : l.map (·⁻¹) ≠ [] := mt List.map_eq_nil_iff.mp h
  have hbound : (greatest l)⁻¹ ≤ Percentile.percentile (l.map (·⁻¹)) 50 ∧ _ ≤ (least l)⁻¹ :=
    Percentile.percentile_between hmap (by norm_num) (by norm_num) (fun x hx => by
      obtain ⟨s, hs, rfl⟩ := List.mem_map.mp hx
      exact inv_anti₀ (hpos s hs) ((greatest_spec h).2 s hs))
    (fun x hx => by
      obtain ⟨s, hs, rfl⟩ := List.mem_map.mp hx
      exact inv_anti₀ (hpos _ (least_spec h).1) ((least_spec h).2 s hs))
  exact inv_pos.mpr ((inv_pos.mpr (hpos _ (greatest_spec h).1)).trans_le hbound.1)

end

/-! ## decode rates -/

section
variable {n : Nat} (hn : 2 ≤ n) (hlen : ∀ t ∈ traces, t.numTokens = n)

include hn hlen

theorem decodeRates_eq : decodeRates traces = (decodeSpans traces).map fun s =>
    ((n - 1 : Nat) : Rat) / s := by
  unfold decodeRates decodeSpans
  rw [List.filter_map, List.map_map]
  have hfilter : (traces.filter fun t => decide (2 ≤ t.numTokens ∧ t.first < t.last))
      = traces.filter ((fun s => decide (0 < s)) ∘ fun t => t.last - t.first) := by
    refine List.filter_congr fun t ht => decide_eq_decide.mpr ?_
    rw [hlen t ht, sub_pos]
    exact and_iff_right hn
  rw [hfilter]
  exact List.map_congr_left fun t ht => by
    show ((t.numTokens - 1 : Nat) : Rat) / _ = _
    rw [hlen t (List.mem_of_mem_filter ht)]
    rfl

variable {hi lo : Rat}

theorem rates_ne_nil (h : decodeSpans traces ≠ []) : decodeRates traces ≠ [] := by
  rw [decodeRates_eq hn hlen]
  exact mt List.map_eq_nil_iff.mp h

theorem rates_nil (h : decodeSpans traces = []) : decodeRates traces = [] := by
  rw [decodeRates_eq hn hlen, h]
  rfl

/-- the slowest request is the one with the greatest span -/
theorem rates_min (h : decodeSpans traces ≠ []) :
    (decodeRates traces).min? = some (((n - 1 : Nat) : Rat) / greatest (decodeSpans traces)) := by
  obtain ⟨hmem, hle⟩ := greatest_spec h
  rw [decodeRates_eq hn hlen]
  refine List.min?_eq_some_iff.mpr ⟨List.mem_map_of_mem hmem, fun r hr => ?_⟩
  obtain ⟨s, hs, rfl⟩ := List.mem_map.mp hr
  exact div_le_div_of_nonneg_left (Nat.cast_nonneg _) (mem_decodeSpans.mp hs).1 (hle s hs)

theorem rates_max (h : decodeSpans traces ≠ []) :
    (decodeRates traces).max? = some (((n - 1 : Nat) : Rat) / least (decodeSpans traces)) := by
  obtain ⟨hmem, hle⟩ := least_spec h
  rw [decodeRates_eq hn hlen]
  refine List.max?_eq_some_iff.mpr ⟨List.mem_map_of_mem hmem, fun r hr => ?_⟩
  obtain ⟨s, hs, rfl⟩ := List.mem_map.mp hr
  exact div_le_div_of_nonneg_left (Nat.cast_nonneg _) (mem_decodeSpans.mp hmem).1 (hle s hs)

theorem rates_p50 : Percentile.percentile (decodeRates traces) 50
    = ((n - 1 : Nat) : Rat) / middle (decodeSpans traces) := by
  have hc : (0 : Rat) < ((n - 1 : Nat) : Rat) := Nat.cast_pos.mpr (by omega)
  have hscale : decodeRates traces = ((decodeSpans traces).map (·⁻¹)).map fun x =>
      x * ((n - 1 : Nat) : Rat) := by
    rw [decodeRates_eq hn hlen, List.map_map]
    exact List.map_congr_left fun s _ => div_eq_inv_mul _ s
  rw [hscale, Percentile.percentile_scale hc]
  unfold middle
  rw [div_inv_eq_mul, mul_comm]

end
end

/-! ## tolerances -/

/-- apart by at most the relative tolerance -/
def Near (x y : Rat) : Prop := |x - y| ≤ 5 / 10 ^ 4 * max |x| |y|

/-- `math.isclose`, with the tolerances of the auditor -/
def Close (x y : Rat) : Prop := Near x y ∨ |x - y| ≤ 1 / 10 ^ 7

instance (x y : Rat) : Decidable (Near x y) := inferInstanceAs (Decidable (_ ≤ _))

section
variable {c x y : Rat}

theorem near_comm : Near x y ↔ Near y x := by
  unfold Near
  rw [abs_sub_comm, max_comm]

theorem near_refl (x : Rat) : Near x x := by
  unfold Near
  rw [sub_self, abs_zero]
  positivity

/-- nothing positive is near nothing -/
theorem not_near_zero (h : 0 < x) : ¬ Near x 0 := by
  unfold Near
  rw [sub_zero, abs_zero, max_eq_left (abs_nonneg x), abs_of_pos h]
  linarith

theorem near_of_le (hx : 0 < x) (h : x ≤ y) : Near x y ↔ y - x ≤ 5 / 10 ^ 4 * y := by
  unfold Near
  rw [abs_sub_comm, abs_of_nonneg (sub_nonneg.mpr h), abs_of_pos hx, abs_of_pos (hx.trans_le h),
    max_eq_right h]

theorem div_sub_div (hx : 0 < x) (hy : 0 < y) : |c / x - c / y| = |c| * |x - y| / (x * y) := by
  have h : c / x - c / y = c * (y - x) / (x * y) := by
    field_simp
  rw [h, abs_div, abs_mul, abs_sub_comm y x, abs_of_pos (mul_pos hx hy)]

/-- the tolerance of a rate is that of the span -/
theorem near_div (hc : 0 < c) (hx : 0 < x) (hy : 0 < y) : Near (c / x) (c / y) ↔ Near x y := by
  have key : ∀ {x y : Rat}, 0 < x → x ≤ y → (Near (c / y) (c / x) ↔ Near x y) := by
    intro x y hx hxy
    have hy := hx.trans_le hxy
    rw [near_of_le (div_pos hc hy) (div_le_div_of_nonneg_left hc.le hx hxy), near_of_le hx hxy]
    have hl : c / x - c / y = c / (x * y) * (y - x) := by
      field_simp
    have hr : 5 / 10 ^ 4 * (c / x) = c / (x * y) * (5 / 10 ^ 4 * y) := by
      field_simp
    rw [hl, hr]
    exact mul_le_mul_iff_of_pos_left (div_pos hc (mul_pos hx hy))
  rcases le_total x y with h | h
  · rw [near_comm, key hx h]
  · rw [key hy h, near_comm]

/-- where long spans differ by little, the absolute tolerance of their rates admits nothing more -/
theorem close_div (hc : 1 ≤ c) (hx : 0 < x) (hy : 0 < y) (h : 1 ≤ x → 1 ≤ y → |x - y| ≤ 1 / 10 ^ 7) :
    Close (c / x) (c / y) ↔ Near x y := by
  have hc0 : 0 < c := by linarith
  refine ⟨fun hclose => hclose.elim (near_div hc0 hx hy).mp fun habs => ?_, fun hnear =>
    Or.inl ((near_div hc0 hx hy).mpr hnear)⟩
  rw [div_sub_div hx hy, abs_of_pos hc0, div_le_iff₀ (mul_pos hx hy)] at habs
  have hdiff : |x - y| ≤ 1 / 10 ^ 7 * (x * y) :=
    (le_mul_of_one_le_left (abs_nonneg _) hc).trans habs
  have key : ∀ {x y : Rat}, 0 < x → x ≤ y → (1 ≤ x → 1 ≤ y → |x - y| ≤ 1 / 10 ^ 7) →
      |x - y| ≤ 1 / 10 ^ 7 * (x * y) → Near x y := by
    intro x y hx hxy h hdiff
    have hy := hx.trans_le hxy
    rw [near_of_le hx hxy]
    rw [abs_sub_comm, abs_of_nonneg (sub_nonneg.mpr hxy)] at h hdiff
    by_cases hlong : 1 ≤ x
    · linarith [h hlong (hlong.trans hxy)]
    · -- a short span leaves the absolute tolerance below the relative one
      have hprod : x * y ≤ 1 * y := mul_le_mul_of_nonneg_right (not_le.mp hlong).le hy.le
      linarith
  rcases le_total x y with hxy | hyx
  · exact key hx hxy h hdiff
  · rw [near_comm]
    refine key hy hyx (fun h1 h2 => abs_sub_comm x y ▸ h h2 h1) ?_
    rw [abs_sub_comm, mul_comm y x]
    exact hdiff

end

/-! ## agreement -/

/-- a metric recomputed is within the tolerance of the written one, and the same ones are there -/
structure Agree (m m' : Metrics) : Prop where
  totalNewTokens : m.totalNewTokens = m'.totalNewTokens
  wallWindowS : Close m.wallWindowS m'.wallWindowS
  throughputTokS : Close m.throughputTokS m'.throughputTokS
  ttftP50S : Close m.ttftP50S m'.ttftP50S
  ttftP99S : Close m.ttftP99S m'.ttftP99S
  numRequests : m.numRequests = m'.numRequests
  itlP50S : Option.Rel Close m.itlP50S m'.itlP50S
  itlP99S : Option.Rel Close m.itlP99S m'.itlP99S
  decodeRateP50TokS : Option.Rel Close m.decodeRateP50TokS m'.decodeRateP50TokS
  decodeRateMinTokS : Option.Rel Close m.decodeRateMinTokS m'.decodeRateMinTokS
  decodeRateMaxTokS : Option.Rel Close m.decodeRateMaxTokS m'.decodeRateMaxTokS

/-- the spans that the rounding keeps, of traces of `outputLen` tokens each -/
structure Survives (outputLen : Nat) (traces : List RequestTrace) : Prop where
  window : Near (wallWindow traces) (round7 (wallWindow traces))
  least : Near (least (decodeSpans traces)) (least (decodeSpans (recordedTraces traces)))
  greatest : Near (greatest (decodeSpans traces)) (greatest (decodeSpans (recordedTraces traces)))
  /-- the absolute tolerance admits more where the middle spans take hours -/
  middle : Near (middle (decodeSpans traces)) (middle (decodeSpans (recordedTraces traces))) ∨
    ((outputLen - 1 : Nat) : Rat) * |middle (decodeSpans traces) - middle
    (decodeSpans (recordedTraces traces))|
      ≤ 1 / 10 ^ 7 * (middle (decodeSpans traces) * middle (decodeSpans (recordedTraces traces)))

theorem present_percentile {values : List Rat} (h : values ≠ []) (p : Rat) :
    present values (Percentile.percentile · p) = some (Percentile.percentile values p) := if_neg h

/-- a metric of samples that each move by at most the unit -/
theorem present_close {values values' : List Rat}
    (h : List.Forall₂ (fun a b => |a - b| ≤ 1 / 10 ^ 7) values values')
    {p : Rat} (h0 : 0 ≤ p) (h1 : p ≤ 100) :
    Option.Rel Close (present values (Percentile.percentile · p))
      (present values' (Percentile.percentile · p)) := by
  unfold present
  by_cases hnil : values = []
  · rw [if_pos hnil, if_pos (List.forall₂_nil_left_iff.mp (hnil ▸ h))]
    exact .none
  · rw [if_neg hnil, if_neg fun hnil' => hnil (List.forall₂_nil_right_iff.mp (hnil' ▸ h))]
    exact .some (Or.inr (Percentile.abs_percentile_sub_le h hnil h0 h1))

section
variable {traces : List RequestTrace} {n : Nat} (hn : 2 ≤ n) (hlen : ∀ t ∈ traces, t.numTokens = n)

include hn hlen

theorem tokens_ne_nil : ∀ t ∈ traces, t.tokenTimes ≠ [] := by
  intro t ht hnil
  have h := hlen t ht
  unfold RequestTrace.numTokens at h
  rw [hnil, List.length_nil] at h
  omega

omit hn in
theorem numTokens_recordedTraces : ∀ t ∈ recordedTraces traces, t.numTokens = n := by
  intro u hu
  obtain ⟨t, ht, rfl⟩ := List.mem_map.mp hu
  exact numTokens_recorded.trans (hlen t ht)

/-- the recorded decode rates agree when the spans do -/
theorem rates_agree_iff :
    (Option.Rel Close (metricsOf traces).decodeRateP50TokS (metricsOf (recordedTraces traces)).decodeRateP50TokS ∧
      Option.Rel Close (metricsOf traces).decodeRateMinTokS
        (metricsOf (recordedTraces traces)).decodeRateMinTokS ∧
      Option.Rel Close (metricsOf traces).decodeRateMaxTokS
        (metricsOf (recordedTraces traces)).decodeRateMaxTokS) ↔
    Near (least (decodeSpans traces)) (least (decodeSpans (recordedTraces traces))) ∧
      Near (greatest (decodeSpans traces)) (greatest (decodeSpans (recordedTraces traces))) ∧
      (Near (middle (decodeSpans traces)) (middle (decodeSpans (recordedTraces traces))) ∨
        ((n - 1 : Nat) : Rat) * |middle (decodeSpans traces) - middle
          (decodeSpans (recordedTraces traces))|
          ≤ 1 / 10 ^ 7 * (middle (decodeSpans traces) * middle (decodeSpans (recordedTraces traces)))) := by
  have htokens := tokens_ne_nil hn hlen
  have hlen' := numTokens_recordedTraces hlen
  have hc : (1 : Rat) ≤ ((n - 1 : Nat) : Rat) := by exact_mod_cast (show 1 ≤ n - 1 by omega)
  show (Option.Rel Close (present (decodeRates traces) (Percentile.percentile · 50))
      (present (decodeRates (recordedTraces traces)) (Percentile.percentile · 50)) ∧
    Option.Rel Close (decodeRates traces).min? (decodeRates (recordedTraces traces)).min? ∧
    Option.Rel Close (decodeRates traces).max? (decodeRates (recordedTraces traces)).max?) ↔ _
  by_cases hS : decodeSpans traces = []
  · -- a span of the record is one before
    have hS' : decodeSpans (recordedTraces traces) = [] :=
      List.eq_nil_iff_forall_not_mem.mpr fun s hs => by
      obtain ⟨s', hs', _⟩ := of_mem_decodeSpans_recorded htokens hs
      rw [hS] at hs'
      cases hs'
    rw [rates_nil hn hlen hS, rates_nil hn hlen' hS', hS, hS']
    exact ⟨fun _ => ⟨near_refl _, near_refl _, Or.inl (near_refl _)⟩, fun _ => ⟨.none, .none, .none⟩⟩
  have hpos : ∀ s ∈ decodeSpans traces, 0 < s := fun s hs => (mem_decodeSpans.mp hs).1
  obtain ⟨hleast, hle⟩ := least_spec hS
  obtain ⟨hgreatest, hge⟩ := greatest_spec hS
  by_cases hS' : decodeSpans (recordedTraces traces) = []
  · rw [rates_min hn hlen hS, rates_nil hn hlen' hS', hS']
    refine ⟨fun h => ?_, fun h => absurd h.1 (not_near_zero (hpos _ hleast))⟩
    cases h.2.1
  have hpos' : ∀ s ∈ decodeSpans (recordedTraces traces), 0 < s := fun s hs => (mem_decodeSpans.mp hs).1
  obtain ⟨hleast', hle'⟩ := least_spec hS'
  obtain ⟨hgreatest', hge'⟩ := greatest_spec hS'
  rw [present_percentile (rates_ne_nil hn hlen hS), present_percentile (rates_ne_nil hn hlen' hS'),
    rates_p50 hn hlen, rates_p50 hn hlen',
    rates_min hn hlen hS, rates_min hn hlen' hS', rates_max hn hlen hS, rates_max hn hlen' hS',
      Option.rel_some_some,
    Option.rel_some_some, Option.rel_some_some]
  have hmiddle : Close (((n - 1 : Nat) : Rat) / middle (decodeSpans traces))
      (((n - 1 : Nat) : Rat) / middle (decodeSpans (recordedTraces traces))) ↔
      (Near (middle (decodeSpans traces)) (middle (decodeSpans (recordedTraces traces))) ∨
        ((n - 1 : Nat) : Rat) * |middle (decodeSpans traces) - middle
          (decodeSpans (recordedTraces traces))|
          ≤ 1 / 10 ^ 7 * (middle (decodeSpans traces) * middle (decodeSpans (recordedTraces traces)))) := by
    have hM := middle_pos hS hpos
    have hM' := middle_pos hS' hpos'
    refine or_congr (near_div (by linarith) hM hM') ?_
    rw [div_sub_div hM hM', abs_of_nonneg (by linarith : (0 : Rat) ≤ ((n - 1 : Nat) : Rat)),
      div_le_iff₀ (mul_pos hM hM')]
  have hgreat : Close (((n - 1 : Nat) : Rat) / greatest (decodeSpans traces))
      (((n - 1 : Nat) : Rat) / greatest (decodeSpans (recordedTraces traces))) ↔
      Near (greatest (decodeSpans traces)) (greatest (decodeSpans (recordedTraces traces))) := by
    refine close_div hc (hpos _ hgreatest) (hpos' _ hgreatest') fun hlong _ => ?_
    obtain ⟨s, hs, herror⟩ := of_mem_decodeSpans_recorded htokens hgreatest'
    rcases mem_decodeSpans_recorded htokens hgreatest with hshort | ⟨s', hs', herror'⟩
    · linarith
    · exact abs_greatest herror (hge s hs) herror' (hge' s' hs')
  have hsmall : Close (((n - 1 : Nat) : Rat) / least (decodeSpans traces))
      (((n - 1 : Nat) : Rat) / least (decodeSpans (recordedTraces traces))) ↔
      Near (least (decodeSpans traces)) (least (decodeSpans (recordedTraces traces))) := by
    refine close_div hc (hpos _ hleast) (hpos' _ hleast') fun hlong _ => ?_
    obtain ⟨s, hs, herror⟩ := of_mem_decodeSpans_recorded htokens hleast'
    rcases mem_decodeSpans_recorded htokens hleast with hshort | ⟨s', hs', herror'⟩
    · linarith
    · exact abs_least herror (hle s hs) herror' (hle' s' hs')
  rw [hmiddle, hgreat, hsmall]
  exact ⟨fun ⟨h1, h2, h3⟩ => ⟨h3, h2, h1⟩, fun ⟨h1, h2, h3⟩ => ⟨h3, h2, h1⟩⟩

/-- **The record has its metrics, and they agree with the written ones, exactly when the rounding keeps
the window, the least, the greatest and the middle decode span.** -/
theorem agree_iff (hm : Measurable traces) :
    (0 < wallWindow (recordedTraces traces) ∧
      Agree (metricsOf traces) (metricsOf (recordedTraces traces))) ↔
      Survives n traces := by
  have htokens := tokens_ne_nil hn hlen
  have hwindow := wallWindow_recorded hm.someTrace htokens
  have htotal : totalTokens (recordedTraces traces) = totalTokens traces := by
    unfold totalTokens recordedTraces
    rw [List.map_map]
    exact congrArg List.sum (List.map_congr_left fun t _ => numTokens_recorded)
  have hrates := rates_agree_iff hn hlen
  have hpositive : (1 : Rat) ≤ totalTokens traces := by
    obtain ⟨t, ht⟩ := List.exists_mem_of_ne_nil _ hm.someTrace
    have hle : t.numTokens ≤ totalTokens traces :=
      List.single_le_sum (by simp) _ (List.mem_map_of_mem ht)
    exact_mod_cast (show 1 ≤ totalTokens traces by have := hlen t ht; omega)
  have hthroughput : 0 < round7 (wallWindow traces) →
      (Close (metricsOf traces).throughputTokS (metricsOf (recordedTraces traces)).throughputTokS ↔
        Near (wallWindow traces) (round7 (wallWindow traces))) := by
    intro hpos
    show Close ((totalTokens traces : Nat) / wallWindow traces)
      ((totalTokens (recordedTraces traces) : Nat) / wallWindow (recordedTraces traces)) ↔ _
    rw [htotal, hwindow]
    exact close_div hpositive hm.window hpos fun _ _ => (round7_error _).trans (by norm_num)
  constructor
  · rintro ⟨hpos, h⟩
    obtain ⟨h1, h2, h3⟩ := hrates.mp ⟨h.decodeRateP50TokS, h.decodeRateMinTokS, h.decodeRateMaxTokS⟩
    exact ⟨(hthroughput (hwindow ▸ hpos)).mp h.throughputTokS, h1, h2, h3⟩
  · intro h
    have hpos : 0 < round7 (wallWindow traces) := by
      refine (round7_zero ▸ round7_mono hm.window.le).lt_of_ne fun hzero => ?_
      exact not_near_zero hm.window (hzero ▸ h.window)
    obtain ⟨h1, h2, h3⟩ := hrates.mpr ⟨h.least, h.greatest, h.middle⟩
    have hsome : ttfts traces ≠ [] := mt List.map_eq_nil_iff.mp hm.someTrace
    have httfts := ttfts_recorded htokens
    refine ⟨hwindow ▸ hpos, ⟨htotal.symm, Or.inr ?_, (hthroughput hpos).mpr h.window, Or.inr ?_,
      Or.inr ?_, ?_, ?_, ?_, h1, h2, h3⟩⟩
    · show |wallWindow traces - wallWindow (recordedTraces traces)| ≤ _
      rw [hwindow]
      exact (round7_error _).trans (by norm_num)
    · exact Percentile.abs_percentile_sub_le (p := 50) httfts hsome (by norm_num) (by norm_num)
    · exact Percentile.abs_percentile_sub_le (p := 99) httfts hsome (by norm_num) (by norm_num)
    · exact (List.length_map _).symm
    · exact present_close (p := 50) pooledItls_recorded (by norm_num) (by norm_num)
    · exact present_close (p := 99) pooledItls_recorded (by norm_num) (by norm_num)

end

/-! ## traces that take some time -/

section
variable {traces : List RequestTrace}

theorem near_of_abs {x y δ : Rat} (h : |x - y| ≤ δ) (hδ : δ ≤ 5 / 10 ^ 4 * x) : Near x y := by
  have hmax : x ≤ max |x| |y| := (le_abs_self x).trans (le_max_left _ _)
  exact (h.trans hδ).trans (mul_le_mul_of_nonneg_left hmax (by norm_num))

/-- no decode span is rounded away when none is short -/
theorem decodeSpans_recorded (htokens : ∀ t ∈ traces, t.tokenTimes ≠ [])
    (hspan : ∀ t ∈ traces, t.last = t.first ∨ 2 / 10 ^ 4 ≤ t.last - t.first) :
    List.Forall₂ (fun s s' => 2 / 10 ^ 4 ≤ s ∧ |s - s'| ≤ 1 / 10 ^ 7) (decodeSpans traces)
      (decodeSpans (recordedTraces traces)) := by
  unfold recordedTraces
  generalize windowStart traces = epoch
  have hcons : ∀ (t : RequestTrace) (ts : List RequestTrace), decodeSpans (t :: ts)
      = if 0 < t.last - t.first then (t.last - t.first) :: decodeSpans ts else decodeSpans ts := by
    intro t ts
    unfold decodeSpans
    rw [List.map_cons, List.filter_cons]
    simp only [decide_eq_true_iff]
  induction traces with
  | nil => exact List.Forall₂.nil
  | cons t ts ih =>
    have hrest := ih (fun u hu => htokens u (List.mem_cons_of_mem t hu)) fun u hu =>
      hspan u (List.mem_cons_of_mem t hu)
    have hrecorded : (recordedTrace epoch t).last - (recordedTrace epoch t).first = _ :=
      span_recorded (htokens t List.mem_cons_self)
    have herror := difference_error epoch t.last t.first
    rw [List.map_cons, hcons, hcons, hrecorded]
    rcases hspan t List.mem_cons_self with heq | hlong
    · rw [heq, sub_self, sub_self, if_neg (lt_irrefl _)]
      exact hrest
    · rw [if_pos (by linarith), if_pos (by linarith [(abs_le.mp herror).2])]
      exact List.Forall₂.cons ⟨hlong, herror⟩ hrest

/-- **The rounding keeps a window of 0.1 ms and spans of 0.2 ms.** -/
theorem survives_of_long {n : Nat} (htokens : ∀ t ∈ traces, t.tokenTimes ≠ [])
    (hwindow : 1 / 10 ^ 4 ≤ wallWindow traces)
    (hspan : ∀ t ∈ traces, t.last = t.first ∨ 2 / 10 ^ 4 ≤ t.last - t.first) : Survives n traces := by
  have hall := decodeSpans_recorded htokens hspan
  have hround : Near (wallWindow traces) (round7 (wallWindow traces)) :=
    near_of_abs (round7_error _) (by linarith)
  by_cases hS : decodeSpans traces = []
  · have hS' : decodeSpans (recordedTraces traces) = [] := List.forall₂_nil_left_iff.mp (hS ▸ hall)
    refine ⟨hround, ?_, ?_, Or.inl ?_⟩ <;> rw [hS, hS'] <;> exact near_refl _
  have hS' : decodeSpans (recordedTraces traces) ≠ [] :=
    fun h => hS (List.forall₂_nil_right_iff.mp (h ▸ hall))
  obtain ⟨hlong, hnear⟩ := (List.forall₂_and_left _ _).mp hall
  obtain ⟨hleast, hle⟩ := least_spec hS
  obtain ⟨hleast', hle'⟩ := least_spec hS'
  obtain ⟨hgreatest, hge⟩ := greatest_spec hS
  obtain ⟨hgreatest', hge'⟩ := greatest_spec hS'
  -- each extreme span has a partner on the other side
  have hpartner : ∀ s ∈ decodeSpans traces, ∃ s' ∈ decodeSpans (recordedTraces traces),
      |s - s'| ≤ 1 / 10 ^ 7 :=
    fun s hs => (mem_decodeSpans_recorded htokens hs).resolve_left fun h => by linarith [hlong s hs]
  refine ⟨hround, near_of_abs (δ := 1 / 10 ^ 7) ?_ ?_, near_of_abs (δ := 1 / 10 ^ 7) ?_ ?_, Or.inl ?_⟩
  · obtain ⟨s, hs, herror⟩ := of_mem_decodeSpans_recorded htokens hleast'
    obtain ⟨s', hs', herror'⟩ := hpartner _ hleast
    exact abs_least herror (hle s hs) herror' (hle' s' hs')
  · linarith [hlong _ hleast]
  · obtain ⟨s, hs, herror⟩ := of_mem_decodeSpans_recorded htokens hgreatest'
    obtain ⟨s', hs', herror'⟩ := hpartner _ hgreatest
    exact abs_greatest herror (hge s hs) herror' (hge' s' hs')
  · linarith [hlong _ hgreatest]
  · -- each inverse span is within the relative tolerance of its partner, and so is their percentile
    have hinv : ∀ {s s' : Rat}, 0 < s → 0 < s' → s' * (1 - 5 / 10 ^ 4) ≤ s →
        s⁻¹ * (1 - 5 / 10 ^ 4) ≤ s'⁻¹ := by
      intro s s' hs hs' h
      rw [inv_mul_eq_div, div_le_iff₀ hs, inv_mul_eq_div, le_div_iff₀ hs', mul_comm]
      exact h
    have hup : List.Forall₂ (fun a b => a * (1 - 5 / 10 ^ 4) ≤ b) ((decodeSpans traces).map (·⁻¹))
        ((decodeSpans (recordedTraces traces)).map (·⁻¹)) := by
      refine List.forall₂_map_left_iff.mpr (List.forall₂_map_right_iff.mpr (hall.imp fun s s' h => ?_))
      have habs := abs_le.mp h.2
      exact hinv (by linarith) (by linarith) (by linarith)
    have hdown : List.Forall₂ (fun a b => a * (1 - 5 / 10 ^ 4) ≤ b)
        ((decodeSpans (recordedTraces traces)).map (·⁻¹))
        ((decodeSpans traces).map (·⁻¹)) := by
      refine List.forall₂_map_left_iff.mpr
        (List.forall₂_map_right_iff.mpr (hall.flip.imp fun s' s h => ?_))
      have habs := abs_le.mp h.2
      exact hinv (by linarith) (by linarith) (by linarith)
    have hp :=
      Percentile.mul_percentile_le (p := 50) (by norm_num) hup (mt List.map_eq_nil_iff.mp hS)
        (by norm_num)
      (by norm_num)
    have hp' :=
      Percentile.mul_percentile_le (p := 50) (by norm_num) hdown (mt List.map_eq_nil_iff.mp hS')
        (by norm_num)
      (by norm_num)
    have hP := inv_pos.mp (middle_pos hS fun s hs => (mem_decodeSpans.mp hs).1)
    have hP' := inv_pos.mp (middle_pos hS' fun s hs => (mem_decodeSpans.mp hs).1)
    unfold middle
    rw [← one_div, ← one_div, near_div one_pos hP hP']
    rcases le_total (Percentile.percentile ((decodeSpans traces).map (·⁻¹)) 50)
      (Percentile.percentile ((decodeSpans (recordedTraces traces)).map (·⁻¹)) 50) with h | h
    · rw [near_of_le hP h]
      linarith
    · rw [near_comm, near_of_le hP' h]
      linarith

end
end RunBench
end Redline
