import Redline.Engine.InFlight

/-!
# Calls that throw, and the calls after them

The calls of a run are put on a staging queue (`Staging`) as far as they got.  A call that throws
with its copies in flight is harmless as long as no later call gets to a store.

* `RanCall`                  a call as it ran: its log, and the step at which it threw, if one did;
* `RanCall.Leaves`           it ended with an upload accepted and not synchronised;
* `sparing_iff_pairwise`     no store under a copy iff no call that leaves copies in flight is
                             followed by one that starts;
* `mirrors_undisturbed_iff`  the same with what the kernels see: then, and only then, the mirrors
                             are left alone and every kernel sees the inputs of its own call.
-/

namespace Redline
open Script Staging

/-! ## a call as it ran -/

/-- stores and synchronisations do not fail -/
def Action.mayFail : Action → Bool
  | .store _ => false
  | .sync => false
  | _ => true

structure RanCall (x : Executor) where
  call : StepCall
  log : List Action
  ran : x.callLog call = some log
  /-- the step that fails -/
  fails : Option Nat

namespace RanCall
variable {x : Executor}

/-- what was done: a step that fails has no effect, and the call throws there -/
def executed (c : RanCall x) : List Action :=
  match c.fails with
  | none => c.log
  | some k => if (c.log[k]?).any Action.mayFail then c.log.take k else c.log

/-- the call ends with an accepted upload that no synchronisation follows -/
def Leaves (c : RanCall x) : Prop :=
  ∃ before mirror count after, c.executed = before ++ .upload mirror count :: after ∧
    .sync ∉ after

end RanCall

/-! ## calls on the queue -/

/-- the mirrors of the host and of the device, the stream, and the kernels with their call -/
abbrev Stream := State (Mirror × Nat) Int (Nat × List Kernel)

def Stream.host (s : Stream) : Mirrors := fun mirror i => State.host s (mirror, i)

def Stream.device (s : Stream) : Mirrors := fun mirror i => State.device s (mirror, i)

/-- the stream before the first call -/
def Stream.start (host device : Mirrors) : Stream :=
  ⟨fun c => host c.1 c.2, fun c => device c.1 c.2, [], []⟩

/-- an action of the `k`-th call -/
def Action.staged (k : Nat) : Action → List (Act (Mirror × Nat) Int (Nat × List Kernel))
  | .store w => [.write (w.mirror, w.index) w.value]
  | .upload mirror count => [.push (.copy ((List.range count).map fun i => (mirror, i)))]
  | .launch kernels => [.push (.work (k, kernels))]
  | .sync => [.wait]
  | _ => []

def staged (k : Nat) (log : List Action) : List (Act (Mirror × Nat) Int (Nat × List Kernel)) :=
  log.flatMap (Action.staged k)

/-- the calls one after the other, the first of them with number `k` -/
def stagedFrom {x : Executor} (k : Nat) (cs : List (RanCall x)) :
    List (Act (Mirror × Nat) Int (Nat × List Kernel)) :=
  (cs.zipIdx k).flatMap fun p => staged p.2 p.1.executed

/-- a device that holds the ids, positions, lengths and block tables of the call -/
def HoldsInputs (x : Executor) (c : StepCall) (device : Mirror × Nat → Int) : Prop :=
  (c.uploads x).map (Action.copied fun mirror i => device (mirror, i)) = c.image x

theorem staged_append (k : Nat) (l l' : List Action) :
    staged k (l ++ l') = staged k l ++ staged k l' := List.flatMap_append

theorem staged_snoc (k : Nat) (l : List Action) (a : Action) :
    staged k (l ++ [a]) = staged k l ++ a.staged k := by
  rw [staged_append]
  exact congrArg _ (List.append_nil _)

theorem stagedFrom_cons {x : Executor} (k : Nat) (c : RanCall x) (cs : List (RanCall x)) :
    stagedFrom k (c :: cs) = staged k c.executed ++ stagedFrom (k + 1) cs := rfl

/-! ## executed on the spot -/

theorem directly_stores (k : Nat) {l : List Action} (h : ∀ a ∈ l, a.isStore = true) :
    ∀ s : Stream, (directly s (staged k l)).host
      = (fun c => Executor.afterLog l (Stream.host s) c.1 c.2) ∧
      State.device (directly s (staged k l)) = State.device s ∧
      State.seen (directly s (staged k l)) = State.seen s := by
  induction l with
  | nil => intro s; exact ⟨rfl, rfl, rfl⟩
  | cons a l ih =>
    intro s
    cases a with
    | store w =>
      obtain ⟨hhost, hdevice, hseen⟩ := ih (fun b hb => h b (List.mem_cons_of_mem _ hb))
        (State.write s (w.mirror, w.index) w.value)
      refine ⟨?_, hdevice, hseen⟩
      have hstore : Stream.host (State.write s (w.mirror, w.index) w.value)
          = Mirrors.store (Stream.host s) w := by
        funext mirror i
        show Function.update _ _ _ _ = _
        by_cases hc : mirror = w.mirror ∧ i = w.index
        · obtain ⟨rfl, rfl⟩ := hc
          rw [Function.update_self, Executor.store_self]
        · rw [Function.update_of_ne fun h0 => hc (Prod.mk.inj h0),
            Executor.store_other _ _ (not_and_or.mp hc)]
          rfl
      rw [hstore] at hhost
      exact hhost
    | _ => cases h _ List.mem_cons_self

/-- uploads leave on the device what the host holds -/
theorem directly_uploads (k : Nat) {l : List Action} (h : ∀ a ∈ l, a.isUpload = true) (s : Stream) :
    State.host (directly s (staged k l)) = State.host s ∧
      State.seen (directly s (staged k l)) = State.seen s ∧
      ∀ a ∈ l, a.copied (Stream.device (directly s (staged k l))) = a.copied (Stream.host s) := by
  induction l using List.reverseRecOn with
  | nil => exact ⟨rfl, rfl, nofun⟩
  | append_singleton l a ih =>
    obtain ⟨hhost, hseen, hcopied⟩ := ih fun b hb => h b (List.mem_append_left _ hb)
    rw [staged_snoc, directly_append]
    have ha := h a (List.mem_append_right _ (List.mem_singleton.mpr rfl))
    cases a with
    | upload mirror count =>
      refine ⟨hhost, hseen, fun b hb => ?_⟩
      have hnew : ∀ i ∈ List.range count, Stream.device (directly (directly s (staged k l))
          (Action.staged k (.upload mirror count))) mirror i = Stream.host s mirror i := fun i hi =>
        (exec_copy_of_mem (List.mem_map.mpr ⟨i, hi, rfl⟩) _).trans (congrFun hhost (mirror, i))
      rcases List.mem_append.mp hb with hb | hb
      · cases b with
        | upload mirror' count' =>
          refine List.map_congr_left fun i hi => ?_
          by_cases hc : (mirror', i) ∈ (List.range count).map fun i => (mirror, i)
          · obtain ⟨j, hj, hji⟩ := List.mem_map.mp hc
            obtain ⟨rfl, rfl⟩ := Prod.mk.inj hji
            exact hnew j hj
          · exact (exec_copy_of_not_mem hc _).trans (List.map_inj_left.mp (hcopied _ hb) i hi)
        | _ => rfl
      · obtain rfl := List.mem_singleton.mp hb
        exact List.map_congr_left hnew
    | _ => cases ha

/-- work without stores and uploads sees the device as it was -/
theorem directly_inert (k : Nat) {l : List Action} (h : Inert l) : ∀ s : Stream,
    ∃ new, State.seen (directly s (staged k l)) = State.seen s ++ new ∧
      ∀ e ∈ new, e.1.1 = k ∧ e.2 = State.device s := by
  induction l with
  | nil => intro s; exact ⟨[], (List.append_nil _).symm, nofun⟩
  | cons a l ih =>
    intro s
    have htail : Inert l := fun b hb => h b (List.mem_cons_of_mem _ hb)
    have ha := h a List.mem_cons_self
    cases a with
    | store w => cases ha.1
    | upload mirror count => cases ha.2
    | launch kernels =>
      obtain ⟨new, hseen, hnew⟩ := ih htail ((Op.work (k, kernels)).exec s)
      refine ⟨((k, kernels), State.device s) :: new, ?_, List.forall_mem_cons.mpr ⟨⟨rfl, rfl⟩, hnew⟩⟩
      show State.seen (directly ((Op.work (k, kernels)).exec s) (staged k l)) = _
      rw [hseen]
      exact List.append_assoc _ _ _
    | _ => exact ih htail s

/-! ## how far a call got -/

theorem prefix_append_cases {α : Type} {p a b : List α} (h : p <+: a ++ b) :
    p <+: a ∨ ∃ q, p = a ++ q ∧ q <+: b := by
  rcases List.prefix_or_prefix_of_prefix h (List.prefix_append a b) with hp | ⟨q, rfl⟩
  · exact Or.inl hp
  · exact Or.inr ⟨q, rfl, (List.prefix_append_right_inj a).mp h⟩

theorem StepCall.uploads_cons (x : Executor) (c : StepCall) :
    ∃ rest, c.uploads x = .upload .inputIds (c.rows x) :: rest := by
  cases c <;> exact ⟨_, rfl⟩

theorem StepCall.isUpload_of_mem {x : Executor} {c : StepCall} :
    ∀ a ∈ c.uploads x, a.isUpload = true := by
  intro a ha
  cases c <;>
  · simp only [StepCall.uploads, Executor.uploadPrefillInputs, Executor.uploadDecodeInputs,
      List.mem_cons, List.not_mem_nil, or_false] at ha
    rcases ha with rfl | rfl | rfl | rfl <;> rfl

namespace RanCall
variable {x : Executor}

theorem executed_prefix (c : RanCall x) : c.executed <+: c.log := by
  unfold executed
  cases c.fails with
  | none => exact List.prefix_rfl
  | some k =>
    dsimp only
    split
    · exact List.take_prefix k c.log
    · exact List.prefix_rfl

/-- stores do not fail -/
theorem prefix_executed {c : RanCall x} {fill work : List Action} (hlog : c.log = fill ++ work)
    (hfill : ∀ a ∈ fill, a.isStore = true) : fill <+: c.executed := by
  unfold executed
  cases c.fails with
  | none =>
    rw [hlog]
    exact List.prefix_append _ _
  | some k =>
    dsimp only
    split
    · rename_i hk
      obtain ⟨a, ha, hmay⟩ := Option.any_eq_true _ _ |>.mp hk
      have hle : fill.length ≤ k := by
        by_contra hlt
        rw [hlog, List.getElem?_append_left (not_le.mp hlt)] at ha
        have hstore := hfill a (List.mem_of_getElem? ha)
        cases a with
        | store w => cases hmay
        | _ => cases hstore
      rw [hlog, List.take_append, List.take_of_length_le hle]
      exact List.prefix_append _ _
    · rw [hlog]
      exact List.prefix_append _ _

/-- the parts of what a call did -/
inductive Did (c : RanCall x) : Prop
  | nothing : ¬ c.call.Starts x → c.executed = [] → Did c
  | stopped {fill work} : c.call.Starts x → c.executed = fill ++ work →
      (∃ a as, fill = a :: as ∧ IsFirst a) → (∀ a ∈ fill, a.isStore = true) →
      (∀ a ∈ work, a = .resolve) → Did c
  | uploading {fill resolved us} : c.call.Starts x → c.executed = fill ++ (resolved ++ us) →
      (∃ a as, fill = a :: as ∧ IsFirst a) → (∀ a ∈ fill, a.isStore = true) →
      (∀ a ∈ resolved, a = .resolve) → us <+: c.call.uploads x → 0 < c.call.rows x → Did c
  | went {fill resolved rest} : c.call.Starts x →
      c.executed = fill ++ (resolved ++ (c.call.uploads x ++ rest)) →
      (∃ a as, fill = a :: as ∧ IsFirst a) → (∀ a ∈ fill, a.isStore = true) →
      (∀ a ∈ resolved, a = .resolve) → Inert rest → 0 < c.call.rows x →
      (∀ m, (c.call.uploads x).map (Action.copied (Executor.afterLog fill m)) = c.call.image x) →
      Did c

theorem did (c : RanCall x) : Did c := by
  rcases callLog_shape c.ran with ⟨hc, hlog⟩ | ⟨hc, fill, work, hlog, hfirst, hfill, hwork⟩
  · refine .nothing hc (List.prefix_nil.mp ?_)
    rw [← hlog]
    exact c.executed_prefix
  · obtain ⟨w, hw⟩ := prefix_executed hlog hfill
    have hlen : w <+: work := by
      have h := c.executed_prefix
      rw [← hw, hlog] at h
      exact (List.prefix_append_right_inj fill).mp h
    cases hwork with
    | stopped hresolve =>
      exact .stopped hc hw.symm hfirst hfill fun a ha => hresolve a (hlen.subset ha)
    | went hresolve hrest hrows himage =>
      rcases prefix_append_cases hlen with hearly | ⟨w', rfl, hlate⟩
      · exact .stopped hc hw.symm hfirst hfill fun a ha => hresolve a (hearly.subset ha)
      rcases prefix_append_cases hlate with hus | ⟨rest', rfl, hsub⟩
      · exact .uploading hc hw.symm hfirst hfill hresolve hus hrows
      · exact .went hc hw.symm hfirst hfill hresolve (fun a ha => hrest a (hsub.subset ha)) hrows himage

end RanCall

/-! ## what is out when a call ends -/

theorem mem_outAfter_iff (k : Nat) (l : List Action) {mirror : Mirror} {i : Nat} :
    (mirror, i) ∈ outAfter [] (staged k l) ↔ ∃ before count after,
      l = before ++ .upload mirror count :: after ∧ .sync ∉ after ∧ i < count := by
  induction l using List.reverseRecOn with
  | nil =>
    constructor
    · exact fun h => absurd h List.not_mem_nil
    · rintro ⟨before, count, after, h, _⟩
      exact absurd h.symm (by simp)
  | append_singleton l a ih =>
    rw [staged_snoc, outAfter_append]
    -- a decomposition of `l ++ [a]` splits either inside `l` or at its last action
    have hsplit : (∃ before count after, l ++ [a] = before ++ .upload mirror count :: after ∧
        .sync ∉ after ∧ i < count) ↔
        (∃ count, a = .upload mirror count ∧ i < count) ∨
        a ≠ .sync ∧ ∃ before count after, l = before ++ .upload mirror count :: after ∧
          .sync ∉ after ∧ i < count := by
      constructor
      · rintro ⟨before, count, after, h, hsync, hi⟩
        induction after using List.reverseRecOn with
        | nil =>
          obtain ⟨_, ha⟩ := List.append_inj' h rfl
          exact Or.inl ⟨count, (List.cons.inj ha).1, hi⟩
        | append_singleton after b _ =>
          have h' : l ++ [a] = (before ++ .upload mirror count :: after) ++ [b] := by simpa using h
          obtain ⟨rfl, hab⟩ := List.append_inj' h' rfl
          obtain rfl := (List.cons.inj hab).1
          refine Or.inr ⟨fun h0 => hsync (List.mem_append_right _ (by simp [h0])), before, count,
            after, rfl, fun h0 => hsync (List.mem_append_left _ h0), hi⟩
      · rintro (⟨count, rfl, hi⟩ | ⟨hne, before, count, after, rfl, hsync, hi⟩)
        · exact ⟨l, count, [], rfl, List.not_mem_nil, hi⟩
        · refine ⟨before, count, after ++ [a], by simp, fun h0 => ?_, hi⟩
          rcases List.mem_append.mp h0 with h0 | h0
          · exact hsync h0
          · exact hne (List.mem_singleton.mp h0).symm
    rw [hsplit, ← ih]
    cases a with
    | upload m n =>
      show (mirror, i) ∈ outAfter [] (staged k l) ++ (List.range n).map (fun i => (m, i)) ↔ _
      rw [List.mem_append, or_comm]
      refine or_congr ?_ (and_iff_right (by simp)).symm
      constructor
      · intro h
        obtain ⟨j, hj, hji⟩ := List.mem_map.mp h
        obtain ⟨rfl, rfl⟩ := Prod.mk.inj hji
        exact ⟨n, rfl, List.mem_range.mp hj⟩
      · rintro ⟨_, h, hi⟩
        obtain ⟨rfl, rfl⟩ := Action.upload.inj h
        exact List.mem_map.mpr ⟨i, List.mem_range.mpr hi, rfl⟩
    | sync =>
      constructor
      · exact fun h => absurd h List.not_mem_nil
      · rintro (⟨_, h, _⟩ | ⟨h, _⟩)
        · cases h
        · exact absurd rfl h
    | _ =>
      constructor
      · exact fun h => Or.inr ⟨by simp, h⟩
      · rintro (⟨_, h, _⟩ | ⟨_, h⟩)
        · cases h
        · exact h

theorem sparing_of_noStore (k : Nat) {l : List Action} (h : NoStore l) : ∀ out,
    Sparing out (staged k l) := by
  induction l with
  | nil => intro out; trivial
  | cons a l ih =>
    intro out
    have htail := ih fun b hb => h b (List.mem_cons_of_mem _ hb)
    cases a with
    | store w => cases h _ List.mem_cons_self
    | upload _ _ | launch _ | sync => exact ⟨trivial, htail _⟩
    | _ => exact htail out

theorem sparing_stores (k : Nat) {l : List Action} (h : ∀ a ∈ l, a.isStore = true) :
    Sparing [] (staged k l) ∧ outAfter [] (staged k l) = [] := by
  induction l with
  | nil => exact ⟨trivial, rfl⟩
  | cons a l ih =>
    obtain ⟨hsparing, hout⟩ := ih fun b hb => h b (List.mem_cons_of_mem _ hb)
    cases a with
    | store w => exact ⟨⟨List.not_mem_nil, hsparing⟩, hout⟩
    | _ => cases h _ List.mem_cons_self

theorem noStore_resolved {l : List Action} (h : ∀ a ∈ l, a = .resolve) : NoStore l :=
  fun a ha => h a ha ▸ rfl

theorem noStore_uploads {l : List Action} (h : ∀ a ∈ l, a.isUpload = true) : NoStore l := by
  intro a ha
  have hup := h a ha
  cases a with
  | store w => cases hup
  | _ => rfl

namespace RanCall
variable {x : Executor}

/-- within one call no store follows an upload -/
theorem sparing_executed (c : RanCall x) (k : Nat) : Sparing [] (staged k c.executed) := by
  have key : ∀ fill work, c.executed = fill ++ work → (∀ a ∈ fill, a.isStore = true) →
      NoStore work → Sparing [] (staged k c.executed) := by
    intro fill work h hfill hwork
    rw [h, staged_append, sparing_append, (sparing_stores k hfill).2]
    exact ⟨(sparing_stores k hfill).1, sparing_of_noStore k hwork []⟩
  cases c.did with
  | nothing _ h => rw [h]; trivial
  | stopped _ h _ hfill hresolve => exact key _ _ h hfill (noStore_resolved hresolve)
  | uploading _ h _ hfill hresolve hus _ =>
    exact key _ _ h hfill (noStore_append (noStore_resolved hresolve)
      (noStore_uploads fun a ha => StepCall.isUpload_of_mem a (hus.subset ha)))
  | went _ h _ hfill hresolve hrest _ _ =>
    exact key _ _ h hfill (noStore_append (noStore_resolved hresolve)
      (noStore_append (noStore_uploads StepCall.isUpload_of_mem) fun a ha => (hrest a ha).1))

/-- a call that starts stores the id of row 0 first -/
theorem executed_of_starts {c : RanCall x} (h : c.call.Starts x) :
    ∃ a as, c.executed = a :: as ∧ IsFirst a := by
  have key : ∀ {fill work}, c.executed = fill ++ work → (∃ a as, fill = a :: as ∧ IsFirst a) →
      ∃ a as, c.executed = a :: as ∧ IsFirst a := by
    rintro _ work h ⟨a, as, rfl, ha⟩
    exact ⟨a, as ++ work, h, ha⟩
  cases c.did with
  | nothing hc _ => exact absurd h hc
  | stopped _ h hfirst _ _ => exact key h hfirst
  | uploading _ h hfirst _ _ _ _ => exact key h hfirst
  | went _ h hfirst _ _ _ _ _ => exact key h hfirst

theorem executed_of_not_starts {c : RanCall x} (h : ¬ c.call.Starts x) : c.executed = [] := by
  cases c.did with
  | nothing _ hnil => exact hnil
  | stopped hc => exact absurd hc h
  | uploading hc => exact absurd hc h
  | went hc => exact absurd hc h

/-- copies in flight include the copy of the id of row 0 -/
theorem Leaves.first_out {c : RanCall x} (h : c.Leaves) (k : Nat) :
    (Mirror.inputIds, 0) ∈ outAfter [] (staged k c.executed) := by
  obtain ⟨before, mirror, count, after, hsplit, hafter⟩ := h
  have hmem : .upload mirror count ∈ c.executed := by
    rw [hsplit]
    exact List.mem_append_right _ List.mem_cons_self
  have hnofill : ∀ {fill : List Action}, (∀ a ∈ fill, a.isStore = true) →
      Action.upload mirror count ∉ fill := fun hfill hm => by cases hfill _ hm
  have hnoresolve : ∀ {l : List Action}, (∀ a ∈ l, a = .resolve) →
      Action.upload mirror count ∉ l := fun hl hm => by cases hl _ hm
  -- whatever is left to do after the first upload has no synchronisation in it
  have key : ∀ {fill resolved rest : List Action}, 0 < c.call.rows x →
      c.executed = fill ++ (resolved ++ .upload .inputIds (c.call.rows x) :: rest) → .sync ∉ rest →
      (Mirror.inputIds, 0) ∈ outAfter [] (staged k c.executed) := by
    intro fill resolved rest hrows hexec hsync
    exact (mem_outAfter_iff k _).mpr ⟨fill ++ resolved, _, rest, by rw [hexec, List.append_assoc],
      hsync, hrows⟩
  obtain ⟨us, hus⟩ := c.call.uploads_cons x
  have husUpload : ∀ a ∈ us, a.isUpload = true := fun a ha =>
    StepCall.isUpload_of_mem (x := x) (c := c.call) a (by rw [hus]; exact List.mem_cons_of_mem _ ha)
  have hnosync : .sync ∉ us := fun hm => by cases husUpload _ hm
  cases c.did with
  | nothing _ h => rw [h] at hmem; cases hmem
  | stopped _ h _ hfill hresolve =>
    rw [h] at hmem
    rcases List.mem_append.mp hmem with hm | hm
    · exact absurd hm (hnofill hfill)
    · exact absurd hm (hnoresolve hresolve)
  | @uploading fill resolved made _ h _ hfill hresolve hmade hrows =>
    cases made with
    | nil =>
      rw [h, List.append_nil] at hmem
      rcases List.mem_append.mp hmem with hm | hm
      · exact absurd hm (hnofill hfill)
      · exact absurd hm (hnoresolve hresolve)
    | cons a made =>
      rw [hus] at hmade
      obtain ⟨rfl, hrest⟩ := List.cons_prefix_cons.mp hmade
      exact key hrows h fun hm => hnosync (hrest.subset hm)
  | @went fill resolved rest _ h _ hfill hresolve hrest hrows _ =>
    rw [hus, List.cons_append] at h
    refine key hrows h fun hm => ?_
    rcases List.mem_append.mp hm with hm | hm
    · exact hnosync hm
    -- a synchronisation is followed by no upload, so it would be in `after`
    obtain ⟨r1, r2, rfl⟩ := List.append_of_mem hm
    have hr2 : Inert r2 := fun a ha => hrest a (List.mem_append_right _ (List.mem_cons_of_mem _ ha))
    have heq : (fill ++ (resolved ++ .upload .inputIds (c.call.rows x) :: (us ++ r1))) ++
        .sync :: r2 = before ++ .upload mirror count :: after := by
      rw [← hsplit, h]
      simp
    rcases List.append_eq_append_iff.mp heq with ⟨m, hb, hm2⟩ | ⟨m, _, hm2⟩
    · cases m with
      | nil => cases hm2
      | cons b m =>
        obtain ⟨_, rfl⟩ := List.cons.inj hm2
        have := (hr2 (.upload mirror count) (List.mem_append_right _ List.mem_cons_self)).2
        cases this
    · cases m with
      | nil => cases hm2
      | cons b m =>
        obtain ⟨_, rfl⟩ := List.cons.inj hm2
        exact hafter (List.mem_append_right _ List.mem_cons_self)

theorem out_of_not_leaves {c : RanCall x} (h : ¬ c.Leaves) (k : Nat) :
    outAfter [] (staged k c.executed) = [] := by
  refine List.eq_nil_iff_forall_not_mem.mpr fun cell hcell => ?_
  obtain ⟨before, count, after, hsplit, hsync, _⟩ := (mem_outAfter_iff k _).mp hcell
  exact h ⟨before, cell.1, count, after, hsplit, hsync⟩

end RanCall

/-! ## runs of calls -/

section
variable {x : Executor}

/-- **The mirrors are left alone** iff no call that leaves copies in flight is followed by one that
starts.  The two parts are the two states a call can begin in: nothing is out, or at least the id
of row 0 is. -/
theorem sparing_stagedFrom (cs : List (RanCall x)) : ∀ k,
    (Sparing [] (stagedFrom k cs) ↔ cs.Pairwise fun c d => c.Leaves → ¬ d.call.Starts x) ∧
    ∀ out, (Mirror.inputIds, 0) ∈ out →
      (Sparing out (stagedFrom k cs) ↔ ∀ d ∈ cs, ¬ d.call.Starts x) := by
  induction cs with
  | nil =>
    intro k
    exact ⟨iff_of_true trivial .nil, fun _ _ => iff_of_true trivial nofun⟩
  | cons c cs ih =>
    intro k
    obtain ⟨ihnone, ihout⟩ := ih (k + 1)
    rw [stagedFrom_cons, List.pairwise_cons]
    refine ⟨?_, fun out hout => ?_⟩
    · rw [sparing_append, and_iff_right (c.sparing_executed k)]
      by_cases hleaves : c.Leaves
      · rw [ihout _ (hleaves.first_out k)]
        constructor
        · intro h
          exact ⟨fun d hd _ => h d hd, List.pairwise_of_forall_mem_list fun _ _ d hd _ => h d hd⟩
        · rintro ⟨h, _⟩ d hd
          exact h d hd hleaves
      · rw [RanCall.out_of_not_leaves hleaves k, ihnone]
        exact (and_iff_right fun d _ h => absurd h hleaves).symm
    · rw [sparing_append, List.forall_mem_cons]
      by_cases hstarts : c.call.Starts x
      · refine iff_of_false (fun h => ?_) fun h => h.1 hstarts
        obtain ⟨a, as, hexec, token, rfl⟩ := RanCall.executed_of_starts hstarts
        have hsparing := h.1
        rw [hexec] at hsparing
        exact hsparing.1 hout
      · rw [RanCall.executed_of_not_starts hstarts, and_iff_right hstarts]
        show True ∧ Sparing out _ ↔ _
        rw [true_and]
        exact ihout out hout

theorem sparing_iff_pairwise (cs : List (RanCall x)) :
    Sparing [] (stagedFrom 0 cs) ↔ cs.Pairwise fun c d => c.Leaves → ¬ d.call.Starts x :=
  (sparing_stagedFrom cs 0).1

/-- executed on the spot, the kernels of a call see its inputs -/
theorem RanCall.seen_executed (c : RanCall x) (k : Nat) (s : Stream) :
    ∃ new, State.seen (directly s (staged k c.executed)) = State.seen s ++ new ∧
      ∀ e ∈ new, e.1.1 = k ∧ HoldsInputs x c.call e.2 := by
  have hresolved : ∀ {l : List Action}, (∀ a ∈ l, a = .resolve) → ∀ s : Stream,
      directly s (staged k l) = s := by
    intro l hl
    induction l with
    | nil => intro s; rfl
    | cons a l ih =>
      intro s
      obtain rfl := hl a List.mem_cons_self
      exact ih (fun b hb => hl b (List.mem_cons_of_mem _ hb)) s
  cases c.did with
  | nothing _ h => exact ⟨[], by rw [h]; exact (List.append_nil _).symm, nofun⟩
  | stopped _ h _ hfill hresolve =>
    refine ⟨[], ?_, nofun⟩
    rw [h, staged_append, directly_append, hresolved hresolve, (directly_stores k hfill s).2.2,
      List.append_nil]
  | uploading _ h _ hfill hresolve hus _ =>
    refine ⟨[], ?_, nofun⟩
    rw [h, staged_append, staged_append, directly_append, directly_append, hresolved hresolve,
      (directly_uploads k (fun a ha => StepCall.isUpload_of_mem a (hus.subset ha)) _).2.1,
      (directly_stores k hfill s).2.2, List.append_nil]
  | @went fill resolved rest _ h _ hfill hresolve hrest _ himage =>
    rw [h, staged_append, staged_append, staged_append, directly_append, directly_append,
      directly_append, hresolved hresolve]
    obtain ⟨hhost, _, hseen⟩ := directly_stores k hfill s
    obtain ⟨_, hseen', hcopied⟩ := directly_uploads k (StepCall.isUpload_of_mem (c := c.call))
      (directly s (staged k fill))
    obtain ⟨new, hnew, hall⟩ := directly_inert k hrest
      (directly (directly s (staged k fill)) (staged k (c.call.uploads x)))
    refine ⟨new, by rw [hnew, hseen', hseen], fun e he => ⟨(hall e he).1, ?_⟩⟩
    have hmirrors : Stream.host (directly s (staged k fill))
        = Executor.afterLog fill (Stream.host s) := by
      funext mirror i
      exact congrFun hhost (mirror, i)
    unfold HoldsInputs
    rw [(hall e he).2, ← himage (Stream.host s), ← hmirrors]
    exact List.map_congr_left hcopied

/-- executed on the spot, every kernel sees the inputs of its own call -/
theorem seen_stagedFrom (cs : List (RanCall x)) : ∀ (k : Nat) (s : Stream),
    ∃ new, State.seen (directly s (stagedFrom k cs)) = State.seen s ++ new ∧
      ∀ e ∈ new, ∃ i c, e.1.1 = k + i ∧ cs[i]? = some c ∧ HoldsInputs x c.call e.2 := by
  induction cs with
  | nil => intro k s; exact ⟨[], (List.append_nil _).symm, nofun⟩
  | cons c cs ih =>
    intro k s
    obtain ⟨new, hnew, hall⟩ := c.seen_executed k s
    obtain ⟨new', hnew', hall'⟩ := ih (k + 1) (directly s (staged k c.executed))
    refine ⟨new ++ new', ?_, fun e he => ?_⟩
    · rw [stagedFrom_cons, directly_append, hnew', hnew, List.append_assoc]
    · rcases List.mem_append.mp he with he | he
      · exact ⟨0, c, (hall e he).1, rfl, (hall e he).2⟩
      · obtain ⟨i, d, hi, hd, hsees⟩ := hall' e he
        exact ⟨i + 1, d, by omega, hd, hsees⟩

end

/-- no run of the calls writes a mirror element under a copy of it, and in every run, wherever it
stands, each kernel executed so far found the inputs of the call that enqueued it -/
def Undisturbed {x : Executor} (cs : List (RanCall x)) (host device : Mirrors) : Prop :=
  Safe (Stream.start host device) (stagedFrom 0 cs) ∧
    ∀ l t, l <+: stagedFrom 0 cs → Run (Stream.start host device) l t →
      ∀ i kernels seen, ((i, kernels), seen) ∈ State.seen t →
        ∃ c, cs[i]? = some c ∧ HoldsInputs x c.call seen

/-- **When the mirrors are safe.**  They are undisturbed in a run of calls, of which any may throw
at any failing step, iff no call that throws with an upload in flight is followed by one that gets
past its checks. -/
theorem mirrors_undisturbed_iff (x : Executor) (cs : List (RanCall x)) (host device : Mirrors) :
    Undisturbed cs host device ↔ cs.Pairwise fun c d => c.Leaves → ¬ d.call.Starts x := by
  rw [← sparing_iff_pairwise]
  constructor
  · exact fun h => (sparing_iff_safe rfl _).mpr h.1
  · intro hsparing
    refine ⟨(sparing_iff_safe rfl _).mp hsparing, fun l t hl hrun i kernels seen hmem => ?_⟩
    obtain ⟨rest, hrest⟩ := hl
    have hsparing' : Sparing [] l := ((sparing_append l [] rest).mp (hrest ▸ hsparing)).1
    have hmem' := (hrun.seen rfl hsparing').subset hmem
    obtain ⟨new, hnew, hall⟩ := seen_stagedFrom cs 0 (Stream.start host device)
    have hlen : State.seen (directly (Stream.start host device) l)
        <+: State.seen (directly (Stream.start host device) (stagedFrom 0 cs)) := by
      rw [← hrest, directly_append]
      exact seen_directly _ _
    have hin := hlen.subset hmem'
    rw [hnew] at hin
    obtain ⟨j, c, hi, hc, hsees⟩ := hall _ ((List.mem_append.mp hin).resolve_left List.not_mem_nil)
    obtain rfl : i = j := hi.trans (Nat.zero_add j)
    exact ⟨c, hc, hsees⟩

/-! ## a scatter into another sequence -/

/-- another sequence, decoded in the next call: token 6 in block 3 -/
def nextRequest : Request := { storyRequest with id := 2, outputTokens := [6], blockTable := ⟨[3]⟩ }

def ranDecode (q : Request) (fails : Option Nat)
    (h : ((tinyEngine .kReserveFull).executor.callLog (.decodeEager [q])).isSome) :
    RanCall (tinyEngine .kReserveFull).executor :=
  ⟨.decodeEager [q], Option.get _ h, (Option.some_get h).symm, fails⟩

/-- the first call throws at its attention output projection, with its uploads in flight -/
def disturbedCalls : List (RanCall (tinyEngine .kReserveFull).executor) :=
  [ranDecode storyRequest (some 17) (by decide), ranDecode nextRequest none (by decide)]

/-- the scatter of the failed call finds the block table of the next one -/
theorem disturbed_scatter : ∃ t seen,
    Run (Stream.start (fun _ _ => 0) fun _ _ => 0) (stagedFrom 0 disturbedCalls) t ∧
    ((0, [Kernel.kvScatter 0 4 1]), seen) ∈ State.seen t ∧ seen (.blockTables, 0) = 3 := by
  have hmem : ((0, [Kernel.kvScatter 0 4 1]), (3 : Int)) ∈
      (State.seen (lately (Stream.start (fun _ _ => 0) fun _ _ => 0)
        (stagedFrom 0 disturbedCalls))).map fun e => (e.1, e.2 (.blockTables, 0)) := by
    decide
  obtain ⟨⟨tag, seen⟩, he, heq⟩ := List.mem_map.mp hmem
  obtain ⟨rfl, hseen⟩ := Prod.mk.inj heq
  exact ⟨_, seen, run_lately _ _, he, hseen⟩

theorem mirrors_disturbed :
    ¬ Undisturbed disturbedCalls (fun _ _ => 0) (fun _ _ => 0) := by
  rintro ⟨_, hkernels⟩
  obtain ⟨t, seen, hrun, hmem, hblock⟩ := disturbed_scatter
  obtain ⟨c, hc, hholds⟩ := hkernels _ t List.prefix_rfl hrun 0 _ seen hmem
  obtain rfl := Option.some.inj hc
  have htable : seen (.blockTables, 0) = 2 :=
    congrArg (fun image : List (List Int) => (image.getD 3 []).headD 0) hholds
  rw [hblock] at htable
  cases htable

end Redline
