import Redline.Lib.BlockReduce
import Redline.Lib.Threads

/-!
# Grid-stride loops

A grid of blocks walks `n` rows of `N` columns: the blocks stride over the rows in one direction of the
grid, and their threads over the columns in the other.

* `mem_gridRounds`        each row and column is a round of exactly one thread;
* `gridStride_stored`     rounds with cells of their own store what they store alone, each once, in any
                          order of the threads.
-/

namespace Threads
open BlockReduce
variable {A K S : Type} {gx gy T n N : Nat}

/-- thread `t` of block `(x, y)` -/
def gridStride (gx gy T n N : Nat) (body : Nat → Nat → Prog A K S (Fin T) Unit) (x y t : Nat) :
    Prog A K S (Fin T) Unit :=
  (strided gy n y).forM fun row => (strided (gx * T) N (x * T + t)).forM fun col => body row col

/-! ## rounds -/

/-- the rounds of a thread -/
def GridRound (gx gy T n N x y t row col : Nat) : Prop :=
  row ∈ strided gy n y ∧ col ∈ strided (gx * T) N (x * T + t)

theorem gridRound_iff (b : Fin gx × Fin gy) (t : Fin T) {row col : Nat} :
    GridRound gx gy T n N b.1 b.2 t row col ↔
    (row < n ∧ row % gy = b.2) ∧ col < N ∧ col % (gx * T) = b.1 * T + t := by
  unfold GridRound
  rw [mem_strided b.2.isLt, mem_strided (Stores.row_lt t.isLt b.1.isLt)]

/-- **Each round has one thread.** -/
theorem gridRound_unique (hgx : 0 < gx * T) (hgy : 0 < gy) {row col : Nat} (hrow : row < n)
    (hcol : col < N) :
    ∃ (b : Fin gx × Fin gy) (t : Fin T), GridRound gx gy T n N b.1 b.2 t row col ∧
      ∀ (b' : Fin gx × Fin gy) (t' : Fin T), GridRound gx gy T n N b'.1 b'.2 t' row col → b' = b ∧
        t' = t := by
  have hT : 0 < T := Nat.pos_of_mul_pos_left hgx
  have hlane := Nat.mod_lt col hgx
  have hx : col % (gx * T) / T < gx := (Nat.div_lt_iff_lt_mul hT).mpr hlane
  refine ⟨(⟨col % (gx * T) / T, hx⟩, ⟨row % gy, Nat.mod_lt row hgy⟩),
    ⟨col % (gx * T) % T, Nat.mod_lt _ hT⟩, ?_, ?_⟩
  · refine (gridRound_iff _ _).mpr ⟨⟨hrow, rfl⟩, hcol, ?_⟩
    exact (Nat.div_add_mod' _ T).symm
  · intro b' t' hround
    obtain ⟨⟨_, hy⟩, _, hlane'⟩ := (gridRound_iff b' t').mp hround
    have hparts :=
      Stores.row_inj t'.isLt (Nat.mod_lt _ hT) (hlane'.symm.trans (Nat.div_add_mod' _ T).symm)
    exact ⟨Prod.ext (Fin.ext hparts.1) (Fin.ext hy.symm), Fin.ext hparts.2⟩

/-! ## runs -/

section
variable [DecidableEq A] {exchanged : Nat → Fin T → S} {R : A → Prop} {foot : Nat → Nat → A → Prop}
  {body : Nat → Nat → Prog A K S (Fin T) Unit} {m : A → K}

/-- rounds without barriers, with cells of their own -/
structure Rounds (n N : Nat) (exchanged : Nat → Fin T → S)
    (body : Nat → Nat → Prog A K S (Fin T) Unit) (m : A → K)
    (R : A → Prop) (foot : Nat → Nat → A → Prop) : Prop where
  within : ∀ row < n, ∀ col < N, Within R (foot row col) (body row col)
  apart : ∀ row < n, ∀ col < N, ∀ row' < n, ∀ col' < N, ∀ a, foot row col a → foot row' col' a →
    row = row' ∧ col = col'
  fixed : ∀ row < n, ∀ col < N, ∀ a, foot row col a → ¬ R a
  phase : ∀ row < n, ∀ col < N, (run exchanged (body row col) 0 m).phase = 0

theorem Rounds.run_gridStride (h : Rounds n N exchanged body m R foot) (hgy : 0 < gy)
    (hgx : 0 < gx * T) (x y t : Nat) :
    (run exchanged (gridStride gx gy T n N body x y t) 0 m).phase = 0 ∧
    (run exchanged (gridStride gx gy T n N body x y t) 0 m).log =
      (strided gy n y).flatMap fun row => (strided (gx * T) N (x * T + t)).flatMap fun col =>
        (run exchanged (body row col) 0 m).log := by
  have hrow : ∀ row ∈ strided gy n y, row < n := fun row hr => lt_of_mem_strided hgy hr
  have hcol : ∀ col ∈ strided (gx * T) N (x * T + t), col < N := fun col hc => lt_of_mem_strided hgx hc
  have hinner : ∀ row ∈ strided gy n y,
      run exchanged ((strided (gx * T) N (x * T + t)).forM fun col => body row col) 0 m =
      ⟨(), 0, Stores.store m ((strided (gx * T) N (x * T + t)).flatMap fun col =>
        (run exchanged (body row col) 0 m).log), (strided (gx * T) N (x * T + t)).flatMap fun col =>
          (run exchanged (body row col) 0 m).log⟩ := by
    intro row hr
    refine run_forM (foot row) (fun col hc => h.within row (hrow row hr) col (hcol col hc))
      (fun col hc => h.phase row (hrow row hr) col (hcol col hc))
      (fun col hc => h.fixed row (hrow row hr) col (hcol col hc)) ?_
    refine (nodup_strided hgx N _).imp_of_mem fun {col col'} hc hc' hne a ha ha' => hne ?_
    exact (h.apart row (hrow row hr) col (hcol col hc) row (hrow row hr) col' (hcol col' hc') a ha ha').2
  have houter : run exchanged ((strided gy n y).forM fun row =>
      (strided (gx * T) N (x * T + t)).forM fun col => body row col) 0 m = _ := run_forM (R := R)
    (fun row a => ∃ col ∈ strided (gx * T) N (x * T + t), foot row col a)
    (fun row hr => within_forM fun col hc =>
      (h.within row (hrow row hr) col (hcol col hc)).mono fun a ha => ⟨col, hc, ha⟩)
    (fun row hr => by rw [hinner row hr])
    (fun row hr a ⟨col, hc, ha⟩ => h.fixed row (hrow row hr) col (hcol col hc) a ha)
    ((nodup_strided hgy n y).imp_of_mem fun {row row'} hr hr' hne a ⟨col, hc, ha⟩ ⟨col', hc', ha'⟩ =>
      hne (h.apart row (hrow row hr) col (hcol col hc) row' (hrow row' hr') col' (hcol col' hc') a ha ha').1)
  unfold gridStride
  rw [houter]
  exact ⟨rfl, List.flatMap_congr fun row hr => by rw [hinner row hr]⟩

theorem Rounds.independent [Subsingleton S] (h : Rounds n N exchanged body m R foot) (hgy : 0 < gy)
    (hgx : 0 < gx * T) :
    Independent (fun (b : Fin gx × Fin gy) (t : Fin T) => gridStride gx gy T n N body b.1 b.2 t)
      (fun _ => exchanged) m R
      (fun b t a => ∃ row col, GridRound gx gy T n N b.1 b.2 t row col ∧
        foot row col a) fun _ => 0 where
  within b t := within_forM fun row hr => within_forM fun col hc =>
    (h.within row (lt_of_mem_strided hgy hr) col (lt_of_mem_strided hgx hc)).mono fun a ha =>
      ⟨row, col, ⟨hr, hc⟩, ha⟩
  apart b t b' t' a := by
    rintro ⟨row, col, hround, ha⟩ ⟨row', col', hround', ha'⟩
    have hr := lt_of_mem_strided hgy hround.1
    have hc := lt_of_mem_strided hgx hround.2
    obtain ⟨rfl, rfl⟩ := h.apart row hr col hc row' (lt_of_mem_strided hgy hround'.1) col'
      (lt_of_mem_strided hgx hround'.2) a ha ha'
    obtain ⟨_, _, _, hunique⟩ := gridRound_unique hgx hgy hr hc
    obtain ⟨hb, ht⟩ := hunique b t hround
    obtain ⟨hb', ht'⟩ := hunique b' t' hround'
    exact ⟨hb.trans hb'.symm, ht.trans ht'.symm⟩
  fixed b t a := by
    rintro ⟨row, col, hround, ha⟩
    exact h.fixed row (lt_of_mem_strided hgy hround.1) col (lt_of_mem_strided hgx hround.2) a ha
  gives b t := gives_of_subsingleton _ _ _
  phase b t := (h.run_gridStride hgy hgx _ _ _).1

/-- **A grid-stride loop, in any order of its threads.** -/
theorem Rounds.stored [Subsingleton S] (h : Rounds n N exchanged body m R foot) (hgy : 0 < gy)
    (hgx : 0 < gx * T)
    (hn : ∀ row < n, ∀ col < N, ((run exchanged (body row col) 0 m).log.map Prod.fst).Nodup)
    {c : Config A K S (Fin gx × Fin gy) (Fin T)}
    (hrun : Relation.ReflTransGen Step
      (start m fun (b : Fin gx × Fin gy) (t : Fin T) => gridStride gx gy T n N body b.1 b.2 t) c)
    (hdone : Done c) :
    c.mem = Stores.store m c.log ∧ (c.log.map Prod.fst).Nodup ∧
      ∀ w, w ∈ c.log ↔ ∃ row < n, ∃ col < N, w ∈ (run exchanged (body row col) 0 m).log := by
  have hind := h.independent hgy hgx
  have hlog := fun x y t => (h.run_gridStride hgy hgx x y t).2
  obtain ⟨hnodup, hmem⟩ := hind.stored hrun hdone fun b t => by
    rw [hlog]
    refine Stores.nodup_flatMap_keys (fun row a => ∃ col < N,
      foot row col a) (fun row hr w hw => ?_) ?_ fun row hr => ?_
    · obtain ⟨col, hc, hw⟩ := List.mem_flatMap.mp hw
      have hcol := lt_of_mem_strided hgx hc
      exact ⟨col, hcol, log_within (h.within row (lt_of_mem_strided hgy hr) col hcol) 0 m w hw⟩
    · refine (nodup_strided hgy n _).imp_of_mem fun {row row'} hr hr' hne a ⟨col, hc, ha⟩
        ⟨col', hc', ha'⟩ => hne ?_
      exact (h.apart row (lt_of_mem_strided hgy hr) col hc row' (lt_of_mem_strided hgy hr') col' hc' a ha ha').1
    · have hrow := lt_of_mem_strided hgy hr
      refine Stores.nodup_flatMap_keys (foot row) (fun col hc w hw => ?_) ?_ fun col hc => ?_
      · exact log_within (h.within row hrow col (lt_of_mem_strided hgx hc)) 0 m w hw
      · refine (nodup_strided hgx N _).imp_of_mem fun {col col'} hc hc' hne a ha ha' => hne ?_
        exact (h.apart row hrow col (lt_of_mem_strided hgx hc) row hrow col' (lt_of_mem_strided hgx hc') a ha ha').2
      · exact hn row hrow col (lt_of_mem_strided hgx hc)
  refine ⟨hind.mem hrun, hnodup, fun w => (hmem w).trans ⟨?_, ?_⟩⟩
  · rintro ⟨b, t, hw⟩
    rw [hlog] at hw
    obtain ⟨row, hr, hw⟩ := List.mem_flatMap.mp hw
    obtain ⟨col, hc, hw⟩ := List.mem_flatMap.mp hw
    exact ⟨row, lt_of_mem_strided hgy hr, col, lt_of_mem_strided hgx hc, hw⟩
  · rintro ⟨row, hrow, col, hcol, hw⟩
    obtain ⟨b, t, hround, _⟩ := gridRound_unique hgx hgy hrow hcol
    refine ⟨b, t, ?_⟩
    rw [hlog]
    exact List.mem_flatMap.mpr ⟨row, hround.1, List.mem_flatMap.mpr ⟨col, hround.2, hw⟩⟩

end
end Threads
