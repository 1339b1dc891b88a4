import Mathlib.Algebra.Order.BigOperators.Group.List
import Mathlib.Algebra.Order.Field.Rat
import Mathlib.Algebra.Order.Interval.Set.Instances
import Mathlib.Data.Rat.Cast.Order
import Mathlib.Tactic.Linarith
import StoryWorld.Proofs.Selection.Picked

/-!
# Shares of a weighted pick

Laid out one after the other in the order of the pool, the weights of the candidates divide `[0, 1)`
into shares. With exact numbers a round of a weighted pick removes the candidate whose share its
draw lies in, and the next round does the same with those that are left (`Pick.weighted_by_shares`).

The rounds are written once for any kind of number, so that the exact ones and those that run, on
floats, are the same rounds (`Pick.weighted_eq_rounds`).
-/

namespace StoryWorld

namespace Pick

/-! ## Rounds in any kind of number -/

section Rounds

variable {ν : Type} [Add ν] [Sub ν] [Mul ν] [OfNat ν 0] [LT ν] [DecidableLT ν] (number : ℕ → ν)

/-- The first index at which the weights up to there exceed `roll`, if they ever do. -/
def stop? : List ν → ν → Option ℕ
  | [], _ => none
  | w :: rest, roll => if roll - w < 0 then some 0 else (stop? rest (roll - w)).map (· + 1)

def weights (pool : List Entity) : List ν := pool.map fun e => number (e.prominence.rank + 1)

/-- What the wheel is spun to by a draw. -/
def roll (pool : List Entity) (draw : ν) : ν := draw * (weights number pool).foldl (· + ·) 0

/-- The place a round removes the candidate from. -/
def place (pool : List Entity) (draw : ν) : ℕ :=
  roulette (weights number pool) (roll number pool draw)

/-- Round after round with a draw each, as long as anybody is left. -/
def rounds : List Entity → List ν → List Entity
  | _, [] => []
  | pool, draw :: draws =>
    pool[place number pool draw]?.toList ++ rounds (pool.eraseIdx (place number pool draw)) draws

omit [Add ν] [Mul ν] in
/-- Only a roll that the weights never exceed falls back on the last index. -/
theorem roulette_eq_getD : ∀ (ws : List ν) (roll : ν),
    roulette ws roll = (stop? ws roll).getD (ws.length - 1)
  | [], _ => rfl
  | [w], roll => by
    simp only [roulette, stop?, Option.map_none]
    split <;> rfl
  | w :: w' :: rest, roll => by
    simp only [roulette]
    rw [stop?]
    split
    · rfl
    · rw [roulette_eq_getD (w' :: rest)]
      cases stop? (w' :: rest) (roll - w) <;> rfl

theorem place_lt {pool : List Entity} (h : pool ≠ []) (draw : ν) :
    place number pool draw < pool.length := by
  have hne : weights number pool ≠ [] := fun hnil => h (List.map_eq_nil_iff.1 hnil)
  have hlt := roulette_lt (roll number pool draw) hne
  rwa [weights, List.length_map] at hlt

theorem rounds_nil : ∀ draws : List ν, rounds number [] draws = []
  | [] => rfl
  | _ :: draws => rounds_nil draws

theorem rounds_cons {pool : List Entity} {draw : ν} (h : place number pool draw < pool.length)
    (draws : List ν) : rounds number pool (draw :: draws) =
      pool[place number pool draw] ::
        rounds number (pool.eraseIdx (place number pool draw)) draws := by
  rw [rounds, List.getElem?_eq_getElem h]
  rfl

end Rounds

/-- A weighted pick runs the rounds on floats, and takes draws as long as anybody is left. -/
theorem weighted_eq_rounds {σ : Type} [DrawSource σ] : ∀ (n : ℕ) (pool : List Entity) (s : σ),
    weighted n pool s = (rounds Float.ofNat pool (DrawSource.take n s).1,
      DrawSource.skip (min n pool.length) s)
  | 0, pool, s => by
    rw [Nat.zero_min]
    rfl
  | n + 1, pool, s => by
    by_cases h : pool = []
    · subst h
      rw [rounds_nil]
      rfl
    · have hlt : place Float.ofNat pool (DrawSource.next s).1 < pool.length := place_lt _ h _
      have hlen : pool.length = (pool.eraseIdx (chosen pool s)).length + 1 := by
        rw [List.length_eraseIdx_of_lt (chosen_lt h s)]
        have := chosen_lt h s
        omega
      obtain ⟨e, he, hsucc⟩ := weighted_succ n h s
      have hfirst : pool[place Float.ofNat pool (DrawSource.next s).1]? = some e := he
      rw [hsucc, weighted_eq_rounds n, hlen, Nat.add_min_add_right, DrawSource.take,
        rounds_cons _ hlt, (List.getElem?_eq_some_iff.1 hfirst).2]
      rfl

/-! ## Shares -/

/-- The weights of some candidates together. -/
def load (pool : List Entity) : ℕ := (pool.map fun e => e.prominence.rank + 1).sum

/-- The part of `[0, 1)` that is the candidate's at `i`. -/
def share (pool : List Entity) (i : ℕ) : Set ℚ :=
  Set.Ico (load (pool.take i) / load pool : ℚ) (load (pool.take (i + 1)) / load pool)

/-- Who is picked when every draw goes by the shares of those that are left. -/
inductive Drawn : List Entity → List ℚ → List Entity → Prop
  | done (pool : List Entity) : Drawn pool [] []
  | nobody (draws : List ℚ) : Drawn [] draws []
  | round {pool : List Entity} {i : ℕ} {draw : ℚ} {draws : List ℚ} {picked : List Entity}
      (hi : i < pool.length) (falls : draw ∈ share pool i)
      (rest : Drawn (pool.eraseIdx i) draws picked) :
      Drawn pool (draw :: draws) (pool[i] :: picked)

section Load

variable {pool : List Entity} {i : ℕ}

theorem load_cons (e : Entity) (pool : List Entity) :
    load (e :: pool) = e.prominence.rank + 1 + load pool := by
  rw [load, List.map_cons, List.sum_cons, load]

theorem load_append (front back : List Entity) : load (front ++ back) = load front + load back := by
  rw [load, List.map_append, List.sum_append, load, load]

theorem load_take_succ (hi : i < pool.length) :
    load (pool.take (i + 1)) = load (pool.take i) + (pool[i].prominence.rank + 1) := by
  rw [List.take_succ_eq_append_getElem hi, load_append, load_cons]
  rfl

theorem load_take_le (pool : List Entity) (i : ℕ) : load (pool.take i) ≤ load pool := by
  have hsplit := load_append (pool.take i) (pool.drop i)
  rw [List.take_append_drop] at hsplit
  omega

theorem load_pos (h : pool ≠ []) : 0 < load pool := by
  obtain ⟨e, rest, rfl⟩ := List.exists_cons_of_ne_nil h
  rw [load_cons]
  omega

theorem sum_weights (pool : List Entity) :
    (weights (Nat.cast : ℕ → ℚ) pool).sum = load pool := by
  induction pool with
  | nil => rfl
  | cons e pool ih =>
    rw [load_cons, Nat.cast_add, ← ih]
    rfl

theorem sum_take_weights (pool : List Entity) (i : ℕ) :
    ((weights (Nat.cast : ℕ → ℚ) pool).take i).sum = load (pool.take i) := by
  rw [← sum_weights, weights, weights, List.map_take]

theorem roll_eq (pool : List Entity) (draw : ℚ) :
    roll Nat.cast pool draw = draw * load pool := by
  rw [roll, ← List.sum_eq_foldl, sum_weights]

end Load

/-! ## The scan -/

section Scan

variable {w r : ℚ} {ws : List ℚ}

theorem stop?_cons_zero : stop? (w :: ws) r = some 0 ↔ r < w := by
  simp only [stop?, sub_neg]
  split
  · rename_i hstop
    exact ⟨fun _ => hstop, fun _ => rfl⟩
  · rename_i hgo
    cases stop? ws (r - w) <;> simp [not_lt.1 hgo]

theorem stop?_cons_succ {i : ℕ} :
    stop? (w :: ws) r = some (i + 1) ↔ w ≤ r ∧ stop? ws (r - w) = some i := by
  simp only [stop?, sub_neg]
  split
  · rename_i hstop
    simp [hstop]
  · rename_i hgo
    cases stop? ws (r - w) <;> simp [not_lt.1 hgo]

/-- The scan stops at `i` just if the weights before it are not more than the roll and the weights
up to it are. -/
theorem stop?_eq_some_iff {i : ℕ} (nonneg : ∀ w ∈ ws, 0 ≤ w) (hr : 0 ≤ r) :
    stop? ws r = some i ↔ (ws.take i).sum ≤ r ∧ r < (ws.take (i + 1)).sum := by
  induction ws generalizing r i with
  | nil =>
    constructor
    · intro h
      cases h
    · rintro ⟨h, h'⟩
      rw [List.take_nil, List.sum_nil] at h'
      exact absurd h' (not_lt.2 hr)
  | cons w ws ih =>
    obtain ⟨hw, hws⟩ := List.forall_mem_cons.1 nonneg
    cases i with
    | zero =>
      rw [stop?_cons_zero, List.take_succ_cons, List.sum_cons, List.take_zero, List.take_zero,
        List.sum_nil, add_zero]
      exact ⟨fun h => ⟨hr, h⟩, fun h => h.2⟩
    | succ i =>
      have hsum : 0 ≤ (ws.take i).sum :=
        List.sum_nonneg fun v hv => hws v (List.mem_of_mem_take hv)
      rw [stop?_cons_succ, List.take_succ_cons, List.take_succ_cons, List.sum_cons, List.sum_cons]
      -- What is left of the roll is bracketed by what is left of the weights.
      constructor
      · rintro ⟨hle, hrest⟩
        obtain ⟨h, h'⟩ := (ih hws (sub_nonneg.2 hle)).1 hrest
        exact ⟨by linarith, by linarith⟩
      · rintro ⟨h, h'⟩
        have hle : w ≤ r := by linarith
        exact ⟨hle, (ih hws (sub_nonneg.2 hle)).2 ⟨by linarith, by linarith⟩⟩

end Scan

/-- Somewhere the weights exceed whatever is less than all of them together. -/
theorem exists_stop? : ∀ {ws : List ℚ} {r : ℚ}, 0 ≤ r → r < ws.sum → ∃ i, stop? ws r = some i
  | [], r, hr, hlt => by
    rw [List.sum_nil] at hlt
    linarith
  | w :: ws, r, hr, hlt => by
    rw [List.sum_cons] at hlt
    by_cases hw : r < w
    · exact ⟨0, stop?_cons_zero.2 hw⟩
    · have hle : w ≤ r := not_lt.1 hw
      obtain ⟨i, hi⟩ := exists_stop? (sub_nonneg.2 hle) (sub_lt_iff_lt_add'.2 hlt)
      exact ⟨i + 1, stop?_cons_succ.2 ⟨hle, hi⟩⟩

section Round

variable {pool : List Entity} (h : pool ≠ []) {draw : ℚ} (hdraw : draw ∈ Set.Ico (0 : ℚ) 1)

include h hdraw

/-- The scan of a round stops by itself, so the last index never stands in for another one. -/
theorem stop?_place :
    stop? (weights Nat.cast pool) (roll Nat.cast pool draw) = some (place Nat.cast pool draw) := by
  have hpos : (0 : ℚ) < load pool := Nat.cast_pos.2 (load_pos h)
  have hroll : 0 ≤ roll Nat.cast pool draw := by
    rw [roll_eq]
    exact mul_nonneg hdraw.1 hpos.le
  have hlt : roll Nat.cast pool draw < (weights Nat.cast pool).sum := by
    rw [roll_eq, sum_weights]
    exact mul_lt_of_lt_one_left hpos hdraw.2
  obtain ⟨i, hi⟩ := exists_stop? hroll hlt
  rw [place, roulette_eq_getD, hi]
  rfl

/-- A round removes the candidate at which the weights up to there first exceed the roll. -/
theorem place_eq_iff (i : ℕ) : place Nat.cast pool draw = i ↔
    (load (pool.take i) : ℚ) ≤ draw * load pool ∧ draw * load pool < load (pool.take (i + 1)) := by
  have hnonneg : ∀ w ∈ weights (Nat.cast : ℕ → ℚ) pool, 0 ≤ w := by
    intro w hw
    obtain ⟨e, -, rfl⟩ := List.mem_map.1 hw
    exact Nat.cast_nonneg _
  have hroll : 0 ≤ roll Nat.cast pool draw := by
    rw [roll_eq]
    exact mul_nonneg hdraw.1 (Nat.cast_nonneg _)
  have hstop := stop?_eq_some_iff hnonneg hroll (i := i)
  rwa [stop?_place h hdraw, Option.some_inj, sum_take_weights, sum_take_weights, roll_eq] at hstop

theorem place_eq_iff_mem_share (i : ℕ) :
    place Nat.cast pool draw = i ↔ draw ∈ share pool i := by
  have hpos : (0 : ℚ) < load pool := Nat.cast_pos.2 (load_pos h)
  rw [place_eq_iff h hdraw, share, Set.mem_Ico, div_le_iff₀ hpos, lt_div_iff₀ hpos]

end Round

/-! ## Rounds by shares -/

section Share

variable {pool : List Entity} {i : ℕ}

theorem share_subset (pool : List Entity) (i : ℕ) : share pool i ⊆ Set.Ico 0 1 := by
  have hle : (load (pool.take (i + 1)) : ℚ) ≤ load pool := Nat.cast_le.2 (load_take_le _ _)
  intro draw hdraw
  refine ⟨le_trans ?_ hdraw.1, lt_of_lt_of_le hdraw.2 ?_⟩
  · exact div_nonneg (Nat.cast_nonneg _) (Nat.cast_nonneg _)
  · exact div_le_one_of_le₀ hle (Nat.cast_nonneg _)

/-- A share is as long as its candidate's part of all weights. -/
theorem share_eq (hi : i < pool.length) : share pool i =
    Set.Ico (load (pool.take i) / load pool : ℚ)
      (load (pool.take i) / load pool + (pool[i].prominence.rank + 1 : ℕ) / load pool) := by
  rw [share, load_take_succ hi, Nat.cast_add, add_div]

end Share

theorem rounds_eq_iff_drawn : ∀ {draws : List ℚ}, (∀ draw ∈ draws, draw ∈ Set.Ico (0 : ℚ) 1) →
    ∀ {pool picked : List Entity}, rounds Nat.cast pool draws = picked ↔ Drawn pool draws picked
  | [], _, pool, picked => by
    constructor
    · intro hnone
      cases pool <;> exact hnone ▸ .done _
    · intro hdrawn
      cases hdrawn
      · cases pool <;> rfl
      · rfl
  | draw :: draws, hdraws, pool, picked => by
    obtain ⟨hdraw, hrest⟩ := List.forall_mem_cons.1 hdraws
    by_cases h : pool = []
    · subst h
      rw [rounds_nil]
      constructor
      · rintro rfl
        exact .nobody _
      · intro hdrawn
        cases hdrawn with
        | nobody => rfl
        | round hi => exact absurd hi (Nat.not_lt_zero _)
    · have hlt : place Nat.cast pool draw < pool.length := place_lt _ h draw
      rw [rounds_cons _ hlt]
      constructor
      · rintro rfl
        exact .round hlt ((place_eq_iff_mem_share h hdraw _).1 rfl)
          ((rounds_eq_iff_drawn hrest).1 rfl)
      · intro hdrawn
        cases hdrawn with
        | nobody => exact absurd rfl h
        | round hi hfalls htail =>
          -- The shares are disjoint, so the one the draw lies in is the one of the round.
          obtain rfl := (place_eq_iff_mem_share h hdraw _).2 hfalls
          rw [(rounds_eq_iff_drawn hrest).2 htail]

/-- With exact numbers a round removes the candidate at `i` just if the weights before it are not
more than the roll and the weights up to it are. The scan stops there by itself. So the draws that
remove a candidate make up an interval as long as its part of all weights, and a pick goes on so with
those that are left. It is the pick that runs, except that this one reckons in floats. -/
theorem weighted_by_shares {pool : List Entity} (nonempty : pool ≠ []) :
    (∀ draw ∈ Set.Ico (0 : ℚ) 1,
      (∀ i, place Nat.cast pool draw = i ↔
        (load (pool.take i) : ℚ) ≤ draw * load pool
          ∧ draw * load pool < load (pool.take (i + 1)))
      ∧ stop? (weights Nat.cast pool) (roll Nat.cast pool draw) = some (place Nat.cast pool draw))
      ∧ (∀ (i : ℕ) (hi : i < pool.length),
        {draw ∈ Set.Ico (0 : ℚ) 1 | place Nat.cast pool draw = i} =
          Set.Ico (load (pool.take i) / load pool : ℚ)
            (load (pool.take i) / load pool + (pool[i].prominence.rank + 1 : ℕ) / load pool))
      ∧ (∀ draws : List ℚ, (∀ draw ∈ draws, draw ∈ Set.Ico (0 : ℚ) 1) →
        ∀ picked, rounds Nat.cast pool draws = picked ↔ Drawn pool draws picked)
      ∧ ∀ {σ : Type} [DrawSource σ] (n : ℕ) (s : σ),
        (weighted n pool s).1 = rounds Float.ofNat pool (DrawSource.take n s).1 := by
  refine ⟨fun draw hdraw => ⟨place_eq_iff nonempty hdraw, stop?_place nonempty hdraw⟩, ?_,
    fun draws hdraws picked => rounds_eq_iff_drawn hdraws, fun n s => ?_⟩
  · intro i hi
    rw [← share_eq hi]
    ext draw
    constructor
    · rintro ⟨hdraw, hplace⟩
      exact (place_eq_iff_mem_share nonempty hdraw i).1 hplace
    · intro hshare
      have hdraw := share_subset pool i hshare
      exact ⟨hdraw, (place_eq_iff_mem_share nonempty hdraw i).2 hshare⟩
  · rw [weighted_eq_rounds]

end Pick

namespace Sample

/-- One who is forgotten, one who is marginal and one who is recognized. -/
def tiers : List Entity :=
  [{ ann with prominence := .forgotten }, { bob with prominence := .marginal }, cat]

/-- A draw of a half lies just where the share of the third begins, and a third then where the share
of the second of the others does. -/
theorem tiers_shared :
    tiers ≠ [] ∧ Pick.place Nat.cast tiers (1 / 2 : ℚ) = 2
      ∧ (Pick.rounds Nat.cast tiers [1 / 2, (1 / 3 : ℚ)]).map (·.name) = ["Cat", "Bob"] := by
  have nonempty : tiers ≠ [] := List.cons_ne_nil _ _
  have half : (1 / 2 : ℚ) ∈ Set.Ico (0 : ℚ) 1 := by constructor <;> norm_num
  have third : (1 / 3 : ℚ) ∈ Set.Ico (0 : ℚ) 1 := by constructor <;> norm_num
  obtain ⟨hround, -, hrun, -⟩ := Pick.weighted_by_shares nonempty
  refine ⟨nonempty, ((hround _ half).1 2).2 ?_, ?_⟩
  · show ((3 : ℕ) : ℚ) ≤ 1 / 2 * (6 : ℕ) ∧ 1 / 2 * ((6 : ℕ) : ℚ) < (6 : ℕ)
    norm_num
  · have hcat : (1 / 2 : ℚ) ∈ Pick.share tiers 2 := by
      show (1 / 2 : ℚ) ∈ Set.Ico ((3 : ℕ) / (6 : ℕ) : ℚ) ((6 : ℕ) / (6 : ℕ))
      constructor <;> norm_num
    have hbob : (1 / 3 : ℚ) ∈ Pick.share (tiers.eraseIdx 2) 1 := by
      show (1 / 3 : ℚ) ∈ Set.Ico ((1 : ℕ) / (3 : ℕ) : ℚ) ((3 : ℕ) / (3 : ℕ))
      constructor <;> norm_num
    have hdrawn := Pick.Drawn.round (by decide) hcat
      (.round (by decide) hbob (.done _))
    have hdraws : ∀ draw ∈ [1 / 2, 1 / 3], draw ∈ Set.Ico (0 : ℚ) 1 :=
      List.forall_mem_cons.2 ⟨half, List.forall_mem_singleton.2 third⟩
    rw [(hrun _ hdraws _).2 hdrawn]
    rfl

end Sample

end StoryWorld
