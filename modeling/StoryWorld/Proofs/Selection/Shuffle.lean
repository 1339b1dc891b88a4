import Mathlib.Data.List.Perm.Basic
import Mathlib.Data.Set.Function
import StoryWorld.Proofs.Coupling
import StoryWorld.Proofs.World.Built

/-!
# Shuffles

A shuffle goes down the positions of a list and exchanges each member with one at or before it, at
an index that it draws. The first exchange decides who comes last and leaves the others to the
rest of the shuffle (`shuffleBy_cons`), so a shuffled list gives away the first index, and then, by
induction, the other ones. Each order of distinct candidates therefore comes about by exactly one
sequence of indices in their ranges (`shuffleBy_bijective`): when the indices are uniform, so is
the order.
-/

namespace StoryWorld.Pick

variable {α : Type}

/-! ## Exchanges -/

section Swap

variable {l m t : List α} {i j : ℕ}

theorem swap_eq (hi : i < l.length) (hj : j < l.length) :
    swap l i j = (l.set i l[j]).set j l[i] := by
  simp only [swap, List.getElem?_eq_getElem hi, List.getElem?_eq_getElem hj]

theorem swap_perm (l : List α) (i j : ℕ) : (swap l i j).Perm l := by
  unfold swap
  split
  · rename_i a b ha hb
    obtain ⟨hi, rfl⟩ := List.getElem?_eq_some_iff.1 ha
    obtain ⟨hj, rfl⟩ := List.getElem?_eq_some_iff.1 hb
    exact List.set_set_perm hi hj
  · exact .refl l

theorem length_swap (l : List α) (i j : ℕ) : (swap l i j).length = l.length :=
  (swap_perm l i j).length_eq

/-- What comes after both positions takes no part in an exchange. -/
theorem swap_append (hi : i < m.length) (hj : j < m.length) :
    swap (m ++ t) i j = swap m i j ++ t := by
  have hi' : i < (m ++ t).length := by rw [List.length_append]; omega
  have hj' : j < (m ++ t).length := by rw [List.length_append]; omega
  rw [swap_eq hi' hj', swap_eq hi hj, List.getElem_append_left hi, List.getElem_append_left hj,
    List.set_append_left _ _ hi, List.set_append_left _ _ (by rw [List.length_set]; exact hj)]

/-- An exchange with the last position puts the other member there. -/
theorem swap_last {n : ℕ} (hl : l.length = n + 1) (hj : j < l.length) :
    swap l n j = (swap l n j).take n ++ [l[j]] := by
  have hn : n < l.length := by omega
  have hlen : (swap l n j).length = n + 1 := (length_swap l n j).trans hl
  have hlast : (swap l n j)[n] = l[j] := by
    simp only [swap_eq hn hj, List.getElem_set]
    split
    · rename_i hjn
      subst hjn
      rfl
    · rfl
  rw [← hlast, List.take_append_getElem, ← hlen, List.take_length]

end Swap

/-! ## Sequences of indices -/

/-- The sequences of indices that a shuffle of `n + 1` candidates can be given: the first index
is at most `n`, and from each to the next the bound goes down by one, to 1 for the last. -/
def indexDraws (n : ℕ) : Set (List ℕ) :=
  {js | js.length = n ∧ ∀ k j, js[k]? = some j → j ≤ n - k}

theorem nil_mem_indexDraws : [] ∈ indexDraws 0 := by
  refine ⟨rfl, fun k j h => ?_⟩
  simp at h

theorem cons_mem_indexDraws {n j : ℕ} {js : List ℕ} :
    j :: js ∈ indexDraws (n + 1) ↔ j ≤ n + 1 ∧ js ∈ indexDraws n := by
  constructor
  · rintro ⟨hlen, hbound⟩
    refine ⟨hbound 0 j rfl, Nat.succ.inj hlen, fun k i hi => ?_⟩
    have hle := hbound (k + 1) i hi
    omega
  · rintro ⟨hj, hlen, hbound⟩
    refine ⟨congrArg (· + 1) hlen, fun k i hi => ?_⟩
    cases k with
    | zero =>
      cases hi
      exact hj
    | succ k =>
      have hle := hbound k i hi
      omega

theorem eq_nil_of_mem_indexDraws {js : List ℕ} (h : js ∈ indexDraws 0) : js = [] :=
  List.eq_nil_of_length_eq_zero h.1

theorem exists_cons_of_mem_indexDraws {n : ℕ} {js : List ℕ} (h : js ∈ indexDraws (n + 1)) :
    ∃ j rest, js = j :: rest ∧ j ≤ n + 1 ∧ rest ∈ indexDraws n := by
  obtain ⟨j, rest, rfl⟩ := List.exists_cons_of_length_eq_add_one h.1
  exact ⟨j, rest, rfl, cons_mem_indexDraws.1 h⟩

/-! ## The loop -/

theorem shuffleBy_perm : ∀ (js : List ℕ) (l : List α), (shuffleBy js l).Perm l
  | [], l => .refl l
  | j :: js, l => (shuffleBy_perm js _).trans (swap_perm l (js.length + 1) j)

/-- What comes after the positions of a shuffle stays where it is. -/
theorem shuffleBy_append : ∀ {n : ℕ} {js : List ℕ} {m : List α}, js ∈ indexDraws n →
    m.length = n + 1 → ∀ t : List α, shuffleBy js (m ++ t) = shuffleBy js m ++ t
  | 0, js, m, hjs, _, t => by
    rw [eq_nil_of_mem_indexDraws hjs, shuffleBy, shuffleBy]
  | n + 1, js, m, hjs, hm, t => by
    obtain ⟨j, rest, rfl, hj, hrest⟩ := exists_cons_of_mem_indexDraws hjs
    have hlen : (swap m (n + 1) j).length = n + 2 := (length_swap m (n + 1) j).trans hm
    -- The rest of the shuffle leaves the last position of `m` alone as well as `t`.
    have hlast := swap_last hm (show j < m.length by omega)
    have htake : ((swap m (n + 1) j).take (n + 1)).length = n + 1 := by
      rw [List.length_take]
      omega
    simp only [shuffleBy, hrest.1]
    rw [swap_append (by omega) (by omega), hlast, List.append_assoc,
      shuffleBy_append hrest htake, shuffleBy_append hrest htake, List.append_assoc]

/-- The first index names the member that comes last, and the rest of the shuffle is one of the
others. -/
theorem shuffleBy_cons {n j : ℕ} {js : List ℕ} {l : List α} (hl : l.length = n + 2)
    (hj : j < l.length) (hjs : js ∈ indexDraws n) :
    shuffleBy (j :: js) l = shuffleBy js ((swap l (n + 1) j).take (n + 1)) ++ [l[j]] := by
  have htake : ((swap l (n + 1) j).take (n + 1)).length = n + 1 := by
    rw [List.length_take, length_swap]
    omega
  rw [← shuffleBy_append hjs htake, ← swap_last hl hj, shuffleBy, hjs.1]

theorem take_swap_append_perm {n j : ℕ} {l : List α} (hl : l.length = n + 2)
    (hj : j < l.length) : ((swap l (n + 1) j).take (n + 1) ++ [l[j]]).Perm l := by
  rw [← swap_last hl hj]
  exact swap_perm l (n + 1) j

/-- Those that the rest of a shuffle is left with are distinct too. -/
theorem nodup_take_swap {n j : ℕ} {l : List α} (nodup : l.Nodup) (hl : l.length = n + 2)
    (hj : j < l.length) : ((swap l (n + 1) j).take (n + 1)).Nodup := by
  have hperm := take_swap_append_perm hl hj
  exact (hperm.nodup_iff.2 nodup).sublist (List.sublist_append_left _ _)

/-- Different sequences give different orders. -/
theorem shuffleBy_injOn : ∀ {n : ℕ} {l : List α}, l.Nodup → l.length - 1 = n →
    Set.InjOn (fun js => shuffleBy js l) (indexDraws n)
  | 0, _, _, _, js, hjs, js', hjs', _ => by
    rw [eq_nil_of_mem_indexDraws hjs, eq_nil_of_mem_indexDraws hjs']
  | n + 1, l, nodup, hl, js, hjs, js', hjs', heq => by
    obtain ⟨j, rest, rfl, hj, hrest⟩ := exists_cons_of_mem_indexDraws hjs
    obtain ⟨j', rest', rfl, hj', hrest'⟩ := exists_cons_of_mem_indexDraws hjs'
    have hl : l.length = n + 2 := by omega
    simp only [shuffleBy_cons hl (show j < l.length by omega) hrest,
      shuffleBy_cons hl (show j' < l.length by omega) hrest'] at heq
    -- The same member comes last, and it stands at one place only.
    obtain ⟨hothers, hlast⟩ := List.append_inj' heq rfl
    have hjj' : j = j' := nodup.getElem_inj_iff.1 (List.singleton_inj.1 hlast)
    subst hjj'
    have hlen : ((swap l (n + 1) j).take (n + 1)).length - 1 = n := by
      rw [List.length_take, length_swap]
      omega
    rw [shuffleBy_injOn (nodup_take_swap nodup hl (by omega)) hlen hrest hrest' hothers]

/-- Every order comes about. -/
theorem shuffleBy_surjOn : ∀ {n : ℕ} {l : List α}, l.length - 1 = n →
    Set.SurjOn (fun js => shuffleBy js l) (indexDraws n) {p | p.Perm l}
  | 0, l, hl, p, hp => by
    refine ⟨[], nil_mem_indexDraws, ?_⟩
    -- A list with at most one member has no other order.
    cases l with
    | nil => exact hp.eq_nil.symm
    | cons a l =>
      have hnil : l = [] := List.eq_nil_of_length_eq_zero hl
      subst hnil
      exact (List.perm_singleton.1 hp).symm
  | n + 1, l, hl, p, hp => by
    have hl : l.length = n + 2 := by omega
    have hne : p ≠ [] := by
      rintro rfl
      have hlen := List.Perm.length_eq hp
      simp [hl] at hlen
    obtain ⟨q, a, rfl⟩ := (List.eq_nil_or_concat' p).resolve_left hne
    have ha : a ∈ l := List.Perm.subset hp (List.mem_append_right q List.mem_cons_self)
    obtain ⟨j, hj, rfl⟩ := List.getElem_of_mem ha
    have hq : q.Perm ((swap l (n + 1) j).take (n + 1)) :=
      (List.perm_append_right_iff _).1 (List.Perm.trans hp (take_swap_append_perm hl hj).symm)
    have hlen : ((swap l (n + 1) j).take (n + 1)).length - 1 = n := by
      rw [List.length_take, length_swap]
      omega
    obtain ⟨js, hjs, rfl⟩ := shuffleBy_surjOn hlen hq
    exact ⟨j :: js, cons_mem_indexDraws.2 ⟨by omega, hjs⟩, shuffleBy_cons hl hj hjs⟩

/-! ## The indices that are drawn -/

section Draws

variable {σ : Type} [DrawSource σ]

theorem index_lt {n : ℕ} (h : 0 < n) (s : σ) : (DrawSource.index n s).1 < n := by
  simp only [DrawSource.index]
  omega

theorem shuffleDraws_mem : ∀ (n : ℕ) (s : σ), (shuffleDraws n s).1 ∈ indexDraws n
  | 0, _ => nil_mem_indexDraws
  | n + 1, s => by
    have hfirst := index_lt (Nat.succ_pos (n + 1)) s
    refine cons_mem_indexDraws.2 ⟨?_, shuffleDraws_mem n _⟩
    omega

/-- A shuffle asks for one index after the other, each below a bound that is one less. -/
theorem getElem?_shuffleDraws : ∀ (n : ℕ) (s : σ) (k : ℕ), k < n →
    (shuffleDraws n s).1[k]? = some (DrawSource.index (n + 1 - k) (DrawSource.skip k s)).1
  | 0, _, k, hk => absurd hk (Nat.not_lt_zero k)
  | n + 1, s, 0, _ => rfl
  | n + 1, s, k + 1, hk => by
    have hrest := getElem?_shuffleDraws n (DrawSource.next s).2 k (Nat.lt_of_succ_lt_succ hk)
    rw [Nat.add_sub_add_right, DrawSource.skip]
    exact hrest

/-- Every order of distinct candidates comes from exactly one sequence of indices that are in their
ranges, and a shuffle follows the indices that its source gives it for these ranges, from the
widest to the narrowest. -/
theorem shuffleBy_bijective (l : List α) (nodup : l.Nodup) :
    Set.BijOn (fun js => shuffleBy js l) (indexDraws (l.length - 1)) {p | p.Perm l}
      ∧ ∀ s : σ,
        (shuffle l s).1 = shuffleBy (shuffleDraws (l.length - 1) s).1 l
          ∧ (shuffleDraws (l.length - 1) s).1 ∈ indexDraws (l.length - 1)
          ∧ ∀ k < l.length - 1, (shuffleDraws (l.length - 1) s).1[k]? =
            some (DrawSource.index (l.length - k) (DrawSource.skip k s)).1 := by
  refine ⟨⟨fun js _ => shuffleBy_perm js l, shuffleBy_injOn nodup rfl, shuffleBy_surjOn rfl⟩,
    fun s => ⟨rfl, shuffleDraws_mem _ s, fun k hk => ?_⟩⟩
  have hdraw := getElem?_shuffleDraws (l.length - 1) s k hk
  rwa [show l.length - 1 + 1 - k = l.length - k by omega] at hdraw

end Draws

end StoryWorld.Pick

namespace StoryWorld.Sample

/-- Ann, Bob and Cat come in the order Bob, Cat, Ann when both indices are 0, and for no others. -/
theorem queue_reordered :
    [ann, bob, cat].Nodup
      ∧ Pick.shuffleBy [0, 0] [ann, bob, cat] = [bob, cat, ann]
      ∧ ∀ js ∈ Pick.indexDraws 2, Pick.shuffleBy js [ann, bob, cat] = [bob, cat, ann] →
        js = [0, 0] := by
  have nodup : [ann, bob, cat].Nodup := List.Nodup.of_map (·.id) (by decide)
  have hzeros : [0, 0] ∈ Pick.indexDraws 2 :=
    Pick.cons_mem_indexDraws.2 ⟨by omega,
      Pick.cons_mem_indexDraws.2 ⟨by omega, Pick.nil_mem_indexDraws⟩⟩
  obtain ⟨⟨-, hinj, -⟩, -⟩ := Pick.shuffleBy_bijective (σ := FixedDraws) [ann, bob, cat] nodup
  exact ⟨nodup, rfl, fun js hjs hshuffled => hinj hjs hzeros hshuffled⟩

end StoryWorld.Sample
