/-!
# Lists without repetitions

Wherever something is collected along several ways, it is kept at the place where it came first.
-/

namespace StoryWorld

variable {α β : Type}

/-- The list without the members whose key an earlier member has. -/
def distinctBy [DecidableEq β] (key : α → β) : List α → List α
  | [] => []
  | a :: rest => a :: (distinctBy key rest).filter (key · ≠ key a)

/-- The list without repetitions. -/
def distinct [DecidableEq α] (l : List α) : List α := distinctBy id l

variable [DecidableEq β] {key : α → β}

theorem mem_of_mem_distinctBy {a : α} : ∀ {l : List α}, a ∈ distinctBy key l → a ∈ l
  | [], h => by simp [distinctBy] at h
  | b :: rest, h => by
    simp only [distinctBy, List.mem_cons, List.mem_filter] at h ⊢
    exact h.imp_right fun h => mem_of_mem_distinctBy h.1

theorem exists_mem_distinctBy {a : α} :
    ∀ {l : List α}, a ∈ l → ∃ b ∈ distinctBy key l, key b = key a
  | b :: rest, h => by
    by_cases hk : key a = key b
    · exact ⟨b, by simp [distinctBy], hk.symm⟩
    · rcases List.mem_cons.1 h with rfl | h
      · exact absurd rfl hk
      · obtain ⟨c, hc, hck⟩ := exists_mem_distinctBy h
        exact ⟨c, by simp [distinctBy, hc, hck, hk], hck⟩

theorem distinctBy_pairwise : ∀ l : List α, (distinctBy key l).Pairwise (key · ≠ key ·)
  | [] => .nil
  | a :: rest => by
    refine List.pairwise_cons.2 ⟨fun b hb => ?_, (distinctBy_pairwise rest).filter _⟩
    simp only [ne_eq, List.mem_filter, decide_not, Bool.not_eq_true', decide_eq_false_iff_not] at hb
    exact fun h => hb.2 h.symm

theorem mem_distinct [DecidableEq α] {a : α} {l : List α} : a ∈ distinct l ↔ a ∈ l := by
  refine ⟨mem_of_mem_distinctBy, fun h => ?_⟩
  obtain ⟨b, hb, rfl⟩ : ∃ b ∈ distinctBy id l, id b = a := exists_mem_distinctBy h
  exact hb

theorem nodup_distinct [DecidableEq α] (l : List α) : (distinct l).Nodup := distinctBy_pairwise l

theorem distinct_cons [DecidableEq α] (a : α) (l : List α) :
    distinct (a :: l) = a :: (distinct l).filter (· ≠ a) := rfl

/-- What is left out beforehand is left out of the places where members come first. -/
theorem distinct_filter [DecidableEq α] (p : α → Bool) :
    ∀ l : List α, distinct (l.filter p) = (distinct l).filter p
  | [] => rfl
  | a :: l => by
    rw [distinct_cons]
    cases hp : p a with
    | true =>
      rw [List.filter_cons_of_pos hp, List.filter_cons_of_pos hp, distinct_cons,
        distinct_filter p l, List.filter_filter, List.filter_filter]
      simp only [Bool.and_comm]
    | false =>
      have hnot : ¬ p a = true := by rw [hp]; exact Bool.false_ne_true
      rw [List.filter_cons_of_neg hnot, List.filter_cons_of_neg hnot, distinct_filter p l,
        List.filter_filter]
      refine List.filter_congr fun b _ => ?_
      by_cases hb : b = a
      · rw [hb, hp]
        rfl
      · simp [hb]

end StoryWorld
