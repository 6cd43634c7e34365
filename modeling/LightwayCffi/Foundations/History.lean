import Mathlib.Tactic.Common

/-!
# Histories

A history is the list of the events of a run, oldest first. `History.Always P` says that every
event was allowed, where `P past e` may look at everything that had happened before the event `e`.
Such properties are safety properties: they are proved by looking at the newest event only
(`History.always_concat`), and what holds of a history holds of everything that led to it
(`History.Always.of_append`).
-/

namespace History

variable {α : Type*} {P : List α → α → Prop} {l m : List α}

/-- Every event of the history satisfies `P`, given the events before it. -/
def Always (P : List α → α → Prop) (l : List α) : Prop :=
  ∀ past e rest, l = past ++ e :: rest → P past e

theorem always_nil : Always P [] := by
  intro past e rest h
  exact absurd h (by simp)

/-- A history of allowed events goes on with an allowed event. -/
theorem always_concat {x : α} : Always P (l ++ [x]) ↔ Always P l ∧ P l x := by
  constructor
  · intro h
    refine ⟨fun past e rest hl => h past e (rest ++ [x]) ?_, h l x [] rfl⟩
    rw [hl, List.append_assoc, List.cons_append]
  · rintro ⟨hl, hx⟩ past e rest heq
    -- the event is the new one, or it was there before
    rcases List.eq_nil_or_concat rest with rfl | ⟨rest', y, rfl⟩
    · obtain ⟨rfl, hxe⟩ := List.append_inj' heq rfl
      obtain rfl := List.singleton_inj.1 hxe
      exact hx
    · have hsplit : l ++ [x] = past ++ e :: rest' ++ [y] := by
        rw [heq, List.append_assoc, List.cons_append, List.concat_eq_append]
      obtain ⟨rfl, -⟩ := List.append_inj' hsplit rfl
      exact hl past e rest' rfl

theorem Always.of_append (h : Always P (l ++ m)) : Always P l := by
  intro past e rest hl
  refine h past e (rest ++ m) ?_
  rw [hl, List.append_assoc, List.cons_append]

/-- On a given history the property can be checked event by event. -/
theorem always_iff_get : Always P l ↔ ∀ i : Fin l.length, P (l.take i) (l.get i) := by
  constructor
  · intro h i
    refine h _ _ (l.drop (i + 1)) ?_
    rw [List.get_eq_getElem, List.getElem_cons_drop, List.take_append_drop]
  · rintro h past e rest rfl
    have hlt : past.length < (past ++ e :: rest).length := by simp
    simpa using h ⟨past.length, hlt⟩

instance [∀ past e, Decidable (P past e)] : Decidable (Always P l) :=
  decidable_of_iff _ always_iff_get.symm

/-- What is recorded once in a history is recorded at one position. -/
theorem position_unique {β : Type*} {f : α → Option β} (h : (l.filterMap f).Nodup) {i j : ℕ}
    {x y : α} {b : β} (hi : l[i]? = some x) (hj : l[j]? = some y) (hx : f x = some b)
    (hy : f y = some b) : i = j := by
  have hpair := List.pairwise_filterMap.1 h
  rw [List.pairwise_iff_getElem] at hpair
  obtain ⟨hlti, rfl⟩ := List.getElem?_eq_some_iff.1 hi
  obtain ⟨hltj, rfl⟩ := List.getElem?_eq_some_iff.1 hj
  rcases Nat.lt_trichotomy i j with hlt | heq | hgt
  · exact absurd rfl (hpair i j hlti hltj hlt b hx b hy)
  · exact heq
  · exact absurd rfl (hpair j i hltj hlti hgt b hy b hx)

end History
