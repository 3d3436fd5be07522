import Mathlib.Data.List.Basic
import Mathlib.Data.List.DropRight
import Mathlib.Data.List.Nodup

/-!
# The latest of the new arrivals

A queue of bounded length takes what has not been seen and forgets its oldest element for it. With
keys as the test of what has been seen it holds the latest of the arrivals that were new when they
came. Another test makes the same queue of a sequence of arrivals only if it decides every one of
them alike.
-/

namespace RecentDistinct

variable {α κ : Type}

/-- Something arrives. What has been seen is left out, anything else takes the place of the oldest
element where the queue is full. -/
def takeIn (capacity : ℕ) (seen : List α → α → Prop) [∀ held x, Decidable (seen held x)]
    (held : List α) (x : α) : List α :=
  if seen held x then held
  else (if held.length ≥ capacity then held.tail else held) ++ [x]

/-- An element of the same key is in the queue. -/
def Held (key : α → κ) (held : List α) (x : α) : Prop := key x ∈ held.map key

instance [DecidableEq κ] (key : α → κ) (held : List α) (x : α) : Decidable (Held key held x) :=
  inferInstanceAs (Decidable (key x ∈ held.map key))

variable [DecidableEq κ] (capacity : ℕ) (key : α → κ)

/-- The arrivals that were new when they came, after some earlier ones. -/
def newcomersAfter : List α → List α → List α
  | new, [] => new
  | new, x :: arrivals =>
    newcomersAfter (if Held key (new.rtake capacity) x then new else new ++ [x]) arrivals

/-- The latest of the arrivals that were new when they came. -/
def recent (arrivals : List α) : List α :=
  (newcomersAfter capacity key [] arrivals).rtake capacity

variable {capacity : ℕ} {key : α → κ} {held new arrivals : List α} {x : α}

theorem newcomersAfter_concat : newcomersAfter capacity key new (arrivals ++ [x]) =
    if Held key ((newcomersAfter capacity key new arrivals).rtake capacity) x then
      newcomersAfter capacity key new arrivals
    else newcomersAfter capacity key new arrivals ++ [x] := by
  induction arrivals generalizing new with
  | nil => rfl
  | cons y arrivals ih => exact ih

/-- The latest elements after one more. -/
theorem rtake_concat (hcapacity : 0 < capacity) : (new ++ [x]).rtake capacity =
    (if (new.rtake capacity).length ≥ capacity then (new.rtake capacity).tail
      else new.rtake capacity) ++ [x] := by
  have hlength : (new.rtake capacity).length = min capacity new.length := by
    rw [List.rtake, List.length_drop]
    omega
  unfold List.rtake at hlength ⊢
  rw [List.length_append, List.length_singleton, List.drop_append_of_le_length (by omega)]
  by_cases hfull : (new.drop (new.length - capacity)).length ≥ capacity
  · have hstart : new.length + 1 - capacity = new.length - capacity + 1 := by omega
    rw [if_pos hfull, List.tail_drop, hstart]
  · have hstart : new.length + 1 - capacity = 0 := by omega
    have hstart' : new.length - capacity = 0 := by omega
    rw [if_neg hfull, hstart, hstart']

/-- The queue of keys holds the latest newcomers. -/
theorem recent_concat (hcapacity : 0 < capacity) : recent capacity key (arrivals ++ [x]) =
    takeIn capacity (Held key) (recent capacity key arrivals) x := by
  unfold recent takeIn
  rw [newcomersAfter_concat]
  by_cases hheld : Held key ((newcomersAfter capacity key [] arrivals).rtake capacity) x
  · rw [if_pos hheld, if_pos hheld]
  · rw [if_neg hheld, if_neg hheld]
    exact rtake_concat hcapacity

theorem recent_nil : recent capacity key [] = [] := List.drop_nil

theorem recent_length_le : (recent capacity key arrivals).length ≤ capacity := by
  rw [recent, List.rtake, List.length_drop]
  omega

/-- No two elements of the queue have the same key. -/
theorem recent_nodup (hcapacity : 0 < capacity) :
    ((recent capacity key arrivals).map key).Nodup := by
  induction arrivals using List.reverseRecOn with
  | nil =>
    rw [recent_nil]
    exact List.nodup_nil
  | append_singleton arrivals x ih =>
    rw [recent_concat hcapacity, takeIn]
    by_cases hheld : Held key (recent capacity key arrivals) x
    · rw [if_pos hheld]
      exact ih
    · have hsub : List.Sublist (if (recent capacity key arrivals).length ≥ capacity then
          (recent capacity key arrivals).tail else recent capacity key arrivals)
          (recent capacity key arrivals) := by
        by_cases hfull : (recent capacity key arrivals).length ≥ capacity
        · rw [if_pos hfull]
          exact List.tail_sublist _
        · rw [if_neg hfull]
      have hmap := hsub.map key
      have hnew := fun hmem => hheld (hmap.subset hmem)
      rw [if_neg hheld, List.map_append, List.map_singleton, ← List.concat_eq_append]
      exact List.Nodup.concat hnew (ih.sublist hmap)

omit [DecidableEq κ] in
/-- Taking something in changes a queue of distinct elements. -/
theorem takeIn_ne_self (hcapacity : 2 ≤ capacity) (hnodup : (held.map key).Nodup) :
    (if held.length ≥ capacity then held.tail else held) ++ [x] ≠ held := by
  by_cases hfull : held.length ≥ capacity
  · rw [if_pos hfull]
    intro heq
    -- the second element would be the first one again
    match held with
    | [] => cases heq
    | [_] => exact absurd hfull (by simp; omega)
    | first :: second :: rest =>
      rw [List.tail_cons, List.cons_append, List.cons.injEq] at heq
      rw [heq.1, List.map_cons, List.map_cons, List.nodup_cons] at hnodup
      exact hnodup.1 List.mem_cons_self
  · rw [if_neg hfull]
    intro heq
    have hlength := congrArg List.length heq
    rw [List.length_append, List.length_singleton] at hlength
    omega

section

variable {seen : List α → α → Prop} [∀ held x, Decidable (seen held x)]

/-- Two tests make the same queue where they decide alike, and only there. -/
theorem takeIn_eq_iff (hcapacity : 2 ≤ capacity) (hnodup : (held.map key).Nodup) :
    takeIn capacity seen held x = takeIn capacity (Held key) held x ↔
      (seen held x ↔ Held key held x) := by
  have hne := takeIn_ne_self (x := x) hcapacity hnodup
  unfold takeIn
  by_cases hseen : seen held x
  · by_cases hheld : Held key held x
    · rw [if_pos hseen, if_pos hheld]
      exact iff_of_true rfl (iff_of_true hseen hheld)
    · rw [if_pos hseen, if_neg hheld]
      exact iff_of_false hne.symm fun h => hheld (h.mp hseen)
  · by_cases hheld : Held key held x
    · rw [if_neg hseen, if_pos hheld]
      exact iff_of_false hne fun h => hseen (h.mpr hheld)
    · rw [if_neg hseen, if_neg hheld]
      exact iff_of_true rfl (iff_of_false hseen hheld)

/-- A queue of the arrivals that pass holds the latest newcomers throughout where its test tells
each of them right, and only there. -/
theorem foldl_takeIn_eq_recent_iff (hcapacity : 2 ≤ capacity) (passes : α → Bool) :
    (∀ n, ((arrivals.take n).filter passes).foldl (takeIn capacity seen) [] =
        recent capacity key ((arrivals.take n).filter passes)) ↔
      ∀ n x, arrivals[n]? = some x → passes x = true →
        (seen (recent capacity key ((arrivals.take n).filter passes)) x ↔
          Held key (recent capacity key ((arrivals.take n).filter passes)) x) := by
  have hnodup : ∀ n, ((recent capacity key ((arrivals.take n).filter passes)).map key).Nodup :=
    fun n => recent_nodup (by omega)
  have hnext : ∀ n x, arrivals[n]? = some x → (arrivals.take (n + 1)).filter passes =
      if passes x = true then (arrivals.take n).filter passes ++ [x]
      else (arrivals.take n).filter passes := by
    intro n x hx
    rw [List.take_add_one, hx, List.filter_append]
    by_cases hpass : passes x = true
    · rw [if_pos hpass, Option.toList_some, List.filter_cons_of_pos hpass, List.filter_nil]
    · rw [if_neg hpass, Option.toList_some, List.filter_cons_of_neg hpass, List.filter_nil,
        List.append_nil]
  constructor
  · intro hall n x hx hpass
    have hafter := hall (n + 1)
    rw [hnext n x hx, if_pos hpass, List.foldl_append, List.foldl_cons, List.foldl_nil, hall n,
      recent_concat (by omega)] at hafter
    exact (takeIn_eq_iff hcapacity (hnodup n)).mp hafter
  · intro hall n
    induction n with
    | zero => exact recent_nil.symm
    | succ n ih =>
      cases hx : arrivals[n]? with
      | none =>
        have hend := List.getElem?_eq_none_iff.mp hx
        rw [List.take_of_length_le hend] at ih
        rw [List.take_of_length_le (by omega), ih]
      | some x =>
        rw [hnext n x hx]
        by_cases hpass : passes x = true
        · rw [if_pos hpass, List.foldl_append, List.foldl_cons, List.foldl_nil, ih,
            recent_concat (by omega)]
          exact (takeIn_eq_iff hcapacity (hnodup n)).mpr (hall n x hx hpass)
        · rw [if_neg hpass, ih]

end

end RecentDistinct
