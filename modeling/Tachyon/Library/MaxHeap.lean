import Mathlib.Data.List.Perm.Basic
import Mathlib.Data.Nat.Notation

/-!
# Heaps by their documented behaviour

A heap is a list of its elements in some arrangement. Pushing adds one element,
popping takes out one that no element exceeds; which of several, and how the rest
is arranged, is left open.
-/

namespace MaxHeap

/-- A heap for an order. -/
structure Heap (T : Type) (le : T → T → Prop) where
  push : List T → T → List T
  pop : List T → Option (T × List T)
  push_perm : ∀ q t, (push q t).Perm (t :: q)
  pop_nil : pop [] = none
  pop_cons : ∀ t q, (pop (t :: q)).isSome
  pop_perm : ∀ q t rest, pop q = some (t, rest) → q.Perm (t :: rest)
  pop_max : ∀ q t rest, pop q = some (t, rest) → ∀ u ∈ q, le u t

variable {T : Type} {le : T → T → Prop} {heap : Heap T le} {q rest : List T} {t u : T}

theorem Heap.mem_push : u ∈ heap.push q t ↔ u = t ∨ u ∈ q := by
  rw [(heap.push_perm q t).mem_iff, List.mem_cons]

theorem Heap.mem_of_pop (h : heap.pop q = some (t, rest)) : u ∈ q ↔ u = t ∨ u ∈ rest := by
  rw [(heap.pop_perm q t rest h).mem_iff, List.mem_cons]

theorem Heap.length_of_pop (h : heap.pop q = some (t, rest)) : q.length = rest.length + 1 :=
  (heap.pop_perm q t rest h).length_eq

theorem Heap.eq_nil_of_pop (h : heap.pop q = none) : q = [] := by
  cases q with
  | nil => rfl
  | cons t q =>
    have hsome := heap.pop_cons t q
    rw [h] at hsome
    cases hsome

/-- Take the greatest element out of an unordered list. -/
def scanPop (le : T → T → Prop) [DecidableRel le] : List T → Option (T × List T)
  | [] => none
  | t :: q =>
    match scanPop le q with
    | none => some (t, [])
    | some (m, rest) => if le t m then some (m, t :: rest) else some (t, m :: rest)

theorem eq_nil_of_scanPop [DecidableRel le] (h : scanPop le q = none) : q = [] := by
  cases q with
  | nil => rfl
  | cons t q =>
    rw [scanPop] at h
    cases hq : scanPop le q with
    | none =>
      rw [hq] at h
      cases h
    | some found =>
      simp only [hq] at h
      split at h <;> cases h

theorem scanPop_perm [DecidableRel le] (h : scanPop le q = some (t, rest)) :
    q.Perm (t :: rest) := by
  induction q generalizing t rest with
  | nil => cases h
  | cons a q ih =>
    rw [scanPop] at h
    cases hq : scanPop le q with
    | none =>
      rw [hq] at h
      cases h
      rw [eq_nil_of_scanPop hq]
    | some found =>
      obtain ⟨m, kept⟩ := found
      rw [hq] at h
      have hperm := ih hq
      by_cases hle : le a m
      · simp only [if_pos hle] at h
        cases h
        exact (hperm.cons a).trans (List.Perm.swap _ _ _)
      · simp only [if_neg hle] at h
        cases h
        exact hperm.cons a

/-- The heap that keeps its elements unordered, for a total and transitive order. -/
def unordered (le : T → T → Prop) [DecidableRel le] (htotal : ∀ a b, le a b ∨ le b a)
    (htrans : ∀ a b c, le a b → le b c → le a c) : Heap T le where
  push := fun q t => t :: q
  pop := scanPop le
  push_perm := fun _ _ => List.Perm.refl _
  pop_nil := rfl
  pop_cons := by
    intro t q
    rw [scanPop]
    cases scanPop le q with
    | none => rfl
    | some found =>
      dsimp only
      split <;> rfl
  pop_perm := fun _ _ _ => scanPop_perm
  pop_max := by
    intro q
    induction q with
    | nil => exact fun _ _ h => by cases h
    | cons a q ih =>
      intro t rest h u hu
      have hself : ∀ b, le b b := fun b => (htotal b b).elim id id
      rw [scanPop] at h
      cases hq : scanPop le q with
      | none =>
        rw [hq] at h
        cases h
        rw [eq_nil_of_scanPop hq, List.mem_singleton] at hu
        exact hu ▸ hself _
      | some found =>
        obtain ⟨m, kept⟩ := found
        rw [hq] at h
        have hmax := ih m kept hq
        by_cases hle : le a m
        · simp only [if_pos hle] at h
          cases h
          rcases List.mem_cons.mp hu with rfl | hu
          · exact hle
          · exact hmax u hu
        · simp only [if_neg hle] at h
          cases h
          rcases List.mem_cons.mp hu with rfl | hu
          · exact hself _
          · exact htrans _ _ _ (hmax u hu) ((htotal m a).resolve_right hle)

/-- The heap that takes out one given element as soon as no other exceeds it. -/
def preferring [DecidableEq T] (le : T → T → Prop) [DecidableRel le]
    (htotal : ∀ a b, le a b ∨ le b a) (htrans : ∀ a b c, le a b → le b c → le a c) (t : T) :
    Heap T le where
  push := fun q t => t :: q
  pop := fun q => if t ∈ q ∧ ∀ u ∈ q, le u t then some (t, q.erase t) else scanPop le q
  push_perm := fun _ _ => List.Perm.refl _
  pop_nil := if_neg fun h => List.not_mem_nil h.1
  pop_cons := by
    intro u q
    split
    · rfl
    · exact (unordered le htotal htrans).pop_cons u q
  pop_perm := by
    intro q u rest h
    split at h
    · rename_i ht
      cases h
      exact List.perm_cons_erase ht.1
    · exact scanPop_perm h
  pop_max := by
    intro q u rest h
    split at h
    · rename_i ht
      cases h
      exact ht.2
    · exact (unordered le htotal htrans).pop_max q u rest h

end MaxHeap
