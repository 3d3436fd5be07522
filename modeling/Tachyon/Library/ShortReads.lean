import Mathlib.Data.List.Basic
import Mathlib.Data.Nat.Notation

/-!
# Reads that may fall short

A connection delivers what was sent in pieces of any size: a read returns at least one of the
values it asks for, and nothing at the end. The loops around such reads come to what one read of
everything would, however the pieces fall.
-/

/-- What is still to come on a connection. -/
structure Feed (α ε : Type) where
  left : List α
  /-- The k-th of the next reads finds at most this many values and one more. -/
  cuts : ℕ → ℕ
  /-- What breaks the connection once everything has been read. -/
  fault : Option ε

namespace Feed

variable {α ε : Type} {feed feed' : Feed α ε} {cap limit need : ℕ} {piece got : List α}

/-- The connection after a read of some values. -/
def skip (feed : Feed α ε) (n : ℕ) : Feed α ε :=
  ⟨feed.left.drop n, fun k => feed.cuts (k + 1), feed.fault⟩

/-- A read into a buffer of `cap` values. -/
def read (feed : Feed α ε) (cap : ℕ) : Except ε (List α × Feed α ε) :=
  let n := min (feed.cuts 0 + 1) cap
  match feed.left, feed.fault with
  | [], some e => .error e
  | _, _ => .ok (feed.left.take n, feed.skip n)

theorem read_eq_ok (h : feed.read cap = .ok (piece, feed')) :
    piece = feed.left.take (min (feed.cuts 0 + 1) cap) ∧
      feed' = feed.skip (min (feed.cuts 0 + 1) cap) ∧ (feed.left = [] → feed.fault = none) := by
  unfold read at h
  split at h
  · cases h
  · rename_i hnot
    cases h
    refine ⟨rfl, rfl, fun hleft => ?_⟩
    cases hfault : feed.fault with
    | none => rfl
    | some e => exact absurd hfault (hnot e hleft)

/-- A read takes a piece off the front of what is left. -/
theorem read_append (h : feed.read cap = .ok (piece, feed')) :
    piece ++ feed'.left = feed.left := by
  obtain ⟨rfl, rfl, -⟩ := read_eq_ok h
  exact List.take_append_drop _ _

theorem read_fault (h : feed.read cap = .ok (piece, feed')) : feed'.fault = feed.fault := by
  obtain ⟨-, rfl, -⟩ := read_eq_ok h
  rfl

theorem length_read_le (h : feed.read cap = .ok (piece, feed')) : piece.length ≤ cap := by
  obtain ⟨rfl, -, -⟩ := read_eq_ok h
  rw [List.length_take]
  omega

/-- Only at the end nothing is read. -/
theorem left_of_read_nil (hcap : 0 < cap) (h : feed.read cap = .ok ([], feed')) :
    feed.left = [] := by
  obtain ⟨hnil, -, -⟩ := read_eq_ok h
  have hlength := congrArg List.length hnil
  rw [List.length_take, List.length_nil] at hlength
  rw [List.eq_nil_iff_length_eq_zero]
  omega

/-- A read fails only at the end, with the fault. -/
theorem read_eq_error {e : ε} (h : feed.read cap = .error e) :
    feed.left = [] ∧ feed.fault = some e := by
  unfold read at h
  split at h
  · rename_i hleft hfault
    cases h
    exact ⟨hleft, hfault⟩
  · cases h

theorem length_left_lt (hne : piece ≠ []) (h : feed.read cap = .ok (piece, feed')) :
    feed'.left.length < feed.left.length := by
  have hpos := List.length_pos_of_ne_nil hne
  rw [← read_append h, List.length_append]
  omega

/-! ### Filling a buffer -/

/-- Reads until the buffer holds `need` values or the connection ends. -/
def fill (need : ℕ) (got : List α) (feed : Feed α ε) : Except ε (List α × Feed α ε) :=
  if need ≤ got.length then .ok (got, feed)
  else
    match _h : feed.read (need - got.length) with
    | .error e => .error e
    | .ok ([], feed') => .ok (got, feed')
    | .ok (x :: xs, feed') => fill need (got ++ x :: xs) feed'
termination_by feed.left.length
decreasing_by exact length_left_lt (List.cons_ne_nil _ _) _h

/-- Where enough is left, the buffer is filled with its front. -/
theorem fill_of_le (hgot : got.length ≤ need) (hneed : need ≤ got.length + feed.left.length) :
    ∃ feed', fill need got feed = .ok (got ++ feed.left.take (need - got.length), feed') ∧
      feed'.left = feed.left.drop (need - got.length) ∧ feed'.fault = feed.fault := by
  fun_induction fill need got feed with
  | case1 got feed hfull =>
    have hzero : need - got.length = 0 := by omega
    refine ⟨feed, ?_, ?_, rfl⟩
    · rw [hzero]
      simp
    · rw [hzero, List.drop_zero]
  | case2 got feed hfull e h =>
    obtain ⟨hleft, -⟩ := read_eq_error h
    rw [hleft, List.length_nil] at hneed
    omega
  | case3 got feed hfull feed' h =>
    have hleft := left_of_read_nil (by omega) h
    rw [hleft, List.length_nil] at hneed
    omega
  | case4 got feed hfull x xs feed' h ih =>
    have hsplit := read_append h
    have hcap := length_read_le h
    have htake : feed.left.take (need - got.length) =
        x :: xs ++ feed'.left.take (need - (got ++ x :: xs).length) := by
      rw [← hsplit, List.take_append, List.take_of_length_le hcap, List.length_append]
      congr 2
      omega
    have hdrop : feed.left.drop (need - got.length) =
        feed'.left.drop (need - (got ++ x :: xs).length) := by
      rw [← hsplit, List.drop_append, List.drop_of_length_le hcap, List.length_append,
        List.nil_append]
      congr 1
      omega
    have hlength := congrArg List.length hsplit
    simp only [List.length_append] at ih hlength
    obtain ⟨last, hfill, hleft, hfault⟩ := ih (by omega) (by omega)
    refine ⟨last, ?_, ?_, hfault.trans (read_fault h)⟩
    · rw [hfill, htake, List.length_append, List.append_assoc]
    · rw [hdrop, hleft, List.length_append]

/-! ### Reading to the end -/

/-- Reads to the end, unless more than `limit` values come; those are not kept. -/
def collect (cap limit : ℕ) (got : List α) (feed : Feed α ε) :
    Except ε (Option (List α) × Feed α ε) :=
  match _h : feed.read cap with
  | .error e => .error e
  | .ok ([], feed') => .ok (some got, feed')
  | .ok (x :: xs, feed') =>
    if limit < got.length + (x :: xs).length then .ok (none, feed')
    else collect cap limit (got ++ x :: xs) feed'
termination_by feed.left.length
decreasing_by exact length_left_lt (List.cons_ne_nil _ _) _h

/-- Everything is read unless it is too much. -/
theorem collect_eq (hcap : 0 < cap) (hfault : feed.fault = none) (hgot : got.length ≤ limit) :
    ∃ feed', feed'.fault = none ∧ collect cap limit got feed =
        .ok (if got.length + feed.left.length ≤ limit then some (got ++ feed.left) else none,
          feed') ∧ (got.length + feed.left.length ≤ limit → feed'.left = []) := by
  fun_induction collect cap limit got feed with
  | case1 got feed e h => rw [(read_eq_error h).2] at hfault; cases hfault
  | case2 got feed feed' h =>
    have hleft := left_of_read_nil hcap h
    have hleft' := read_append h
    refine ⟨feed', (read_fault h).trans hfault, ?_, fun _ => ?_⟩
    · rw [hleft]
      simp [hgot]
    · rw [← hleft', List.append_eq_nil_iff] at hleft
      exact hleft.2
  | case3 got feed x xs feed' h hlarge =>
    have hlength := congrArg List.length (read_append h)
    rw [List.length_append] at hlength
    refine ⟨feed', (read_fault h).trans hfault, ?_, fun hsmall => by omega⟩
    rw [if_neg (by omega)]
  | case4 got feed x xs feed' h hsmall ih =>
    have hsplit := read_append h
    rw [List.length_append] at ih
    obtain ⟨last, hlast, hcollect, hleft⟩ := ih ((read_fault h).trans hfault) (by omega)
    refine ⟨last, hlast, ?_, ?_⟩
    · rw [hcollect, ← hsplit, List.length_append, Nat.add_assoc, List.append_assoc]
    · rw [← hsplit, List.length_append, ← Nat.add_assoc]
      exact hleft

/-! ### Reading piece by piece -/

/-- What a number of reads return, up to the end or the error they meet. -/
def pieces (cap : ℕ) : ℕ → Feed α ε → List (Except ε (List α))
  | 0, _ => []
  | reads + 1, feed =>
    match feed.read cap with
    | .error e => [.error e]
    | .ok ([], _) => []
    | .ok (piece, feed') => .ok piece :: pieces cap reads feed'

/-- More reads than there are values return them all. -/
theorem pieces_eq (hcap : 0 < cap) {reads : ℕ} (hreads : feed.left.length < reads)
    (hfault : feed.fault = none) :
    ∃ parts : List (List α), pieces cap reads feed = parts.map .ok ∧ parts.flatten = feed.left := by
  induction reads generalizing feed with
  | zero => omega
  | succ reads ih =>
    cases h : feed.read cap with
    | error e =>
      rw [(read_eq_error h).2] at hfault
      cases hfault
    | ok result =>
      obtain ⟨piece, feed'⟩ := result
      cases piece with
      | nil => exact ⟨[], by simp [pieces, h], (left_of_read_nil hcap h).symm⟩
      | cons x xs =>
        have hshorter := length_left_lt (List.cons_ne_nil x xs) h
        obtain ⟨parts, hparts, hflatten⟩ := ih (by omega) ((read_fault h).trans hfault)
        refine ⟨(x :: xs) :: parts, ?_, ?_⟩
        · simp [pieces, h, hparts]
        · rw [List.flatten_cons, hflatten]
          exact read_append h

end Feed
