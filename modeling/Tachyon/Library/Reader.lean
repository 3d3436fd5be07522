import Mathlib.Data.List.Forall2

/-!
# Readers of a format

A reader takes a value off the front of its input or fails with an error. What a writer puts
in front of any input, its reader takes off again; such facts and the errors of a reader are
composed here along the steps of a reader.
-/

/-- A reader of values. -/
def TokenReader (Token Error α : Type) : Type := List Token → Except Error (α × List Token)

namespace TokenReader

variable {Token Error α β : Type}

instance : Monad (TokenReader Token Error) where
  pure a := fun input => .ok (a, input)
  bind r k := fun input =>
    match r input with
    | .ok (a, rest) => k a rest
    | .error e => .error e

/-- The reader that fails. -/
def fail (e : Error) : TokenReader Token Error α := fun _ => .error e

/-- As many values as given. -/
def many (r : TokenReader Token Error α) : ℕ → TokenReader Token Error (List α)
  | 0 => pure []
  | n + 1 => do
    let a ← r
    let as ← many r n
    pure (a :: as)

/-! ### Steps -/

theorem bind_of_ok {r : TokenReader Token Error α} {k : α → TokenReader Token Error β}
    {input rest : List Token} {a : α} (h : r input = .ok (a, rest)) :
    (r >>= k) input = k a rest := by
  change (match r input with | .ok (a, rest) => k a rest | .error e => .error e) = k a rest
  rw [h]

theorem bind_of_error {r : TokenReader Token Error α} {k : α → TokenReader Token Error β}
    {input : List Token} {e : Error} (h : r input = .error e) : (r >>= k) input = .error e := by
  change (match r input with | .ok (a, rest) => k a rest | .error e => .error e) = .error e
  rw [h]

/-- A sequence fails in its first or in its second part. -/
theorem bind_eq_error_iff {r : TokenReader Token Error α} {k : α → TokenReader Token Error β}
    {input : List Token} {e : Error} : (r >>= k) input = .error e ↔
      r input = .error e ∨ ∃ a rest, r input = .ok (a, rest) ∧ k a rest = .error e := by
  cases h : r input with
  | error e' =>
    rw [bind_of_error h]
    simp
  | ok result =>
    obtain ⟨a, rest⟩ := result
    rw [bind_of_ok h]
    simp

/-- A sequence succeeds in both parts. -/
theorem bind_eq_ok_iff {r : TokenReader Token Error α} {k : α → TokenReader Token Error β}
    {input : List Token} {result : β × List Token} : (r >>= k) input = .ok result ↔
      ∃ a rest, r input = .ok (a, rest) ∧ k a rest = .ok result := by
  cases h : r input with
  | error e =>
    rw [bind_of_error h]
    simp
  | ok first =>
    obtain ⟨a, rest⟩ := first
    rw [bind_of_ok h]
    simp

/-! ### Values that were written -/

/-- From a word before any input, the reader takes the value and leaves the input. -/
def Reads (r : TokenReader Token Error α) (word : List Token) (a : α) : Prop :=
  ∀ rest, r (word ++ rest) = .ok (a, rest)

theorem Reads.pure (a : α) : Reads (pure a : TokenReader Token Error α) [] a := fun _ => rfl

theorem Reads.bind {r : TokenReader Token Error α} {k : α → TokenReader Token Error β}
    {word word' : List Token} {a : α} {b : β} (hr : r.Reads word a) (hk : (k a).Reads word' b) :
    (r >>= k).Reads (word ++ word') b := by
  intro rest
  rw [List.append_assoc, bind_of_ok (hr _)]
  exact hk rest

/-- The last value of a reader is wrapped up. -/
theorem Reads.bind_pure {r : TokenReader Token Error α} {word : List Token} {a : α}
    (hr : r.Reads word a) (f : α → β) : (r >>= fun a => Pure.pure (f a)).Reads word (f a) := by
  have hbind := hr.bind (k := fun a => Pure.pure (f a)) (Reads.pure (f a))
  rw [List.append_nil] at hbind
  exact hbind

/-- A list of values, each taken off its own word. -/
theorem Reads.many {r : TokenReader Token Error β} {write : α → List Token} {as : List α}
    {bs : List β} (h : List.Forall₂ (fun a b => r.Reads (write a) b) as bs) :
    (r.many as.length).Reads (as.flatMap write) bs := by
  induction h with
  | nil => exact Reads.pure []
  | cons hab _ ih =>
    rw [List.flatMap_cons]
    exact hab.bind (ih.bind_pure _)

/-! ### Errors that cannot occur -/

/-- The reader does not fail with the error. -/
def Avoids (r : TokenReader Token Error α) (e : Error) : Prop := ∀ input, r input ≠ .error e

theorem Avoids.pure (a : α) (e : Error) : (pure a : TokenReader Token Error α).Avoids e :=
  fun _ h => nomatch h

theorem Avoids.fail {e e' : Error} (h : e ≠ e') : (fail e : TokenReader Token Error α).Avoids e' :=
  fun _ hfail => h (Except.error.inj hfail)

theorem Avoids.bind {r : TokenReader Token Error α} {k : α → TokenReader Token Error β} {e : Error}
    (hr : r.Avoids e) (hk : ∀ a, (k a).Avoids e) : (r >>= k).Avoids e := by
  intro input herror
  rcases bind_eq_error_iff.mp herror with h | ⟨a, rest, -, h⟩
  · exact hr input h
  · exact hk a rest h

theorem Avoids.many {r : TokenReader Token Error α} {e : Error} (h : r.Avoids e) (n : ℕ) :
    (r.many n).Avoids e := by
  induction n with
  | zero => exact Avoids.pure [] e
  | succ n ih => exact h.bind fun a => ih.bind fun as => Avoids.pure (a :: as) e

/-- Where the first part cannot fail with the error, the second does. -/
theorem Avoids.bind_left_iff {r : TokenReader Token Error α} {k : α → TokenReader Token Error β}
    {e : Error} (hr : r.Avoids e) {input : List Token} : (r >>= k) input = .error e ↔
      ∃ a rest, r input = .ok (a, rest) ∧ k a rest = .error e := by
  rw [bind_eq_error_iff, or_iff_right (hr input)]

/-- Where the second part cannot fail with the error, the first does. -/
theorem Avoids.bind_right_iff {r : TokenReader Token Error α} {k : α → TokenReader Token Error β}
    {e : Error} (hk : ∀ a, (k a).Avoids e) {input : List Token} :
    (r >>= k) input = .error e ↔ r input = .error e := by
  rw [bind_eq_error_iff, or_iff_left]
  rintro ⟨a, rest, -, h⟩
  exact hk a rest h

end TokenReader

/-- A writer and a reader of the values of a type. -/
structure Codec (Token α : Type) where
  write : α → List Token
  read : List Token → Option (α × List Token)

namespace Codec

variable {Token Error α : Type}

/-- What is written is read back. -/
def RoundTrips (c : Codec Token α) : Prop := ∀ a rest, c.read (c.write a ++ rest) = some (a, rest)

/-- The reader of a codec, with one error. -/
def reader (c : Codec Token α) (e : Error) : TokenReader Token Error α := fun input =>
  match c.read input with
  | some result => .ok result
  | none => .error e

theorem RoundTrips.reads {c : Codec Token α} (h : c.RoundTrips) (e : Error) (a : α) :
    (c.reader e).Reads (c.write a) a := by
  intro rest
  unfold reader
  rw [h a rest]

theorem reader_avoids (c : Codec Token α) {e e' : Error} (h : e ≠ e') : (c.reader e).Avoids e' := by
  intro input herror
  unfold reader at herror
  split at herror
  · cases herror
  · exact h (Except.error.inj herror)

end Codec
