import Tachyon.Engine.Calm

/-!
# Which streams a fragment accepts

`download_single_fragment` looks at a stream's errors and at its length, nothing
else. This module says so in both directions: a fragment ends Ok on a stream
exactly when the stream is clean and as long as the range, and then the stream's
bytes stand at the range.
-/

namespace Tachyon

open Resumption ByteFile

/-- A request for the range is answered by the stream; the storage may do as it likes. -/
def Environment.delivering (start end_ : ℕ) (items : List Item) : Environment where
  writes := fun _ _ _ => True
  ranges := fun s e x => s = start → e = end_ → x = items
  fulls := fun _ => True

/-- `download_single_fragment` returns Ok on the stream and leaves the world behind. -/
def Accepts (start end_ : ℕ) (items : List Item) (index : ℕ) (file : Bytes) (w' : World) : Prop :=
  ∃ r, Yields (Handles (.delivering start end_ items)) (downloadSingleFragment index start end_)
    (World.initial file) (.ok r) w'

section

variable {start end_ index : ℕ} {items : List Item} {file : Bytes} {w w' : World}

/-- An accepted stream is acceptable, and its bytes stand at the range. -/
theorem Accepts.stored (h : Accepts start end_ items index file w') :
    Acceptable start end_ items ∧ StoredAt w'.file start (deliveredBytes items) := by
  obtain ⟨r, hr⟩ := h
  have hpending : ¬Completed index (World.initial file) := by
    rintro ⟨message, hmessage, -⟩
    cases hmessage
  obtain ⟨-, hordered, hu64, hdelivered⟩ :=
    (Prog.Safe.returns (downloadSingleFragment_ensures hpending) hr).1 r rfl
  have hallowed : ServedAllowed (.delivering start end_ items) w' :=
    Prog.Returns.preserves (fun _ _ _ _ hx hw => hw.handles hx) hr fun _ _ => Or.inl rfl
  have hlength := hdelivered.length_eq
  have hserved : w'.served start end_ = items := by
    rcases hallowed start end_ with hnone | hsome
    · rw [hnone] at hlength
      cases hlength
    · exact hsome rfl rfl
  have hclean := hdelivered.clean
  have hstored := hdelivered.stored
  rw [hserved] at hclean hlength hstored
  exact ⟨⟨hordered, hu64, hclean, hlength⟩, hstored⟩

/-- An acceptable stream is accepted, whatever the file held before. -/
theorem Acceptable.accepts (h : Acceptable start end_ items) (index : ℕ) (file : Bytes) :
    ∃ w', Accepts start end_ items index file w' := by
  have hsucceeds : Succeeds (Calm (.delivering start end_ items))
      (downloadSingleFragment index start end_) fun r => r.1 = end_ - start + 1 := by
    refine downloadSingleFragment_succeeds (fun _ _ => trivial) ⟨items, fun _ _ => rfl⟩ ?_
    intro items' hitems'
    rwa [hitems' rfl rfl]
  obtain ⟨r, w', hrun, -⟩ := hsucceeds.exists_yields (.initial file)
  exact ⟨w', r, hrun.mono fun _ _ _ _ hx => hx.1⟩

end

end Tachyon
