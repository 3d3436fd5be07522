import Tachyon.Library.ByteFile

/-!
# Writes of one source

Where every write to a file brings bytes of one source to their place in it, what agrees with
the source agrees ever after, whoever writes, in whatever order and however often.
-/

namespace ByteFile

variable {β : Type*} [Zero β] {source file file' file'' data : List β} {lo mid hi offset size : ℕ}

omit [Zero β] in
/-- The file agrees with the source from `lo` up to `hi`. -/
def AgreesOn (source : List β) (lo hi : ℕ) (file : List β) : Prop :=
  ∀ x, lo ≤ x → x < hi → file[x]? = source[x]?

omit [Zero β] in
/-- A change that takes nothing away in which the file agrees with the source. -/
def Improves (source file file' : List β) : Prop :=
  ∀ x : ℕ, file[x]? = source[x]? → file'[x]? = source[x]?

omit [Zero β] in
theorem Improves.refl (source file : List β) : Improves source file file := fun _ h => h

omit [Zero β] in
theorem Improves.trans (h : Improves source file file') (h' : Improves source file' file'') :
    Improves source file file'' := fun x hx => h' x (h x hx)

omit [Zero β] in
theorem AgreesOn.improves (h : AgreesOn source lo hi file)
    (himproves : Improves source file file') : AgreesOn source lo hi file' :=
  fun x hlo hhi => himproves x (h x hlo hhi)

omit [Zero β] in
theorem agreesOn_of_le (h : hi ≤ lo) : AgreesOn source lo hi file :=
  fun x hlo hhi => absurd hhi (by omega)

omit [Zero β] in
theorem AgreesOn.append (h : AgreesOn source lo mid file) (h' : AgreesOn source mid hi file) :
    AgreesOn source lo hi file := by
  intro x hlo hhi
  rcases Nat.lt_or_ge x mid with hlt | hge
  · exact h x hlo hlt
  · exact h' x hge hhi

/-- What is written of the source agrees with it. -/
theorem pwrite_agreesOn (h : data <+: source.drop offset) :
    AgreesOn source offset (offset + data.length) (pwrite file offset data) := by
  intro x hlo hhi
  obtain ⟨rest, hrest⟩ := h
  have hbyte := congrArg (fun l => l[x - offset]?) hrest
  simp only [List.getElem?_drop, Nat.add_sub_cancel' hlo] at hbyte
  rw [getElem?_pwrite_inside hlo hhi, ← hbyte, List.getElem?_append_left (by omega)]

/-- A write of the source takes nothing away. -/
theorem pwrite_improves (h : data <+: source.drop offset) :
    Improves source file (pwrite file offset data) := by
  intro x hx
  rcases Nat.lt_or_ge x offset with hbelow | hge
  · cases data with
    | nil => exact hx
    | cons b data =>
      -- the source reaches beyond the offset, so the file does up to here
      have hlength := h.length_le
      rw [List.length_drop, List.length_cons] at hlength
      have hsome := List.getElem?_eq_getElem (show x < source.length by omega)
      rw [hsome] at hx ⊢
      exact getElem?_pwrite_below hbelow hx
  · rcases Nat.lt_or_ge x (offset + data.length) with hlt | habove
    · exact pwrite_agreesOn h x hge hlt
    · rw [getElem?_pwrite_above habove]
      exact hx

/-- Setting the length of the source takes nothing away. -/
theorem setLen_improves : Improves source file (setLen file source.length) := by
  intro x hx
  rcases Nat.lt_or_ge x source.length with hlt | hge
  · rw [List.getElem?_eq_getElem hlt] at hx ⊢
    obtain ⟨hin, -⟩ := List.getElem?_eq_some_iff.mp hx
    rw [setLen, List.getElem?_append_left (by rw [List.length_take]; omega), List.getElem?_take,
      if_pos hlt, hx]
  · rw [List.getElem?_eq_none hge, List.getElem?_eq_none (by rw [length_setLen]; omega)]

/-- Nor does reserving its length. -/
theorem reserve_improves : Improves source file (reserve file source.length) := by
  intro x hx
  rcases Nat.lt_or_ge x source.length with hlt | hge
  · rw [List.getElem?_eq_getElem hlt] at hx ⊢
    obtain ⟨hin, -⟩ := List.getElem?_eq_some_iff.mp hx
    rw [reserve, List.getElem?_append_left hin, hx]
  · rw [List.getElem?_eq_none hge] at hx ⊢
    have hbeyond := List.getElem?_eq_none_iff.mp hx
    exact List.getElem?_eq_none (by rw [length_reserve]; omega)

omit [Zero β] in
/-- A file that agrees with the whole source has it at its beginning. -/
theorem AgreesOn.storedAt (h : AgreesOn source 0 source.length file) : StoredAt file 0 source := by
  intro x hx
  rw [Nat.zero_add, h x (Nat.zero_le x) hx, List.getElem?_eq_getElem hx]

omit [Zero β] in
/-- Where a file agrees with the source, it holds that slice of it. -/
theorem AgreesOn.storedAt_slice (h : AgreesOn source lo hi file) :
    StoredAt file lo ((source.drop lo).take (hi - lo)) := by
  intro x hx
  have hlength := List.length_take_le (hi - lo) (source.drop lo)
  rw [h (lo + x) (by omega) (by omega), List.getElem_take, List.getElem_drop]
  rw [List.length_take, List.length_drop] at hx
  exact List.getElem?_eq_getElem (by omega)

omit [Zero β] in
/-- A file no longer than the source at first is the source once it agrees with all of it. -/
theorem AgreesOn.eq_source (h : AgreesOn source 0 source.length file')
    (himproves : Improves source file file') (hshort : file.length ≤ source.length) :
    file' = source := by
  refine List.ext_getElem? fun x => ?_
  rcases Nat.lt_or_ge x source.length with hlt | hge
  · exact h x (Nat.zero_le x) hlt
  · refine himproves x ?_
    rw [List.getElem?_eq_none hge, List.getElem?_eq_none (by omega)]

end ByteFile
