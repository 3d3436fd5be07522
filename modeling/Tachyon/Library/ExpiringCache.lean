import Mathlib.Data.List.Basic
import Mathlib.Data.List.Nodup

/-!
# A bounded cache whose entries expire

A map from keys to values with the time each was put in. What is too old is dropped when room
is needed, and then an oldest entry; which of several oldest ones is the choice of the map.
-/

namespace ExpiringCache

variable {Key Value : Type}

/-- A value with its key and the time it was put in. -/
structure Entry (Key Value : Type) where
  key : Key
  value : Value
  time : ℕ
  deriving DecidableEq

/-- The entries of a map. -/
abbrev Cache (Key Value : Type) := List (Entry Key Value)

/-- No key has two entries. -/
def Distinct (c : Cache Key Value) : Prop := (c.map (·.key)).Nodup

/-- The entries that are younger than the time to live. -/
def retainYounger (ttl now : ℕ) (c : Cache Key Value) : Cache Key Value :=
  c.filter fun e => decide (now - e.time < ttl)

/-- So many other keys had an entry at the same time or later. -/
def CrowdedOut (cap : ℕ) (recorded : Entry Key Value → Prop) (e : Entry Key Value) : Prop :=
  ∃ others : Cache Key Value, others.length = cap ∧ Distinct others ∧
    ∀ o ∈ others, recorded o ∧ o.key ≠ e.key ∧ e.time ≤ o.time

section

variable {cap ttl now : ℕ} {c c' : Cache Key Value} {e : Entry Key Value}

theorem mem_retainYounger : e ∈ retainYounger ttl now c ↔ e ∈ c ∧ now - e.time < ttl := by
  simp [retainYounger]

theorem Distinct.sublist (h : Distinct c) (hsub : c'.Sublist c) : Distinct c' :=
  List.Nodup.sublist (hsub.map _) h

theorem retainYounger_sublist : (retainYounger ttl now c).Sublist c := List.filter_sublist

/-- An entry of a map is the only one of its key. -/
theorem Distinct.eq_of_key (h : Distinct c) {e' : Entry Key Value} (he : e ∈ c) (he' : e' ∈ c)
    (hkey : e.key = e'.key) : e = e' := List.inj_on_of_nodup_map h he he' hkey

/-- The entry that leaves a full map for a new one has been crowded out. -/
theorem crowdedOut_of_full {recorded : Entry Key Value → Prop} {new : Entry Key Value}
    (hdistinct : Distinct c) (hlen : c.length + 1 = cap) (hnew : recorded new)
    (hkey : ∀ o ∈ c, o.key ≠ new.key) (hother : new.key ≠ e.key) (htime : e.time ≤ new.time)
    (hc : ∀ o ∈ c, recorded o ∧ o.key ≠ e.key ∧ e.time ≤ o.time) : CrowdedOut cap recorded e := by
  refine ⟨new :: c, hlen, List.nodup_cons.mpr ⟨fun hmem => ?_, hdistinct⟩, fun o ho => ?_⟩
  · obtain ⟨o, ho, heq⟩ := List.mem_map.mp hmem
    exact hkey o ho heq
  · rcases List.mem_cons.mp ho with rfl | hin
    · exact ⟨hnew, hother, htime⟩
    · exact hc o hin

theorem CrowdedOut.mono {recorded recorded' : Entry Key Value → Prop}
    (h : CrowdedOut cap recorded e) (hsub : ∀ o, recorded o → recorded' o) :
    CrowdedOut cap recorded' e := by
  obtain ⟨others, hlen, hdistinct, hall⟩ := h
  exact ⟨others, hlen, hdistinct, fun o ho => ⟨hsub o (hall o ho).1, (hall o ho).2⟩⟩

end

variable [DecidableEq Key]

/-- Every entry but that of a key. -/
def remove (k : Key) (c : Cache Key Value) : Cache Key Value := c.filter fun e => decide (e.key ≠ k)

/-- A key has an entry that no other is older than. -/
def IsOldest (k : Key) (c : Cache Key Value) : Prop :=
  ∃ e ∈ c, e.key = k ∧ ∀ e' ∈ c, e.time ≤ e'.time

instance (k : Key) (c : Cache Key Value) : Decidable (IsOldest k c) :=
  inferInstanceAs (Decidable (∃ e ∈ c, e.key = k ∧ ∀ e' ∈ c, e.time ≤ e'.time))

/-- Room for one more entry, where `oldest` is the oldest key the map finds if it has to. -/
def makeRoom (cap ttl now : ℕ) (oldest : Key) (c : Cache Key Value) : Option (Cache Key Value) :=
  if c.length < cap then some c
  else
    let young := retainYounger ttl now c
    if young.length < cap then some young
    else if IsOldest oldest young then some (remove oldest young) else none

section

variable {cap ttl now : ℕ} {k oldest : Key} {c c' : Cache Key Value} {e : Entry Key Value}

theorem mem_remove : e ∈ remove k c ↔ e ∈ c ∧ e.key ≠ k := by
  simp [remove]

theorem remove_sublist : (remove k c).Sublist c := List.filter_sublist

theorem length_remove (h : Distinct c) (he : e ∈ c) :
    (remove e.key c).length + 1 = c.length := by
  induction c with
  | nil => exact absurd he List.not_mem_nil
  | cons a rest ih =>
    obtain ⟨hnew, hrest⟩ := List.nodup_cons.mp h
    rcases List.mem_cons.mp he with rfl | hmem
    · have hkept : remove e.key rest = rest := by
        apply List.filter_eq_self.mpr
        intro o ho
        have hne : o.key ≠ e.key := fun heq => hnew (List.mem_map.mpr ⟨o, ho, heq⟩)
        exact decide_eq_true hne
      have hall : remove e.key (e :: rest) = remove e.key rest := by simp [remove]
      rw [hall, hkept, List.length_cons]
    · have hne : a.key ≠ e.key := fun heq => hnew (List.mem_map.mpr ⟨e, hmem, heq.symm⟩)
      have hall : remove e.key (a :: rest) = a :: remove e.key rest := by simp [remove, hne]
      rw [hall, List.length_cons, List.length_cons, ih hrest hmem]

/-- What `makeRoom` leaves, and why it dropped the rest: a full map loses an entry to its age
or to entries that are all at least as young. -/
theorem makeRoom_spec (h : makeRoom cap ttl now oldest c = some c')
    (hdistinct : Distinct c) (hlen : c.length ≤ cap) :
    c'.length < cap ∧ c'.Sublist c ∧ ∀ e ∈ c, e ∈ c' ∨ ttl ≤ now - e.time ∨
      (c'.length + 1 = cap ∧ ∀ o ∈ c', o.key ≠ e.key ∧ e.time ≤ o.time) := by
  unfold makeRoom at h
  dsimp only at h
  split_ifs at h with hroom hyoung holdest
  · obtain rfl := Option.some.inj h
    exact ⟨hroom, List.Sublist.refl _, fun e he => .inl he⟩
  · obtain rfl := Option.some.inj h
    refine ⟨hyoung, retainYounger_sublist, fun e he => ?_⟩
    by_cases hage : now - e.time < ttl
    · exact .inl (mem_retainYounger.mpr ⟨he, hage⟩)
    · exact .inr (.inl (Nat.le_of_not_lt hage))
  · obtain rfl := Option.some.inj h
    obtain ⟨o, ho, rfl, hleast⟩ := holdest
    have hdistinct' := hdistinct.sublist (@retainYounger_sublist _ _ ttl now c)
    have hlength := length_remove hdistinct' ho
    have hshort := (@retainYounger_sublist _ _ ttl now c).length_le
    refine ⟨by omega, remove_sublist.trans retainYounger_sublist, fun e he => ?_⟩
    by_cases hage : now - e.time < ttl
    · have hmem := mem_retainYounger.mpr ⟨he, hage⟩
      by_cases hkey : e.key = o.key
      · obtain rfl := hdistinct'.eq_of_key hmem ho hkey
        refine .inr (.inr ⟨by omega, fun e' he' => ?_⟩)
        obtain ⟨hin, hne⟩ := mem_remove.mp he'
        exact ⟨hne, hleast e' hin⟩
      · exact .inl (mem_remove.mpr ⟨hmem, hkey⟩)
    · exact .inr (.inl (Nat.le_of_not_lt hage))

end

end ExpiringCache
