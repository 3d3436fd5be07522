import Tachyon.Library.Simulation
import Tachyon.Store.FileStore

/-!
# The file store against the memory store

Every call of the file store that succeeds returns what it returns on a map; a call that
fails leaves the map as it was, and the one the process dies in leaves the old map or the
new one. The names of the files carry this: a key can be read back from its file name, and
no temporary file bears the name of a key.
-/

namespace Tachyon

open Resumption Simulation

namespace FileStore

/-! ### File names -/

/-- A byte that is kept is one character, and not the one that begins an escape. -/
theorem safeByte_plain {byte : UInt8}
    (h : (Char.ofNat byte.toNat).isAlphanum ∨ Char.ofNat byte.toNat = '_' ∨
      Char.ofNat byte.toNat = '-') :
    Char.ofNat byte.toNat ≠ '%' ∧ String.utf8EncodeChar (Char.ofNat byte.toNat) = [byte] := by
  have hall : ∀ k : Fin 256,
      (Char.ofNat k.val).isAlphanum ∨ Char.ofNat k.val = '_' ∨ Char.ofNat k.val = '-' →
        Char.ofNat k.val ≠ '%' ∧
          String.utf8EncodeChar (Char.ofNat k.val) = [UInt8.ofNat k.val] := by
    decide +kernel
  have hbyte := hall ⟨byte.toNat, byte.toNat_lt⟩ h
  simpa using hbyte

/-- An escaped byte is read back from its digits. -/
theorem hexByte_digits (byte : UInt8) :
    hexByte (upperHexDigit (byte.toNat / 16)) (upperHexDigit (byte.toNat % 16)) = some byte := by
  have hall : ∀ k : Fin 256,
      hexByte (upperHexDigit (k.val / 16)) (upperHexDigit (k.val % 16)) =
        some (UInt8.ofNat k.val) := by
    decide +kernel
  simpa using hall ⟨byte.toNat, byte.toNat_lt⟩

/-- What is written for a byte is read as that byte. -/
theorem unsafeBytes_safeByte (byte : UInt8) (rest : List Char) :
    unsafeBytes (safeByte byte ++ rest) = byte :: unsafeBytes rest := by
  unfold safeByte
  dsimp only
  split
  · rename_i h
    obtain ⟨hpercent, hbytes⟩ := safeByte_plain (by simpa [or_assoc] using h)
    rw [List.singleton_append, unsafeBytes, hbytes, List.singleton_append]
    rintro a b rest' hc
    exact absurd hc hpercent
  · rw [List.cons_append, List.cons_append, List.singleton_append, unsafeBytes, hexByte_digits]

theorem unsafeBytes_flatMap (bytes : List UInt8) :
    unsafeBytes (bytes.flatMap safeByte) = bytes := by
  induction bytes with
  | nil => rfl
  | cons byte bytes ih => rw [List.flatMap_cons, unsafeBytes_safeByte, ih]

/-- The key is read back from its encoding. -/
theorem unsafeKey_safeKey (key : String) : unsafeKey (safeKey key) = key := by
  rw [unsafeKey, safeKey, String.toList_ofList, unsafeBytes_flatMap, Utf8.decodeLossy_encode,
    String.ofList_toList]

theorem toList_pathFor (key : String) :
    (pathFor key).toList = (safeKey key).toList ++ ".json".toList := String.toList_append

/-- Two keys never share a file. -/
theorem pathFor_injective : Function.Injective pathFor := by
  intro key key' h
  have hsafe : safeKey key = safeKey key' := by
    apply String.toList_inj.mp
    have hlist := congrArg String.toList h
    rw [toList_pathFor, toList_pathFor] at hlist
    exact List.append_cancel_right hlist
  rw [← unsafeKey_safeKey key, hsafe, unsafeKey_safeKey]

/-- The encoded key of a file name, for the names that end as the files of keys do. -/
def encodedKey (name : String) : Option (List Char) := name.toList.dropSuffix? ".json".toList

theorem encodedKey_eq_some {name : String} {encoded : List Char} :
    encodedKey name = some encoded ↔ name.toList = encoded ++ ".json".toList := by
  rw [encodedKey, List.dropSuffix?_eq_some_iff]
  constructor
  · rintro ⟨s, hname, hs⟩
    rw [hname, eq_of_beq hs]
  · exact fun h => ⟨_, h, beq_self_eq_true _⟩

theorem encodedKey_pathFor (key : String) :
    encodedKey (pathFor key) = some (safeKey key).toList :=
  encodedKey_eq_some.mpr (toList_pathFor key)

/-- No temporary file is taken for the file of a key. -/
theorem encodedKey_tempPathFor (key : String) : encodedKey (tempPathFor key) = none := by
  rw [Option.eq_none_iff_forall_ne_some]
  intro encoded h
  have hlist := encodedKey_eq_some.mp h
  rw [tempPathFor, withExtension, String.toList_ofList] at hlist
  have hlast := congrArg List.getLast? hlist
  simp at hlast

theorem tempPathFor_ne_pathFor (key key' : String) : tempPathFor key ≠ pathFor key' := by
  intro h
  have hencoded := encodedKey_pathFor key'
  rw [← h, encodedKey_tempPathFor] at hencoded
  cases hencoded

end FileStore

/-! ### What the directory stands for -/

open FileStore

/-- The directory holds the map: each value in the file of its key, and no other file has a
name that would be taken for one. -/
structure Represents (d : Dir) (m : MemoryStore) : Prop where
  stored : ∀ key, d.lookup (pathFor key) =
    (m.lookup key).map fun value => Utf8.encode value.toList
  named : ∀ name ∈ d, (encodedKey name).isSome → ∃ key, name = pathFor key

section Represents

variable {d d' : Dir} {m : MemoryStore} {key value : String}

/-- A directory without files of keys holds the empty map. -/
theorem represents_empty (h : ∀ name ∈ d, encodedKey name = none) : Represents d ∅ where
  stored := by
    intro key
    rw [AList.lookup_empty, Option.map_none, Finmap.lookup_eq_none]
    intro hmem
    have hname := h _ hmem
    rw [encodedKey_pathFor] at hname
    cases hname
  named := by
    intro name hname hencoded
    rw [h name hname] at hencoded
    cases hencoded

/-- Only the files whose names are taken for keys matter. -/
theorem Represents.congr (h : Represents d m)
    (hsame : ∀ name, (encodedKey name).isSome → d'.lookup name = d.lookup name) :
    Represents d' m where
  stored := by
    intro key
    rw [hsame _ (by rw [encodedKey_pathFor]; rfl)]
    exact h.stored key
  named := by
    intro name hname hencoded
    obtain ⟨data, hdata⟩ := Finmap.mem_iff.mp hname
    rw [hsame name hencoded] at hdata
    exact h.named name (Finmap.mem_iff.mpr ⟨data, hdata⟩) hencoded

theorem encodedKey_ne_temp {name : String} (h : (encodedKey name).isSome) :
    name ≠ tempPathFor key := by
  rintro rfl
  rw [encodedKey_tempPathFor] at h
  cases h

/-- A temporary file is not seen. -/
theorem Represents.insert_temp (h : Represents d m) (data : List UInt8) :
    Represents (d.insert (tempPathFor key) data) m :=
  h.congr fun _ hname => Finmap.lookup_insert_of_ne _ (encodedKey_ne_temp hname)

theorem Represents.erase_temp (h : Represents d m) : Represents (d.erase (tempPathFor key)) m :=
  h.congr fun _ hname => Finmap.lookup_erase_ne (encodedKey_ne_temp hname)

/-- Writing the file of a key is setting the key. -/
theorem Represents.insert (h : Represents d m) :
    Represents (d.insert (pathFor key) (Utf8.encode value.toList)) (m.set key value) where
  stored := by
    intro key'
    by_cases hkey : key' = key
    · subst hkey
      rw [Finmap.lookup_insert, MemoryStore.set, AList.lookup_insert, Option.map_some]
    · rw [Finmap.lookup_insert_of_ne _ (pathFor_injective.ne hkey), MemoryStore.set,
        AList.lookup_insert_ne hkey]
      exact h.stored key'
  named := by
    intro name hname hencoded
    rcases Finmap.mem_insert.mp hname with rfl | hname
    · exact ⟨key, rfl⟩
    · exact h.named name hname hencoded

/-- Removing the file of a key is deleting the key. -/
theorem Represents.erase (h : Represents d m) :
    Represents (d.erase (pathFor key)) (m.erase key) where
  stored := by
    intro key'
    by_cases hkey : key' = key
    · subst hkey
      rw [Finmap.lookup_erase, AList.lookup_erase, Option.map_none]
    · rw [Finmap.lookup_erase_ne (pathFor_injective.ne hkey), AList.lookup_erase_ne hkey]
      exact h.stored key'
  named := by
    intro name hname hencoded
    exact h.named name (Finmap.mem_erase.mp hname).2 hencoded

theorem Represents.mem_pathFor (h : Represents d m) : pathFor key ∈ d ↔ (m.lookup key).isSome := by
  rw [← Finmap.lookup_isSome, h.stored, Option.isSome_map]

end Represents

/-! ### The calls -/

/-- What a call may count on and what it owes: the directory is its own, and after each of
its steps it holds the old map or the new one. -/
def storeContract (m m' : MemoryStore) : Contract DirRequest Dir where
  rely := Eq
  guar := fun _ d' => Represents d' m ∨ Represents d' m'
  issue := fun _ _ => True
  rely_refl := fun _ => rfl
  rely_trans := Eq.trans

/-- A call of the file store from the old map: a success is described by `post`, a failure
leaves the old map. -/
def Performs (m m' : MemoryStore) {α : Type} (p : StoreM α) (d : Dir) (post : α → Dir → Prop) :
    Prop :=
  Ensures DirHandles (storeContract m m') p d post fun d' => Represents d' m

section Calls

variable {α γ : Type} {m m' : MemoryStore} {d : Dir} {post : α → Dir → Prop}

theorem Performs.pure {a : α} (h : post a d) : Performs m m' (pure a) d post :=
  Ensures.pure h fun _ _ hrely h => hrely ▸ h

theorem Performs.throw {e : IoError} (h : Represents d m) :
    Performs m m' (throw e : StoreM α) d post :=
  Ensures.throw h fun _ _ hrely h => hrely ▸ h

theorem Performs.bind {mid : γ → Dir → Prop} {p : StoreM γ} {f : γ → StoreM α}
    (h : Performs m m' p d mid) (hf : ∀ a d', mid a d' → Performs m m' (f a) d' post) :
    Performs m m' (p >>= f) d post :=
  Ensures.bind h (fun _ _ hrely h => hrely ▸ h) hf

theorem Performs.request_bind {r : DirRequest} {f : DirAnswer r → StoreM α}
    (hf : ∀ x d', DirHandles r d x d' →
      (Represents d' m ∨ Represents d' m') ∧ Performs m m' (f x) d' post) :
    Performs m m' (request r >>= f) d post := by
  refine Ensures.request_bind fun d₁ hrely => ?_
  obtain rfl : d = d₁ := hrely
  exact ⟨trivial, hf⟩

theorem Performs.mono {post' : α → Dir → Prop} {p : StoreM α} (h : Performs m m' p d post)
    (hpost : ∀ a d, post a d → post' a d) : Performs m m' p d post' :=
  Ensures.mono h hpost

/-- The `?` on a result: an error ends the call. -/
theorem Performs.fromIo_bind {x : Except IoError γ} {f : γ → StoreM α} (hrep : Represents d m)
    (hf : ∀ a, x = .ok a → Performs m m' (f a) d post) :
    Performs m m' (fromIo x >>= f) d post := by
  cases x with
  | ok a => exact hf a rfl
  | error e => exact Performs.throw hrep

end Calls

section Perform

variable {m : MemoryStore} {d : Dir}

theorem get_performs (hrep : Represents d m) (key : String) :
    Performs m m (FileStore.get key) d fun found d' => found = m.get key ∧ Represents d' m := by
  unfold FileStore.get
  refine Performs.request_bind ?_
  rintro found d' ⟨rfl, rfl⟩
  refine ⟨Or.inl hrep, ?_⟩
  by_cases hmem : pathFor key ∈ d'
  · have hsome : (!decide (pathFor key ∈ d')) = false := by simp [hmem]
    rw [if_neg (by rw [hsome]; exact Bool.false_ne_true)]
    refine Performs.request_bind ?_
    rintro data d'' ⟨hdata, rfl⟩
    refine ⟨Or.inl hrep, Performs.fromIo_bind hrep fun bytes hbytes => ?_⟩
    have hlookup := hdata bytes hbytes
    rw [hrep.stored] at hlookup
    obtain ⟨value, hvalue, rfl⟩ := Option.map_eq_some_iff.mp hlookup
    rw [Utf8.fromUTF8?_encode]
    exact Performs.pure ⟨hvalue.symm, hrep⟩
  · have hnone : (!decide (pathFor key ∈ d')) = true := by simp [hmem]
    rw [if_pos hnone]
    refine Performs.pure ⟨?_, hrep⟩
    rw [hrep.mem_pathFor, Option.not_isSome_iff_eq_none] at hmem
    exact hmem.symm

theorem set_performs (hrep : Represents d m) (key value : String) :
    Performs m (m.set key value) (FileStore.set key value) d
      fun _ d' => Represents d' (m.set key value) := by
  unfold FileStore.set
  refine Performs.request_bind ?_
  rintro created d₁ rfl
  refine ⟨Or.inl hrep, Performs.fromIo_bind hrep fun _ _ => Performs.request_bind ?_⟩
  intro written d₂ hwritten
  have hrep₂ : Represents d₂ m := by
    cases written with
    | ok _ =>
      obtain rfl := hwritten
      exact hrep.insert_temp _
    | error e =>
      rcases hwritten with rfl | ⟨part, rfl⟩
      · exact hrep
      · exact hrep.insert_temp part
  refine ⟨Or.inl hrep₂, Performs.fromIo_bind hrep₂ fun _ hok => Performs.request_bind ?_⟩
  intro renamed d₃ hrenamed
  obtain rfl := hok
  obtain rfl : d₂ = d₁.insert (tempPathFor key) (Utf8.encode value.toList) := hwritten
  cases renamed with
  | ok _ =>
    obtain ⟨data, hdata, rfl⟩ := hrenamed
    rw [Finmap.lookup_insert] at hdata
    obtain rfl := Option.some.inj hdata
    have hrep₃ : Represents _ (m.set key value) := (@Represents.erase_temp _ _ key hrep₂).insert
    exact ⟨Or.inr hrep₃, Performs.pure hrep₃⟩
  | error e =>
    obtain rfl := hrenamed
    refine ⟨Or.inl hrep₂, Performs.request_bind ?_⟩
    intro removed d₄ hremoved
    have hrep₄ : Represents d₄ m := by
      cases removed with
      | ok _ =>
        obtain ⟨-, rfl⟩ := hremoved
        exact hrep₂.erase_temp
      | error e =>
        obtain rfl := hremoved
        exact hrep₂
    exact ⟨Or.inl hrep₄, Performs.throw hrep₄⟩

/-- What a removal of the file of a key leaves behind. -/
theorem represents_removed (hrep : Represents d m) {key : String} {d' : Dir}
    {x : Except IoError Unit} (hx : DirHandles (.removeFile (pathFor key)) d x d') :
    match x with
    | .ok _ => Represents d' (m.erase key)
    | .error _ => Represents d' m := by
  cases x with
  | ok _ =>
    obtain ⟨-, rfl⟩ := hx
    exact hrep.erase
  | error e =>
    obtain rfl := hx
    exact hrep

theorem removeLoop_performs (hrep : Represents d m) (windows : Bool) (key : String)
    (attempts : ℕ) :
    Performs m (m.erase key) (removeLoop windows (pathFor key) attempts) d
      fun removed d' => removed = true ∧ Represents d' (m.erase key) := by
  induction attempts generalizing d with
  | zero =>
    refine Performs.request_bind fun x d' hx => ?_
    have hrep' := represents_removed hrep hx
    cases x with
    | ok _ => exact ⟨Or.inr hrep', Performs.pure ⟨rfl, hrep'⟩⟩
    | error e => exact ⟨Or.inl hrep', Performs.throw hrep'⟩
  | succ attempts ih =>
    refine Performs.request_bind fun x d' hx => ?_
    have hrep' := represents_removed hrep hx
    cases x with
    | ok _ => exact ⟨Or.inr hrep', Performs.pure ⟨rfl, hrep'⟩⟩
    | error e =>
      refine ⟨Or.inl hrep', ?_⟩
      dsimp only
      split
      · exact ih hrep'
      · exact Performs.throw hrep'

theorem delete_performs (hrep : Represents d m) (windows : Bool) (key : String) :
    Performs m (m.erase key) (FileStore.delete windows key) d
      fun removed d' => removed = (m.delete key).1 ∧ Represents d' (m.erase key) := by
  unfold FileStore.delete
  refine Performs.request_bind ?_
  rintro found d' ⟨rfl, rfl⟩
  refine ⟨Or.inl hrep, ?_⟩
  by_cases hmem : pathFor key ∈ d'
  · rw [if_pos (decide_eq_true hmem)]
    refine (removeLoop_performs hrep windows key 5).mono ?_
    rintro removed d'' ⟨rfl, hrep'⟩
    exact ⟨(hrep.mem_pathFor.mp hmem).symm, hrep'⟩
  · rw [if_neg (by simpa using hmem)]
    have hnone : m.lookup key = none := by
      rwa [hrep.mem_pathFor, Option.not_isSome_iff_eq_none] at hmem
    have hsame : m.erase key = m :=
      AList.ext (List.kerase_of_notMem_keys (AList.lookup_eq_none.mp hnone))
    refine Performs.pure ⟨?_, ?_⟩
    · rw [MemoryStore.delete, hnone, Option.isSome_none]
    · rw [hsame]
      exact hrep

theorem exists_performs (hrep : Represents d m) (key : String) :
    Performs m m (FileStore.exists_ key) d
      fun found d' => found = m.exists_ key ∧ Represents d' m := by
  refine Performs.request_bind ?_
  rintro found d' ⟨rfl, rfl⟩
  refine ⟨Or.inl hrep, Performs.pure ⟨?_, hrep⟩⟩
  rw [MemoryStore.exists_, Bool.eq_iff_iff, decide_eq_true_eq]
  exact hrep.mem_pathFor

/-- The key `keys` reads off a file name, if it begins as asked. -/
def listedKey (start name : String) : Option String :=
  ((encodedKey name).map fun encoded => unsafeKey (String.ofList encoded)).filter
    fun key => start.toList.isPrefixOf key.toList

theorem listedKey_pathFor (start key : String) :
    listedKey start (pathFor key) = some key ↔ start.toList.isPrefixOf key.toList := by
  rw [listedKey, encodedKey_pathFor, Option.map_some, String.ofList_toList, unsafeKey_safeKey]
  simp [Option.filter]

/-- Only the files of keys are listed, each as its key. -/
theorem Represents.listedKey_eq_some (hrep : Represents d m) {start name key : String}
    (hname : name ∈ d) (h : listedKey start name = some key) :
    name = pathFor key ∧ start.toList.isPrefixOf key.toList := by
  have hencoded : (encodedKey name).isSome := by
    cases hcase : encodedKey name with
    | none =>
      rw [listedKey, hcase] at h
      cases h
    | some encoded => rfl
  obtain ⟨key', rfl⟩ := hrep.named name hname hencoded
  have hkey : key' = key := by
    rw [listedKey, encodedKey_pathFor, Option.map_some, String.ofList_toList, unsafeKey_safeKey,
      Option.filter_eq_some_iff] at h
    exact Option.some.inj h.1
  subst hkey
  exact ⟨rfl, (listedKey_pathFor start key').mp h⟩

/-- The loop of `keys` ends with an error or has read every entry. -/
theorem keysLoop_performs {m' : MemoryStore} (hrep : Represents d m) (start : String)
    (entries : List (Except IoError String)) :
    Performs m m' (keysLoop start entries) d fun found d' => d' = d ∧
      ∃ names : List String, entries = names.map .ok ∧
        found = names.filterMap (listedKey start) := by
  induction entries with
  | nil => exact Performs.pure ⟨rfl, [], rfl, rfl⟩
  | cons entry rest ih =>
    refine Performs.fromIo_bind hrep fun name hname => ?_
    subst hname
    cases hencoded : name.toList.dropSuffix? ".json".toList with
    | none =>
      have hskip : listedKey start name = none := by
        rw [listedKey, encodedKey, hencoded]
        rfl
      refine Performs.mono ih ?_
      rintro found d' ⟨rfl, names, rfl, rfl⟩
      exact ⟨rfl, name :: names, rfl, by rw [List.filterMap_cons_none hskip]⟩
    | some encoded =>
      refine Performs.bind ih ?_
      rintro found d' ⟨rfl, names, rfl, rfl⟩
      refine Performs.pure ⟨rfl, name :: names, rfl, ?_⟩
      have hlisted : listedKey start name =
          if start.toList.isPrefixOf (unsafeKey (String.ofList encoded)).toList then
            some (unsafeKey (String.ofList encoded)) else none := by
        rw [listedKey, encodedKey, hencoded, Option.map_some, Option.filter_some]
      rw [List.filterMap_cons, hlisted]
      split <;> rfl

/-- The keys read off all the file names are the keys of the map. -/
theorem Represents.listed_perm (hrep : Represents d m) (start : String) {names : List String}
    (hnodup : names.Nodup) (hnames : ∀ name, name ∈ names ↔ name ∈ d) :
    (names.filterMap (listedKey start)).Perm (m.keys start) := by
  rw [List.perm_ext_iff_of_nodup]
  · intro key
    rw [List.mem_filterMap, MemoryStore.keys, List.mem_filter]
    constructor
    · rintro ⟨name, hname, hkey⟩
      obtain ⟨rfl, hprefix⟩ := hrep.listedKey_eq_some ((hnames name).mp hname) hkey
      have hmem := hrep.mem_pathFor.mp ((hnames _).mp hname)
      exact ⟨AList.lookup_isSome.mp hmem, hprefix⟩
    · rintro ⟨hkey, hprefix⟩
      have hmem := hrep.mem_pathFor.mpr (AList.lookup_isSome.mpr hkey)
      exact ⟨pathFor key, (hnames _).mpr hmem, (listedKey_pathFor start key).mpr hprefix⟩
  · refine (List.Pairwise.and_mem.mp hnodup).filterMap _ ?_
    rintro name name' ⟨hname, hname', hne⟩ key hkey key' hkey' rfl
    obtain ⟨rfl, -⟩ := hrep.listedKey_eq_some ((hnames name).mp hname) hkey
    obtain ⟨rfl, -⟩ := hrep.listedKey_eq_some ((hnames name').mp hname') hkey'
    exact hne rfl
  · exact m.keys_nodup.filter _

theorem keys_performs (hrep : Represents d m) (start : String) :
    Performs m m (FileStore.keys start) d
      fun found d' => found.Perm (m.keys start) ∧ Represents d' m := by
  unfold FileStore.keys
  refine Performs.request_bind ?_
  rintro entries d' ⟨hentries, rfl⟩
  refine ⟨Or.inl hrep, Performs.fromIo_bind hrep fun listed hlisted => ?_⟩
  subst hlisted
  refine (keysLoop_performs hrep start listed).mono ?_
  rintro found d'' ⟨rfl, names, rfl, rfl⟩
  obtain ⟨hnodup, hnames⟩ := hentries names rfl
  exact ⟨hrep.listed_perm start hnodup hnames, hrep⟩

/-- Every call of the file store does what the map does, or fails and leaves the map. -/
theorem perform_performs (hrep : Represents d m) (windows : Bool) (op : StoreOp) :
    Performs m (m.perform op).2 (FileStore.perform windows op) d
      fun reply d' => reply.Same (m.perform op).1 ∧ Represents d' (m.perform op).2 := by
  cases op with
  | get key =>
    refine (get_performs hrep key).bind ?_
    rintro found d' ⟨rfl, hrep'⟩
    exact Performs.pure ⟨rfl, hrep'⟩
  | set key value =>
    refine (set_performs hrep key value).bind ?_
    rintro _ d' hrep'
    exact Performs.pure ⟨rfl, hrep'⟩
  | delete key =>
    refine (delete_performs hrep windows key).bind ?_
    rintro removed d' ⟨rfl, hrep'⟩
    exact Performs.pure ⟨rfl, hrep'⟩
  | exists_ key =>
    refine (exists_performs hrep key).bind ?_
    rintro found d' ⟨rfl, hrep'⟩
    exact Performs.pure ⟨rfl, hrep'⟩
  | keys start =>
    refine (keys_performs hrep start).bind ?_
    rintro found d' ⟨hperm, hrep'⟩
    exact Performs.pure ⟨hperm, hrep'⟩

end Perform

/-- The map follows every step of the file store. -/
theorem fileStep_follows (windows : Bool) : Follows (FileStep windows) MemoryStep Represents := by
  rintro d event d' m hrep hstep
  cases hstep with
  | @finished _ op result h =>
    have hpost := Prog.Safe.returns (perform_performs hrep windows op) h
    cases result with
    | ok reply =>
      obtain ⟨hsame, hrep'⟩ := hpost.1 reply rfl
      exact ⟨_, .succeeded hsame, hrep'⟩
    | error e => exact ⟨m, .failed, hpost.2 e rfl⟩
  | @crashed _ op h =>
    have hor : Represents d' m ∨ Represents d' (m.perform op).2 :=
      (perform_performs hrep windows op).cutOff (fun _ _ hguar => hguar) h (Or.inl hrep)
    rcases hor with hrep' | hrep'
    · exact ⟨m, .crashedBefore, hrep'⟩
    · exact ⟨_, .crashedAfter, hrep'⟩

/-- From a directory without files of keys, every run of the file store is a run of a map
that starts empty, and ends with the values of the map in the files of their keys. -/
theorem file_store_refines_memory_store {windows : Bool} {d d' : Dir} {events : List StoreEvent}
    (hempty : ∀ name ∈ d, encodedKey name = none) (hrun : Runs (FileStep windows) d events d') :
    (∃ m, Runs MemoryStep ∅ events m ∧ Represents d' m) ∧ Function.Injective pathFor ∧
      (∀ key, encodedKey (tempPathFor key) = none) ∧ ∀ key, unsafeKey (safeKey key) = key :=
  ⟨(fileStep_follows windows).run (represents_empty hempty) hrun, pathFor_injective,
    encodedKey_tempPathFor, unsafeKey_safeKey⟩

/-- A value is set, the process dies while it writes the next one, and the key is read. -/
def tornSet : List StoreEvent :=
  [.finished (.set "k" "v") (.ok .unit), .crashed (.set "k" "w"),
    .finished (.get "k") (.ok (.value (some "v")))]

/-- The directory after it: the value, and a part of the next one beside it. -/
def tornDir : Dir :=
  ((((∅ : Dir).insert "k.tmp" [0x76]).erase "k.tmp").insert "k.json" [0x76]).insert "k.tmp" []

theorem tornSet_run : Runs (FileStep false) ∅ tornSet tornDir := by
  have hset : Yields DirHandles (FileStore.perform false (.set "k" "v")) ∅ (.ok .unit)
      ((((∅ : Dir).insert "k.tmp" [0x76]).erase "k.tmp").insert "k.json" [0x76]) := by
    have hrename : DirHandles (.rename "k.tmp" "k.json") ((∅ : Dir).insert "k.tmp" [0x76])
        (.ok ()) ((((∅ : Dir).insert "k.tmp" [0x76]).erase "k.tmp").insert "k.json" [0x76]) :=
      ⟨[0x76], rfl, rfl⟩
    refine .call (x := .ok ()) rfl (.call (x := .ok ()) rfl ?_)
    exact .call hrename (.done _ _)
  have htorn : (FileStore.perform false (.set "k" "w")).run.CutOff DirHandles
      ((((∅ : Dir).insert "k.tmp" [0x76]).erase "k.tmp").insert "k.json" [0x76]) tornDir :=
    .call (x := .ok ()) rfl (.call (x := .error .other) (Or.inr ⟨[], rfl⟩) (.here _ _))
  have hget : Yields DirHandles (FileStore.perform false (.get "k")) tornDir
      (.ok (.value (some "v"))) tornDir := by
    refine .call (x := true) ⟨rfl, rfl⟩ ?_
    refine .call (x := .ok [0x76]) ⟨?_, rfl⟩ (.done _ _)
    rintro data ⟨⟩
    rfl
  exact .cons (.finished hset) (.cons (.crashed htorn) (.cons (.finished hget) (.nil _)))

/-- The map shows the value before and after the crash. -/
theorem file_store_refines_memory_store_torn_set :
    ∃ m, Runs MemoryStep ∅ tornSet m ∧ Represents tornDir m :=
  (file_store_refines_memory_store (fun _ h => absurd h Finmap.notMem_empty) tornSet_run).1

end Tachyon
