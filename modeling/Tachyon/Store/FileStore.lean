import Tachyon.Core.IpAddr
import Tachyon.Library.Resumption
import Tachyon.Library.Utf8
import Mathlib.Data.Finmap
import Mathlib.Data.List.AList
import Mathlib.Data.List.DropRight

/-!
# The key-value stores

`MemoryStore` keeps its values in a map, `FileStore` each value in a file of one directory,
under a name that encodes the key. The calls of the file store are programs over the steps
of that directory, any of which may fail.
-/

namespace Tachyon

open Resumption

/-! ### File names -/

namespace FileStore

/-- `{:X}` of a digit. -/
def upperHexDigit (n : ℕ) : Char :=
  if n < 10 then Char.ofNat ('0'.toNat + n) else Char.ofNat ('A'.toNat + (n - 10))

/-- What `safe_key` writes for a byte. -/
def safeByte (byte : UInt8) : List Char :=
  let ch := Char.ofNat byte.toNat
  if ch.isAlphanum || ch = '_' || ch = '-' then [ch]
  else ['%', upperHexDigit (byte.toNat / 16), upperHexDigit (byte.toNat % 16)]

/-- `FileStore::safe_key`. -/
def safeKey (key : String) : String :=
  String.ofList ((Utf8.encode key.toList).flatMap safeByte)

/-- `u8::from_str_radix(hex, 16)` of two characters of one byte each; a plus sign may stand
first. -/
def hexByte (a b : Char) : Option UInt8 := do
  guard ((Utf8.encode [a, b]).length = 2)
  if a = '+' then some (UInt8.ofNat (← toDigit 16 b))
  else some (UInt8.ofNat (16 * (← toDigit 16 a) + (← toDigit 16 b)))

/-- The bytes `unsafe_key` collects; a broken escape stands for itself. -/
def unsafeBytes : List Char → List UInt8
  | [] => []
  | '%' :: a :: b :: rest =>
    match hexByte a b with
    | some byte => byte :: unsafeBytes rest
    | none => Utf8.encode ['%', a, b] ++ unsafeBytes rest
  | c :: rest => String.utf8EncodeChar c ++ unsafeBytes rest

/-- `FileStore::unsafe_key`. -/
def unsafeKey (encoded : String) : String :=
  String.ofList (Utf8.decodeLossy (unsafeBytes encoded.toList))

/-- `FileStore::path_for`, within the directory. -/
def pathFor (key : String) : String := safeKey key ++ ".json"

/-- `Path::file_stem` of a file name: what stands before the last dot, unless nothing does. -/
def fileStem (name : List Char) : List Char :=
  let before := (name.rdropWhile (· ≠ '.')).dropLast
  if name = ['.', '.'] ∨ before = [] then name else before

/-- `Path::with_extension` of a file name. -/
def withExtension (name extension : String) : String :=
  String.ofList (fileStem name.toList ++ '.' :: extension.toList)

/-- The temporary file of a key. -/
def tempPathFor (key : String) : String := withExtension (pathFor key) "tmp"

end FileStore

/-! ### The directory -/

/-- An error of a file operation. -/
inductive IoError where
  | permissionDenied
  | invalidData
  | other
  deriving DecidableEq, Repr

/-- The file operations of a store, in its directory. -/
inductive DirRequest where
  /-- `std::fs::create_dir_all` of the directory. -/
  | createDirAll
  /-- `Path::exists`. -/
  | exists_ (name : String)
  /-- The bytes of a file, as `std::fs::read_to_string` reads them. -/
  | read (name : String)
  /-- `std::fs::write`. -/
  | write (name : String) (data : List UInt8)
  /-- `std::fs::rename`. -/
  | rename (source target : String)
  /-- `std::fs::remove_file`. -/
  | removeFile (name : String)
  /-- `std::fs::read_dir`, with its entries. -/
  | readDir

/-- The type of the answer to each file operation. -/
@[reducible] def DirAnswer : DirRequest → Type
  | .exists_ _ => Bool
  | .read _ => Except IoError (List UInt8)
  | .createDirAll | .write _ _ | .rename _ _ | .removeFile _ => Except IoError Unit
  | .readDir => Except IoError (List (Except IoError String))

/-- A call of a store that can fail with an I/O error. -/
abbrev StoreM (α : Type) := ExceptT IoError (Prog DirAnswer) α

/-- The `?` on the result of a file operation. -/
def fromIo {α : Type} : Except IoError α → StoreM α
  | .ok a => pure a
  | .error e => throw e

/-- The files of the directory. -/
abbrev Dir := Finmap fun _ : String => List UInt8

/-- The answers of the directory and what they leave there. A write that fails may leave
anything in its file; a rename or a removal that fails has no effect. -/
def DirHandles : (r : DirRequest) → Dir → DirAnswer r → Dir → Prop
  | .createDirAll, d, _, d' => d' = d
  | .exists_ name, d, x, d' => x = decide (name ∈ d) ∧ d' = d
  | .read name, d, x, d' => (∀ data, x = .ok data → d.lookup name = some data) ∧ d' = d
  | .write name data, d, x, d' =>
    match x with
    | .ok _ => d' = d.insert name data
    | .error _ => d' = d ∨ ∃ part, d' = d.insert name part
  | .rename source target, d, x, d' =>
    match x with
    | .ok _ => ∃ data, d.lookup source = some data ∧ d' = (d.erase source).insert target data
    | .error _ => d' = d
  | .removeFile name, d, x, d' =>
    match x with
    | .ok _ => name ∈ d ∧ d' = d.erase name
    | .error _ => d' = d
  | .readDir, d, x, d' =>
    (∀ names : List String, x = .ok (names.map .ok) →
      names.Nodup ∧ ∀ name, name ∈ names ↔ name ∈ d) ∧ d' = d

/-! ### `FileStore` -/

namespace FileStore

/-- `FileStore::get`. -/
def get (key : String) : StoreM (Option String) := do
  if !(← request (.exists_ (pathFor key))) then pure none
  else
    let data ← fromIo (← request (.read (pathFor key)))
    match String.fromUTF8? data.toByteArray with
    | some value => pure (some value)
    | none => throw .invalidData

/-- `FileStore::set`: the value is written beside its file and renamed over it. -/
def set (key value : String) : StoreM Unit := do
  fromIo (← request .createDirAll)
  fromIo (← request (.write (tempPathFor key) (Utf8.encode value.toList)))
  let renamed : Except IoError Unit ←
    request (DirRequest.rename (tempPathFor key) (pathFor key))
  match renamed with
  | .ok () => pure ()
  | .error e => do
    let _ ← request (.removeFile (tempPathFor key))
    throw e

/-- The removal, tried again on Windows while it is denied. -/
def removeLoop (windows : Bool) (path : String) : ℕ → StoreM Bool
  | 0 => do
    fromIo (← request (.removeFile path))
    pure true
  | attempts + 1 => do
    let removed : Except IoError Unit ← request (DirRequest.removeFile path)
    match removed with
    | .ok () => pure true
    | .error e =>
      if windows ∧ e = .permissionDenied then removeLoop windows path attempts else throw e

/-- `FileStore::delete`. -/
def delete (windows : Bool) (key : String) : StoreM Bool := do
  if ← request (.exists_ (pathFor key)) then removeLoop windows (pathFor key) 5 else pure false

/-- `FileStore::exists`. -/
def exists_ (key : String) : StoreM Bool := request (DirRequest.exists_ (pathFor key))

/-- The loop of `keys` over the directory entries. -/
def keysLoop (start : String) : List (Except IoError String) → StoreM (List String)
  | [] => pure []
  | entry :: rest => do
    let name ← fromIo entry
    match name.toList.dropSuffix? ".json".toList with
    | none => keysLoop start rest
    | some encodedKey =>
      let rawKey := unsafeKey (String.ofList encodedKey)
      let keys ← keysLoop start rest
      pure (if start.toList.isPrefixOf rawKey.toList then rawKey :: keys else keys)

/-- `FileStore::keys`. -/
def keys (start : String) : StoreM (List String) := do
  let entries ← fromIo (← request .readDir)
  keysLoop start entries

end FileStore

/-! ### `MemoryStore` -/

/-- `MemoryStore`. -/
abbrev MemoryStore := AList fun _ : String => String

namespace MemoryStore

/-- `MemoryStore::get`. -/
def get (m : MemoryStore) (key : String) : Option String := m.lookup key

/-- `MemoryStore::set`. -/
def set (m : MemoryStore) (key value : String) : MemoryStore := m.insert key value

/-- `MemoryStore::delete`. -/
def delete (m : MemoryStore) (key : String) : Bool × MemoryStore :=
  ((m.lookup key).isSome, m.erase key)

/-- `MemoryStore::exists`. -/
def exists_ (m : MemoryStore) (key : String) : Bool := (m.lookup key).isSome

/-- `MemoryStore::keys`, in the order of the map. -/
def keys (m : MemoryStore) (start : String) : List String :=
  AList.keys m |>.filter fun k => start.toList.isPrefixOf k.toList

end MemoryStore

/-! ### Calls of a store -/

/-- A call of a `Store` method. -/
inductive StoreOp where
  | get (key : String)
  | set (key value : String)
  | delete (key : String)
  | exists_ (key : String)
  | keys (start : String)
  deriving DecidableEq

/-- What a call returns. -/
inductive StoreReply where
  | unit
  | value (found : Option String)
  | flag (b : Bool)
  | keys (found : List String)
  deriving DecidableEq

/-- Replies that differ in the order of the keys at most. -/
def StoreReply.Same : StoreReply → StoreReply → Prop
  | .keys found, .keys found' => found.Perm found'
  | reply, reply' => reply = reply'

/-- One call of the file store. -/
def FileStore.perform (windows : Bool) : StoreOp → StoreM StoreReply
  | .get key => do pure (.value (← FileStore.get key))
  | .set key value => do
    FileStore.set key value
    pure .unit
  | .delete key => do pure (.flag (← FileStore.delete windows key))
  | .exists_ key => do pure (.flag (← FileStore.exists_ key))
  | .keys start => do pure (.keys (← FileStore.keys start))

/-- One call of the memory store. -/
def MemoryStore.perform (m : MemoryStore) : StoreOp → StoreReply × MemoryStore
  | .get key => (.value (m.get key), m)
  | .set key value => (.unit, m.set key value)
  | .delete key => ((m.delete key).map .flag id)
  | .exists_ key => (.flag (m.exists_ key), m)
  | .keys start => (.keys (m.keys start), m)

/-- What happens to a store: a call comes to its end, or the process dies in it and the
store is opened again. -/
inductive StoreEvent where
  | finished (op : StoreOp) (result : Except IoError StoreReply)
  | crashed (op : StoreOp)

/-- The file store in its directory. -/
inductive FileStep (windows : Bool) : Dir → StoreEvent → Dir → Prop where
  | finished {d d' : Dir} {op : StoreOp} {result : Except IoError StoreReply}
      (h : Yields DirHandles (FileStore.perform windows op) d result d') :
      FileStep windows d (.finished op result) d'
  | crashed {d d' : Dir} {op : StoreOp}
      (h : (FileStore.perform windows op).run.CutOff DirHandles d d') :
      FileStep windows d (.crashed op) d'

/-- The specification: the calls that succeed, on a map. A failed call has no effect, and
the one the process died in has its effect or none. -/
inductive MemoryStep : MemoryStore → StoreEvent → MemoryStore → Prop where
  | succeeded {m : MemoryStore} {op : StoreOp} {reply : StoreReply}
      (same : reply.Same (m.perform op).1) :
      MemoryStep m (.finished op (.ok reply)) (m.perform op).2
  | failed {m : MemoryStore} {op : StoreOp} {e : IoError} :
      MemoryStep m (.finished op (.error e)) m
  | crashedBefore {m : MemoryStore} {op : StoreOp} : MemoryStep m (.crashed op) m
  | crashedAfter {m : MemoryStore} {op : StoreOp} : MemoryStep m (.crashed op) (m.perform op).2

end Tachyon
