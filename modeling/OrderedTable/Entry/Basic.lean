import OrderedTable.Error
import OrderedTable.Key

/-!
# Entries

An `Entry` pairs data with a key. The key is either a copy that the entry owns or a part of the data
itself; `Entry.key` reads it the same way from both. An entry's key is never longer than
`maxKeyLength`, so its length fits in one byte.
-/

namespace OrderedTable

/-- Where the bytes of a key are kept. -/
inductive KeyStorage (V : Type)
  /-- In a copy of the entry's own. -/
  | owned (key : Key)
  /-- In the data, from which `project` reads them. -/
  | embedded (project : V → Key)

namespace KeyStorage

variable {V : Type}

/-- The key, as kept in or beside `data`. -/
def read (data : V) : KeyStorage V → Key
  | owned key => key
  | embedded project => project data

def isEmbedded : KeyStorage V → Bool
  | owned _ => false
  | embedded _ => true

def bytesOutline (key : Key) : Outline := .list (key.map fun b => .nat b.toNat)

/-- An owned key shows its bytes; an embedded one is shown with the data. -/
def outline : KeyStorage V → Outline
  | owned key => .call "Owned" [bytesOutline key]
  | embedded _ => .word "Embedded"

end KeyStorage

/-- Data under a key. -/
structure Entry (V : Type) where
  storage : KeyStorage V
  /-- The length of the key. -/
  keySize : UInt8
  data : V
  keySize_eq : keySize.toNat = (storage.read data).length

namespace Entry

variable {V : Type}

def key (e : Entry V) : Key := e.storage.read e.data

def isKeyEmbedded (e : Entry V) : Bool := e.storage.isEmbedded

/-- Whether a lookup of `probe` finds the entry. -/
def answersTo (e : Entry V) (probe : Key) : Bool := e.key.startsWith probe

/-- An entry of `data` under the key that `storage` keeps, unless that is too long. -/
def make (storage : KeyStorage V) (data : V) : Except (Rejected V) (Entry V) :=
  let length := (storage.read data).length
  if h : length ≤ maxKeyLength then
    .ok {
      storage, data
      keySize := UInt8.ofNat length
      keySize_eq := by
        have : length < 256 := Nat.lt_succ_of_le h
        simp [UInt8.toNat_ofNat', Nat.mod_eq_of_lt this, length] }
  else .error ⟨.keyTooLong length, data⟩

/-- An entry with a key of its own. -/
def owned (key : Key) (data : V) : Except (Rejected V) (Entry V) := make (.owned key) data

/-- An entry whose key is a part of its data. -/
def embedded (data : V) (project : V → Key) : Except (Rejected V) (Entry V) :=
  make (.embedded project) data

/-- The key, its length and the data, which `data` outlines. -/
def outline (data : V → Outline) (e : Entry V) : Outline :=
  .record "Entry" [("key", KeyStorage.bytesOutline e.key), ("key_size", .nat e.keySize.toNat),
    ("data", data e.data)] false

theorem owned_of_tooLong {key : Key} (h : maxKeyLength < key.length) (data : V) :
    owned key data = .error ⟨.keyTooLong key.length, data⟩ := dif_neg (Nat.not_le_of_lt h)

theorem exists_make_of_le (storage : KeyStorage V) (data : V)
    (h : (storage.read data).length ≤ maxKeyLength) :
    ∃ e, make storage data = .ok e ∧ e.storage = storage ∧ e.data = data := ⟨_, dif_pos h, rfl, rfl⟩

theorem exists_owned_of_le {key : Key} (h : key.length ≤ maxKeyLength) (data : V) :
    ∃ e, owned key data = .ok e := ⟨_, dif_pos h⟩

theorem key_of_make {storage : KeyStorage V} {data : V} {e : Entry V}
    (h : make storage data = .ok e) : e.key = storage.read data := by
  rw [make] at h
  split at h
  · cases h
    rfl
  · cases h

theorem key_of_owned {key : Key} {data : V} {e : Entry V} (h : owned key data = .ok e) :
    e.key = key := key_of_make h

theorem key_length_le (e : Entry V) : e.key.length ≤ maxKeyLength := by
  have h := e.keySize_eq
  have hlt := e.keySize.toNat_lt
  unfold key maxKeyLength
  omega

end Entry

end OrderedTable
