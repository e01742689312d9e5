/-!
# Dictionaries in key order

Entries sorted by key, one per key. The order is that of the code points of the keys.
-/

namespace Schemata

/-- Entries in the order of their keys. -/
structure Dictionary (β : Type) where
  entries : List (String × β) := []
deriving DecidableEq, Repr, Inhabited

namespace Dictionary

variable {β : Type}

/-- Sorted entries with `value` at `key`. -/
def insertEntry (key : String) (value : β) : List (String × β) → List (String × β)
  | [] => [(key, value)]
  | e :: rest =>
    if key < e.1 then (key, value) :: e :: rest
    else if key = e.1 then (key, value) :: rest
    else e :: insertEntry key value rest

/-- The dictionary with `value` at `key`, in place of what was there. -/
def insert (d : Dictionary β) (key : String) (value : β) : Dictionary β :=
  ⟨insertEntry key value d.entries⟩

/-- The dictionary of a list of entries, where a later entry replaces an earlier one. -/
def ofList (entries : List (String × β)) : Dictionary β :=
  entries.foldl (fun d e => d.insert e.1 e.2) {}

def get? (d : Dictionary β) (key : String) : Option β :=
  d.entries.lookup key

def keys (d : Dictionary β) : List String :=
  d.entries.map (·.1)

/-- The sorted entries hold the new value at its key and keep all others. -/
theorem lookup_insertEntry (key : String) (value : β) (k : String) (es : List (String × β)) :
    (insertEntry key value es).lookup k = if k = key then some value else es.lookup k := by
  induction es with
  | nil => grind [insertEntry]
  | cons e rest ih => grind [insertEntry]

/-- Inserting changes the value at its key and no other. -/
theorem get?_insert (d : Dictionary β) (key : String) (value : β) (k : String) :
    (d.insert key value).get? k = if k = key then some value else d.get? k :=
  lookup_insertEntry key value k d.entries

end Dictionary

end Schemata
