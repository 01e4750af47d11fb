namespace PseudoWord

/-- A finite map from 64-bit keys, held as its entries in strictly ascending key order. -/
structure KeyMap (α : Type) where
  entries : List (UInt64 × α)
  sorted : entries.Pairwise (fun a b => a.1 < b.1)
deriving DecidableEq

namespace KeyMap

variable {α β : Type}

def empty : KeyMap α := ⟨[], .nil⟩

instance : Inhabited (KeyMap α) := ⟨empty⟩

/-- Puts an entry at its place in an ascending list; an entry that already has the key gives way. -/
def place (key : UInt64) (value : α) : List (UInt64 × α) → List (UInt64 × α)
  | [] => [(key, value)]
  | entry :: rest =>
    if key < entry.1 then (key, value) :: entry :: rest
    else if entry.1 < key then entry :: place key value rest
    else (key, value) :: rest

theorem mem_place {key : UInt64} {value : α} {entry : UInt64 × α} {entries : List (UInt64 × α)}
    (member : entry ∈ place key value entries) : entry = (key, value) ∨ entry ∈ entries := by
  induction entries with
  | nil => exact .inl (List.mem_singleton.mp member)
  | cons head rest ih =>
    rw [place] at member
    split at member
    · exact List.mem_cons.mp member
    · split at member
      · rcases List.mem_cons.mp member with same | later
        · exact .inr (same ▸ List.mem_cons_self)
        · exact (ih later).imp_right (List.mem_cons_of_mem head)
      · exact (List.mem_cons.mp member).imp_right (List.mem_cons_of_mem head)

theorem place_sorted (key : UInt64) (value : α) {entries : List (UInt64 × α)}
    (sorted : entries.Pairwise (fun a b => a.1 < b.1)) :
    (place key value entries).Pairwise (fun a b => a.1 < b.1) := by
  induction entries with
  | nil => exact List.pairwise_singleton _ _
  | cons head rest ih =>
    obtain ⟨above, tail⟩ := List.pairwise_cons.mp sorted
    rw [place]
    split
    · rename_i below
      refine List.pairwise_cons.mpr ⟨fun entry member => ?_, sorted⟩
      rcases List.mem_cons.mp member with same | later
      · exact same ▸ below
      · exact UInt64.lt_trans below (above entry later)
    · split
      · rename_i higher
        refine List.pairwise_cons.mpr ⟨fun entry member => ?_, ih tail⟩
        rcases mem_place member with same | later
        · exact same ▸ higher
        · exact above entry later
      · rename_i notBelow notOver
        have same : head.1 = key :=
          UInt64.le_antisymm (UInt64.not_lt.mp notBelow) (UInt64.not_lt.mp notOver)
        exact List.pairwise_cons.mpr ⟨fun entry member => same ▸ above entry member, tail⟩

def insert (m : KeyMap α) (key : UInt64) (value : α) : KeyMap α :=
  ⟨place key value m.entries, place_sorted key value m.sorted⟩

def ofList (entries : List (UInt64 × α)) : KeyMap α :=
  entries.foldl (fun m entry => m.insert entry.1 entry.2) empty

def get? (m : KeyMap α) (key : UInt64) : Option α :=
  (m.entries.find? (fun entry => entry.1 == key)).map (·.2)

theorem find?_place_self (key : UInt64) (value : α) (entries : List (UInt64 × α)) :
    (place key value entries).find? (fun entry => entry.1 == key) = some (key, value) := by
  induction entries with
  | nil => simp [place]
  | cons head rest ih =>
    rw [place]
    split
    · simp
    · split
      · rename_i higher
        have different : (head.1 == key) = false := beq_false_of_ne (UInt64.ne_of_lt higher)
        rw [List.find?_cons, different]
        exact ih
      · simp

theorem find?_place_of_ne {key other : UInt64} (different : other ≠ key) (value : α)
    (entries : List (UInt64 × α)) :
    (place key value entries).find? (fun entry => entry.1 == other) =
      entries.find? (fun entry => entry.1 == other) := by
  have skipped : (key == other) = false := beq_false_of_ne different.symm
  induction entries with
  | nil => simp [place, skipped]
  | cons head rest ih =>
    rw [place]
    split
    · rw [List.find?_cons, skipped]
    · split
      · rw [List.find?_cons, List.find?_cons, ih]
      · rename_i notBelow notHigher
        have same : head.1 = key :=
          UInt64.le_antisymm (UInt64.not_lt.mp notBelow) (UInt64.not_lt.mp notHigher)
        rw [List.find?_cons, List.find?_cons, same, skipped]

@[simp]
theorem get?_empty (key : UInt64) : (empty : KeyMap α).get? key = none := rfl

@[simp]
theorem get?_insert_self (m : KeyMap α) (key : UInt64) (value : α) :
    (m.insert key value).get? key = some value := by
  rw [get?, insert, find?_place_self]
  rfl

theorem get?_insert_of_ne (m : KeyMap α) {key other : UInt64} (different : other ≠ key)
    (value : α) : (m.insert key value).get? other = m.get? other := by
  rw [get?, get?, insert, find?_place_of_ne different]

def contains (m : KeyMap α) (key : UInt64) : Bool := (m.get? key).isSome

def size (m : KeyMap α) : Nat := m.entries.length

def isEmpty (m : KeyMap α) : Bool := m.entries.isEmpty

def keys (m : KeyMap α) : List UInt64 := m.entries.map (·.1)

def values (m : KeyMap α) : List α := m.entries.map (·.2)

def map (f : α → β) (m : KeyMap α) : KeyMap β :=
  ⟨m.entries.map (fun entry => (entry.1, f entry.2)), List.pairwise_map.mpr m.sorted⟩

/-- Replaces the value under `key`, if there is one. -/
def adjust (m : KeyMap α) (key : UInt64) (f : α → α) : KeyMap α :=
  match m.get? key with
  | some value => m.insert key (f value)
  | none => m

/-- The entry at the smallest key above `bound`. -/
def above? (m : KeyMap α) (bound : UInt64) : Option (UInt64 × α) :=
  m.entries.find? (fun entry => decide (bound < entry.1))

end KeyMap

end PseudoWord
