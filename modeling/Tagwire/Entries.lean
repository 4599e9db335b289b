/-!
# Key-sorted entries

Records, registries and objects list their entries in the order of their keys, which for strings is the
order of their code points and therefore of their UTF-8 bytes.  An entry list is an association list in
that order with every key at most once; `insert` keeps both properties, so two entry lists with the same
contents are equal.  `SortedEntries` are entries that come with the order of their keys.
-/

set_option autoImplicit false

namespace Tagwire

/-- An association list by key, which its operations keep in strictly ascending order. -/
abbrev Entries (α : Type) : Type := List (String × α)

namespace Entries

variable {α : Type}

/-- The entry under `key`, if there is one. -/
def get? (entries : Entries α) (key : String) : Option α :=
  (entries.find? fun e => e.1 == key).map Prod.snd

/-- Is there an entry under `key`? -/
def contains (entries : Entries α) (key : String) : Bool := (entries.get? key).isSome

/-- Sets the entry under `key`, over an earlier one or in the place that keeps the keys ascending. -/
def insert (entries : Entries α) (key : String) (value : α) : Entries α :=
  match entries with
  | [] => [(key, value)]
  | e :: rest =>
    if key < e.1 then (key, value) :: e :: rest
    else if key = e.1 then (key, value) :: rest
    else e :: Entries.insert rest key value

/-- Removes the entry under `key`, if there is one. -/
def erase (entries : Entries α) (key : String) : Entries α := entries.filter fun e => e.1 != key

/-- The keys in the order of their entries. -/
def keys (entries : Entries α) : List String := entries.map Prod.fst

/-- Sets every entry of a list in turn, so that a later one replaces an earlier one of its key. -/
def insertAll (entries : Entries α) (more : List (String × α)) : Entries α :=
  more.foldl (fun acc e => Entries.insert acc e.1 e.2) entries

/-- The entries of a list, a later one replacing an earlier one of its key. -/
def ofList (more : List (String × α)) : Entries α := insertAll [] more

/-- The keys ascend strictly, so that none is there twice. -/
def IsSorted (entries : Entries α) : Prop := entries.keys.Pairwise (· < ·)

/-- Whether keys increase is found by comparing them. -/
instance (entries : Entries α) : Decidable entries.IsSorted := inferInstanceAs (Decidable (List.Pairwise _ _))

/-- A key after `insert` is the one that is set, or was there before. -/
theorem mem_keys_insert {entries : Entries α} {key other : String} {value : α}
    (h : other ∈ (entries.insert key value).keys) : other = key ∨ other ∈ entries.keys := by
  induction entries with
  | nil => exact .inl (List.mem_singleton.mp h)
  | cons e rest ih =>
    rw [Entries.insert] at h
    split at h
    · exact List.mem_cons.mp h
    · split at h
      · exact (List.mem_cons.mp h).imp_right (List.mem_cons_of_mem _)
      · rcases List.mem_cons.mp h with rfl | h
        · exact .inr (List.mem_cons_self ..)
        · exact (ih h).imp_right (List.mem_cons_of_mem _)

/-- `insert` keeps the keys in order. -/
theorem IsSorted.insert {entries : Entries α} (h : entries.IsSorted) (key : String) (value : α) :
    (entries.insert key value).IsSorted := by
  induction entries with
  | nil => exact List.pairwise_singleton _ _
  | cons e rest ih =>
    obtain ⟨hhead, hrest⟩ := List.pairwise_cons.mp h
    rw [Entries.insert]
    split
    · rename_i hlt
      refine List.pairwise_cons.mpr ⟨fun other hother => ?_, h⟩
      rcases List.mem_cons.mp hother with rfl | hother
      · exact hlt
      · exact String.lt_trans hlt (hhead other hother)
    · split
      · rename_i heq
        exact List.pairwise_cons.mpr ⟨fun other hother => heq ▸ hhead other hother, hrest⟩
      · rename_i hlt hne
        refine List.pairwise_cons.mpr ⟨fun other hother => ?_, ih hrest⟩
        rcases mem_keys_insert hother with rfl | hother
        · exact Std.lt_of_le_of_ne (String.not_lt.mp hlt) (Ne.symm hne)
        · exact hhead other hother

/-- `insertAll` keeps the keys in order. -/
theorem IsSorted.insertAll {entries : Entries α} (h : entries.IsSorted) (more : List (String × α)) :
    (entries.insertAll more).IsSorted := by
  induction more generalizing entries with
  | nil => exact h
  | cons e rest ih => exact ih (h.insert e.1 e.2)

/-- What `filter` leaves is in order. -/
theorem IsSorted.filter {entries : Entries α} (h : entries.IsSorted) (keep : String × α → Bool) :
    IsSorted (List.filter keep entries) :=
  h.sublist (List.filter_sublist.map _)

end Entries

/-- Entries together with the proof that their keys ascend strictly. -/
structure SortedEntries (α : Type) where
  entries : Entries α
  sorted : entries.IsSorted
deriving Repr

namespace SortedEntries

variable {α : Type}

/-- The sorted entries that are none. -/
def empty : SortedEntries α := ⟨[], .nil⟩

/-- Sorted entries are compared entry by entry. -/
instance [BEq α] : BEq (SortedEntries α) := ⟨fun s other => s.entries == other.entries⟩

/-- Unless told otherwise there are no entries. -/
instance : Inhabited (SortedEntries α) := ⟨empty⟩

/-- Sets the entry under `key`, as `Entries.insert` does. -/
def insert (s : SortedEntries α) (key : String) (value : α) : SortedEntries α :=
  ⟨s.entries.insert key value, s.sorted.insert key value⟩

/-- Sets every entry of a list in turn, as `Entries.insertAll` does. -/
def insertAll (s : SortedEntries α) (more : List (String × α)) : SortedEntries α :=
  ⟨s.entries.insertAll more, s.sorted.insertAll more⟩

/-- Removes the entry under `key`, as `Entries.erase` does. -/
def erase (s : SortedEntries α) (key : String) : SortedEntries α := ⟨s.entries.erase key, s.sorted.filter _⟩

/-- The sorted entries of a list in any order, a later one replacing an earlier one of its key. -/
def ofList (more : List (String × α)) : SortedEntries α := empty.insertAll more

/-- Entries are put into order where their order is asked for. -/
instance : Coe (Entries α) (SortedEntries α) := ⟨ofList⟩

end SortedEntries

end Tagwire
