import Mathlib.Algebra.GroupWithZero.Nat
import Mathlib.Data.List.Sort
import Mathlib.Data.String.Basic
import Tagwire.Entries
import Tagwire.Value

/-!
# Sorted entries

Records, registries and objects keep entries in the order of their keys, and messages keep their fields in
the order of their numbers.  Both insert by the same rule, so both are the same structure over a linear
order of keys.  What it promises is stated once: looking a key up after an insertion, keeping the order,
and that lists in order are equal once they give the same under every key.
-/

set_option autoImplicit false

namespace Tagwire

/-- `find?` by a trait that no two elements share finds the element that has it. -/
theorem find?_eq_some_of_nodup {α β : Type} [BEq β] [LawfulBEq β] {g : α → β} {l : List α}
    (hn : (l.map g).Nodup) {a : α} (ha : a ∈ l) : l.find? (fun x => g x == g a) = some a := by
  induction l with
  | nil => cases ha
  | cons x rest ih =>
    rw [List.map_cons, List.nodup_cons] at hn
    rcases List.mem_cons.mp ha with rfl | ha
    · rw [List.find?_cons_of_pos (by simp)]
    · have hne : g x ≠ g a := fun heq => hn.1 (heq ▸ List.mem_map_of_mem ha)
      rw [List.find?_cons_of_neg (by simpa using hne)]
      exact ih hn.2 ha

/-! ## Entries over a linear order -/

namespace Assoc

variable {κ α : Type} [LinearOrder κ]

/-- The value of the first entry under `key`, for keys of any linear order. -/
def get? (entries : List (κ × α)) (key : κ) : Option α :=
  (entries.find? fun e => decide (e.1 = key)).map Prod.snd

/-- Sets the entry under `key`, over an earlier one or in the place that keeps the keys ascending. -/
def insert (entries : List (κ × α)) (key : κ) (value : α) : List (κ × α) :=
  match entries with
  | [] => [(key, value)]
  | e :: rest =>
    if key < e.1 then (key, value) :: e :: rest
    else if key = e.1 then (key, value) :: rest
    else e :: insert rest key value

/-- Sets every entry of a list in turn by `insert`. -/
def insertAll (entries more : List (κ × α)) : List (κ × α) :=
  more.foldl (fun acc e => insert acc e.1 e.2) entries

/-- The keys ascend strictly. -/
def IsSorted (entries : List (κ × α)) : Prop := (entries.map Prod.fst).Pairwise (· < ·)

/-- Whether keys increase is found by comparing them. -/
instance (entries : List (κ × α)) : Decidable (IsSorted entries) :=
  inferInstanceAs (Decidable (List.Pairwise _ _))

/-- Nothing is under any key of no entries. -/
@[simp] theorem get?_nil (key : κ) : get? ([] : List (κ × α)) key = none := rfl

/-- `get?` finds the first entry if it has the key, and else looks among the rest. -/
theorem get?_cons (e : κ × α) (rest : List (κ × α)) (key : κ) :
    get? (e :: rest) key = if e.1 = key then some e.2 else get? rest key := by
  by_cases h : e.1 = key
  · simp [get?, h]
  · simp [get?, List.find?_cons_of_neg, h]

/-- `get?` after a map over the values finds the mapped value. -/
theorem get?_map {β : Type} (g : α → β) (entries : List (κ × α)) (key : κ) :
    get? (entries.map (Prod.map id g)) key = (get? entries key).map g := by
  induction entries with
  | nil => rfl
  | cons e rest ih =>
    rw [List.map_cons, get?_cons, get?_cons, ih]
    show (if e.1 = key then _ else _) = _
    split <;> rfl

/-- `get?` after `insert` finds the new value under its key, and under any other what it found before. -/
theorem get?_insert (entries : List (κ × α)) (key other : κ) (value : α) :
    get? (insert entries key value) other =
      if key = other then some value else get? entries other := by
  induction entries with
  | nil => rw [insert, get?_cons]
  | cons e rest ih =>
    rw [insert]
    by_cases hlt : key < e.1
    · rw [if_pos hlt, get?_cons]
    · rw [if_neg hlt]
      by_cases heq : key = e.1
      · rw [if_pos heq, get?_cons, get?_cons, ← heq]
        by_cases h : key = other <;> simp [h]
      · rw [if_neg heq, get?_cons, get?_cons, ih]
        by_cases h : e.1 = other
        · have : ¬ key = other := fun hk => heq (hk.trans h.symm)
          simp [h, this]
        · simp [h]

/-- What `get?` finds is one of the entries. -/
theorem mem_of_get?_eq_some {entries : List (κ × α)} {key : κ} {value : α}
    (h : get? entries key = some value) : (key, value) ∈ entries := by
  induction entries with
  | nil => simp at h
  | cons e rest ih =>
    rw [get?_cons] at h
    by_cases hk : e.1 = key
    · rw [if_pos hk, Option.some.injEq] at h
      exact List.mem_cons.mpr (.inl (Prod.ext hk.symm h.symm))
    · rw [if_neg hk] at h
      exact List.mem_cons_of_mem _ (ih h)

/-- `get?` finds every entry under its key, where no key is there twice. -/
theorem get?_eq_some_of_mem {entries : List (κ × α)} (hn : (entries.map Prod.fst).Nodup) {e : κ × α}
    (he : e ∈ entries) : get? entries e.1 = some e.2 := by
  induction entries with
  | nil => simp at he
  | cons a rest ih =>
    rw [List.map_cons, List.nodup_cons] at hn
    rw [get?_cons]
    rcases List.mem_cons.mp he with rfl | he
    · rw [if_pos rfl]
    · have hne : a.1 ≠ e.1 := fun heq => hn.1 (heq ▸ List.mem_map_of_mem he)
      rw [if_neg hne]
      exact ih hn.2 he

/-- `get?` finds nothing exactly under keys of no entry. -/
theorem get?_eq_none_iff (entries : List (κ × α)) (key : κ) :
    get? entries key = none ↔ key ∉ entries.map Prod.fst := by
  induction entries with
  | nil => simp
  | cons e rest ih =>
    rw [get?_cons, List.map_cons, List.mem_cons, not_or]
    by_cases h : e.1 = key
    · simp [h]
    · simp [h, ih, Ne.symm h]

/-- Sorted keys are distinct. -/
theorem IsSorted.nodup {entries : List (κ × α)} (h : IsSorted entries) :
    (entries.map Prod.fst).Nodup :=
  h.imp fun hlt => hlt.ne

/-- `insert` adds its key to those that are there. -/
theorem mem_keys_insert {entries : List (κ × α)} {key other : κ} {value : α} :
    other ∈ (insert entries key value).map Prod.fst ↔
      other = key ∨ other ∈ entries.map Prod.fst := by
  have hiff := get?_eq_none_iff (insert entries key value) other
  rw [get?_insert] at hiff
  by_cases h : key = other
  · rw [if_pos h] at hiff
    simp only [reduceCtorEq, false_iff, not_not] at hiff
    exact iff_of_true hiff (.inl h.symm)
  · rw [if_neg h, get?_eq_none_iff, not_iff_not] at hiff
    rw [← hiff]
    exact ⟨.inr, fun hor => hor.resolve_left (Ne.symm h)⟩

/-- `insert` under a new key gives the entry and all others, in some order. -/
theorem insert_perm {entries : List (κ × α)} {key : κ} (h : key ∉ entries.map Prod.fst) (value : α) :
    (Assoc.insert entries key value).Perm ((key, value) :: entries) := by
  induction entries with
  | nil => exact .refl _
  | cons e rest ih =>
    rw [List.map_cons, List.mem_cons, not_or] at h
    rw [Assoc.insert, if_neg h.1]
    split
    · exact .refl _
    · exact ((ih h.2).cons e).trans (.swap _ _ _)

/-- `insert` keeps the keys in ascending order. -/
theorem IsSorted.insert {entries : List (κ × α)} (h : IsSorted entries) (key : κ) (value : α) :
    IsSorted (insert entries key value) := by
  induction entries with
  | nil => simp [Assoc.insert, IsSorted]
  | cons e rest ih =>
    obtain ⟨hhead, hrest⟩ := List.pairwise_cons.mp h
    rw [Assoc.insert]
    by_cases hlt : key < e.1
    · rw [if_pos hlt]
      refine List.pairwise_cons.mpr ⟨fun k hk => ?_, h⟩
      rcases List.mem_cons.mp hk with rfl | hk
      · exact hlt
      · exact hlt.trans (hhead k hk)
    · rw [if_neg hlt]
      by_cases heq : key = e.1
      · rw [if_pos heq]
        exact List.pairwise_cons.mpr ⟨fun k hk => heq ▸ hhead k hk, hrest⟩
      · rw [if_neg heq]
        refine List.pairwise_cons.mpr ⟨fun k hk => ?_, ih hrest⟩
        rcases mem_keys_insert.mp hk with rfl | hk
        · exact lt_of_le_of_ne (not_lt.mp hlt) (Ne.symm heq)
        · exact hhead k hk

/-- Two sorted lists in which `get?` finds the same are the same. -/
theorem IsSorted.ext {a b : List (κ × α)} (ha : IsSorted a) (hb : IsSorted b)
    (h : ∀ key, get? a key = get? b key) : a = b := by
  refine List.Pairwise.eq_of_mem_iff (r := fun x y : κ × α => x.1 < y.1)
    (List.pairwise_map.mp ha) (List.pairwise_map.mp hb) fun e => ?_
  constructor
  · intro he
    have hget := get?_eq_some_of_mem ha.nodup he
    rw [h] at hget
    exact mem_of_get?_eq_some hget
  · intro he
    have hget := get?_eq_some_of_mem hb.nodup he
    rw [← h] at hget
    exact mem_of_get?_eq_some hget

/-- `insertAll` keeps the keys in ascending order. -/
theorem IsSorted.insertAll {entries : List (κ × α)} (h : IsSorted entries) (more : List (κ × α)) :
    IsSorted (insertAll entries more) := by
  induction more generalizing entries with
  | nil => exact h
  | cons e rest ih => exact ih (h.insert e.1 e.2)

/-- An entry after `insert` is the new one or was there before. -/
theorem mem_of_mem_insert {entries : List (κ × α)} {key : κ} {value : α} {e : κ × α}
    (h : e ∈ insert entries key value) : e = (key, value) ∨ e ∈ entries := by
  induction entries with
  | nil => exact .inl (List.mem_singleton.mp h)
  | cons first rest ih =>
    rw [insert] at h
    split at h
    · exact List.mem_cons.mp h
    · split at h
      · rcases List.mem_cons.mp h with h | h
        · exact .inl h
        · exact .inr (List.mem_cons_of_mem _ h)
      · rcases List.mem_cons.mp h with rfl | h
        · exact .inr List.mem_cons_self
        · exact (ih h).imp_right (List.mem_cons_of_mem _)

/-- An entry after `insertAll` is one of the new ones or was there before. -/
theorem mem_of_mem_insertAll {entries more : List (κ × α)} {e : κ × α}
    (h : e ∈ insertAll entries more) : e ∈ more ∨ e ∈ entries := by
  induction more generalizing entries with
  | nil => exact .inr h
  | cons first rest ih =>
    rcases ih h with h | h
    · exact .inl (List.mem_cons_of_mem _ h)
    · rcases mem_of_mem_insert h with rfl | h
      · exact .inl List.mem_cons_self
      · exact .inr h

/-- `insertAll` adds the keys of the new entries to those that are there. -/
theorem mem_keys_insertAll {entries more : List (κ × α)} {key : κ} :
    key ∈ (insertAll entries more).map Prod.fst ↔
      key ∈ more.map Prod.fst ∨ key ∈ entries.map Prod.fst := by
  induction more generalizing entries with
  | nil => simp [insertAll]
  | cons first rest ih =>
    have hrest := @ih (insert entries first.1 first.2)
    rw [mem_keys_insert] at hrest
    rw [List.map_cons, List.mem_cons, or_assoc, or_left_comm]
    exact hrest

/-- `insert` commutes with a map over the values. -/
theorem insert_map {β : Type} (g : α → β) (entries : List (κ × α)) (key : κ) (value : α) :
    (insert entries key value).map (Prod.map id g) = insert (entries.map (Prod.map id g)) key (g value) := by
  induction entries with
  | nil => rfl
  | cons e rest ih =>
    rw [insert, List.map_cons, insert]
    dsimp only [Prod.map_fst, id]
    split
    · rfl
    · split
      · rfl
      · rw [List.map_cons, ih]

/-- `insertAll` commutes with a map over the values. -/
theorem insertAll_map {β : Type} (g : α → β) (entries more : List (κ × α)) :
    (insertAll entries more).map (Prod.map id g) =
      insertAll (entries.map (Prod.map id g)) (more.map (Prod.map id g)) := by
  induction more generalizing entries with
  | nil => rfl
  | cons e rest ih =>
    show (insertAll (insert entries e.1 e.2) rest).map (Prod.map id g) = _
    rw [ih, insert_map]
    rfl

/-- `insert` adds at most the weight of the new entry to a sum over the entries. -/
theorem sum_insert_le (weight : κ × α → Nat) (entries : List (κ × α)) (key : κ) (value : α) :
    ((insert entries key value).map weight).sum ≤ (entries.map weight).sum + weight (key, value) := by
  induction entries with
  | nil => exact Nat.le_of_eq (Nat.add_comm _ _)
  | cons e rest ih =>
    rw [insert]
    split
    · simp only [List.map_cons, List.sum_cons]
      omega
    · split
      · simp only [List.map_cons, List.sum_cons]
        omega
      · simp only [List.map_cons, List.sum_cons]
        omega

/-- `insertAll` adds at most the weights of the new entries to a sum over the entries. -/
theorem sum_insertAll_le (weight : κ × α → Nat) (entries more : List (κ × α)) :
    ((insertAll entries more).map weight).sum ≤ (entries.map weight).sum + (more.map weight).sum := by
  induction more generalizing entries with
  | nil => exact Nat.le_refl _
  | cons e rest ih =>
    obtain ⟨key, value⟩ := e
    have hrest := ih (insert entries key value)
    have hfirst := sum_insert_le weight entries key value
    rw [List.map_cons, List.sum_cons]
    show ((insertAll (insert entries key value) rest).map weight).sum ≤ _
    omega

/-- `get?` after `insertAll` of distinct keys finds the new value, and else what it found before. -/
theorem get?_insertAll {entries more : List (κ × α)} (hn : (more.map Prod.fst).Nodup) (key : κ) :
    get? (insertAll entries more) key = (get? more key).or (get? entries key) := by
  induction more generalizing entries with
  | nil => simp [insertAll]
  | cons e rest ih =>
    rw [List.map_cons, List.nodup_cons] at hn
    show get? (insertAll (insert entries e.1 e.2) rest) key = _
    rw [ih hn.2, get?_insert, get?_cons]
    by_cases h : e.1 = key
    · rw [if_pos h, if_pos h, (get?_eq_none_iff _ _).mpr (h ▸ hn.1)]
      simp
    · rw [if_neg h, if_neg h]

/-- `get?` after `insertAll` finds the value of a key that is only set to this one. -/
theorem get?_insertAll_eq_some {entries more : List (κ × α)} {key : κ} {value : α}
    (hmem : (key, value) ∈ more) (hunique : ∀ v, (key, v) ∈ more → v = value) :
    get? (insertAll entries more) key = some value := by
  suffices hall : ∀ entries : List (κ × α), (∀ v, (key, v) ∈ more → v = value) →
      (key, value) ∈ more ∨ get? entries key = some value →
      get? (insertAll entries more) key = some value from hall entries hunique (.inl hmem)
  clear hmem hunique
  induction more with
  | nil => exact fun entries _ h => h.resolve_left (by simp)
  | cons e rest ih =>
    intro entries hunique h
    apply ih (insert entries e.1 e.2) (fun v hv => hunique v (by simp [hv]))
    rw [get?_insert]
    by_cases he : e.1 = key
    · have hvalue : e.2 = value := hunique e.2 (by simp [← he])
      exact .inr (by rw [if_pos he, hvalue])
    · rw [if_neg he]
      apply h.imp_left
      intro hmem
      rcases List.mem_cons.mp hmem with heq | hmem
      · exact absurd (congrArg Prod.fst heq).symm he
      · exact hmem

/-- `get?` after `insertAll` finds what it found before, under a key that is not set. -/
theorem get?_insertAll_of_not_mem {entries more : List (κ × α)} {key : κ}
    (h : key ∉ more.map Prod.fst) : get? (insertAll entries more) key = get? entries key := by
  induction more generalizing entries with
  | nil => rfl
  | cons e rest ih =>
    rw [List.map_cons, List.mem_cons, not_or] at h
    show get? (insertAll (insert entries e.1 e.2) rest) key = _
    rw [ih h.2, get?_insert, if_neg (Ne.symm h.1)]

/-- `get?` after `insertAll` finds the value that is set last under a key. -/
theorem get?_insertAll_last (entries before : List (κ × α)) {after : List (κ × α)} {key : κ}
    (h : key ∉ after.map Prod.fst) (value : α) :
    get? (insertAll entries (before ++ (key, value) :: after)) key = some value := by
  rw [insertAll, List.foldl_append, List.foldl_cons]
  show get? (insertAll (insert (insertAll entries before) key value) after) key = _
  rw [get?_insertAll_of_not_mem h, get?_insert, if_pos rfl]

/-- `insertAll` keeps two lists the same under a key under which they were. -/
theorem get?_insertAll_congr {a b more : List (κ × α)} {key : κ} (h : get? a key = get? b key) :
    get? (insertAll a more) key = get? (insertAll b more) key := by
  induction more generalizing a b with
  | nil => exact h
  | cons e rest ih =>
    apply ih (a := insert a e.1 e.2) (b := insert b e.1 e.2)
    rw [get?_insert, get?_insert, h]

/-- `get?` after `insertAll` does not depend on what is set under another key. -/
theorem get?_insertAll_append_cons (entries before after : List (κ × α)) {key other : κ}
    (h : key ≠ other) (value value' : α) :
    get? (insertAll entries (before ++ (key, value) :: after)) other =
      get? (insertAll entries (before ++ (key, value') :: after)) other := by
  have hsplit : ∀ value, insertAll entries (before ++ (key, value) :: after) =
      insertAll (insert (insertAll entries before) key value) after := by
    intro value
    rw [insertAll, List.foldl_append]
    rfl
  rw [hsplit, hsplit]
  refine get?_insertAll_congr ?_
  rw [get?_insert, get?_insert, if_neg h, if_neg h]

/-- `get?` after a filter by keys finds what it found before, under a key that is kept. -/
theorem get?_filter (keep : κ → Bool) (entries : List (κ × α)) (key : κ) :
    get? (entries.filter fun e => keep e.1) key = if keep key then get? entries key else none := by
  induction entries with
  | nil => simp
  | cons e rest ih =>
    rw [get?_cons]
    by_cases hkeep : keep e.1 = true
    · rw [List.filter_cons_of_pos (p := fun e : κ × α => keep e.1) hkeep, get?_cons, ih]
      by_cases hkey : e.1 = key
      · rw [if_pos hkey, if_pos hkey, if_pos (hkey ▸ hkeep)]
      · rw [if_neg hkey, if_neg hkey]
    · rw [List.filter_cons_of_neg (p := fun e : κ × α => keep e.1) hkeep, ih]
      by_cases hkey : e.1 = key
      · rw [if_neg (hkey ▸ hkeep), if_neg (hkey ▸ hkeep)]
      · rw [if_neg hkey]

/-- What a filter leaves of sorted entries is sorted. -/
theorem IsSorted.filter {entries : List (κ × α)} (h : IsSorted entries) (keep : κ × α → Bool) :
    IsSorted (entries.filter keep) :=
  h.sublist (List.filter_sublist.map _)

/-- A filter by keys commutes with `insert` of a key that it keeps, and drops any other. -/
theorem IsSorted.filter_insert {entries : List (κ × α)} (h : IsSorted entries) (keep : κ → Bool) (key : κ)
    (value : α) : (Assoc.insert entries key value).filter (fun e => keep e.1) =
      if keep key then Assoc.insert (entries.filter fun e => keep e.1) key value
      else entries.filter fun e => keep e.1 := by
  have hsorted := (h.insert key value).filter fun e => keep e.1
  by_cases hkeep : keep key = true
  · rw [if_pos hkeep]
    refine hsorted.ext ((h.filter _).insert key value) fun other => ?_
    rw [get?_filter, get?_insert, get?_insert, get?_filter]
    by_cases hkey : key = other
    · rw [if_pos hkey, if_pos hkey, if_pos (hkey ▸ hkeep)]
    · rw [if_neg hkey, if_neg hkey]
  · rw [if_neg hkeep]
    refine hsorted.ext (h.filter _) fun other => ?_
    rw [get?_filter, get?_insert, get?_filter]
    by_cases hkey : key = other
    · rw [if_neg (hkey ▸ hkeep), if_neg (hkey ▸ hkeep)]
    · rw [if_neg hkey]

/-- A filter by keys commutes with `insertAll`. -/
theorem IsSorted.filter_insertAll {entries : List (κ × α)} (h : IsSorted entries) (keep : κ → Bool)
    (more : List (κ × α)) : (Assoc.insertAll entries more).filter (fun e => keep e.1) =
      Assoc.insertAll (entries.filter fun e => keep e.1) (more.filter fun e => keep e.1) := by
  induction more generalizing entries with
  | nil => rfl
  | cons e rest ih =>
    show (Assoc.insertAll (Assoc.insert entries e.1 e.2) rest).filter _ = _
    rw [ih (h.insert e.1 e.2), h.filter_insert]
    by_cases hkeep : keep e.1 = true
    · rw [if_pos hkeep, List.filter_cons_of_pos (p := fun e : κ × α => keep e.1) hkeep]
      rfl
    · rw [if_neg hkeep, List.filter_cons_of_neg (p := fun e : κ × α => keep e.1) hkeep]

end Assoc

/-! ## Entries under texts -/

namespace Entries

variable {α : Type}

/-- `Entries.get?` is `Assoc.get?`. -/
theorem get?_eq (entries : Entries α) (key : String) : entries.get? key = Assoc.get? entries key := by
  unfold get? Assoc.get?
  congr

/-- `Entries.insert` is `Assoc.insert`. -/
theorem insert_eq (entries : Entries α) (key : String) (value : α) :
    entries.insert key value = Assoc.insert entries key value := by
  induction entries with
  | nil => rfl
  | cons e rest ih =>
    rw [Entries.insert, Assoc.insert, ih]

/-- `Entries.insertAll` is `Assoc.insertAll`. -/
theorem insertAll_eq (entries : Entries α) (more : List (String × α)) :
    entries.insertAll more = Assoc.insertAll entries more := by
  unfold insertAll Assoc.insertAll
  simp only [insert_eq]

/-- What `Entries.get?` finds is one of the entries. -/
theorem mem_of_get?_eq_some {entries : Entries α} {key : String} {value : α}
    (h : entries.get? key = some value) : (key, value) ∈ entries :=
  Assoc.mem_of_get?_eq_some (get?_eq entries key ▸ h)

/-- `Entries.get?` finds every one of sorted entries under its key. -/
theorem get?_eq_some_of_mem {entries : Entries α} (hs : Assoc.IsSorted entries) {e : String × α}
    (he : e ∈ entries) : entries.get? e.1 = some e.2 := by
  rw [get?_eq]
  exact Assoc.get?_eq_some_of_mem hs.nodup he

/-- `get?` after `ofList` finds what the list has under a key, where no key is there twice. -/
theorem get?_ofList {more : List (String × α)} (hn : (more.map Prod.fst).Nodup) (key : String) :
    (ofList more).get? key = Assoc.get? more key := by
  rw [get?_eq, ofList, insertAll_eq, Assoc.get?_insertAll hn]
  simp

/-- `ofList` gives sorted entries. -/
theorem isSorted_ofList (more : List (String × α)) : Assoc.IsSorted (ofList more) := by
  rw [ofList, insertAll_eq]
  exact Assoc.IsSorted.insertAll (show Assoc.IsSorted [] from .nil) more

/-- `ofList` of a list with the entries of sorted ones, in any order, gives these. -/
theorem ofList_eq_of_mem_iff {entries : Entries α} (h : Assoc.IsSorted entries) {more : List (String × α)}
    (hmem : ∀ key value, (key, value) ∈ more ↔ entries.get? key = some value) :
    ofList more = entries := by
  apply Assoc.IsSorted.ext (isSorted_ofList more) h
  intro key
  rw [ofList, insertAll_eq]
  simp only [get?_eq] at hmem
  cases hget : Assoc.get? entries key with
  | some value =>
    refine Assoc.get?_insertAll_eq_some ((hmem key value).mpr hget) fun v hv => ?_
    rw [hmem, hget, Option.some.injEq] at hv
    exact hv.symm
  | none =>
    refine Assoc.get?_insertAll_of_not_mem fun hkey => ?_
    obtain ⟨⟨key, value⟩, hvalue, rfl⟩ := List.mem_map.mp hkey
    rw [hmem, hget] at hvalue
    cases hvalue

/-- `ofList` gives back entries that are in order. -/
theorem ofList_of_isSorted {entries : Entries α} (h : Assoc.IsSorted entries) : ofList entries = entries :=
  ofList_eq_of_mem_iff h fun _ _ => ⟨fun hmem => get?_eq_some_of_mem h hmem, mem_of_get?_eq_some⟩

/-- `ofList` gives entries under the keys of the list. -/
theorem mem_keys_ofList {more : List (String × α)} (hn : (more.map Prod.fst).Nodup) (key : String) :
    key ∈ (ofList more).keys ↔ key ∈ more.map Prod.fst := by
  have hget := get?_ofList hn key
  rw [get?_eq] at hget
  have hnone := Assoc.get?_eq_none_iff (ofList more) key
  rw [hget, Assoc.get?_eq_none_iff] at hnone
  exact (not_iff_not.mp hnone).symm

end Entries

/-! ## Fields under numbers -/

namespace FieldValues

/-- `FieldValues.get?` is `Assoc.get?`. -/
theorem get?_eq (fields : FieldValues) (number : Nat) :
    fields.get? number = Assoc.get? fields number := by
  unfold get? Assoc.get?
  congr

/-- `FieldValues.set` is `Assoc.insert`. -/
theorem set_eq (fields : FieldValues) (number : Nat) (value : Value) :
    fields.set number value = Assoc.insert fields number value := by
  induction fields with
  | nil => rfl
  | cons f rest ih => rw [FieldValues.set, Assoc.insert, ih]

/-- What `FieldValues.get?` finds is one of the fields. -/
theorem mem_of_get?_eq_some {fields : FieldValues} {number : Nat} {value : Value}
    (h : fields.get? number = some value) : (number, value) ∈ fields :=
  Assoc.mem_of_get?_eq_some (get?_eq fields number ▸ h)

/-- `FieldValues.get?` finds every one of sorted fields under its number. -/
theorem get?_eq_some_of_mem {fields : FieldValues} (hs : Assoc.IsSorted fields) {e : Nat × Value}
    (he : e ∈ fields) : fields.get? e.1 = some e.2 := by
  rw [get?_eq]
  exact Assoc.get?_eq_some_of_mem hs.nodup he

end FieldValues

end Tagwire
