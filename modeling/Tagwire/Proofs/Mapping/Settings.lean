import Mathlib.Data.List.ReduceOption
import Tagwire.Proofs.Mapping.Fields

/-!
# What the members of a record set

Where no two fields share a oneof, every member of a record is read on its own: it sets a field, or nothing,
or cannot be read at all.  The message of a record is what its members set in turn, and there is one exactly
if each of them can be read.
-/

set_option autoImplicit false

namespace Tagwire

namespace Schema

variable {schema : Schema} {strict : Bool} {type : MessageType}

/-- What one member sets: the number of its field and a value, or nothing.  It fails if the member cannot be
read. -/
def memberSetting? (schema : Schema) (strict : Bool) (type : MessageType) (m : String × Json) :
    Option (Option (Nat × Value)) :=
  match type.member? m.1 with
  | none => if strict then none else some none
  | some field =>
    (schema.ofMember field m.2 (schema.valueOfJson? strict field.shape field.type m.2)).map fun set =>
      set.map fun value => (field.number, value)

/-- Without oneofs, `setMember?` puts in what `memberSetting?` gives. -/
theorem setMember?_eq_map (hone : ∀ f ∈ type.fields, f.oneof = none) (values : FieldValues)
    (m : String × Json) : schema.setMember? strict type values m =
      (schema.memberSetting? strict type m).map fun setting => Assoc.insertAll values setting.toList := by
  rw [memberSetting?]
  cases hmember : type.member? m.1 with
  | none =>
    rw [setMember?_of_member?_eq_none hmember]
    cases strict <;> rfl
  | some f =>
    rw [setMember?_of_oneof hmember (hone f (MessageType.of_member? hmember).1), Option.map_map]
    refine congrArg (Option.map · _) (funext fun set => ?_)
    cases set with
    | none => rfl
    | some value => exact FieldValues.set_eq values f.number value

/-- Without oneofs, `fieldsOfJson?` reads each member with `memberSetting?` and puts the settings in one after
the other. -/
theorem fieldsOfJson?_eq_mapM (hone : ∀ f ∈ type.fields, f.oneof = none) (values : FieldValues)
    (members : List (String × Json)) : schema.fieldsOfJson? strict type false values members =
      (members.mapM (schema.memberSetting? strict type)).map fun settings =>
        Assoc.insertAll values settings.reduceOption := by
  induction members generalizing values with
  | nil => rfl
  | cons m rest ih =>
    rw [fieldsOfJson?_cons_eq_bind, setMember?_eq_map hone, List.mapM_cons]
    cases schema.memberSetting? strict type m with
    | none => rfl
    | some setting =>
      rw [Option.map_some, Option.bind_some, ih]
      cases setting <;> cases rest.mapM (schema.memberSetting? strict type) <;> rfl

/-- Without oneofs, `fieldsOfJson?` succeeds exactly if `memberSetting?` does for each member. -/
theorem exists_fieldsOfJson?_iff (hone : ∀ f ∈ type.fields, f.oneof = none) (values : FieldValues)
    (members : List (String × Json)) :
    (∃ result, schema.fieldsOfJson? strict type false values members = some result) ↔
      ∀ m ∈ members, ∃ setting, schema.memberSetting? strict type m = some setting := by
  simp only [fieldsOfJson?_eq_mapM hone, Option.map_eq_some_iff]
  constructor
  · rintro ⟨_, settings, hsettings, -⟩ m hm
    obtain ⟨setting, -, hsetting⟩ := exists_mem_of_mapM hsettings hm
    exact ⟨setting, hsetting⟩
  · intro h
    obtain ⟨settings, hsettings⟩ := exists_mapM_eq_some h
    exact ⟨_, settings, hsettings, rfl⟩

/-- A field holds in the end what a member sets it to behind which no member sets it. -/
theorem get?_of_fieldsOfJson?_append (hone : ∀ f ∈ type.fields, f.oneof = none) {values result : FieldValues}
    {before after : List (String × Json)} {m : String × Json}
    (h : schema.fieldsOfJson? strict type false values (before ++ m :: after) = some result) {number : Nat}
    {value : Value} (hm : schema.memberSetting? strict type m = some (some (number, value)))
    (hafter : ∀ a ∈ after, ∀ v, schema.memberSetting? strict type a ≠ some (some (number, v))) :
    FieldValues.get? result number = some value := by
  rw [fieldsOfJson?_eq_mapM hone, Option.map_eq_some_iff] at h
  obtain ⟨settings, hsettings, rfl⟩ := h
  rw [List.mapM_append] at hsettings
  obtain ⟨first, -, hsettings⟩ := Option.bind_eq_some_iff.mp hsettings
  obtain ⟨rest, hrest, hsettings⟩ := Option.bind_eq_some_iff.mp hsettings
  rw [List.mapM_cons, hm] at hrest
  obtain ⟨_, ⟨⟩, hrest⟩ := Option.bind_eq_some_iff.mp hrest
  obtain ⟨last, hlast, hrest⟩ := Option.bind_eq_some_iff.mp hrest
  obtain rfl : some (number, value) :: last = rest := Option.some.inj hrest
  obtain rfl : first ++ some (number, value) :: last = settings := Option.some.inj hsettings
  have hnot : number ∉ last.reduceOption.map Prod.fst := by
    intro hmem
    obtain ⟨⟨own, v⟩, he, rfl⟩ := List.mem_map.mp hmem
    obtain ⟨a, ha, hsetting⟩ := exists_of_mem_mapM hlast (List.reduceOption_mem_iff.mp he)
    exact hafter a ha v hsetting
  rw [List.reduceOption_append, List.reduceOption_cons_of_some, FieldValues.get?_eq]
  exact Assoc.get?_insertAll_last values _ hnot value

/-- Each field that `fieldsOfJson?` sets is what `memberSetting?` gives for one of the members. -/
theorem exists_member_of_fieldsOfJson? (hone : ∀ f ∈ type.fields, f.oneof = none) {result : FieldValues}
    {members : List (String × Json)}
    (h : schema.fieldsOfJson? strict type false [] members = some result) {e : Nat × Value} (he : e ∈ result) :
    ∃ m ∈ members, schema.memberSetting? strict type m = some (some e) := by
  rw [fieldsOfJson?_eq_mapM hone, Option.map_eq_some_iff] at h
  obtain ⟨settings, hsettings, rfl⟩ := h
  rcases Assoc.mem_of_mem_insertAll he with hmem | hnil
  · exact exists_of_mem_mapM hsettings (List.reduceOption_mem_iff.mp hmem)
  · cases hnil

end Schema

/-- No field of a linked type is in a oneof. -/
theorem RegisteredType.oneof_eq_none (type : RegisteredType) : ∀ f ∈ type.linked.fields, f.oneof = none := by
  intro g hg
  obtain ⟨f, -, rfl⟩ := List.mem_map.mp hg
  exact f.oneof_linked

end Tagwire
