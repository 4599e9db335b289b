import Tagwire.Proofs.Codec.Passage
import Tagwire.Proofs.Mapping.Pruned
import Tagwire.Proofs.Mapping.Taking

/-!
# Encoding without verification

A record that is not verified is encoded as if the members that its types do not declare were not there: the
outcome is that of the pruned record when it is verified.  So verification only ever refuses what it would
otherwise drop.  A mistyped member, that is one that addresses a field which cannot take its value, is refused
with and without verification, whatever else the record holds.
-/

set_option autoImplicit false

namespace Tagwire

open Schema

/-- The registry of definitions without well-known kinds is closed: each type that a field names is a scalar or
registered itself. -/
theorem CompiledSchema.IsSound.isClosed {definitions : List RecordDefinition} {compiled : CompiledSchema}
    {schema : Schema} (hs : compiled.IsSound definitions)
    (hkinds : ∀ d ∈ definitions, ∀ f ∈ d.fields, f.2.kind.isBundled = false)
    (hl : compiled.IsLoaded schema) : compiled.registry.IsClosed := by
  intro name type htype f hf
  cases hk : Scalar.ofKeyword? f.typeName with
  | some kind => exact .inl ⟨kind, hk⟩
  | none => exact .inr (hs.type_linked hkinds hl htype hf hk).2

namespace RegisteredType

/-- `typeField` addresses `typeTag` in a compiled type. -/
theorem IsLaidOut.member?_typeField {type : RegisteredType} (h : type.IsLaidOut) :
    type.member? typeField = some .typeTag := by
  have hfound := find?_eq_some_of_nodup (g := RegisteredField.name) h.names_nodup h.typeTag_mem
  unfold member?
  rw [show typeField = RegisteredField.typeTag.name from rfl, hfound]

end RegisteredType

namespace Registry

/-- `prune` keeps the type that a record names. -/
theorem typeName?_prune {registry : Registry} {record : Record} {name : String} {type : RegisteredType}
    (hname : record.typeName? = some name) (htype : registry.get? name = some type) (h : type.IsLaidOut) :
    (registry.prune record).typeName? = some name := by
  have hget : (registry.prune record).get? typeField = record.get? typeField := by
    rw [Record.get?, members_prune hname htype, get?_pruneMembers, h.member?_typeField, Option.bind_some]
    show (record.get? typeField).map _ = _
    rw [Record.get?_typeField hname]
    rfl
  rw [← hname, Record.typeName?, hget, Record.typeName?]

end Registry

namespace RegisteredType.IsLoaded

variable {schema : Schema} {type : RegisteredType} {strict : Bool} {record : Record}

/-- `toMessage` for a record of a loaded type: what `fieldsOfJson?` reads from its members, or a `violation` of
their content. -/
theorem toMessage_eq (ht : type.IsLoaded schema) : schema.toMessage type.linked strict record =
    match schema.fieldsOfJson? strict type.linked false [] record.members with
    | some values => .ok values
    | none => .error (.violation type.name .content) := by
  have hvalue : schema.valueOfJson? strict .single (.message type.linked.name) record.toJson =
      (schema.fieldsOfJson? strict type.linked false [] record.members).map .message :=
    ht.valueOfJson?_obj record.members
  rw [toMessage, messageOfJson?, hvalue]
  cases schema.fieldsOfJson? strict type.linked false [] record.members <;> rfl

/-- `toMessage` gives a message for a record of a loaded type exactly if `fieldsOfJson?` reads its members. -/
theorem toMessage_eq_ok_iff (ht : type.IsLoaded schema) {values : FieldValues} :
    schema.toMessage type.linked strict record = .ok values ↔
      schema.fieldsOfJson? strict type.linked false [] record.members = some values := by
  rw [ht.toMessage_eq]
  cases schema.fieldsOfJson? strict type.linked false [] record.members <;> simp

end RegisteredType.IsLoaded

namespace Codec

variable {codec : Codec} {record : Record} {schema : Schema}

/-- `encodeWith` without verification succeeds exactly if each member suits the fields that it addresses. -/
theorem exists_encodeWith_lenient_iff {compiled : CompiledSchema} {type : RegisteredType}
    (hstore : codec.store = ⟨some schema⟩) (hl : compiled.IsLoaded schema) (hc : compiled.registry.IsClosed)
    (htype : compiled.registry.get? type.name = some type) (hname : record.typeName? = some type.name) :
    (∃ bytes, codec.encodeWith { verify := false, predictive := false } record = .ok bytes) ↔
      compiled.registry.TakesMembers type record.members := by
  obtain ⟨-, ht⟩ := hl.of_get? htype
  rw [← hl.exists_fieldsOfJson?_iff_takesMembers hc htype, encodeWith_eq hstore ht hname,
    if_neg Bool.false_ne_true]
  simp only [encodeRecord_eq_ok_iff, ht.toMessage_eq_ok_iff]
  constructor
  · rintro ⟨_, values, hvalues, -⟩
    exact ⟨values, hvalues⟩
  · rintro ⟨values, hvalues⟩
    exact ⟨_, values, hvalues, rfl⟩

/-- A member that does not suit a field it addresses is refused by `encodeWith`, verified or not, as content that
violates the type. -/
theorem encodeWith_of_not_takesMembers {compiled : CompiledSchema} {type : RegisteredType}
    (hstore : codec.store = ⟨some schema⟩) (hl : compiled.IsLoaded schema) (hc : compiled.registry.IsClosed)
    (htype : compiled.registry.get? type.name = some type) (hname : record.typeName? = some type.name)
    (hnot : ¬ compiled.registry.TakesMembers type record.members) (verify : Bool) :
    codec.encodeWith { verify, predictive := false } record = .error (.violation type.name .content) := by
  obtain ⟨-, ht⟩ := hl.of_get? htype
  have hnone : schema.fieldsOfJson? verify type.linked false [] record.members = none := by
    rw [Option.eq_none_iff_forall_ne_some]
    intro values hvalues
    refine hnot ((hl.exists_fieldsOfJson?_iff_takesMembers hc htype _).mp ⟨values, ?_⟩)
    cases verify with
    | false => exact hvalues
    | true => exact fieldsOfJson?_of_strict _ hvalues
  rw [encodeWith_eq hstore ht hname, if_neg Bool.false_ne_true, encodeRecord, ht.toMessage_eq, hnone]
  rfl

/-- Without verification, `encodeWith` has for `record` the outcome that it has with verification for
`registry.prune record`, be this bytes or a failure.  So what is verified is encoded without verification to the
same bytes.  Without verification it succeeds exactly if every member of the record suits the fields that it
addresses (`Registry.TakesMembers`).  A mistyped member, one that is not null and that its field cannot take,
fails on its own in both modes with `violation name .content`. -/
theorem encodeWith_lenient {definitions : List RecordDefinition} {compiled : CompiledSchema}
    (h : compile definitions = .ok compiled)
    (hkinds : ∀ d ∈ definitions, ∀ f ∈ d.fields, f.2.kind.isBundled = false)
    (hload : SchemaStore.loadText {} compiled.document.text = .ok codec.store) {name : String}
    {type : RegisteredType} (hname : record.typeName? = some name)
    (htype : compiled.registry.get? name = some type) :
    codec.encodeWith { verify := false, predictive := false } record =
        codec.encodeWith { verify := true, predictive := false } (compiled.registry.prune record) ∧
      (∀ bytes, codec.encodeWith { verify := true, predictive := false } record = .ok bytes →
        codec.encodeWith { verify := false, predictive := false } record = .ok bytes) ∧
      ((∃ bytes, codec.encodeWith { verify := false, predictive := false } record = .ok bytes) ↔
        compiled.registry.TakesMembers type record.members) ∧
      ∀ key json f, record.get? key = some json → f ∈ type.fields → f.name = key ∨ f.protoName = key →
        json ≠ .null → ¬ compiled.registry.Takes f.repeated f.typeName json →
        ∀ verify, codec.encodeWith { verify, predictive := false } record =
          .error (.violation name .content) := by
  obtain ⟨schema, hstore, hl⟩ := CompiledSchema.exists_isLoaded_of_loadText h hload
  obtain ⟨rfl, ht⟩ := hl.of_get? htype
  have hc := (Compilation.isSound_of_compile h).isClosed hkinds hl
  refine ⟨?_, fun bytes hbytes => ?_, exists_encodeWith_lenient_iff hstore hl hc htype hname, ?_⟩
  · have hpruned := Registry.typeName?_prune hname htype ht.toIsLaidOut
    have hmessage : schema.toMessage type.linked false record =
        schema.toMessage type.linked true (compiled.registry.prune record) := by
      rw [ht.toMessage_eq, ht.toMessage_eq, Registry.members_prune hname htype,
        hl.fieldsOfJson?_pruneMembers hc ht.toIsLaidOut (hc _ type htype)]
    rw [encodeWith_eq hstore ht hname, encodeWith_eq hstore ht hpruned, if_neg Bool.false_ne_true,
      if_neg Bool.false_ne_true, encodeRecord, encodeRecord, hmessage]
  · rw [encodeWith_eq hstore ht hname, if_neg Bool.false_ne_true, encodeRecord_eq_ok_iff] at hbytes ⊢
    obtain ⟨values, hvalues, hencode⟩ := hbytes
    exact ⟨values, toMessage_of_strict hvalues false, hencode⟩
  · intro key json f hget hf hkey hne hnot
    refine encodeWith_of_not_takesMembers hstore hl hc htype hname fun hmembers => hnot ?_
    exact hmembers _ (Entries.mem_of_get?_eq_some hget) f hf hkey hne

end Codec

/-- `sparseNode` with the members `extra`, that neither a node nor a leaf declares, put in at both levels. -/
def litteredNode : Record :=
  ⟨[("extra", .arr [.null]), ("leaf", .obj [("extra", .int 1), ("size", .str "3")]), ("names", .null),
    ("type", .str "NodeMessage")], by decide⟩

/-- `prune` makes `sparseNode` of `litteredNode`. -/
theorem prune_litteredNode {registry : Registry} {leaf node : RegisteredType}
    (hleaf : registry.get? "LeafMessage" = some leaf) (hleafFields : leaf.fields = leafFields)
    (hnode : registry.get? "NodeMessage" = some node) (hnodeFields : node.fields = nodeFields) :
    registry.prune litteredNode = sparseNode := by
  have hname : litteredNode.typeName? = some "NodeMessage" := by decide
  rw [Registry.prune, hname, Option.bind_some, hnode]
  simp [litteredNode, sparseNode, Registry.pruneMembers, Registry.pruneValue, RegisteredType.member?, hleaf,
    hleafFields, hnodeFields, leafFields, nodeFields, RegisteredField.typeTag, typeField]

/-- A node whose leaf has a list in the place of its integer `size`. -/
def mistypedNode : Record :=
  ⟨[("leaf", .obj [("size", .arr [])]), ("type", .str "NodeMessage")], by decide⟩

/-- A leaf does not take a list for its `size`. -/
theorem not_takes_mistypedNode {registry : Registry} {leaf : RegisteredType}
    (hleaf : registry.get? "LeafMessage" = some leaf) (hleafFields : leaf.fields = leafFields) :
    ¬ registry.Takes false "LeafMessage" (.obj [("size", .arr [])]) := by
  have hkeyword : Scalar.ofKeyword? "LeafMessage" = none := by decide
  rw [Registry.takes_record_iff hleaf hkeyword]
  rintro ⟨_, ⟨⟩, hmembers⟩
  have hsize : registry.Takes false "int32" (.arr []) := by
    refine hmembers ("size", .arr []) (List.mem_singleton_self _) ⟨"size", "size", 2, "int32", false⟩ ?_
      (.inl rfl) (by simp)
    rw [hleafFields]
    decide
  cases hsize with
  | scalar _ htakes => cases htakes

/-- `litteredNode` is encoded without verification to the bytes that `sparseNode`, which is what `prune` leaves
of it, has with verification; and `mistypedNode` is refused in both modes. -/
theorem Codec.encodeWith_lenient_litteredNode : ∃ compiled, ∃ codec : Codec, ∃ bytes,
    compile nodeDefinitions = .ok compiled ∧
      SchemaStore.loadText {} compiled.document.text = .ok codec.store ∧
      compiled.registry.prune litteredNode = sparseNode ∧
      codec.encodeWith { verify := false, predictive := false } litteredNode = .ok bytes ∧
      codec.encodeWith { verify := true, predictive := false } sparseNode = .ok bytes ∧
      mistypedNode.get? "leaf" = some (.obj [("size", .arr [])]) ∧
      ¬ compiled.registry.Takes false "LeafMessage" (.obj [("size", .arr [])]) ∧
      ∀ verify, codec.encodeWith { verify, predictive := false } mistypedNode =
        .error (.violation "NodeMessage" .content) := by
  obtain ⟨compiled, leaf, node, h, hlinkable, hleaf, hleafFields, hnode, hnodeFields⟩ :=
    exists_compile_nodeDefinitions
  obtain ⟨same, codec, schema, hsame, hload, -, hstore, hl⟩ :=
    CompilesLinkable.exists_codec ⟨compiled, h, hlinkable⟩ .builtIn
  obtain rfl : compiled = same := Except.ok.inj (h.symm.trans hsame)
  obtain ⟨hleafName, hleafLoaded⟩ := hl.of_get? hleaf
  obtain ⟨hnodeName, hnodeLoaded⟩ := hl.of_get? hnode
  obtain ⟨hmessage, -⟩ := toMessage_sparseNode hleafLoaded hleafName hleafFields hnodeLoaded hnodeName
    hnodeFields true
  have hkinds : ∀ d ∈ nodeDefinitions, ∀ f ∈ d.fields, f.2.kind.isBundled = false := by decide
  have hname : litteredNode.typeName? = some "NodeMessage" := by decide
  have hsparse : sparseNode.typeName? = some node.name := hnodeName ▸ by decide
  have hprune := prune_litteredNode hleaf hleafFields hnode hnodeFields
  obtain ⟨heq, -, -, -⟩ := encodeWith_lenient h hkinds hload hname hnode
  have hencode : codec.encodeWith { verify := true, predictive := false } sparseNode =
      .ok (schema.encode node.linked sparseNodeValues) := by
    rw [encodeWith_eq hstore hnodeLoaded hsparse, if_neg Bool.false_ne_true]
    exact encodeRecord_eq_ok_iff.mpr ⟨_, hmessage, rfl⟩
  have hleaf' : mistypedNode.get? "leaf" = some (.obj [("size", .arr [])]) := rfl
  have hnot := not_takes_mistypedNode hleaf hleafFields
  have hmistypedName : mistypedNode.typeName? = some "NodeMessage" := by decide
  obtain ⟨-, -, -, hmistyped⟩ := encodeWith_lenient h hkinds hload hmistypedName hnode
  have hfield : (⟨"leaf", "leaf", 2, "LeafMessage", false⟩ : RegisteredField) ∈ node.fields := by
    rw [hnodeFields]
    decide
  exact ⟨compiled, codec, _, h, hload, hprune, (hprune ▸ heq).trans hencode, hencode, hleaf', hnot,
    hmistyped "leaf" _ _ hleaf' hfield (.inl rfl) (by simp) hnot⟩

end Tagwire
