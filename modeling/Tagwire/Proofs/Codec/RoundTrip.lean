import Tagwire.Proofs.Codec.Conversion
import Tagwire.Proofs.Mapping.RoundTrip

/-!
# Decoding undoes encoding

Definitions whose fields hold records and scalars that keep all their digits give types whose records come
back from plain bytes just as they were.  The records of a loaded schema return by induction on the levels
of records within them, each level taking one of the depth that the reader starts with.
-/

set_option autoImplicit false

namespace Tagwire

open Schema

/-- Does a field of the kind hold a well-known type, which a bundled document declares? -/
def FieldKind.isBundled : FieldKind → Bool
  | .wellKnown _ => true
  | _ => false

/-- Does a field of the kind hold a record, or a scalar other than a `float`, which is rounded? -/
def FieldKind.isExact : FieldKind → Bool
  | .scalar kind => kind != .float
  | .wellKnown _ => false
  | .record _ => true

/-- A kind that is exact is no well-known type. -/
theorem FieldKind.isBundled_of_isExact {kind : FieldKind} (h : kind.isExact = true) :
    kind.isBundled = false := by
  cases kind <;> first | rfl | cases h

namespace CompiledSchema

variable {definitions : List RecordDefinition} {compiled : CompiledSchema} {schema : Schema}

/-- For definitions without well-known kinds, a registered field links to a scalar or to a registered record. -/
theorem IsSound.type_linked (hs : compiled.IsSound definitions)
    (hkinds : ∀ d ∈ definitions, ∀ f ∈ d.fields, f.2.kind.isBundled = false)
    (hl : compiled.IsLoaded schema) {name : String} {type : RegisteredType}
    (h : compiled.registry.get? name = some type) {f : RegisteredField} (hf : f ∈ type.fields)
    (hk : Scalar.ofKeyword? f.typeName = none) :
    f.linked.type = .message f.typeName ∧ f.typeName ∈ compiled.registry.names := by
  obtain ⟨b, hb, rfl⟩ := List.mem_map.mp ((hs.listed name).mp (Registry.mem_names_of_get? h))
  obtain ⟨registered, hregistered, -, -, hfields⟩ := hs.registered b hb
  rw [h, Option.some.injEq] at hregistered
  have hline : f.line ∈ compiled.document.fields := by
    refine List.mem_flatMap.mpr ⟨b, hb, ?_⟩
    rw [hfields, ← hregistered]
    exact List.mem_map_of_mem hf
  have hkind : IsKindText definitions _ f.typeName := hs.kinds f.line hline
  rw [RegisteredField.type_linked]
  generalize f.typeName = typeName at hk hkind
  cases hkind with
  | tag => cases hk
  | scalar =>
    rw [ofKeyword?_keyword] at hk
    cases hk
  | wellKnown hd hf hwellKnown =>
    have hown := hkinds _ hd _ hf
    rw [hwellKnown] at hown
    cases hown
  | record hd hf hrecord hn =>
    have hlisted := (hs.listed typeName).mpr hn
    obtain ⟨target, -, rfl, hloaded⟩ := hl.types typeName hlisted
    exact ⟨hloaded.linkedType_name, hlisted⟩

/-- A record in normal form with `levels` levels returns through a reader with so much depth. -/
theorem IsSound.recordReturns (hs : compiled.IsSound definitions)
    (hkinds : ∀ d ∈ definitions, ∀ f ∈ d.fields, f.2.kind.isExact = true)
    (hl : compiled.IsLoaded schema) {strict : Bool} {unpack : Unpack} {levels : Nat} {name : String}
    {json : Json} (h : compiled.registry.IsNormal levels name json) :
    RecordReturns schema strict unpack (schema.nestedReader levels) name json := by
  induction levels generalizing name json with
  | zero => exact h.elim
  | succ levels ih =>
    obtain ⟨type, members, htype, rfl, hnormal⟩ := h
    obtain ⟨rfl, ht⟩ := hl.of_get? htype
    have hrecords : ∀ f ∈ type.fields, Scalar.ofKeyword? f.typeName = none →
        f.linked.type = .message f.typeName :=
      fun f hf hk => (hs.type_linked (fun d hd f hf => FieldKind.isBundled_of_isExact (hkinds d hd f hf))
        hl htype hf hk).1
    refine ht.recordReturns hnormal.sorted (fun key json hjson => ?_) fun f hf hpresence => ?_
    · obtain ⟨f, hf, hname, hvalue⟩ := hnormal.declared key json hjson
      exact ⟨f, hf, hname, ht.fieldReturns_of_isNormal hf (hrecords f hf) (fun _ _ => ih) hvalue⟩
    · apply hnormal.present f hf
      rw [RegisteredField.presence_linked] at hpresence
      cases hk : Scalar.ofKeyword? f.typeName with
      | some kind => simp [RegisteredField.isOptional, hk]
      | none =>
        have hmessage : f.isMessage = true := by
          rw [RegisteredField.isMessage, ← RegisteredField.type_linked, hrecords f hf hk]
          rfl
        rw [hmessage, Bool.and_true] at hpresence
        rw [RegisteredField.isOptional, hpresence, Bool.false_and]

end CompiledSchema

/-- `encode` gives bytes for every record in normal form (`Registry.IsNormal`, with at most `maxNesting` levels
beneath the outermost message), and `decodeAs` gives the record back.  The bytes are fewer than `2 ^ 64`, as
their lengths are written. -/
theorem Codec.decodeAs_encode {definitions : List RecordDefinition} {compiled : CompiledSchema}
    (h : compile definitions = .ok compiled)
    (hkinds : ∀ d ∈ definitions, ∀ f ∈ d.fields, f.2.kind.isExact = true)
    {codec : Codec} (hload : SchemaStore.loadText {} compiled.document.text = .ok codec.store)
    {record : Record} {name : String} (hname : record.typeName? = some name)
    (hnormal : compiled.registry.IsNormal (maxNesting + 1) name record.toJson) :
    ∃ bytes, codec.encode record = .ok bytes ∧
      (bytes.length < 2 ^ 64 → codec.decodeAs bytes name = .ok record) := by
  obtain ⟨schema, hstore, hl⟩ := CompiledSchema.exists_isLoaded_of_loadText h hload
  obtain ⟨type, -, htype, -⟩ := id hnormal
  obtain ⟨rfl, ht⟩ := hl.of_get? htype
  have hreturns : RecordReturns schema codec.verifyByDefault schema.unpackAny?
      (schema.nestedReader (maxNesting + 1)) type.name record.toJson :=
    (Compilation.isSound_of_compile h).recordReturns hkinds hl hnormal
  obtain ⟨message, values, hm, -, hreads, hback⟩ := hreturns
  rw [ht.linked, Option.some.injEq] at hm
  subst hm
  refine ⟨schema.encode type.linked values, ?_, fun hlength => ?_⟩
  · rw [encode, encodeWith_eq hstore ht hname, if_neg (by simp)]
    exact encodeRecord_eq_ok_iff.mpr ⟨values, toMessage_eq_ok_iff.mpr hreads, rfl⟩
  · obtain ⟨read, hread, hform⟩ := hback hlength
    have hdecode : schema.decode? type.linked (schema.encode type.linked values) = some read :=
      congrArg (Option.map Prod.fst) hread
    have hjson : schema.messageToJson? type.linked read = some (.obj record.members) := hform
    rw [decodeAs_eq hstore ht, decodeRecord_eq, hdecode, Option.bind_some, hjson]
    show Except.ok (Record.withType ⟨.ofList record.members⟩ type.name) = _
    rw [record.ofList_members, Record.withType_eq (Record.get?_typeField hname)]

/-- The definitions of a leaf with an integer `size`, and of a node with a `leaf` and a list of texts
`names`. -/
def nodeDefinitions : List RecordDefinition :=
  [{ id := "Leaf", fields := [("size", { kind := .scalar .int32 })] },
   { id := "Node", fields := [("leaf", { kind := .record "Leaf" }),
      ("names", { kind := .scalar .string, repeated := true })] }]

/-- The registered fields of a leaf: `type`, and `size` with number 2. -/
def leafFields : List RegisteredField := [.typeTag, ⟨"size", "size", 2, "int32", false⟩]

/-- The registered fields of a node: `type`, `leaf` with number 2, and `names` with number 3. -/
def nodeFields : List RegisteredField :=
  [.typeTag, ⟨"leaf", "leaf", 2, "LeafMessage", false⟩, ⟨"names", "names", 3, "string", true⟩]

/-- The members of a leaf of size 3, as it is decoded: its type is empty. -/
def leafMembers : Entries Json := [("size", .int 3), ("type", .str "")]

/-- A node with such a leaf and one name. -/
def nodeRecord : Record :=
  ⟨[("leaf", .obj leafMembers), ("names", .arr [.str "a"]), ("type", .str "NodeMessage")], by decide⟩

/-- `nodeDefinitions` compile to a document that can be linked, and to a registry with both types. -/
theorem exists_compile_nodeDefinitions : ∃ compiled leaf node,
    compile nodeDefinitions = .ok compiled ∧ compiled.document.IsLinkable ∧
      compiled.registry.get? "LeafMessage" = some leaf ∧ leaf.fields = leafFields ∧
      compiled.registry.get? "NodeMessage" = some node ∧ node.fields = nodeFields := by
  have hcompiles : ∃ compiled, compile nodeDefinitions = .ok compiled ∧
      (∀ f ∈ compiled.document.fields, IsPermitted f.number) := by
    have : CompilesPermitted nodeDefinitions := by decide
    exact this
  obtain ⟨compiled, h, hn⟩ := hcompiles
  have hleaf : ((compile nodeDefinitions).toOption.bind fun c =>
      (c.registry.get? "LeafMessage").map RegisteredType.fields) = some leafFields := by
    decide
  have hnode : ((compile nodeDefinitions).toOption.bind fun c =>
      (c.registry.get? "NodeMessage").map RegisteredType.fields) = some nodeFields := by
    decide
  have hnames : (((compile nodeDefinitions).toOption.map fun c =>
      c.document.messages.all fun b => (b.fields.map fun f => foldedName f.name).Nodup)) = some true := by
    decide
  rw [h] at hleaf hnode hnames
  obtain ⟨leaf, hleaf, hleafFields⟩ := Option.map_eq_some_iff.mp hleaf
  obtain ⟨node, hnode, hnodeFields⟩ := Option.map_eq_some_iff.mp hnode
  have hapart := Option.some.inj hnames
  rw [List.all_eq_true] at hapart
  exact ⟨compiled, leaf, node, h, ⟨hn, fun b hb => of_decide_eq_true (hapart b hb)⟩, hleaf, hleafFields,
    hnode, hnodeFields⟩

/-- Definitions that compile to a document that can be linked have a codec over its schema, with any cipher. -/
theorem CompilesLinkable.exists_codec {definitions : List RecordDefinition}
    (h : CompilesLinkable definitions) (cipher : TagCipher) : ∃ compiled, ∃ codec : Codec, ∃ schema,
      compile definitions = .ok compiled ∧
        SchemaStore.loadText {} compiled.document.text = .ok codec.store ∧ codec.cipher = cipher ∧
        codec.store = ⟨some schema⟩ ∧ compiled.IsLoaded schema := by
  obtain ⟨compiled, hcompile, hlinkable⟩ := h
  obtain ⟨schema, hloaded, hload⟩ := CompiledSchema.exists_isLoaded hcompile
  have hstore := (hload ⟨some schema⟩).mpr ⟨hlinkable, rfl⟩
  exact ⟨compiled, { store := ⟨some schema⟩, cipher }, schema, hcompile, hstore, rfl, rfl,
    hloaded hlinkable⟩

/-- There is a codec for `nodeDefinitions`, into whose schema both types are loaded. -/
theorem exists_nodeCodec : ∃ compiled, ∃ codec : Codec, ∃ schema node,
    compile nodeDefinitions = .ok compiled ∧
      SchemaStore.loadText {} compiled.document.text = .ok codec.store ∧ codec.store = ⟨some schema⟩ ∧
      compiled.IsLoaded schema ∧ compiled.registry.get? "NodeMessage" = some node ∧
      node.name = "NodeMessage" ∧ node.fields = nodeFields ∧ node.IsLoaded schema := by
  obtain ⟨compiled, -, node, h, hlinkable, -, -, hnode, hfields⟩ := exists_compile_nodeDefinitions
  obtain ⟨same, codec, schema, hsame, hload, -, hstore, hl⟩ :=
    CompilesLinkable.exists_codec ⟨compiled, h, hlinkable⟩ .builtIn
  obtain rfl : compiled = same := Except.ok.inj (h.symm.trans hsame)
  obtain ⟨hname, ht⟩ := hl.of_get? hnode
  exact ⟨compiled, codec, schema, node, h, hload, hstore, hl, hnode, hname, hfields, ht⟩

/-- `nodeRecord` is in normal form. -/
theorem isNormal_nodeRecord {registry : Registry} {leaf node : RegisteredType}
    (hleaf : registry.get? "LeafMessage" = some leaf) (hleafFields : leaf.fields = leafFields)
    (hnode : registry.get? "NodeMessage" = some node) (hnodeFields : node.fields = nodeFields)
    (levels : Nat) : registry.IsNormal (levels + 2) "NodeMessage" nodeRecord.toJson := by
  have hnormal : registry.IsNormal (levels + 1) "LeafMessage" (.obj leafMembers) := by
    refine ⟨leaf, leafMembers, hleaf, rfl, ?_, fun key json hjson => ?_, ?_⟩
    · decide
    · have hmem := Entries.mem_of_get?_eq_some hjson
      rw [hleafFields]
      simp only [leafMembers, List.mem_cons, Prod.mk.injEq, List.not_mem_nil, or_false] at hmem
      rcases hmem with ⟨rfl, rfl⟩ | ⟨rfl, rfl⟩
      · exact ⟨_, List.mem_cons_of_mem _ List.mem_cons_self, rfl, 3, rfl, by decide, by decide⟩
      · exact ⟨_, List.mem_cons_self, rfl, "", rfl⟩
    · rw [hleafFields]
      decide
  refine ⟨node, nodeRecord.members, hnode, rfl, ?_, fun key json hjson => ?_, ?_⟩
  · decide
  · have hmem := Entries.mem_of_get?_eq_some hjson
    rw [hnodeFields]
    simp only [nodeRecord, Record.members_mk, List.mem_cons, Prod.mk.injEq, List.not_mem_nil, or_false] at hmem
    rcases hmem with ⟨rfl, rfl⟩ | ⟨rfl, rfl⟩ | ⟨rfl, rfl⟩
    · exact ⟨_, List.mem_cons_of_mem _ List.mem_cons_self, rfl, hnormal⟩
    · refine ⟨_, List.mem_cons_of_mem _ (List.mem_cons_of_mem _ List.mem_cons_self), rfl, _, rfl, ?_⟩
      intro item hitem
      exact ⟨"a", List.mem_singleton.mp hitem⟩
    · exact ⟨_, List.mem_cons_self, rfl, "NodeMessage", rfl⟩
  · rw [hnodeFields]
    decide

/-- The message type of a leaf. -/
def leafType : MessageType :=
  ⟨"LeafMessage", [RegisteredField.typeTag.linked,
    { name := "size", jsonName := "size", number := 2, type := .scalar .int32, default := .int 0 }]⟩

/-- The message type of a node. -/
def nodeType : MessageType :=
  ⟨"NodeMessage", [RegisteredField.typeTag.linked,
    { name := "leaf", jsonName := "leaf", number := 2, type := .message "LeafMessage", presence := true
      default := .message [] },
    { name := "names", jsonName := "names", number := 3, type := .scalar .string, shape := .list
      default := .list [] }]⟩

/-- The fields of a leaf link to `leafType`. -/
theorem linked_leaf {leaf : RegisteredType} (hname : leaf.name = "LeafMessage")
    (hfields : leaf.fields = leafFields) : leaf.linked = leafType := by
  have hsize := @RegisteredField.linked_eq ⟨"size", "size", 2, "int32", false⟩ "size" _ (by decide)
    (linkedType_keyword .int32)
  rw [RegisteredType.linked, hname, hfields, leafFields, List.map_cons, List.map_cons, List.map_nil, hsize]
  rfl

/-- The fields of a node link to `nodeType`. -/
theorem linked_node {node : RegisteredType} (hname : node.name = "NodeMessage")
    (hfields : node.fields = nodeFields) : node.linked = nodeType := by
  have hrecord := @RegisteredField.linked_eq ⟨"leaf", "leaf", 2, "LeafMessage", false⟩ "leaf" _ (by decide)
    (show linkedType "LeafMessage" = .message "LeafMessage" by decide)
  have hnames := @RegisteredField.linked_eq ⟨"names", "names", 3, "string", true⟩ "names" _ (by decide)
    (linkedType_keyword .string)
  rw [RegisteredType.linked, hname, hfields, nodeFields, List.map_cons, List.map_cons, List.map_cons,
    List.map_nil, hrecord, hnames]
  rfl

/-- The bytes of `nodeRecord` are fewer than `2 ^ 64`. -/
theorem length_encodeRecord_nodeRecord {schema : Schema} {leaf node : RegisteredType}
    (hleaf : leaf.IsLoaded schema) (hleafName : leaf.name = "LeafMessage")
    (hleafFields : leaf.fields = leafFields) (hnode : node.IsLoaded schema)
    (hnodeName : node.name = "NodeMessage") (hnodeFields : node.fields = nodeFields) {strict : Bool}
    {bytes : Bytes} (h : schema.encodeRecord node.linked strict nodeRecord = .ok bytes) :
    bytes.length < 2 ^ 64 := by
  have hint : Scalar.int32.ofJson? (.int 3) = some (.int 3) := rfl
  have htext : ∀ text, Scalar.string.ofJson? (.str text) = some (.string text) := fun _ => rfl
  have hmessage := hleaf.linked
  have hform := hleaf.ofTypeName?_eq_none
  have hmessage' := hnode.linked
  have hform' := hnode.ofTypeName?_eq_none
  obtain ⟨values, hvalues, rfl⟩ := encodeRecord_eq_ok_iff.mp h
  rw [toMessage_eq_ok_iff] at hvalues
  simp only [linked_leaf hleafName hleafFields, linked_node hnodeName hnodeFields, hleafName, hnodeName,
    leafType, nodeType, RegisteredField.linked_typeTag] at hmessage hform hmessage' hform' hvalues ⊢
  simp [valueOfJson?, fieldsOfJson?, itemsOfJson?, ofMember, MessageType.member?, MessageType.rivals,
    FieldValues.set, hmessage, hform, hmessage', hform', hint, htext, nodeRecord, leafMembers,
    Record.toJson, typeField] at hvalues
  subst hvalues
  simp [encode, encodeField, encodeItems, MessageType.field?, MessageField.omits, Value.isDefault,
    MessageField.encodeScalar, MessageField.encodeBody, ValueType.scalar?, ValueType.name, hmessage]
  decide +kernel

/-- `nodeRecord`, a node with a leaf in it, is encoded and decoded as itself. -/
theorem Codec.decodeAs_encode_nodeRecord : ∃ compiled store bytes,
    compile nodeDefinitions = .ok compiled ∧
      SchemaStore.loadText {} compiled.document.text = .ok store ∧
      Codec.encode { store, cipher := .builtIn } nodeRecord = .ok bytes ∧
      Codec.decodeAs { store, cipher := .builtIn } bytes "NodeMessage" = .ok nodeRecord := by
  obtain ⟨compiled, leaf, node, h, hlinkable, hleaf, hleafFields, hnode, hnodeFields⟩ :=
    exists_compile_nodeDefinitions
  obtain ⟨schema, hloaded, hload⟩ := CompiledSchema.exists_isLoaded h
  have hstore := (hload ⟨some schema⟩).mpr ⟨hlinkable, rfl⟩
  have hkinds : ∀ d ∈ nodeDefinitions, ∀ f ∈ d.fields, f.2.kind.isExact = true := by decide
  have hname : nodeRecord.typeName? = some "NodeMessage" := by decide
  let codec : Codec := { store := ⟨some schema⟩, cipher := .builtIn }
  have hstored : SchemaStore.loadText {} compiled.document.text = .ok codec.store := hstore
  obtain ⟨bytes, hencode, hdecode⟩ := Codec.decodeAs_encode h hkinds hstored hname
    (isNormal_nodeRecord hleaf hleafFields hnode hnodeFields _)
  obtain ⟨hleafName, hleafLoaded⟩ := (hloaded hlinkable).of_get? hleaf
  obtain ⟨hnodeName, hnodeLoaded⟩ := (hloaded hlinkable).of_get? hnode
  refine ⟨compiled, codec.store, bytes, h, hstore, hencode, hdecode ?_⟩
  rw [encode, encodeWith_eq rfl hnodeLoaded (hnodeName ▸ hname), if_neg (by simp)] at hencode
  exact length_encodeRecord_nodeRecord hleafLoaded hleafName hleafFields hnodeLoaded hnodeName
    hnodeFields hencode

end Tagwire
