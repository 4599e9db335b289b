import Tagwire.Codec
import Tagwire.Proofs.Schema.Loaded

/-!
# The life of a store

A store is asked to load documents and asked about the schema that it holds, in any order.  It is empty until a
load succeeds.  From then on it answers from the schema of this load, whatever it is asked: every other load is
refused, whichever documents it is of, and no other one succeeds.  A load that fails leaves an empty store as empty
as a new one.

A codec over a store that has not been filled is refused whatever needs a schema, but for one thing: the message
that a record stands for is refused for the type first, if the record names none.
-/

set_option autoImplicit false

namespace Tagwire

/-! ## Requests -/

/-- What a load is asked to read: a document given as text, or the documents under some paths among the files
that are there at the time. -/
inductive SchemaSource where
  | text (text : String)
  | files (view : FileView) (paths : List String)

/-- What a store can be asked about its schema, without changing it. -/
inductive SchemaQuestion where
  | isCompiled
  | schema
  | find (name : String)
  | verify (record : Record)
  | messageNames
  | registry

/-- The answer to a `SchemaQuestion`, with one constructor for each. -/
inductive SchemaAnswer where
  | isCompiled (flag : Bool)
  | schema (schema : Except CodecError Schema)
  | found (type : Except CodecError (Schema × MessageType))
  | verified (result : Except CodecError Unit)
  | messageNames (names : Except CodecError (List String))
  | registry (registry : Except CodecError Registry)

/-- A request to a store: to load documents, or to answer a question. -/
inductive StoreRequest where
  | load (source : SchemaSource)
  | ask (question : SchemaQuestion)

/-- The response to a request. -/
inductive StoreResponse where
  | loaded (result : Except CodecError Unit)
  | answered (answer : SchemaAnswer)

/-- Is it the response to a load that succeeded? -/
def StoreResponse.isSuccess : StoreResponse → Bool
  | loaded (.ok _) => true
  | _ => false

/-- Could the documents of a load not be read and linked, or were there none? -/
def CodecError.isLoadFault : CodecError → Bool
  | noDocuments | schemaLoad _ => true
  | _ => false

namespace SchemaSource

/-- The schema that the documents have, if they can be read and linked and there are any. -/
def schema? : SchemaSource → Option Schema
  | text document => Schema.ofText? document
  | files view paths => if paths.isEmpty then none else Schema.ofPaths? view paths

/-- The error for documents that have no schema: `noDocuments` where none are given, and else `schemaLoad` with
their names. -/
def fault : SchemaSource → CodecError
  | text _ => .schemaLoad Schema.inlineDocumentName
  | files _ paths => if paths.isEmpty then .noDocuments else .schemaLoad (", ".intercalate paths)

/-- `fault` is an error about the documents. -/
theorem isLoadFault_fault (source : SchemaSource) : source.fault.isLoadFault = true := by
  cases source with
  | text document => rfl
  | files view paths =>
    rw [fault]
    split <;> rfl

end SchemaSource

namespace SchemaStore

/-- Loads documents into a store, by `loadText` or by `loadFiles`. -/
def load (store : SchemaStore) : SchemaSource → Except CodecError SchemaStore
  | .text document => store.loadText document
  | .files view paths => store.loadFiles view paths

/-- Answers a question by the operation of the store that it stands for. -/
def answer (store : SchemaStore) : SchemaQuestion → SchemaAnswer
  | .isCompiled => .isCompiled store.isCompiled
  | .schema => .schema store.schema
  | .find name => .found (store.find name)
  | .verify record => .verified (store.verify record)
  | .messageNames => .messageNames store.messageNames
  | .registry => .registry store.registry

/-- Responds to a request: a load may fill the store, and a question leaves it as it is. -/
def respond (store : SchemaStore) : StoreRequest → SchemaStore × StoreResponse
  | .load source => (store.after (store.load source), .loaded ((store.load source).map fun _ => ()))
  | .ask question => (store, .answered (store.answer question))

/-- Responds to requests in turn, each on the store that the ones before it leave. -/
def run (store : SchemaStore) : List StoreRequest → SchemaStore × List StoreResponse
  | [] => (store, [])
  | request :: rest =>
    let (next, response) := store.respond request
    let (last, responses) := next.run rest
    (last, response :: responses)

/-- The first request is responded to, and then the rest by the store that it leaves. -/
theorem run_cons (store : SchemaStore) (request : StoreRequest) (rest : List StoreRequest) :
    store.run (request :: rest) =
      (((store.respond request).1.run rest).1,
        (store.respond request).2 :: ((store.respond request).1.run rest).2) :=
  rfl

/-- `run` on two lists of requests one behind the other goes on with the second where the first has ended. -/
theorem run_append (store : SchemaStore) (before after : List StoreRequest) :
    store.run (before ++ after) =
      (((store.run before).1.run after).1, (store.run before).2 ++ ((store.run before).1.run after).2) := by
  induction before generalizing store with
  | nil => rfl
  | cons request rest ih => rw [List.cons_append, run_cons, ih, run_cons, List.cons_append]

end SchemaStore

/-! ## A store that is filled -/

namespace Schema

/-- What a schema says to a question, once the store has it. -/
def answer (schema : Schema) : SchemaQuestion → SchemaAnswer
  | .isCompiled => .isCompiled true
  | .schema => .schema (.ok schema)
  | .find name =>
    .found <| match schema.find? name with
      | some type => .ok (schema, type)
      | none => .error (.typeNotFound name)
  | .verify record =>
    .verified <| (Codec.typeOf record).bind fun name =>
      match schema.find? name with
      | some type => (schema.toMessage type true record).map fun _ => ()
      | none => .error (.typeNotFound name)
  | .messageNames => .messageNames (.ok schema.messageNames)
  | .registry => .registry (.ok schema.registry)

/-- What a filled store responds: `alreadyCompiled` to any load, and what its schema says to a question. -/
def respond (schema : Schema) : StoreRequest → StoreResponse
  | .load _ => .loaded (.error .alreadyCompiled)
  | .ask question => .answered (schema.answer question)

end Schema

namespace SchemaStore

variable {schema : Schema} {requests : List StoreRequest}

/-- A filled store answers every load with `alreadyCompiled`. -/
theorem load_filled (schema : Schema) (source : SchemaSource) :
    load ⟨some schema⟩ source = .error .alreadyCompiled := by
  cases source <;> rfl

/-- A filled store answers every question from its schema. -/
theorem answer_filled (schema : Schema) (question : SchemaQuestion) :
    answer ⟨some schema⟩ question = schema.answer question := by
  cases question with
  | verify record =>
    rw [answer, Schema.answer]
    unfold verify
    show SchemaAnswer.verified ((Codec.typeOf record).bind fun name => _) = _
    refine congrArg SchemaAnswer.verified (congrArg (Except.bind _) (funext fun name => ?_))
    cases hfind : schema.find? name with
    | none => rw [find_eq_error hfind]; rfl
    | some type =>
      rw [find_eq_ok_iff.mpr ⟨rfl, hfind⟩]
      show (schema.toMessage type true record).bind _ = (schema.toMessage type true record).map _
      cases schema.toMessage type true record <;> rfl
  | _ => rfl

/-- A filled store responds to every request from its schema, and keeps it. -/
theorem respond_filled (schema : Schema) (request : StoreRequest) :
    respond ⟨some schema⟩ request = (⟨some schema⟩, schema.respond request) := by
  cases request with
  | load source => rw [respond, load_filled, after, Schema.respond, Except.map]
  | ask question => rw [respond, answer_filled, Schema.respond]

/-- A filled store responds to any list of requests from its schema, and keeps it. -/
theorem run_filled (schema : Schema) (requests : List StoreRequest) :
    run ⟨some schema⟩ requests = (⟨some schema⟩, requests.map schema.respond) := by
  induction requests with
  | nil => rfl
  | cons request rest ih => rw [run_cons, respond_filled, ih, List.map_cons]

/-- No response of a filled store is the success of a load. -/
theorem isSuccess_respond (schema : Schema) (request : StoreRequest) :
    (schema.respond request).isSuccess = false := by
  cases request <;> rfl

/-! ## A store that is empty -/

/-- An empty store is filled by documents that have a schema, and refuses all others with their `fault`. -/
theorem load_empty (source : SchemaSource) :
    load {} source = match source.schema? with
      | some schema => .ok ⟨some schema⟩
      | none => .error source.fault := by
  cases source with
  | text document => rfl
  | files view paths =>
    rw [load, loadFiles, SchemaSource.schema?, SchemaSource.fault]
    cases paths <;> rfl

/-- An empty store is still empty after a request, or the request was a load of documents with a schema and has
filled it. -/
theorem respond_empty (request : StoreRequest) :
    ((respond {} request).1 = {} ∧ (respond {} request).2.isSuccess = false) ∨
      ∃ source schema, request = .load source ∧ source.schema? = some schema ∧
        respond {} request = (⟨some schema⟩, .loaded (.ok ())) := by
  cases request with
  | ask question => exact .inl ⟨rfl, rfl⟩
  | load source =>
    rw [respond, load_empty]
    cases hschema : source.schema? with
    | none => exact .inl ⟨rfl, rfl⟩
    | some schema => exact .inr ⟨source, schema, rfl, hschema, rfl⟩

/-- A new store is still empty after requests, none of them a load that succeeded, or one load did: the store
was empty before it and is filled with its schema after it, from which everything else was answered. -/
theorem run_empty (requests : List StoreRequest) :
    ((run {} requests).1 = {} ∧ (run {} requests).2.any StoreResponse.isSuccess = false) ∨
      ∃ before source schema after, requests = before ++ .load source :: after ∧
        source.schema? = some schema ∧ (run {} before).1 = {} ∧
        (run {} before).2.any StoreResponse.isSuccess = false ∧
        run {} requests =
          (⟨some schema⟩, (run {} before).2 ++ .loaded (.ok ()) :: after.map schema.respond) := by
  induction requests with
  | nil => exact .inl ⟨rfl, rfl⟩
  | cons request rest ih =>
    obtain ⟨hstore, hresponse⟩ | ⟨source, schema, rfl, hschema, hrespond⟩ := respond_empty request
    · -- The store is as new, so that the rest of the requests may be taken by themselves.
      have hrun : ∀ requests, run {} (request :: requests) =
          ((run {} requests).1, (respond {} request).2 :: (run {} requests).2) := by
        intro requests
        rw [run_cons, hstore]
      rw [hrun]
      obtain ⟨hempty, hnone⟩ | ⟨before, source, schema, after, rfl, hschema, hempty, hnone, hlast⟩ := ih
      · exact .inl ⟨hempty, by rw [List.any_cons, hresponse, hnone]; rfl⟩
      · refine .inr ⟨request :: before, source, schema, after, rfl, hschema, ?_, ?_, ?_⟩
        · rw [hrun, hempty]
        · rw [hrun, List.any_cons, hresponse, hnone]
          rfl
        · rw [hlast, hrun, List.cons_append]
    · refine .inr ⟨[], source, schema, rest, rfl, hschema, rfl, rfl, ?_⟩
      rw [run_cons, hrespond, run_filled]
      rfl

/-- A store that responds to a load otherwise than by refusing it unseen is empty. -/
theorem eq_empty_of_respond {store : SchemaStore} {source : SchemaSource} {result : Except CodecError Unit}
    (h : (store.respond (.load source)).2 = .loaded result) (hseen : result ≠ .error .alreadyCompiled) :
    store = {} := by
  obtain ⟨_ | schema⟩ := store
  · rfl
  · rw [respond, load_filled, StoreResponse.loaded.injEq] at h
    exact absurd h.symm hseen

/-- A new store is filled by requests exactly when one of them is a load that succeeded. -/
theorem isCompiled_run (requests : List StoreRequest) :
    (run {} requests).1.isCompiled = (run {} requests).2.any StoreResponse.isSuccess := by
  obtain ⟨hempty, hnone⟩ | ⟨before, source, schema, after, -, -, -, -, hrun⟩ := run_empty requests
  · rw [hempty, hnone]
    rfl
  · rw [hrun, List.any_append, List.any_cons]
    exact (Bool.or_true _).symm

/-- Of all requests to a new store, one at most is a load that succeeds. -/
theorem countP_run_le_one (requests : List StoreRequest) :
    (run {} requests).2.countP StoreResponse.isSuccess ≤ 1 := by
  have hcount : ∀ responses : List StoreResponse, responses.any StoreResponse.isSuccess = false →
      responses.countP StoreResponse.isSuccess = 0 := by
    intro responses hnone
    simpa [List.countP_eq_zero] using hnone
  obtain ⟨-, hnone⟩ | ⟨before, source, schema, after, -, -, -, hnone, hrun⟩ := run_empty requests
  · rw [hcount _ hnone]
    exact Nat.zero_le 1
  · have hrest : (after.map schema.respond).any StoreResponse.isSuccess = false := by
      simp [isSuccess_respond]
    rw [hrun, List.countP_append, List.countP_cons, hcount _ hnone, hcount _ hrest]
    exact Nat.le_refl 1

/-- For every list of requests to a new `SchemaStore`: the store is filled exactly when some load has succeeded;
at most one load has succeeded; a load that fails for its documents leaves the store new; and after the load
that has succeeded the store keeps its schema and every later request is answered by `Schema.respond`, a further
load with `alreadyCompiled`. -/
theorem run_spec (requests : List StoreRequest) :
    (run {} requests).1.isCompiled = (run {} requests).2.any StoreResponse.isSuccess ∧
    (run {} requests).2.countP StoreResponse.isSuccess ≤ 1 ∧
    (∀ source error, ((run {} requests).1.respond (.load source)).2 = .loaded (.error error) →
      error.isLoadFault = true → (run {} (requests ++ [.load source])).1 = {}) ∧
    ∀ before source after, requests = before ++ .load source :: after →
      ((run {} before).1.respond (.load source)).2 = .loaded (.ok ()) →
      ∃ schema, source.schema? = some schema ∧
        run {} requests =
          (⟨some schema⟩, (run {} before).2 ++ .loaded (.ok ()) :: after.map schema.respond) := by
  refine ⟨isCompiled_run requests, countP_run_le_one requests, fun source error hresponse hfault => ?_,
    fun before source after hrequests hresponse => ?_⟩
  · have hseen : Except.error error ≠ (.error .alreadyCompiled : Except CodecError Unit) := by
      rintro ⟨⟩
      cases hfault
    have hempty := eq_empty_of_respond hresponse hseen
    rw [hempty] at hresponse
    obtain ⟨hkept, -⟩ | ⟨own, schema, -, -, hrespond⟩ := respond_empty (.load source)
    · rw [run_append, hempty, run_cons, hkept]
      rfl
    · rw [hrespond] at hresponse
      cases hresponse
  · have hempty := eq_empty_of_respond hresponse nofun
    rw [hempty] at hresponse
    obtain ⟨-, hnone⟩ | ⟨own, schema, hown, hschema, hrespond⟩ := respond_empty (.load source)
    · rw [hresponse] at hnone
      cases hnone
    · cases hown
      refine ⟨schema, hschema, ?_⟩
      rw [hrequests, run_append, hempty, run_cons, hrespond, run_filled]

/-- Requests around a load that succeeds: one before any documents are there, one without documents, and two after
the load, of which one has a text that cannot be read. -/
def mixedRequests : List StoreRequest :=
  [.ask .messageNames, .load (.files ⟨fun _ => .nothing, 0⟩ []), .load (.text ""), .load (.text "message"),
    .ask .messageNames]

/-- The responses to `mixedRequests`: a question before any load gives `notCompiled`, a load of no documents
`noDocuments`, a load of the empty document succeeds, the next load gives `alreadyCompiled`, and the names are
those of the schema. -/
theorem run_mixedRequests : ∃ schema, run {} mixedRequests =
    (⟨some schema⟩, [.answered (.messageNames (.error .notCompiled)), .loaded (.error .noDocuments),
      .loaded (.ok ()), .loaded (.error .alreadyCompiled),
      .answered (.messageNames (.ok schema.messageNames))]) := by
  obtain ⟨schema, hschema⟩ : ∃ schema, Schema.ofText? "" = some schema :=
    Option.isSome_iff_exists.mp (by decide +kernel)
  have hrespond : (respond {} (.load (.text ""))).2 = .loaded (.ok ()) := by
    rw [respond, load_empty, SchemaSource.schema?, hschema]
    rfl
  obtain ⟨own, -, hrun⟩ := (run_spec mixedRequests).2.2.2
    [.ask .messageNames, .load (.files ⟨fun _ => .nothing, 0⟩ [])] (.text "")
    [.load (.text "message"), .ask .messageNames] rfl hrespond
  exact ⟨own, hrun⟩

end SchemaStore

/-! ## Codecs without a schema -/

namespace Codec

/-- A codec whose store no load has filled answers `find`, `verify`, `encode`, `encodePredictive`, `encodeWith`,
`decodeAs` and `decodePredictive` with `notCompiled`, whatever the arguments.  `toMessage` does so exactly for a
record that names a type, and gives `missingType` for any other.  `peekType` needs no schema and gives what it
gives over any store. -/
theorem notCompiled_of_never_loaded {codec : Codec} {requests : List StoreRequest}
    (hstore : codec.store = (SchemaStore.run {} requests).1)
    (hnever : (SchemaStore.run {} requests).2.any StoreResponse.isSuccess = false) :
    (∀ name, codec.store.find name = .error .notCompiled) ∧
    (∀ record, codec.verify record = .error .notCompiled) ∧
    (∀ record, codec.encode record = .error .notCompiled) ∧
    (∀ record, codec.encodePredictive record = .error .notCompiled) ∧
    (∀ options record, codec.encodeWith options record = .error .notCompiled) ∧
    (∀ bytes name, codec.decodeAs bytes name = .error .notCompiled) ∧
    (∀ bytes registry, codec.decodePredictive bytes registry = .error .notCompiled) ∧
    (∀ record strict, codec.toMessage record strict =
      .error (if record.typeName?.isSome then .notCompiled else .missingType)) ∧
    ∀ bytes store, { codec with store }.peekType bytes = codec.peekType bytes := by
  have hempty : codec.store = {} := by
    rw [← SchemaStore.isCompiled_run, ← hstore] at hnever
    generalize codec.store = store at hnever
    obtain ⟨_ | schema⟩ := store
    · rfl
    · cases hnever
  have hfind : ∀ name, codec.store.find name = .error .notCompiled := by
    intro name
    rw [hempty]
    rfl
  have hschema : codec.store.schema = .error .notCompiled := by
    rw [hempty]
    rfl
  have hencode : ∀ options record, codec.encodeWith options record = .error .notCompiled := by
    intro options record
    unfold encodeWith
    rw [hschema]
    rfl
  refine ⟨hfind, fun record => ?_, fun record => hencode _ record, fun record => hencode _ record, hencode,
    fun bytes name => ?_, fun bytes registry => ?_, fun record strict => ?_, fun bytes store => rfl⟩
  · rw [verify, SchemaStore.verify, hschema]
    rfl
  · rw [decodeAs, hfind]
    rfl
  · unfold decodePredictive
    rw [hschema]
    rfl
  · rw [toMessage, typeOf]
    cases record.typeName? with
    | none => rfl
    | some name =>
      show (codec.store.find name).bind _ = _
      rw [hfind]
      rfl

/-- A codec over a new store that was asked to load no documents answers `decodeAs` and `toMessage` with
`notCompiled`. -/
theorem notCompiled_of_no_documents : ∃ codec : Codec,
    codec.store = (SchemaStore.run {} [.load (.files ⟨fun _ => .nothing, 0⟩ [])]).1 ∧
      (SchemaStore.run {} [.load (.files ⟨fun _ => .nothing, 0⟩ [])]).2.any StoreResponse.isSuccess = false ∧
      codec.decodeAs [] "" = .error .notCompiled ∧
      codec.toMessage (.ofType "T") true = .error .notCompiled := by
  let codec : Codec := ⟨{}, .builtIn, true⟩
  have hnever : (SchemaStore.run {} [.load (.files ⟨fun _ => .nothing, 0⟩ [])]).2.any StoreResponse.isSuccess =
      false := rfl
  have hstore : codec.store = (SchemaStore.run {} [.load (.files ⟨fun _ => .nothing, 0⟩ [])]).1 := rfl
  obtain ⟨-, -, -, -, -, hdecode, -, hmessage, -⟩ := notCompiled_of_never_loaded hstore hnever
  refine ⟨codec, hstore, hnever, hdecode [] "", ?_⟩
  rw [hmessage]
  exact congrArg Except.error (if_pos (by decide))

/-- Over a store that has never been loaded, `toMessage` of the empty record gives `missingType` and not
`notCompiled`. -/
theorem toMessage_missingType_of_never_loaded : ∃ codec : Codec,
    codec.store = (SchemaStore.run {} []).1 ∧
      (SchemaStore.run {} []).2.any StoreResponse.isSuccess = false ∧
      codec.toMessage {} true = .error .missingType ∧ codec.toMessage {} true ≠ .error .notCompiled := by
  refine ⟨⟨{}, .builtIn, true⟩, rfl, rfl, rfl, ?_⟩
  show (Except.error CodecError.missingType : Except CodecError (Schema × MessageType × FieldValues)) ≠ _
  nofun

end Codec

end Tagwire
