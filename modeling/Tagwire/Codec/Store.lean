import Tagwire.Codec.Error
import Tagwire.Schema.Loading
import Tagwire.Schema.Lookup

/-!
# The schema of a codec

A store holds one schema.  It starts empty and is filled by the first load that succeeds; a load that fails
leaves it as it was, and after the one that succeeded every other is refused before its documents are
looked at.
-/

set_option autoImplicit false

namespace Tagwire

/-- A place for one schema, which is empty until a load succeeds. -/
structure SchemaStore where
  schema? : Option Schema := none
deriving Inhabited

namespace SchemaStore

/-- Has a load succeeded? -/
def isCompiled (store : SchemaStore) : Bool := store.schema?.isSome

/-- The schema that has been loaded, or the error `notCompiled`. -/
def schema (store : SchemaStore) : Except CodecError Schema :=
  match store.schema? with
  | some schema => .ok schema
  | none => .error .notCompiled

/-- Fills an empty store with what has been loaded: `alreadyCompiled` comes before any fault of the documents,
which `origin` names. -/
def fill (store : SchemaStore) (origin : String) (loaded : Unit → Option Schema) :
    Except CodecError SchemaStore :=
  if store.isCompiled then .error .alreadyCompiled
  else
    match loaded () with
    | some schema => .ok ⟨some schema⟩
    | none => .error (.schemaLoad origin)

/-- Loads the schema of a document given as text, under the name `inlineDocumentName`. -/
def loadText (store : SchemaStore) (text : String) : Except CodecError SchemaStore :=
  store.fill Schema.inlineDocumentName fun _ => Schema.ofText? text

/-- Loads the schema of documents in files; that none are given is a fault unless the store is filled. -/
def loadFiles (store : SchemaStore) (view : FileView) (paths : List String) :
    Except CodecError SchemaStore :=
  if !store.isCompiled && paths.isEmpty then .error .noDocuments
  else store.fill (", ".intercalate paths) fun _ => Schema.ofPaths? view paths

/-- The store after a load: as it was if the load failed. -/
def after (store : SchemaStore) : Except CodecError SchemaStore → SchemaStore
  | .ok filled => filled
  | .error _ => store

/-- The message type that `name` finds, with its schema: `notCompiled` comes before `typeNotFound`. -/
def find (store : SchemaStore) (name : String) : Except CodecError (Schema × MessageType) := do
  let schema ← store.schema
  match schema.find? name with
  | some type => .ok (schema, type)
  | none => .error (.typeNotFound name)

/-- The full names of the listed types, or the error `notCompiled`. -/
def messageNames (store : SchemaStore) : Except CodecError (List String) := do
  let schema ← store.schema
  return schema.messageNames

/-- The registry of the listed types, or the error `notCompiled`. -/
def registry (store : SchemaStore) : Except CodecError Registry := do
  let schema ← store.schema
  return schema.registry

end SchemaStore

end Tagwire
