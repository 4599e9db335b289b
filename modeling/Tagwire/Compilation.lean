import Tagwire.Compilation.Cycle
import Tagwire.Compilation.Layout
import Tagwire.Document

/-!
# Compiling record definitions

A list of definitions compiles in four phases: listing them, checking each on its own, looking for cycles,
and laying out their messages.  The result is a schema document with one block per definition, in their
order, and the registry of their messages.
-/

set_option autoImplicit false

namespace Tagwire

/-- What compiled definitions give: the document, and the registry of its messages. -/
structure CompiledSchema where
  document : SchemaDocument
  registry : Registry

namespace Compilation

/-- A definition that passed all phases, with its parent's message name, its declarations and the fields laid
out for them. -/
structure Message where
  name : MessageName
  parent : String
  declarations : List Declaration
  fields : List RegisteredField

namespace Message

/-- The block of the message: its fields under their `protoName`. -/
def block (message : Message) : MessageBlock :=
  { name := message.name
    fields := message.fields.map fun f => ⟨f.protoName, f.typeName, f.number, f.repeated⟩ }

/-- The registered type of the message, with its fields under their record keys. -/
def registeredType (message : Message) : RegisteredType :=
  { name := message.name.text, parent := message.parent, fields := message.fields }

/-- The paths the message needs, in the order of its fields. -/
def importPaths (message : Message) : List String :=
  message.declarations.filterMap fun d => d.field.kind.importPath?

end Message

/-- Lays out the message of one listed definition, or reports the record key that is declared twice in its
lineage. -/
def messageOf (catalog : Catalog) (e : CatalogEntry) : Except CompileError Message := do
  let declarations ← catalog.declarations e.definition
  return {
    name := e.name
    parent := (e.definition.parent.map catalog.messageName).getD baseMessage
    declarations
    fields := catalog.layout declarations }

/-- Appends a path unless it is already there. -/
def addImport (imports : List String) (path : String) : List String :=
  if imports.contains path then imports else imports ++ [path]

/-- The paths that messages need, each once and in the order of its first use. -/
def importsOf (messages : List Message) : List String :=
  (messages.flatMap Message.importPaths).foldl addImport []

end Compilation

open Compilation in
/-- Compiles definitions in four phases: `Catalog.ofDefinitions` lists them, `Catalog.check` checks their fields
and parents, `Catalog.checkAcyclic` looks for a reference cycle, and `messageOf` lays out each of them. -/
def compile (definitions : List RecordDefinition) : Except CompileError CompiledSchema := do
  let catalog ← Catalog.ofDefinitions definitions
  catalog.check
  catalog.checkAcyclic
  let messages ← catalog.mapM (messageOf catalog)
  return {
    document := { imports := importsOf messages, messages := messages.map Message.block }
    registry := .ofList (messages.map Message.registeredType) }

end Tagwire
