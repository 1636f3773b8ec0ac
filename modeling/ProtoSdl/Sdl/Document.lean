import ProtoSdl.Sdl.Emission

/-!
  Documents — the GraphQL schema of a protobuf schema

  A document holds the blocks of all items of a schema, after the declarations of
  the well-known types that they use. The type that was needed last stands first.
  A schema without a single block has no document.

  `Tree.toDocument` writes the document; `Document.text` is its text, with a blank
  line between blocks and one line break at the end.
-/

namespace ProtoSdl.Sdl

/-- The blocks of a document, of which there is at least one in a document that
was written for a schema. -/
structure Document where
  blocks : List Block
  deriving DecidableEq, Repr

/-- The text of a document. -/
def Document.text (d : Document) : String := renderBlocks d.blocks ++ "\n"

/-- Whether the dialect is a third version of protobuf. -/
def isSupported (dialect : String) : Bool := Text.hasSuffix "3" dialect

/-- The document of emitted blocks and of the ledger that they leave. -/
def assemble (blocks : List Block) (l : Ledger) : Option Document :=
  if blocks.isEmpty then none else some ⟨l.wellKnown.map .wellKnown ++ blocks⟩

end Sdl

/-- The document of a schema; none for a schema in which there is nothing to
write. -/
def Schema.Tree.toDocument (t : Schema.Tree) : Except Sdl.ConversionError (Option Sdl.Document) :=
  if Sdl.isSupported t.dialect then
    match Sdl.emitItems t.items {} with
    | .ok blocks l => .ok (Sdl.assemble blocks l)
    | .error e _ => .error e
  else .error (.unsupportedSyntax t.dialect)

end ProtoSdl
