/-!
  Type names — the GraphQL names of protobuf types

  The numeric, Boolean and textual types of protobuf fall together into the four
  scalars of GraphQL. A map has no counterpart there and becomes the scalar
  `JSON`, which a schema has to declare for itself. Every other name stands for a
  declared type and stays as it is.
-/

namespace ProtoSdl.Sdl

/-- The protobuf scalar types with their GraphQL scalars. -/
def scalars : List (String × String) :=
  [("double", "Float"), ("float", "Float"), ("int32", "Int"), ("int64", "Int"),
   ("uint32", "Int"), ("uint64", "Int"), ("sint32", "Int"), ("sint64", "Int"),
   ("fixed32", "Int"), ("fixed64", "Int"), ("sfixed32", "Int"), ("sfixed64", "Int"),
   ("bool", "Boolean"), ("string", "String"), ("bytes", "String"), ("map", "JSON")]

/-- The GraphQL name of a type that is not well-known. -/
def typeName (protoName : String) : String := (scalars.lookup protoName).getD protoName

/-- The type of every map field. -/
def mapTypeName : String := typeName "map"

/-- The field name without one leading dot. -/
def fieldName (name : String) : String :=
  match name.toList with
  | '.' :: rest => String.ofList rest
  | _ => name

theorem typeName_of_not_scalar {name : String} (h : name ∉ scalars.map Prod.fst) :
    typeName name = name := by
  have : scalars.lookup name = none := by
    rw [List.lookup_eq_none_iff]
    intro p hp
    simp only [bne_iff_ne, ne_eq]
    intro he
    exact h (he ▸ List.mem_map_of_mem hp)
  simp [typeName, this]

end ProtoSdl.Sdl
