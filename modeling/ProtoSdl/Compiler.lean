import ProtoSdl.Descriptor.Octets
import ProtoSdl.Descriptor.SchemaTree
import ProtoSdl.Path.Include
import ProtoSdl.Text.Blank
import ProtoSdl.Text.Utf8

/-!
  The protobuf compiler — how it is asked and what its answer is worth

  The compiler reads the text of schema files; the library only reads what the
  compiler makes of it. An `Invocation` says which files are to be read and where
  their imports are, and asks for the imported files and for source positions as
  well. The `Outcome` is a descriptor set, as it stands or encoded, or a failure with
  diagnostics. The compiler hands over every set encoded, so a set that cannot be
  read back because of its height is no better than faulty octets.

  `loadTree` takes from the outcome the declarations of the one file that was asked
  for, which the compiler calls by its virtual name.
-/

namespace ProtoSdl.Compiler

open ProtoSdl.Path (AbsolutePath)

structure Invocation where
  includes : List AbsolutePath
  files : List AbsolutePath
  deriving DecidableEq

/-- The invocation for files with explicit include directories. -/
def invocation (workingDirectory : AbsolutePath) (files includes : List String) : Invocation where
  includes := Path.includeDirectories workingDirectory files includes
  files := files.map (AbsolutePath.ofText workingDirectory)

/-- The arguments of the compiler when it is to write the set to this path. -/
def Invocation.arguments (i : Invocation) (output : String) : List String :=
  ["--include_imports", "--include_source_info", "--descriptor_set_out=" ++ output] ++
    i.includes.flatMap (fun d => ["-I", d.text]) ++ i.files.map AbsolutePath.text

inductive Outcome where
  /-- A descriptor set, before it is encoded. -/
  | descriptors (set : Descriptor.Set)
  /-- An encoded descriptor set. -/
  | encoded (octets : List UInt8)
  /-- A failure, with the octets of the diagnostics. -/
  | failure (diagnostics : List UInt8)

inductive LoadError where
  /-- The compiler failed with these diagnostics. -/
  | compilerFailed (diagnostics : String)
  /-- The encoded descriptor set cannot be read. -/
  | unreadable (cause : Wire.ReadError)
  /-- A descriptor of the file is at fault. -/
  | fault (f : Descriptor.Fault)
  deriving DecidableEq, Repr

/-- The words for what is wrong with an encoded descriptor set. -/
def causeText : Wire.ReadError → String
  | .corrupt => "Wire format was corrupt"
  | .tooDeep => "Exceeded upb_DecodeOptions_MaxDepth"

/-- The text that tells a user of the error. -/
def LoadError.message : LoadError → String
  | compilerFailed diagnostics => "protoc failed: " ++ diagnostics
  | unreadable cause =>
    "Error parsing message with type 'google.protobuf.FileDescriptorSet': " ++ causeText cause
  | fault f => f.message

/-- The descriptor set of an outcome. -/
def Outcome.set : Outcome → Except LoadError Descriptor.Set
  | descriptors s =>
    if s.height ≤ Descriptor.nestingLimit then .ok s else .error (.unreadable .tooDeep)
  | encoded octets => (Descriptor.Set.ofOctets octets).mapError .unreadable
  | failure diagnostics => .error (.compilerFailed (Text.trim (Text.ofOctets diagnostics)))

/-- The name by which the compiler calls a file that is read alone. -/
def targetName (workingDirectory : AbsolutePath) (file : String) (includes : List String) :
    String :=
  Path.virtualName (AbsolutePath.ofText workingDirectory file)
    (Path.includeDirectories workingDirectory [file] includes)

/-- The declarations of a file that was read alone. -/
def loadTree (workingDirectory : AbsolutePath) (file : String) (includes : List String)
    (outcome : Outcome) : Except LoadError Schema.Tree :=
  match outcome.set with
  | .error e => .error e
  | .ok s =>
    match s.tree (some [targetName workingDirectory file includes]) with
    | .error f => .error (.fault f)
    | .ok t => .ok t

end ProtoSdl.Compiler
