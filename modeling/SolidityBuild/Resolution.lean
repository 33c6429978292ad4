import SolidityBuild.Project.Basic
import SolidityBuild.Notice
import SolidityBuild.SourceReader
import SolidityBuild.Text.Quoted

/-! # Resolution: the path that an import leads to

    Four rules are tried in order: a remapping, a path relative to the importing file, an
    absolute path, a dependency package. The first three only compute a path; the last one
    picks the first of its candidates that is there. No rule may climb above the root.
-/

namespace SolidityBuild

/-- Why an import leads to no path. -/
inductive ResolutionError where
  /-- none of the candidates in the dependency packages is there -/
  | packageNotFound (specifier : String) (tried : List Path)
  /-- a relative import in a file without a directory -/
  | noParent (specifier : String) (importer : Path)
  /-- the import is blank or climbs above the root -/
  | invalid (specifier : String)
deriving DecidableEq, Inhabited

namespace ResolutionError

/-- The import that leads nowhere. -/
def specifier : ResolutionError → String
  | packageNotFound specifier _ => specifier
  | noParent specifier _ => specifier
  | invalid specifier => specifier

/-- The message for an import that leads nowhere. -/
def message : ResolutionError → String
  | packageNotFound specifier tried =>
    "Cannot resolve import '" ++ specifier ++ "' (tried: " ++
      Text.quotedList (tried.map Path.text) ++ ")"
  | noParent specifier importer =>
    "Cannot resolve import '" ++ specifier ++ "': " ++ importer.text ++
      " has no parent directory"
  | invalid specifier => "Invalid import '" ++ specifier ++ "'"

end ResolutionError

/-- The rule that gives a path. -/
inductive ResolutionKind where
  | remapped
  | relative
  | absolute
  | package
deriving DecidableEq, Inhabited

/-- The word for a rule. -/
def ResolutionKind.word : ResolutionKind → String
  | remapped => "Remapped"
  | relative => "Relative"
  | absolute => "Absolute"
  | package => "Package"

/-- Where an import leads, and by which rule. -/
structure Resolution where
  path : Path
  kind : ResolutionKind
deriving DecidableEq, Inhabited

namespace Resolution

/-- A path seen from a base; an import that climbs above the root is invalid. -/
def within (base : Path) (child : Path) (specifier : String) :
    Except ResolutionError Path :=
  match base.joinWithin? child with
  | some path => .ok path
  | none => .error (.invalid specifier)

/-! ## Remappings -/

/-- Whether a remapping applies to an import of a file. -/
def applies (project : Project) (importer : Path) (specifier : String) (r : Remapping) :
    Bool :=
  (r.suffix? specifier).isSome &&
    match project.contextPath? r with
    | some context => context.contains importer
    | none => true

/-- Whether a remapping is strictly more specific: by the size of its context, then by that
    of its stem. -/
def beats (r other : Remapping) : Bool :=
  other.contextSize < r.contextSize ||
    r.contextSize = other.contextSize && other.stem.utf8ByteSize < r.stem.utf8ByteSize

/-- The first of the remappings that no other one beats. -/
def mostSpecific? : List Remapping → Option Remapping
  | [] => none
  | r :: rest =>
    match mostSpecific? rest with
    | some other => some (if beats other r then other else r)
    | none => some r

/-- The remapping for an import of a file. -/
def remapping? (project : Project) (importer : Path) (specifier : String) :
    Option Remapping :=
  mostSpecific? (project.remappings.filter (applies project importer specifier))

/-- The import with a remapping's stem replaced. A stem that ends with a slash, or that ends
    where a segment of the import does, names a directory; any other is replaced as text. -/
def replaced (r : Remapping) (specifier : String) : Path :=
  let suffix := ((r.suffix? specifier).getD "").toList
  if Project.endsWithSlash r.stem || suffix.isEmpty || suffix.head? = some '/' then
    Path.joinText ⟨r.target⟩ (String.ofList (suffix.dropWhile (· = '/')))
  else ⟨r.target ++ String.ofList suffix⟩

/-! ## Packages -/

/-- The parts of an import before and after its first slash, when neither is missing. -/
def packageParts? (specifier : String) : Option (String × String) :=
  match Text.splitFirst '/' specifier.toList with
  | some (name, rest) =>
    if rest.isEmpty then none else some (String.ofList name, String.ofList rest)
  | none => none

/-- The directory that imports from a package are seen from: that of a known package, else
    the contracts directory of one that is not known. -/
def packageSources? (project : Project) (packages : Path) (name : String) : Option Path :=
  match project.package? name with
  | some package => some (package.sourcesPath project.contractsDir)
  | none => project.contractsDir.map fun directory =>
    (packages.joinText name).joinText directory

/-- The paths that an import from a package may lead to, the preferred one first. -/
def candidates (project : Project) (packages : Path) (specifier : String) :
    Except ResolutionError (List Path) := do
  let inSources := do
    let (name, rest) ← packageParts? specifier
    let sources ← packageSources? project packages name
    pure (within sources ⟨rest⟩ specifier)
  let preferred ← match inSources with
    | some path => path.map fun p => [p]
    | none => .ok []
  let direct ← within packages ⟨specifier⟩ specifier
  pure (if preferred.any direct.same then preferred else preferred ++ [direct])

/-- Where an import from a package leads. -/
def inPackages (reader : SourceReader) (project : Project) (specifier : String) :
    Except ResolutionError Resolution :=
  match project.packagesPath? with
  | none => .error (.packageNotFound specifier [])
  | some packages => do
    let paths ← candidates project packages specifier
    match paths.find? reader.isFile with
    | some path => pure { path, kind := .package }
    | none => .error (.packageNotFound specifier paths)

/-! ## Resolving -/

/-- Whether an import is written relative to the importing file. -/
def isRelative (specifier : String) : Bool :=
  (Text.strip? "./".toList specifier.toList).isSome ||
    (Text.strip? "../".toList specifier.toList).isSome

/-- Where an import of a file leads. -/
def resolve (reader : SourceReader) (project : Project) (importer : Path)
    (specifier : String) : Except ResolutionError Resolution :=
  if Text.isBlankText specifier then .error (.invalid specifier)
  else match remapping? project importer specifier with
    | some r =>
      (within project.root (replaced r specifier) specifier).map
        fun path => { path, kind := .remapped }
    | none =>
      if isRelative specifier then
        match importer.parent? with
        | none => .error (.noParent specifier importer)
        | some directory =>
          (within directory ⟨specifier⟩ specifier).map fun path => { path, kind := .relative }
      else if Path.isAbsolute ⟨specifier⟩ then
        .ok { path := Path.normalize ⟨specifier⟩, kind := .absolute }
      else inPackages reader project specifier

/-- What is told when an import is resolved. -/
def notices (project : Project) (importer : Path) (specifier : String) : List Notice :=
  if Text.isBlankText specifier then []
  else match remapping? project importer specifier with
    | some r => [.debug ("remapped '" ++ specifier ++ "' via '" ++ r.written ++ "' to " ++
        (replaced r specifier).text)]
    | none => []

end Resolution

end SolidityBuild
