import SolidityBuild.Manifest
import SolidityBuild.Remapping

/-! # Projects: a root, its packages and the remappings for its imports

    Every directory that a project declares is seen from its root. The compiler gets each
    remapping with absolute paths, and one more for every package.
-/

namespace SolidityBuild

/-- A dependency package. -/
structure Package where
  /-- what imports from the package start with -/
  name : String
  path : Path
  manifest : Manifest := {}
deriving DecidableEq, Inhabited

namespace Package

/-- A package at the normal form of a path. -/
def ofPath (name : String) (path : Path) (manifest : Manifest) : Package :=
  { name, path := path.normalize, manifest }

/-- The directory that imports from the package are seen from: the declared sources, else
    the contracts directory, else the package itself. -/
def sourcesPath (p : Package) (contractsDir : Option String) : Path :=
  match p.manifest.sources? <|> contractsDir with
  | some directory => p.path.joinText directory
  | none => p.path

end Package

/-- A project for one run. -/
structure Project where
  root : Path
  manifest : Manifest := {}
  /-- the directory of the dependency packages -/
  packagesDir : Option String := none
  /-- the contracts directory inside a dependency package -/
  contractsDir : Option String := none
  /-- the one with the highest precedence first -/
  remappings : List Remapping := []
  packages : List Package := []
deriving DecidableEq, Inhabited

namespace Project

/-! ## Directories -/

/-- A directory seen from the root, in its normal form. -/
def inRoot (p : Project) (directory : String) : Path :=
  (p.root.joinText directory).normalize

/-- The source directory: the declared one, else the root. -/
def sourcesPath (p : Project) : Path :=
  match p.manifest.sources? with
  | some directory => p.inRoot directory
  | none => p.root

/-- The declared build directory as it is written. -/
def buildDir? (p : Project) : Option String :=
  p.manifest.build?

/-- The declared build directory. -/
def buildPath? (p : Project) : Option Path :=
  p.buildDir?.map p.inRoot

/-- Whether a path lies in the declared build directory. -/
def inBuildDir (p : Project) (path : Path) : Bool :=
  p.buildPath?.any fun build => build.contains path

/-- The glob for what a source search leaves out: the build directory wherever it occurs, or
    `bin` when none is declared. -/
def buildExclude (p : Project) : String :=
  match p.buildDir? with
  | some directory =>
    let chars := Text.dropEndWhile (· = '/') (directory.toList.dropWhile (· = '/'))
    "**/" ++ String.ofList chars ++ "/**"
  | none => "**/bin/**"

/-- The directory of the dependency packages. -/
def packagesPath? (p : Project) : Option Path :=
  p.packagesDir.map p.inRoot

/-- The first package of a name. -/
def package? (p : Project) (name : String) : Option Package :=
  p.packages.find? fun package => package.name = name

/-! ## Remappings -/

/-- The target of a remapping, seen from the root. -/
def targetPath (p : Project) (r : Remapping) : Path :=
  p.inRoot r.target

/-- The context of a remapping, seen from the root. -/
def contextPath? (p : Project) (r : Remapping) : Option Path :=
  r.context.map p.inRoot

/-- Whether a text ends with a slash. -/
def endsWithSlash (s : String) : Bool :=
  s.toList.getLast? = some '/'

/-- A remapping for the compiler: its paths are absolute, and the target ends with a slash
    when it or the stem was written with one. -/
def absolute (p : Project) (r : Remapping) : Remapping :=
  let target := (p.targetPath r).forward
  let slash := (endsWithSlash r.target || endsWithSlash r.stem) && !endsWithSlash target
  { context := (p.contextPath? r).map Path.forward
    stem := r.stem
    target := if slash then target ++ "/" else target }

/-- The remapping of a package to its sources, as the compiler gets it. -/
def packageRemapping (p : Project) (package : Package) : String :=
  package.name ++ "/=" ++ (package.sourcesPath p.contractsDir).forward ++ "/"

/-- The remappings for the compiler: the configured ones, then one for every package. -/
def compilerRemappings (p : Project) : List String :=
  p.remappings.map (fun r => (p.absolute r).written) ++ p.packages.map p.packageRemapping

end Project

/-- Where a compiler puts its output, and the directories that it works with. -/
structure CompileTarget where
  /-- the declared build directory -/
  buildDir : Option String
  projectPath : String
  sourcesPath : String
  packagesPath : Option String
deriving DecidableEq, Inhabited

/-- The target for a project, with forward slashes only. -/
def Project.compileTarget (p : Project) : CompileTarget where
  buildDir := p.buildPath?.map Path.forward
  projectPath := p.root.forward
  sourcesPath := p.sourcesPath.forward
  packagesPath := p.packagesPath?.map Path.forward

end SolidityBuild
