import SolidityBuild.CompilationSet
import SolidityBuild.Proofs.Json.RoundTrip

/-! # Standard JSON: what the compiler's input says

    The input is the indented form of a JSON value, so that reading it gives that value. The
    members of `sources` are the units in their order, and none is left out or merged with
    another one, even if two units have one name.
-/

namespace SolidityBuild.CompilationSet

open Json (Literal)

/-- The members that a unit list gives the object `sources`. -/
def sourceMembers (units : List CompilationUnit) : List (Literal × Json) :=
  units.map fun unit =>
    (.text unit.name, .object [(.text "content", .string (.text unit.content))])

/-- A text is a JSON object, and its one member `sources` is an object with these members. -/
def ListsSources (text : String) (sources : List (Literal × Json)) : Prop :=
  ∃ members, Json.ofText? text = some (.object members) ∧
    Json.valuesOf "sources" members = [.object sources]

theorem sourcesJson_eq (units : List CompilationUnit) :
    sourcesJson units = .object (sourceMembers units) := by
  unfold sourcesJson Json.record
  rw [List.map_map]
  rfl

theorem toJson_eq (set : CompilationSet) : set.toJson = .object [
    (.text "language", .string (.text "Solidity")),
    (.text "sources", .object (sourceMembers set.units)),
    (.text "settings", set.settingsJson)] := by
  unfold toJson
  rw [sourcesJson_eq]
  rfl

theorem ofText?_standardJson (set : CompilationSet) :
    Json.ofText? set.standardJson = some (.object [
      (.text "language", .string (.text "Solidity")),
      (.text "sources", .object (sourceMembers set.units)),
      (.text "settings", set.settingsJson)]) := by
  unfold standardJson
  rw [Json.ofText?_pretty, toJson_eq]

theorem listsSources_standardJson (set : CompilationSet) :
    ListsSources set.standardJson (sourceMembers set.units) :=
  ⟨_, set.ofText?_standardJson, rfl⟩

/-- So it is with a line feed at the end, as the input is printed. -/
theorem listsSources_printed (set : CompilationSet) :
    ListsSources (set.standardJson ++ "\n") (sourceMembers set.units) := by
  have hread : Json.ofText? (set.standardJson ++ "\n") = some set.toJson :=
    Json.ofText?_pretty_lineFeed set.toJson
  rw [toJson_eq] at hread
  exact ⟨_, hread, rfl⟩

/-- The members of the settings, in order. -/
theorem settingsJson_eq (set : CompilationSet) :
    set.settingsJson = .object (
      [(.text "optimizer", .object [
        (.text "enabled", .bool (decide (set.optimizerRuns ≠ 0))),
        (.text "runs", .number { whole := set.optimizerRuns })])] ++
      (if set.remappings = [] then []
        else [(.text "remappings",
          .array (set.remappings.map fun line => .string (.text line)))]) ++
      [(.text "outputSelection", outputSelection)]) := by
  have henabled : set.optimizerEnabled = decide (set.optimizerRuns ≠ 0) := by
    unfold optimizerEnabled
    by_cases hruns : set.optimizerRuns = 0 <;> simp [hruns]
  unfold settingsJson
  rw [henabled]
  cases set.remappings with
  | nil => rfl
  | cons line lines => rfl

/-- **Lossless input**: the text for the compiler, read as JSON, has the language Solidity; as
    sources the names of the units with their contents, in the order of the units and each
    as often as it occurs; as optimizer settings the number of runs, on exactly if that is
    not zero; and as remappings the given ones, left out exactly if there are none. -/
theorem standardJson_read_back (set : CompilationSet) :
    ∃ settings : List (Literal × Json),
      Json.ofText? set.standardJson = some (.object [
        (.text "language", .string (.text "Solidity")),
        (.text "sources", .object (set.units.map fun unit =>
          (.text unit.name, .object [(.text "content", .string (.text unit.content))]))),
        (.text "settings", .object settings)]) ∧
      Json.valuesOf "optimizer" settings = [.object [
        (.text "enabled", .bool (decide (set.optimizerRuns ≠ 0))),
        (.text "runs", .number { whole := set.optimizerRuns })]] ∧
      Json.valuesOf "remappings" settings =
        if set.remappings = [] then []
        else [.array (set.remappings.map fun line => .string (.text line))] := by
  have hread := set.ofText?_standardJson
  rw [settingsJson_eq] at hread
  refine ⟨_, hread, ?_, ?_⟩
  · unfold Json.valuesOf
    split <;> rfl
  · unfold Json.valuesOf
    split <;> rfl

end SolidityBuild.CompilationSet
