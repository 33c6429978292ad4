import SolidityBuild.Compiler.Process
import SolidityBuild.Proofs.Build.Logging
import SolidityBuild.Proofs.Json.Records

/-! # Reports: every reported error of an output is told

    What a compiler prints is accepted if it is a record of reported errors and contracts, both
    of which may be missing. Then there is one diagnostic for each reported error, in their
    order, whatever becomes of the artifacts; and a grave one keeps all artifacts from being
    written. Any other text is refused as a whole.
-/

namespace SolidityBuild

open Json (IsOptionalText IsRecord)
open Notice (diagnostics)

variable {j : Json} {v : Option Json} {items : List Json} {e : ReportedError}

/-! ## Reported errors -/

/-- A record of a file and two numbers that gives the place. -/
def SourceLocation.Given (j : Json) (l : SourceLocation) : Prop :=
  ∃ start stop : Json.Numeral,
    IsRecord ["file", "start", "end"] false j
      [some (.ofString l.file), some (.number start), some (.number stop)] ∧
    start.toInt64? = some l.start ∧ stop.toInt64? = some l.stop

namespace ReportedError

/-- A place that may be missing or null. -/
inductive Located : Option Json → Option SourceLocation → Prop
  | missing : Located none none
  | null : Located (some .null) none
  | place {j : Json} {l : SourceLocation} (h : SourceLocation.Given j l) :
      Located (some j) (some l)

/-- A record of a severity, a message, and maybe a kind and a place that gives the error. -/
def Given (j : Json) (e : ReportedError) : Prop :=
  ∃ kind location : Option Json,
    IsRecord ["severity", "message", "type", "sourceLocation"] false j
      [some (.ofString e.severity), some (.ofString e.message), kind, location] ∧
    IsOptionalText kind e.kind ∧ Located location e.location

/-- The diagnostic tells the error. Its range is known exactly if the error has a place that is
    neither negative nor reversed. -/
structure Tells (e : ReportedError) (g : Diagnostic) : Prop where
  error : g.severity = .error ↔ e.severity = "error"
  warning : g.severity = .warning ↔ e.severity = "warning"
  info : g.severity = .info ↔ e.severity ≠ "error" ∧ e.severity ≠ "warning"
  message : g.message = e.message
  code : g.code = e.kind
  path : g.path = e.location.map fun l => ⟨l.file⟩
  range : ∀ start stop : Nat, g.range = some (start, stop) ↔
    ∃ l, e.location = some l ∧ 0 ≤ l.start ∧ l.start ≤ l.stop ∧ l.start = start ∧ l.stop = stop

end ReportedError

theorem SourceLocation.ofJson?_eq_some_iff {l : SourceLocation} :
    ofJson? j = some l ↔ Given j l := by
  constructor
  · intro h
    obtain ⟨values, hvalues, h⟩ := Option.bind_eq_some_iff.1 h
    split at h
    · obtain ⟨file, hfile, h⟩ := Option.bind_eq_some_iff.1 h
      obtain ⟨start, hstart, h⟩ := Option.bind_eq_some_iff.1 h
      obtain ⟨stop, hstop, h⟩ := Option.bind_eq_some_iff.1 h
      obtain rfl := Option.some.inj h
      obtain ⟨first, rfl, hfirst⟩ := Json.int64?_eq_some_iff.1 hstart
      obtain ⟨last, rfl, hlast⟩ := Json.int64?_eq_some_iff.1 hstop
      rw [Json.text?_eq_some_iff.1 hfile] at hvalues
      exact ⟨first, last, Json.fields?_eq_some_iff.1 hvalues, hfirst, hlast⟩
    · cases h
  · intro ⟨first, last, hrecord, hfirst, hlast⟩
    unfold ofJson?
    rw [Json.fields?_eq_some_iff.2 hrecord]
    simp [Json.text?, Json.int64?, Json.ofString, Json.Literal.text?, hfirst, hlast]

namespace ReportedError

theorem location?_eq_some_iff {location : Option SourceLocation} :
    location? v = some location ↔ Located v location := by
  constructor
  · intro h
    unfold location? at h
    split at h
    · rw [← Option.some.inj h]
      exact .missing
    · rw [← Option.some.inj h]
      exact .null
    · obtain ⟨l, hl, rfl⟩ := Option.map_eq_some_iff.1 h
      exact .place (SourceLocation.ofJson?_eq_some_iff.1 hl)
  · intro h
    cases h with
    | missing => rfl
    | null => rfl
    | @place j l hl =>
      have hj : j ≠ .null := by
        intro hnull
        obtain ⟨first, last, hrecord, -⟩ := hl
        rw [hnull] at hrecord
        cases hrecord
      unfold location?
      split
      · contradiction
      · rename_i hsome
        exact absurd (Option.some.inj hsome) hj
      · rename_i hsome
        rw [← Option.some.inj hsome, SourceLocation.ofJson?_eq_some_iff.2 hl]
        rfl

theorem ofJson?_eq_some_iff : ofJson? j = some e ↔ Given j e := by
  constructor
  · intro h
    obtain ⟨values, hvalues, h⟩ := Option.bind_eq_some_iff.1 h
    split at h
    · obtain ⟨severity, hseverity, h⟩ := Option.bind_eq_some_iff.1 h
      obtain ⟨message, hmessage, h⟩ := Option.bind_eq_some_iff.1 h
      obtain ⟨kind, hkind, h⟩ := Option.bind_eq_some_iff.1 h
      obtain ⟨location, hlocation, h⟩ := Option.bind_eq_some_iff.1 h
      obtain rfl := Option.some.inj h
      rw [Json.text?_eq_some_iff.1 hseverity, Json.text?_eq_some_iff.1 hmessage] at hvalues
      exact ⟨_, _, Json.fields?_eq_some_iff.1 hvalues, Json.optionalText?_eq_some_iff.1 hkind,
        location?_eq_some_iff.1 hlocation⟩
    · cases h
  · intro ⟨kind, location, hrecord, hkind, hlocation⟩
    unfold ofJson?
    rw [Json.fields?_eq_some_iff.2 hrecord]
    simp [Json.text?, Json.ofString, Json.Literal.text?, Json.optionalText?_eq_some_iff.2 hkind,
      location?_eq_some_iff.2 hlocation]

/-- A reported error is told by its diagnostic. -/
theorem tells_diagnostic (e : ReportedError) : e.Tells e.diagnostic := by
  have hseverity : e.diagnostic.severity = severityOf e.severity := rfl
  refine ⟨?_, ?_, ?_, rfl, rfl, rfl, ?_⟩
  · rw [hseverity]
    unfold severityOf
    split <;> simp_all
  · rw [hseverity]
    unfold severityOf
    split <;> simp_all
  · rw [hseverity]
    unfold severityOf
    split <;> simp_all
  · intro start stop
    show e.location.bind SourceLocation.range? = some (start, stop) ↔ _
    rw [Option.bind_eq_some_iff]
    refine exists_congr fun l => and_congr_right fun _ => ?_
    unfold SourceLocation.range?
    rw [Option.ite_none_right_eq_some, Bool.and_eq_true, decide_eq_true_iff, decide_eq_true_iff,
      Option.some.injEq, Prod.mk.injEq]
    omega

end ReportedError

/-! ## Acceptable outputs -/

namespace CompilerOutput

/-- A list of errors, which may be missing. -/
inductive Listed : Option Json → List Json → Prop
  | missing : Listed none []
  | array (items : List Json) : Listed (some (.array items)) items

/-- An object whose names are texts and whose values have the property. -/
def IsObjectOf (accepted : Json → Prop) (j : Json) : Prop :=
  ∃ members, j = .object members ∧
    ∀ member ∈ members, member.1 ≠ .unpaired ∧ accepted member.2

/-- Objects of contracts in an object of their sources. -/
def IsContracts (j : Json) : Prop :=
  IsObjectOf (IsObjectOf (Json.Keepable (Json.depthLimit - contractDepth))) j

/-- An acceptable output: the items in its list of errors give these errors, one each. -/
def Acceptable (j : Json) (reported : List ReportedError) : Prop :=
  ∃ (errors contracts : Option Json) (items : List Json),
    IsRecord ["errors", "contracts"] true j [errors, contracts] ∧
    Listed errors items ∧ List.Forall₂ ReportedError.Given items reported ∧
    ∀ sources ∈ contracts, IsContracts sources

theorem errors?_eq_some_iff {reported : List ReportedError} :
    errors? v = some reported ↔
      ∃ items, Listed v items ∧ List.Forall₂ ReportedError.Given items reported := by
  have hitems (items : List Json) : items.mapM ReportedError.ofJson? = some reported ↔
      List.Forall₂ ReportedError.Given items reported :=
    Json.mapM_eq_some_iff fun _ _ => ReportedError.ofJson?_eq_some_iff
  simp only [← hitems]
  constructor
  · intro h
    unfold errors? at h
    split at h
    · rw [← Option.some.inj h]
      exact ⟨[], .missing, rfl⟩
    · exact ⟨_, .array _, h⟩
    · cases h
  · intro ⟨items, hlisted, herrors⟩
    cases hlisted with
    | missing => exact herrors
    | array => exact herrors

theorem isSome_members?_iff {decode : Json → Option α} {accepted : Json → Prop}
    (h : ∀ j, (decode j).isSome ↔ accepted j) (j : Json) :
    (members? decode j).isSome ↔ IsObjectOf accepted j := by
  cases j with
  | object members =>
    have hobject : IsObjectOf accepted (.object members) ↔
        ∀ member ∈ members, member.1 ≠ .unpaired ∧ accepted member.2 := by
      unfold IsObjectOf
      simp
    -- Sorting the members cannot fail, so only decoding them decides.
    have hsome : (members? decode (.object members)).isSome =
        (members.mapM fun ((name, j) : Json.Literal × Json) => do
          let name ← name.text?
          let value ← decode j
          pure (name, value)).isSome := by
      unfold members?
      rw [Option.bind_eq_bind, Option.isSome_bind]
      exact Option.any_true
    rw [hobject, hsome, Json.isSome_mapM_iff]
    refine forall₂_congr fun member _ => ?_
    obtain ⟨name, value⟩ := member
    rw [← h value]
    cases name <;> cases hvalue : decode value <;> simp [Json.Literal.text?, hvalue]
  | _ =>
    refine iff_of_false Bool.false_ne_true ?_
    intro ⟨members, hj, _⟩
    cases hj

theorem isSome_contracts?_iff : (contracts? v).isSome ↔ ∀ sources ∈ v, IsContracts sources := by
  have hcontract := fun j => Json.isSome_kept?_iff j (Json.depthLimit - contractDepth)
  cases v with
  | none => simp [contracts?]
  | some j =>
    have hcontracts := isSome_members?_iff (isSome_members?_iff hcontract) j
    unfold contracts?
    cases hmembers : members? (members? (Json.kept? (Json.depthLimit - contractDepth))) j with
    | none => simpa [hmembers, IsContracts] using hcontracts
    | some sources => simpa [hmembers, IsContracts] using hcontracts

/-- The acceptable outputs are those that are decoded. -/
theorem acceptable_iff {reported : List ReportedError} :
    Acceptable j reported ↔ ∃ output, ofJson? j = some output ∧ output.errors = reported := by
  constructor
  · intro ⟨v, w, items, hrecord, hlisted, hgiven, hcontracts⟩
    obtain ⟨contracts, hcontracts⟩ := Option.isSome_iff_exists.1
      (isSome_contracts?_iff.2 hcontracts)
    refine ⟨{ errors := reported, contracts }, ?_, rfl⟩
    unfold ofJson?
    rw [Json.fields?_eq_some_iff.2 hrecord]
    simp [errors?_eq_some_iff.2 ⟨items, hlisted, hgiven⟩, hcontracts]
  · intro ⟨output, h, herrors⟩
    obtain ⟨values, hvalues, h⟩ := Option.bind_eq_some_iff.1 h
    split at h
    · obtain ⟨errors, hgiven, h⟩ := Option.bind_eq_some_iff.1 h
      obtain ⟨contracts, hcontracts, h⟩ := Option.bind_eq_some_iff.1 h
      rw [← herrors, ← Option.some.inj h]
      obtain ⟨items, hlisted, hgiven⟩ := errors?_eq_some_iff.1 hgiven
      exact ⟨_, _, items, Json.fields?_eq_some_iff.1 hvalues, hlisted, hgiven,
        isSome_contracts?_iff.1 (Option.isSome_of_mem hcontracts)⟩
    · cases h

end CompilerOutput

/-! ## Runs -/

namespace Compiler

variable {d : Disk} {directory : Path} {contracts : List Contract} {target : CompileTarget}
  {text : String}

/-- Writing artifacts tells no diagnostic. -/
theorem diagnostics_writeArtifacts :
    diagnostics (writeArtifacts directory d contracts).notices = [] := by
  induction contracts generalizing d with
  | nil => rfl
  | cons c rest ih =>
    unfold writeArtifacts
    dsimp only
    split
    · rfl
    · rw [Notice.debug, Notice.diagnostics_log]
      exact ih

/-- It fails only because something cannot be written. -/
theorem exists_io_of_writeArtifacts {error : CompilerError}
    (h : (writeArtifacts directory d contracts).outcome = .error error) :
    ∃ path message, error = .io path message := by
  induction contracts generalizing d with
  | nil => cases h
  | cons c rest ih =>
    unfold writeArtifacts at h
    dsimp only at h
    split at h
    · cases h
      exact ⟨_, _, rfl⟩
    · rename_i d' _
      cases hrest : (writeArtifacts directory d' rest).outcome with
      | error e =>
        rw [hrest] at h
        cases h
        exact ih hrest
      | ok count =>
        rw [hrest] at h
        cases h

/-- The diagnostics of an output are those of its errors. -/
theorem diagnostics_processOutput {output : CompilerOutput}
    (hparse : CompilerOutput.ofText? text = some output) :
    diagnostics (processOutput text target d).notices =
      output.errors.map ReportedError.diagnostic := by
  unfold processOutput
  simp only [hparse]
  split
  · rw [Notice.diagnostics_append, Notice.diagnostics_map_diagnostic]
    exact List.append_nil _
  · dsimp only
    rw [Notice.diagnostics_append, Notice.diagnostics_append, Notice.diagnostics_map_diagnostic,
      diagnostics_writeArtifacts, List.append_nil]
    split <;> simp [Notice.info]

/-- **Reports**: a text that is not an acceptable output is refused, without a notice and with
    the disk as it was. For an acceptable one, the diagnostics tell its errors, one each and in
    their order; it fails only because an artifact cannot be written, and if a diagnostic is
    grave, it does not fail, counts no artifact and leaves the disk as it was. -/
theorem processOutput_tells (text : String) (target : CompileTarget) (d : Disk) :
    ((∀ j reported, Json.ofText? text = some j → ¬CompilerOutput.Acceptable j reported) →
      processOutput text target d = { outcome := .error .malformed, state := d }) ∧
    ∀ j reported, Json.ofText? text = some j → CompilerOutput.Acceptable j reported →
      List.Forall₂ ReportedError.Tells reported
        (diagnostics (processOutput text target d).notices) ∧
      (∀ error, (processOutput text target d).outcome = .error error →
        ∃ path message, error = .io path message) ∧
      ((∃ g ∈ diagnostics (processOutput text target d).notices, g.severity = .error) →
        (processOutput text target d).outcome = .ok 0 ∧
          (processOutput text target d).state = d) := by
  constructor
  · intro hnot
    have hparse : CompilerOutput.ofText? text = none := by
      rw [Option.eq_none_iff_forall_not_mem]
      intro output houtput
      obtain ⟨j, hj, houtput⟩ := Option.bind_eq_some_iff.1 houtput
      exact hnot j output.errors hj (CompilerOutput.acceptable_iff.2 ⟨output, houtput, rfl⟩)
    unfold processOutput
    rw [hparse]
  · intro j reported hj hacceptable
    obtain ⟨output, houtput, rfl⟩ := CompilerOutput.acceptable_iff.1 hacceptable
    have hparse : CompilerOutput.ofText? text = some output :=
      Option.bind_eq_some_iff.2 ⟨j, hj, houtput⟩
    rw [diagnostics_processOutput hparse]
    refine ⟨?_, ?_, ?_⟩
    · rw [List.forall₂_map_right_iff, List.forall₂_same]
      exact fun e _ => e.tells_diagnostic
    · intro error herror
      -- Without a grave error the outcome is that of writing the artifacts.
      unfold processOutput at herror
      simp only [hparse] at herror
      split at herror
      · cases herror
      · exact exists_io_of_writeArtifacts herror
    · intro ⟨g, hg, hsevere⟩
      have hany : ((output.errors.map ReportedError.diagnostic).any
          fun g => g.severity = .error) = true :=
        List.any_eq_true.2 ⟨g, hg, decide_eq_true hsevere⟩
      unfold processOutput
      simp only [hparse, if_pos hany, and_self]

/-- A target with a build directory. -/
def builtTarget : CompileTarget :=
  { buildDir := some "/p/out", projectPath := "/p", sourcesPath := "/p/src", packagesPath := none }

/-- An output with a warning, a grave error and a contract. -/
def failedOutput : String :=
  "\x7b\"errors\": [\x7b\"severity\": \"warning\", \"message\": \"unused\"\x7d, " ++
    "\x7b\"severity\": \"error\", \"message\": \"undeclared\", \"type\": \"TypeError\"\x7d], " ++
    "\"contracts\": \x7b\"a.sol\": \x7b\"A\": \x7b\"abi\": []\x7d\x7d\x7d\x7d"

/-- What it reports. -/
def failedErrors : List ReportedError :=
  [{ severity := "warning", message := "unused", kind := none, location := none },
    { severity := "error", message := "undeclared", kind := some "TypeError", location := none }]

/-- An output with an error that has no message. -/
def incompleteOutput : String :=
  "\x7b\"errors\": [\x7b\"severity\": \"error\"\x7d]\x7d"

/-- Both errors are told and nothing is written for the contract; the other output is refused. -/
theorem failedOutput_told :
    List.Forall₂ ReportedError.Tells failedErrors
      (diagnostics (processOutput failedOutput builtTarget .empty).notices) ∧
    (processOutput failedOutput builtTarget .empty).outcome = .ok 0 ∧
    (processOutput failedOutput builtTarget .empty).state = .empty ∧
    processOutput incompleteOutput builtTarget .empty =
      { outcome := .error .malformed, state := .empty } := by
  have hreported : (CompilerOutput.ofText? failedOutput).map CompilerOutput.errors =
      some failedErrors := by
    decide +kernel
  have hrefused : (CompilerOutput.ofText? incompleteOutput).isNone = true := by decide +kernel
  obtain ⟨output, hparse, herrors⟩ := Option.map_eq_some_iff.1 hreported
  obtain ⟨j, hj, houtput⟩ := Option.bind_eq_some_iff.1 hparse
  obtain ⟨htold, -, hgrave⟩ := (processOutput_tells failedOutput builtTarget .empty).2 j _ hj
    (CompilerOutput.acceptable_iff.2 ⟨output, houtput, herrors⟩)
  have hsevere : ∀ ds, List.Forall₂ ReportedError.Tells failedErrors ds →
      ∃ g ∈ ds, g.severity = .error := by
    intro ds hds
    obtain ⟨_, _, -, hrest, rfl⟩ := List.forall₂_cons_left_iff.1 hds
    obtain ⟨g, _, hg, -, rfl⟩ := List.forall₂_cons_left_iff.1 hrest
    exact ⟨g, by simp, hg.error.2 rfl⟩
  obtain ⟨houtcome, hstate⟩ := hgrave (hsevere _ htold)
  refine ⟨htold, houtcome, hstate, (processOutput_tells incompleteOutput builtTarget .empty).1 ?_⟩
  intro j reported hj hacceptable
  obtain ⟨output, houtput, -⟩ := CompilerOutput.acceptable_iff.1 hacceptable
  have hparse : CompilerOutput.ofText? incompleteOutput = some output :=
    Option.bind_eq_some_iff.2 ⟨j, hj, houtput⟩
  rw [hparse] at hrefused
  cases hrefused

end Compiler

end SolidityBuild
