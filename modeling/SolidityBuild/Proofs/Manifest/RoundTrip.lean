import SolidityBuild.Proofs.Json.Records
import SolidityBuild.Proofs.Json.RoundTrip
import SolidityBuild.Proofs.Manifest.Directories

/-! # Round trip of manifests: a written manifest is read as the same one

    A manifest is written as an object with one member for each field that is there. The fields
    have different names, so each of them finds its own member, and a field without a member is
    none again; an empty text has a member like any other text. What was read is then checked
    as any manifest is.
-/

namespace SolidityBuild

/-! ## Fields that are there -/

namespace Json

variable {name : String} {names : List String} {texts : List (Option String)} {short : Bool}
  {member : Literal × Json} {front : List (Literal × Json)}

/-- The members for the texts that are there, each under its name. -/
def presentMembers (names : List String) (texts : List (Option String)) :
    List (Literal × Json) :=
  (names.zip texts).filterMap fun (name, text) => text.map fun t => (.text name, ofString t)

theorem presentMembers_cons (name : String) (names : List String) (text : Option String)
    (texts : List (Option String)) : presentMembers (name :: names) (text :: texts) =
      (text.map fun t => (.text name, ofString t)).toList ++ presentMembers names texts := by
  cases text <;> rfl

theorem exists_name_of_mem_presentMembers (h : member ∈ presentMembers names texts) :
    ∃ name ∈ names, member.1 = .text name := by
  obtain ⟨⟨name, text⟩, hpair, hmember⟩ := List.mem_filterMap.1 h
  obtain ⟨t, -, rfl⟩ := Option.map_eq_some_iff.1 hmember
  exact ⟨name, (List.of_mem_zip hpair).1, rfl⟩

/-- Members of other names do not matter for a field. -/
theorem filter_eq_nil_of_names (h : ∀ member ∈ front, member.1 ≠ .text name) :
    (front.filter fun member => member.1 = .text name) = [] := by
  rw [List.filter_eq_nil_iff]
  intro member hmember hname
  exact h member hmember (of_decide_eq_true hname)

/-- Each field finds its own text, or none where there is no text. -/
theorem isField_presentMembers (hnodup : names.Nodup) (hlength : names.length = texts.length)
    (hfront : ∀ member ∈ front, ∀ name ∈ names, member.1 ≠ .text name) :
    List.Forall₂ (IsField (front ++ presentMembers names texts)) names
      (texts.map (Option.map ofString)) := by
  -- What the names before have left in front has none of the names that are still to come.
  induction names generalizing texts front with
  | nil =>
    cases texts with
    | nil => exact .nil
    | cons text texts => cases hlength
  | cons name names ih =>
    cases texts with
    | nil => cases hlength
    | cons text texts =>
      obtain ⟨hnew, hnodup⟩ := List.nodup_cons.1 hnodup
      have hothers : ∀ member ∈ presentMembers names texts, member.1 ≠ .text name := by
        intro member hmember hname
        obtain ⟨other, hother, heq⟩ := exists_name_of_mem_presentMembers hmember
        rw [heq, Literal.text.injEq] at hname
        exact hnew (hname ▸ hother)
      rw [presentMembers_cons, List.map_cons]
      apply List.Forall₂.cons
      · show (List.filter _ _).map Prod.snd = _
        rw [List.filter_append, List.filter_append, filter_eq_nil_of_names hothers,
          filter_eq_nil_of_names fun member h => hfront member h name (List.mem_cons_self ..)]
        cases text <;> simp
      · rw [← List.append_assoc]
        apply ih hnodup (Nat.succ.inj hlength)
        intro member hmember other hother
        rcases List.mem_append.1 hmember with hmember | hmember
        · exact hfront member hmember other (List.mem_cons_of_mem _ hother)
        · obtain ⟨t, -, rfl⟩ := Option.map_eq_some_iff.1 (Option.mem_toList.1 hmember)
          intro hname
          exact hnew (Literal.text.inj hname ▸ hother)

theorem fields?_presentMembers (hnodup : names.Nodup) (hlength : names.length = texts.length) :
    (object (presentMembers names texts)).fields? names short =
      some (texts.map (Option.map ofString)) := by
  apply fields?_object_eq_some_iff.2
  constructor
  · intro member hmember hunpaired
    obtain ⟨name, -, hname⟩ := exists_name_of_mem_presentMembers hmember
    rw [hname] at hunpaired
    cases hunpaired
  · rw [← List.nil_append (presentMembers names texts)]
    exact isField_presentMembers hnodup hlength nofun

theorem optionalText?_ofString (text : Option String) :
    optionalText? (text.map ofString) = some text := by
  apply optionalText?_eq_some_iff.2
  cases text with
  | none => exact .missing
  | some t => exact .text t

end Json

/-! ## Manifests -/

namespace Manifest

variable {m : Manifest} {text : String}

theorem toJson_eq (m : Manifest) : m.toJson =
    .object (Json.presentMembers fieldNames [m.name, m.version, m.solSources, m.buildDir]) := by
  unfold toJson Json.record Json.presentMembers
  rw [List.map_filterMap]
  congr 2
  funext ⟨name, text⟩
  cases text <;> rfl

/-- Decoding undoes encoding, whichever fields are there. -/
theorem ofJson?_toJson (m : Manifest) : ofJson? m.toJson = some m := by
  have hfields : m.toJson.fields? fieldNames true =
      some ([m.name, m.version, m.solSources, m.buildDir].map (Option.map Json.ofString)) := by
    rw [toJson_eq]
    exact Json.fields?_presentMembers (by decide) rfl
  unfold ofJson?
  rw [hfields]
  simp [Json.optionalText?_ofString]

/-- A text for the encoded manifest is accepted if the manifest is, and refused for its fault
    otherwise. -/
theorem ofText_of_toJson (h : Json.ofText? text = some m.toJson) :
    ofText text = m.validate.map fun _ => m := by
  apply ofText_eq_of_decoded
  rw [h]
  exact ofJson?_toJson m

theorem exists_outside_of_validate {fault : Fault} (h : m.validate = .error fault) :
    ∃ field directory, fault = .outside field directory := by
  rcases validate_eq_error_iff.1 h with hsources | ⟨-, hbuild⟩
  · obtain ⟨directory, -, -, rfl⟩ := check_eq_error_iff.1 hsources
    exact ⟨_, _, rfl⟩
  · obtain ⟨directory, -, -, rfl⟩ := check_eq_error_iff.1 hbuild
    exact ⟨_, _, rfl⟩

/-- **Round trip**: a manifest that passes its check is read back from either form of its JSON
    as the same manifest, each field with the same text or with none. One that does not pass is
    refused, because the directory that fails the check may lie outside the package. -/
theorem ofText_written (m : Manifest) :
    (m.validate = .ok () →
      ofText m.toJson.compact = .ok m ∧ ofText m.toJson.pretty = .ok m) ∧
    ∀ fault, m.validate = .error fault →
      ofText m.toJson.compact = .error fault ∧ ofText m.toJson.pretty = .error fault ∧
        ∃ field directory, fault = .outside field directory := by
  have hcompact := ofText_of_toJson (Json.ofText?_compact m.toJson)
  have hpretty := ofText_of_toJson (Json.ofText?_pretty m.toJson)
  constructor
  · intro hvalid
    rw [hcompact, hpretty, hvalid]
    exact ⟨rfl, rfl⟩
  · intro fault hfault
    rw [hcompact, hpretty, hfault]
    exact ⟨rfl, rfl, exists_outside_of_validate hfault⟩

/-- A manifest whose name needs escapes, with an empty version and no sources. -/
def awkward : Manifest where
  name := some "\x22to\\ken\x22\n\x01\u00e9"
  version := some ""
  buildDir := some "out//"

/-- A manifest whose build directory lies beside the package. -/
def beside : Manifest where
  solSources := some ""
  buildDir := some "../out"

/-- The first one comes back with its empty version, without sources and with both slashes; the
    second one is refused. -/
theorem awkward_written :
    (awkward.validate = .ok () ∧ ofText awkward.toJson.compact = .ok awkward ∧
      ofText awkward.toJson.pretty = .ok awkward) ∧
    beside.validate = .error (.outside "build_dir" "../out") ∧
      ofText beside.toJson.compact = .error (.outside "build_dir" "../out") := by
  have hvalid : awkward.validate = .ok () := by decide
  have hfault : beside.validate = .error (.outside "build_dir" "../out") := by decide
  have hrefused := (ofText_written beside).2 _ hfault
  exact ⟨⟨hvalid, (ofText_written awkward).1 hvalid⟩, hfault, hrefused.1⟩

end Manifest

end SolidityBuild
