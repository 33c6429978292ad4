import SolidityBuild.Proofs.Remapping.Reading
import Mathlib.Data.List.Basic

/-! # Listings: a list of remappings, one a line

    A listing is read line by line. Blank lines and comments count for nothing, blanks around
    a remapping and a carriage return at the end of its line do not either; each other line is
    read as a remapping, in order, and the first one that cannot be read decides.
-/

namespace SolidityBuild

namespace Text

variable {line : List Char}

/-- The first line of a text ends at its first line feed. -/
theorem lines_append_feed (h : '\n' ∉ line) (rest : List Char) :
    lines (line ++ '\n' :: rest) = chopReturn line :: lines rest := by
  -- What follows the line feed is at least one piece, so it is not the line that is dropped.
  have hne := pieces_ne_nil '\n' rest
  simp only [lines, pieces_append_sep h, List.dropLast_cons_of_ne_nil hne, List.map_cons,
    List.getLast?_cons]
  rw [List.getLast?_eq_some_getLast hne, Option.getD_some]
  cases (pieces '\n' rest).getLast hne with
  | nil => rfl
  | cons c cs => rfl

/-- Without a line feed there is at most one line. -/
theorem lines_of_not_mem (h : '\n' ∉ line) : lines line = if line = [] then [] else [line] := by
  simp only [lines, pieces_of_not_mem h]
  cases line with
  | nil => rfl
  | cons c cs => rfl

/-- The carriage return that ends a line is a blank. -/
theorem trimChars_chopReturn (line : List Char) : trimChars (chopReturn line) = trimChars line := by
  unfold chopReturn
  split
  · rename_i hlast
    have hline : line = [] ++ line.dropLast ++ ['\r'] := by
      obtain ⟨front, rfl⟩ := List.getLast?_eq_some_iff.1 hlast
      rw [List.dropLast_concat, List.nil_append]
    conv => rhs; rw [hline]
    exact (trimChars_append blanks_nil (by decide) line.dropLast).symm
  · rfl

end Text

namespace Remapping

open Text (Blanks Trimmed)

/-! ## The lines that count -/

/-- What a line of a listing has to say, if anything. -/
def wording? (line : List Char) : Option String :=
  let trimmed := Text.trimChars line
  if trimmed.isEmpty || trimmed.head? = some '#' then none else some (String.ofList trimmed)

theorem entries_eq (text : String) :
    entries text = (Text.lines text.toList).filterMap wording? := by
  unfold entries
  rw [List.filterMap_map]
  rfl

/-- A comment: a line with nothing but blanks in front of a `#`. -/
def IsNote (line : List Char) : Prop :=
  ∃ before body, Blanks before ∧ line = before ++ '#' :: body

/-- A line that is neither blank nor a comment. -/
def Counts (line : List Char) : Prop :=
  ¬Blanks line ∧ ¬IsNote line

variable {line : List Char} {r : Remapping} {e : Fault}

theorem wording?_of_counts (h : Counts line) :
    wording? line = some (String.ofList (Text.trimChars line)) := by
  have hblank : ¬Text.trimChars line = [] := fun hnil => h.1 (Text.trimChars_eq_nil_iff.1 hnil)
  have hnote : ¬(Text.trimChars line).head? = some '#' := fun hhead =>
    h.2 ((Text.head?_trimChars_iff (by decide)).1 hhead)
  simp [wording?, hblank, hnote]

theorem wording?_of_not_counts (h : ¬Counts line) : wording? line = none := by
  unfold wording?
  by_cases hblank : Blanks line
  · rw [Text.trimChars_eq_nil_iff.2 hblank]
    rfl
  · have hnote : IsNote line := by
      by_contra hnote
      exact h ⟨hblank, hnote⟩
    simp [(Text.head?_trimChars_iff (by decide)).2 hnote]

/-- A line is read as what is left of it by trimming. -/
theorem parse_trimChars (line : List Char) :
    parse (String.ofList (Text.trimChars line)) = parse (String.ofList line) := by
  unfold parse
  rw [String.toList_ofList, String.toList_ofList, (Text.trimmed_trimChars line).trimChars_eq]

/-! ## Listings that cannot be read -/

/-- Why a line cannot be read, if it counts and cannot. -/
def fault? (line : List Char) : Option Fault :=
  match (wording? line).map parse with
  | some (.error e) => some e
  | _ => none

theorem fault?_eq_some_iff :
    fault? line = some e ↔ Counts line ∧ parse (String.ofList line) = .error e := by
  unfold fault?
  by_cases h : Counts line
  · rw [wording?_of_counts h, Option.map_some, parse_trimChars]
    cases parse (String.ofList line) <;> simp [h]
  · rw [wording?_of_not_counts h]
    simp [h]

theorem fault?_eq_none_iff :
    fault? line = none ↔ (Counts line → ∃ r, parse (String.ofList line) = .ok r) := by
  unfold fault?
  by_cases h : Counts line
  · rw [wording?_of_counts h, Option.map_some, parse_trimChars]
    cases parse (String.ofList line) <;> simp [h]
  · rw [wording?_of_not_counts h]
    simp [h]

/-- Reading stops at the first line with a fault. -/
theorem mapM_entries_eq_error_iff {ls : List (List Char)} :
    (ls.filterMap wording?).mapM parse = .error e ↔ ls.findSome? fault? = some e := by
  induction ls with
  | nil => simp [pure, Except.pure]
  | cons line ls ih =>
    rw [List.findSome?_cons, fault?]
    cases hword : wording? line with
    | none =>
      -- A line that says nothing has no fault and is not read.
      rw [List.filterMap_cons_none hword]
      exact ih
    | some entry =>
      rw [List.filterMap_cons_some hword, List.mapM_cons, Option.map_some]
      cases parse entry with
      | error e' => simp [bind, Except.bind]
      | ok r =>
        -- The later lines decide, whatever remapping this one holds.
        cases hrest : (ls.filterMap wording?).mapM parse with
        | error e' => simpa [bind, Except.bind, hrest] using ih
        | ok rs =>
          rw [hrest] at ih
          simpa [bind, Except.bind, pure, Except.pure, hrest] using ih

/-- A listing cannot be read because of the first line that counts and cannot be read. -/
theorem parseList_eq_error_iff {text : String} : parseList text = .error e ↔
    ∃ before line after, Text.lines text.toList = before ++ line :: after ∧
      (Counts line ∧ parse (String.ofList line) = .error e) ∧
      ∀ l ∈ before, Counts l → ∃ r, parse (String.ofList l) = .ok r := by
  rw [parseList, entries_eq, mapM_entries_eq_error_iff, List.findSome?_eq_some_iff]
  simp only [fault?_eq_some_iff, fault?_eq_none_iff]

/-! ## Listings of given remappings -/

/-- What a line of a listing holds. -/
inductive Content where
  | nothing
  /-- a comment behind its `#` -/
  | note (body : List Char)
  | remapping (r : Remapping)

/-- The text of what a line holds. -/
def Content.text : Content → List Char
  | nothing => []
  | note body => '#' :: body
  | remapping r => r.written.toList

def Content.remapping? : Content → Option Remapping
  | remapping r => some r
  | _ => none

/-- A line of a listing. -/
structure Row where
  /-- the blanks in front of what the line holds -/
  before : List Char := []
  content : Content
  /-- the blanks behind it -/
  after : List Char := []
  /-- whether a carriage return stands in front of the line feed -/
  returned : Bool := false

/-- The text of a row without its ending. -/
def Row.text (row : Row) : List Char :=
  row.before ++ row.content.text ++ row.after

/-- The text of a row with its ending. -/
def Row.ended (row : Row) : List Char :=
  row.text ++ (if row.returned then ['\r'] else []) ++ ['\n']

/-- The listing of some rows; nothing ends the last one. -/
def listing (rows : List Row) (last : Row) : String :=
  String.ofList (rows.flatMap Row.ended ++ last.text)

/-- A remapping that can stand in a listing. -/
structure Listable (r : Remapping) : Prop where
  proper : r.Proper
  not_ambiguous : ¬r.Ambiguous
  head_ne : r.written.toList.head? ≠ some '#'

/-- A row is one line, with blanks around what it holds. -/
structure Row.Valid (row : Row) : Prop where
  blanks_before : Blanks row.before
  blanks_after : Blanks row.after
  feed_not_mem : '\n' ∉ row.text
  listable : ∀ r ∈ row.content.remapping?, r.Listable

theorem Listable.counts (h : r.Listable) : Counts r.written.toList := by
  have htrimmed := h.proper.trimmed_written.trimChars_eq
  constructor
  · intro hblanks
    have hnil := Text.trimChars_eq_nil_iff.2 hblanks
    rw [htrimmed, toList_written] at hnil
    exact absurd (List.append_eq_nil_iff.1 hnil).2 (List.cons_ne_nil _ _)
  · intro hnote
    have hhead := (Text.head?_trimChars_iff (by decide)).2 hnote
    rw [htrimmed] at hhead
    exact h.head_ne hhead

theorem wording?_congr {other : List Char} (h : Text.trimChars line = Text.trimChars other) :
    wording? line = wording? other := by
  unfold wording?
  rw [h]

/-- A row says what it holds, whatever blanks follow it. -/
theorem Row.Valid.wording?_append {row : Row} (h : row.Valid) {tail : List Char}
    (htail : Blanks tail) :
    wording? (row.text ++ tail) = row.content.remapping?.map written := by
  -- All the blanks around the content are trimmed away.
  have hsame : wording? (row.text ++ tail) = wording? row.content.text := by
    apply wording?_congr
    unfold Row.text
    rw [List.append_assoc _ row.after tail]
    exact Text.trimChars_append h.blanks_before (h.blanks_after.append htail) _
  rw [hsame]
  cases hcontent : row.content with
  | nothing => rfl
  | note body =>
    refine wording?_of_not_counts ?_
    intro hcounts
    exact hcounts.2 ⟨[], body, Text.blanks_nil, rfl⟩
  | remapping r =>
    have hr : r.Listable := h.listable r (by rw [hcontent]; rfl)
    show wording? r.written.toList = some r.written
    rw [wording?_of_counts hr.counts, hr.proper.trimmed_written.trimChars_eq, String.ofList_toList]

/-- Each row is one line. -/
theorem lines_listing {rows : List Row} {last : Row} (hrows : ∀ row ∈ rows, row.Valid)
    (hlast : last.Valid) :
    Text.lines (rows.flatMap Row.ended ++ last.text) =
      rows.map (fun row => Text.chopReturn (row.text ++ if row.returned then ['\r'] else [])) ++
        if last.text = [] then [] else [last.text] := by
  induction rows with
  | nil => exact Text.lines_of_not_mem hlast.feed_not_mem
  | cons row rows ih =>
    -- A carriage return stands in front of the line feed, so the row is still one line.
    have hfeed : '\n' ∉ row.text ++ if row.returned then ['\r'] else [] := by
      have hrow := (hrows row (List.mem_cons_self ..)).feed_not_mem
      cases row.returned <;> simp [hrow]
    have hrest := ih fun row hrow => hrows row (List.mem_cons_of_mem _ hrow)
    rw [List.flatMap_cons, List.map_cons, List.cons_append, ← hrest, Row.ended, List.append_assoc,
      List.append_assoc]
    rw [← Text.lines_append_feed hfeed]
    simp only [List.append_assoc, List.cons_append, List.nil_append]

/-- The entries of a listing are the remappings in it. -/
theorem entries_listing {rows : List Row} {last : Row} (hrows : ∀ row ∈ rows, row.Valid)
    (hlast : last.Valid) :
    entries (listing rows last) =
      ((rows ++ [last]).filterMap (·.content.remapping?)).map written := by
  have hrow : ∀ row ∈ rows,
      wording? (Text.chopReturn (row.text ++ if row.returned then ['\r'] else [])) =
        row.content.remapping?.map written := by
    intro row hmem
    rw [wording?_congr (Text.trimChars_chopReturn _)]
    refine (hrows row hmem).wording?_append ?_
    cases row.returned
    · exact Text.blanks_nil
    · exact (by decide : Blanks ['\r'])
  -- A last row without a text is no line, and would say nothing as one.
  have hend : (if last.text = [] then [] else [last.text]).filterMap wording? =
      [last].filterMap fun row => row.content.remapping?.map written := by
    have hword := hlast.wording?_append Text.blanks_nil
    rw [List.append_nil] at hword
    by_cases hnil : last.text = []
    · rw [if_pos hnil, List.filterMap_nil, List.filterMap_cons, ← hword, hnil]
      rfl
    · rw [if_neg hnil, List.filterMap_cons, List.filterMap_cons, ← hword]
      rfl
  rw [entries_eq, listing, String.toList_ofList, lines_listing hrows hlast, List.filterMap_append,
    List.filterMap_map, hend, List.map_filterMap, List.filterMap_append]
  congr 1
  exact List.filterMap_congr hrow

theorem mapM_parse_written {rs : List Remapping} (h : ∀ r ∈ rs, parse r.written = .ok r) :
    (rs.map written).mapM parse = .ok rs := by
  induction rs with
  | nil => rfl
  | cons r rs ih =>
    have hrest := ih fun r hr => h r (List.mem_cons_of_mem _ hr)
    rw [List.map_cons, List.mapM_cons, h r (List.mem_cons_self ..), hrest]
    rfl

/-- A listing of remappings is read as these. -/
theorem parseList_listing {rows : List Row} {last : Row} (hrows : ∀ row ∈ rows, row.Valid)
    (hlast : last.Valid) :
    parseList (listing rows last) = .ok ((rows ++ [last]).filterMap (·.content.remapping?)) := by
  rw [parseList, entries_listing hrows hlast]
  refine mapM_parse_written ?_
  intro r hr
  obtain ⟨row, hrow, hcontent⟩ := List.mem_filterMap.1 hr
  have hvalid : row.Valid := by
    rcases List.mem_append.1 hrow with hrow | hrow
    · exact hrows row hrow
    · rw [List.mem_singleton.1 hrow]
      exact hlast
  have hlistable := hvalid.listable r hcontent
  exact hlistable.proper.parse_written hlistable.not_ambiguous

/-- **A list is read line by line**: a listing of remappings, with whatever blanks, blank lines
    and comments, is read as these in order; and a text cannot be read exactly because of the
    first line that is neither blank nor a comment and cannot be read. -/
theorem parseList_line_by_line :
    (∀ (rows : List Row) (last : Row), (∀ row ∈ rows, row.Valid) → last.Valid →
      parseList (listing rows last) = .ok ((rows ++ [last]).filterMap (·.content.remapping?))) ∧
    ∀ (text : String) (e : Fault), parseList text = .error e ↔
      ∃ before line after, Text.lines text.toList = before ++ line :: after ∧
        (Counts line ∧ parse (String.ofList line) = .error e) ∧
        ∀ l ∈ before, Counts l → ∃ r, parse (String.ofList l) = .ok r :=
  ⟨fun _ _ hrows hlast => parseList_listing hrows hlast, fun _ _ => parseList_eq_error_iff⟩

/-- A remapping with a context, a colon in its stem and an equals sign in its target. -/
def listed : Remapping where
  context := some "test"
  stem := "a:b/"
  target := "x=y"

/-- The rows of a listing with a comment, a blank line and a line that ends in a carriage
    return. -/
def mixedRows : List Row :=
  [{ content := .note " vendored".toList },
   { before := [' '], content := .remapping listed, returned := true },
   { before := ['\t'], content := .nothing }]

/-- The last row of that listing. -/
def lastRow : Row where
  content := .remapping { stem := "lib/", target := "" }
  after := [' ']

theorem mixedRows_read :
    (∀ row ∈ mixedRows, row.Valid) ∧ lastRow.Valid ∧
      parseList "# vendored\n test:a:b/=x=y\r\n\t\nlib/= " =
        .ok [listed, { stem := "lib/", target := "" }] := by
  have hrows : ∀ row ∈ mixedRows, row.Valid := by
    intro row hrow
    simp only [mixedRows, List.mem_cons, List.not_mem_nil, or_false] at hrow
    rcases hrow with rfl | rfl | rfl
    · exact ⟨by decide, by decide, by decide, fun r hr => by cases hr⟩
    · refine ⟨by decide, by decide, by decide, ?_⟩
      intro r hr
      obtain rfl := Option.some.inj hr
      exact ⟨proper_of_parse (s := "test:a:b/=x=y") (by decide +kernel), by decide, by decide⟩
    · exact ⟨by decide, by decide, by decide, fun r hr => by cases hr⟩
  have hlast : lastRow.Valid := by
    refine ⟨by decide, by decide, by decide, ?_⟩
    intro r hr
    obtain rfl := Option.some.inj hr
    exact ⟨proper_of_parse (s := "lib/=") (by decide +kernel), by decide, by decide⟩
  exact ⟨hrows, hlast, parseList_line_by_line.1 mixedRows lastRow hrows hlast⟩

end Remapping

end SolidityBuild
