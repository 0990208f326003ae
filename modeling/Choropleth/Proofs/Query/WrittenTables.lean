import Choropleth.Batch.Lookup
import Choropleth.Proofs.Number.ReadBack
import Choropleth.Proofs.Query.Cells
import Choropleth.Proofs.Text.Records

/-!
# Written tables read back

Tables of observations and lookup tables are written as comma-separated values. A reader finds their
records again, and in the fields of a table the last values of its cells.

* `Crosstab.HoldsLast`: a field holds the last value of an area and a category;
* `Crosstab.toCsv_eq`, `Crosstab.read_write_records`: a table is written and read back;
* `documentRows`, `writeLookupFrom_append`: the rows of documents, one document after the other;
* `written_tables_read_back`: tables and lookup tables are read back.
-/

namespace Choropleth

/-! ### Tables of observations -/

namespace Crosstab

/-- Every number is written with a text, so that it is told apart from an empty cell. -/
theorem write_ne_empty (x : Float) : tableNotation.write x ≠ "" := by
  have hbody : ((Dyadic.ofFloat x).shortest tableNotation.tie).write tableNotation ≠ [] := by
    intro h
    obtain ⟨d, hd, -⟩ := Decimal.readScientific?_write (f := tableNotation) (.inl rfl)
      ((Dyadic.ofFloat x).shortest tableNotation.tie)
    rw [h] at hd
    cases hd
  rw [Notation.write]
  split
  · decide
  split
  · split <;> decide
  · intro h
    have h := congrArg String.toList h
    rw [String.toList_ofList] at h
    split at h
    · cases h
    · exact hbody h

/-- A field of a table: it is empty where nothing has been observed, and elsewhere `readNumber`
finds in it the value that comes last. -/
def HoldsLast (readNumber : String → Option Float) (os : List Observation)
    (area category text : String) : Prop :=
  match lastValue? os area category with
  | none => text = ""
  | some x => text ≠ "" ∧ readNumber text = some x

theorem length_record (t : Crosstab) (row : ℕ) (area : String) :
    (t.record row area).length = t.categories.length + 1 := by
  simp [record]

/-- All records of a table have one length. -/
theorem length_of_mem_records {t : Crosstab} {r : List String} (h : r ∈ t.records) :
    r.length = t.categories.length + 1 := by
  rcases List.mem_cons.1 h with rfl | h
  · rfl
  · obtain ⟨i, hi, rfl⟩ := List.mem_mapIdx.1 h
    exact t.length_record i _

/-- Every table is written in full. -/
theorem toCsv_eq (t : Crosstab) : t.toCsv = .ok (Csv.write t.records) := by
  rw [toCsv, Csv.writeEven_eq fun _ => length_of_mem_records]
  rfl

/-- The records of a table are read back. -/
theorem read_write_records (t : Crosstab) : Csv.read (Csv.write t.records) = t.records :=
  Csv.read_write fun r hr he => by
    have hlength := length_of_mem_records hr
    rw [he] at hlength
    cases hlength

/-- The fields of a row hold the last values of its cells. -/
theorem holdsLast_record {readNumber : String → Option Float} {os : List Observation}
    (h : ∀ o ∈ os, readNumber (tableNotation.write o.value) = some o.value) {row : ℕ}
    {area : String} (hrow : (ofObservations os).areas[row]? = some area) :
    ∃ fields, (ofObservations os).record row area = area :: fields ∧
      List.Forall₂ (HoldsLast readNumber os area) (ofObservations os).categories fields := by
  refine ⟨_, rfl, List.forall₂_iff_get.2 ⟨by simp, fun column hc _ => ?_⟩⟩
  have hcell := (isIndexed_ofObservations os).get?_cells_eq hrow
    (List.getElem?_eq_getElem hc)
  rw [List.get_eq_getElem, List.get_eq_getElem, List.getElem_map, List.getElem_range, hcell,
    cell?_ofObservations, HoldsLast]
  cases hlast : lastValue? os area (ofObservations os).categories[column] with
  | none => rfl
  | some x =>
    obtain ⟨before, after, hos, -⟩ := lastValue?_eq_some_iff.1 hlast
    exact ⟨write_ne_empty x, h ⟨area, _, x⟩ (hos ▸ List.mem_append_right _ List.mem_cons_self)⟩

end Crosstab

/-! ### Lookup tables -/

/-- The rows of the document at a path. -/
def documentRows (read : String → Except BatchError String) (path : String) :
    Except BatchError (List LookupRow) :=
  (read path).bind lookupRows

/-- Documents that can be read add their rows, one document after the other. -/
theorem writeLookupFrom_append {read : String → Except BatchError String}
    {before : List String} {rows : List (List LookupRow)}
    (h : List.Forall₂ (fun path rs => documentRows read path = .ok rs) before rows)
    (written : ℕ) {csv : Csv.Writer} (hcsv : csv.Takes 4) (progress : List Progress)
    (rest : List String) : ∃ (csv' : Csv.Writer) (progress' : List Progress),
      writeLookupFrom read written csv progress (before ++ rest) =
        writeLookupFrom read (written + rows.flatten.length) csv' progress' rest ∧
      csv'.text = csv.text ++ Csv.write (rows.flatten.map LookupRow.record) := by
  induction h generalizing written csv progress with
  | nil => exact ⟨csv, progress, rfl, by simp [Csv.write]⟩
  | @cons path rs before rows hpath _ ih =>
    have hlength : ∀ r ∈ rs.map LookupRow.record, r.length = 4 := by simp [LookupRow.record]
    obtain ⟨v, hv, htext, htakes⟩ := Csv.Writer.writeAll_eq hcsv hlength
    obtain ⟨csv', progress', hrest, htext'⟩ := ih (written + rs.length) htakes
      (progress ++ [.message path] ++ [.advance 1])
    refine ⟨csv', progress', ?_, ?_⟩
    · rw [List.cons_append, writeLookupFrom]
      simp only [show (read path).bind lookupRows = .ok rs from hpath, hv]
      rw [hrest, List.flatten_cons, List.length_append, Nat.add_assoc]
    · rw [htext', htext, List.flatten_cons, List.map_append, Csv.write_append,
        String.append_assoc]

/-- The text in front of the rows of the first document. -/
def lookupStart : Csv.Writer := ⟨Csv.writeRecord lookupHeader, some 4⟩

theorem writeLookup_eq (read : String → Except BatchError String) (paths : List String) :
    writeLookup read paths =
      writeLookupFrom read 0 lookupStart [.total paths.length] paths := by
  have hheader : ({} : Csv.Writer).write lookupHeader = .ok lookupStart := by
    have hempty : ({} : Csv.Writer).Takes lookupHeader.length := nofun
    rw [Csv.Writer.write_eq hempty, String.empty_append]
    rfl
  rw [writeLookup, hheader]

theorem lookupStart_takes : lookupStart.Takes 4 := fun _ hm => (Option.some.inj hm).symm

theorem length_of_mem_lookup {rows : List LookupRow} {r : List String}
    (h : r ∈ lookupHeader :: rows.map LookupRow.record) : r.length = 4 := by
  rcases List.mem_cons.1 h with rfl | h
  · rfl
  · obtain ⟨row, -, rfl⟩ := List.mem_map.1 h
    rfl

/-- The records of a lookup table are read back. -/
theorem read_lookup (rows : List LookupRow) :
    Csv.read (Csv.writeRecord lookupHeader ++ Csv.write (rows.map LookupRow.record)) =
      lookupHeader :: rows.map LookupRow.record := by
  rw [← Csv.write_cons]
  refine Csv.read_write fun r hr he => ?_
  have hlength := length_of_mem_lookup hr
  rw [he] at hlength
  cases hlength

/-! ### Both kinds of tables -/

/-- **Written tables read back.** A table of observations is written in full, and a reader finds the
names of its columns and then, row by row, an area with the last values of its cells, if numbers are
read back from their texts. A lookup table holds the rows of all its documents in turn, and their
number is the result; a document that cannot be read ends the table after the rows before it. -/
theorem written_tables_read_back :
    (∀ (readNumber : String → Option Float) (os : List Observation),
      (∀ o ∈ os, readNumber (tableNotation.write o.value) = some o.value) →
      let t := Crosstab.ofObservations os
      ∃ text rows, t.toCsv = .ok text ∧
        Csv.read text = (Crosstab.areaColumn :: t.categories) :: rows ∧
        List.Forall₂ (fun area row => ∃ fields, row = area :: fields ∧
          List.Forall₂ (Crosstab.HoldsLast readNumber os area) t.categories fields)
          t.areas rows) ∧
    (∀ (read : String → Except BatchError String) (paths : List String)
      (rows : List (List LookupRow)),
      List.Forall₂ (fun path rs => documentRows read path = .ok rs) paths rows →
      let run := writeLookup read paths
      run.result = .ok rows.flatten.length ∧
      Csv.writeEven (lookupHeader :: rows.flatten.map LookupRow.record) = .ok run.csv ∧
      Csv.read run.csv = lookupHeader :: rows.flatten.map LookupRow.record) ∧
    (∀ (read : String → Except BatchError String) (before : List String) (path : String)
      (after : List String) (rows : List (List LookupRow)) (e : BatchError),
      List.Forall₂ (fun path rs => documentRows read path = .ok rs) before rows →
      documentRows read path = .error e →
      let run := writeLookup read (before ++ path :: after)
      run.result = .error e ∧
      Csv.read run.csv = lookupHeader :: rows.flatten.map LookupRow.record) := by
  refine ⟨fun readNumber os h => ?_, fun read paths rows h => ?_,
    fun read before path after rows e h he => ?_⟩
  · refine ⟨_, _, Crosstab.toCsv_eq _, Crosstab.read_write_records _, ?_⟩
    rw [List.forall₂_iff_get]
    refine ⟨by simp, fun row hrow _ => ?_⟩
    rw [List.get_eq_getElem, List.get_eq_getElem, List.getElem_mapIdx]
    exact Crosstab.holdsLast_record h (List.getElem?_eq_getElem hrow)
  · obtain ⟨csv, progress, hrun, htext⟩ :=
      writeLookupFrom_append h 0 lookupStart_takes [.total paths.length] []
    rw [List.append_nil, ← writeLookup_eq] at hrun
    have hcsv : (writeLookup read paths).csv =
        Csv.writeRecord lookupHeader ++ Csv.write (rows.flatten.map LookupRow.record) := by
      rw [hrun]
      exact htext
    refine ⟨?_, ?_, hcsv ▸ read_lookup _⟩
    · rw [hrun, Nat.zero_add]
      rfl
    · rw [hcsv, ← Csv.write_cons]
      exact Csv.writeEven_eq fun _ => length_of_mem_lookup
  · obtain ⟨csv, progress, hrun, htext⟩ := writeLookupFrom_append h 0 lookupStart_takes
      [.total (before ++ path :: after).length] (path :: after)
    have hend : writeLookup read (before ++ path :: after) =
        ⟨csv.text, progress ++ [.message path], .error e⟩ := by
      rw [writeLookup_eq, hrun, writeLookupFrom]
      simp only [show (read path).bind lookupRows = .error e from he]
    rw [hend]
    exact ⟨rfl, htext ▸ read_lookup _⟩

/-- Observations whose codes are empty or hold quotes, commas and line ends. -/
def awkwardObservations : List Observation :=
  [⟨"A,1", "say \"x\"", 1.5⟩, ⟨"", "\n", -0.0⟩, ⟨"A,1", "", 0.0 / 0.0⟩]

/-- Two documents: a feature with a code, and a text that is no document. -/
def awkwardDocuments (path : String) : Except BatchError String :=
  if path = "a" then
    .ok "\x7b\"type\": \"Feature\", \"geometry\": null,
      \"properties\": \x7b\"geocode\": \"A,1\", \"geotype\": \"LSOA\"\x7d\x7d"
  else .ok ""

theorem written_tables_read_back_of_awkward :
    (∀ o ∈ awkwardObservations,
      Number.readFloat? (tableNotation.write o.value).toList = some o.value) ∧
    (∃ text, (Crosstab.ofObservations awkwardObservations).toCsv = .ok text ∧
      (Csv.read text).length = 3) ∧
    documentRows awkwardDocuments "a" = .ok [⟨"A,1", "LSOA", "", ""⟩] ∧
    (writeLookup awkwardDocuments ["a", "a"]).result = .ok 2 ∧
    documentRows awkwardDocuments "b" = .error .geoJson ∧
    (writeLookup awkwardDocuments ["a", "b", "a"]).result = .error .geoJson := by
  have hread : ∀ o ∈ awkwardObservations,
      Number.readFloat? (tableNotation.write o.value).toList = some o.value := by decide +kernel
  have ha : documentRows awkwardDocuments "a" = .ok [⟨"A,1", "LSOA", "", ""⟩] := by
    decide +kernel
  have hb : documentRows awkwardDocuments "b" = .error .geoJson := by decide +kernel
  obtain ⟨htable, hlookup, hbroken⟩ := written_tables_read_back
  obtain ⟨text, rows, htext, hrows, hfields⟩ := htable (fun s => Number.readFloat? s.toList) _ hread
  have hareas : (Crosstab.ofObservations awkwardObservations).areas = ["A,1", ""] := by decide
  have hlength : (Csv.read text).length = 3 := by
    rw [hrows, List.length_cons, ← hfields.length_eq, hareas]
    rfl
  exact ⟨hread, ⟨text, htext, hlength⟩, ha,
    (hlookup _ _ _ (.cons ha (.cons ha .nil))).1, hb,
    (hbroken _ ["a"] "b" ["a"] _ _ (.cons ha .nil) hb).1⟩

end Choropleth
