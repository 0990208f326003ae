import Mathlib.Data.List.Basic
import Choropleth.Csv

/-!
# Written records read back

A reader of comma-separated values finds the records that were written, whatever stands in their
fields: commas, quotes, line ends or nothing at all.

* `Csv.readFrom_writeField`: a field is read up to its end;
* `Csv.readFrom_writeFields`: a record is read up to its line end;
* `Csv.read_write`: records are read back, if each of them has a field;
* `Csv.Writer.writeAll_eq`, `Csv.writeEven_eq`: records of one length are all written.
-/

namespace Choropleth
namespace Csv

/-! ### Ends of fields and records -/

theorem readFrom_comma {state : State} (h : state ≠ .inside) (field : List Char)
    (record : List (List Char)) (s : List Char) :
    readFrom state field record (',' :: s) = readFrom .start [] (field.reverse :: record) s := by
  cases state with
  | inside => exact absurd rfl h
  | _ => simp [readFrom]

/-- A line end closes a record, unless nothing has been read of it. -/
theorem readFrom_lineEnd {state : State} (h : state ≠ .inside) {record : List (List Char)}
    (hr : state = .start → record ≠ []) (field s : List Char) :
    readFrom state field record ('\n' :: s) =
      (record.reverse ++ [field.reverse]) :: readFrom .start [] [] s := by
  rw [← List.reverse_cons]
  cases state with
  | inside => exact absurd rfl h
  | start => simp [readFrom, hr rfl]
  | _ => simp [readFrom]

/-! ### Fields -/

theorem readFrom_plain {f : List Char} (hf : needsQuotes f = false) (field : List Char)
    (record : List (List Char)) (s : List Char) :
    readFrom .plain field record (f ++ s) = readFrom .plain (f.reverse ++ field) record s := by
  induction f generalizing field with
  | nil => rfl
  | cons c f ih =>
    simp only [needsQuotes, List.any_cons, Bool.or_eq_false_iff, decide_eq_false_iff_not] at hf ih
    obtain ⟨⟨⟨⟨hcomma, hquote⟩, -⟩, hline⟩, hf⟩ := hf
    rw [List.cons_append, readFrom, if_neg hcomma, if_neg hline, if_neg (by simp [hquote]),
      if_neg (by simp [hquote]), ih hf, List.reverse_cons, List.append_assoc]
    · rfl
    · exact nofun

/-- Between quotes every character is read as it is, the doubled quotes as one. -/
theorem readFrom_doubleQuotes (f field : List Char) (record : List (List Char)) (s : List Char) :
    readFrom .inside field record (doubleQuotes f ++ s) =
      readFrom .inside (f.reverse ++ field) record s := by
  induction f generalizing field with
  | nil => rfl
  | cons c f ih =>
    rw [List.reverse_cons, List.append_assoc, List.singleton_append, ← ih, doubleQuotes]
    by_cases hc : c = '"'
    · subst hc
      rfl
    · rw [if_neg hc, List.cons_append, readFrom, if_neg hc]

/-- A written field is read up to its end. Only an empty one leaves the reader at its start. -/
theorem readFrom_writeField (f : List Char) (record : List (List Char)) :
    ∃ state : State, state ≠ .inside ∧ (state = .start → f = []) ∧ ∀ s : List Char,
      readFrom .start [] record (writeField f ++ s) = readFrom state f.reverse record s := by
  rw [writeField]
  cases hf : needsQuotes f with
  | true =>
    refine ⟨.closing, nofun, nofun, fun s => ?_⟩
    have hopen : readFrom .start [] record ('"' :: (doubleQuotes f ++ '"' :: s)) =
        readFrom .inside [] record (doubleQuotes f ++ '"' :: s) := by simp [readFrom]
    rw [if_pos rfl, List.append_assoc, List.cons_append, List.singleton_append, hopen,
      readFrom_doubleQuotes, List.append_nil]
    rfl
  | false =>
    rw [if_neg Bool.false_ne_true]
    cases f with
    | nil => exact ⟨.start, nofun, fun _ => rfl, fun s => rfl⟩
    | cons c f =>
      refine ⟨.plain, nofun, nofun, fun s => ?_⟩
      simp only [needsQuotes, List.any_cons, Bool.or_eq_false_iff, decide_eq_false_iff_not] at hf
      obtain ⟨⟨⟨⟨hcomma, hquote⟩, -⟩, hline⟩, hf⟩ := hf
      rw [List.cons_append, readFrom, if_neg hcomma, if_neg hline, if_neg (by simp [hquote]),
        if_neg (by simp [hquote]), readFrom_plain hf, List.reverse_cons]
      exact nofun

/-! ### Records -/

/-- The fields of a record are read up to its line end. A single empty field would be taken for a
blank line, unless other fields stand in front of it. -/
theorem readFrom_writeFields {fs : List (List Char)} (hne : fs ≠ []) {record : List (List Char)}
    (h : fs = [[]] → record ≠ []) (s : List Char) :
    readFrom .start [] record (writeFields fs ++ '\n' :: s) =
      (record.reverse ++ fs) :: readFrom .start [] [] s := by
  induction fs generalizing record with
  | nil => exact absurd rfl hne
  | cons f fs ih =>
    obtain ⟨state, hstate, hstart, hread⟩ := readFrom_writeField f record
    cases fs with
    | nil =>
      have hr : state = .start → record ≠ [] := fun hs => h (by rw [hstart hs])
      rw [writeFields, hread, readFrom_lineEnd hstate hr, List.reverse_reverse]
    | cons g fs =>
      rw [writeFields, List.append_assoc, hread, List.cons_append, readFrom_comma hstate,
        List.reverse_reverse, ih (List.cons_ne_nil g fs) fun _ => List.cons_ne_nil f record,
        List.reverse_cons, List.append_assoc, List.singleton_append]

theorem readFrom_writeRecordChars {fs : List (List Char)} (hne : fs ≠ []) (s : List Char) :
    readFrom .start [] [] (writeRecordChars fs ++ s) = fs :: readFrom .start [] [] s := by
  rw [writeRecordChars, List.append_assoc, List.singleton_append]
  by_cases h : fs = [[]]
  · -- the pair of quotes that stands for a single empty field
    rw [if_pos h, h]
    rfl
  · rw [if_neg h, readFrom_writeFields hne fun he => absurd he h]
    rfl

theorem readChars_flatMap {records : List (List (List Char))} (h : ∀ r ∈ records, r ≠ []) :
    readChars (records.flatMap writeRecordChars) = records := by
  induction records with
  | nil => rfl
  | cons r records ih =>
    obtain ⟨hr, hrecords⟩ := List.forall_mem_cons.1 h
    rw [List.flatMap_cons, readChars, readFrom_writeRecordChars hr]
    exact congrArg (r :: ·) (ih hrecords)

/-- **Written records are read back.** -/
theorem read_write {records : List (List String)} (h : ∀ r ∈ records, r ≠ []) :
    read (write records) = records := by
  have hchars : ∀ r ∈ records.map (List.map String.toList), r ≠ [] := by
    intro r hr
    obtain ⟨fields, hfields, rfl⟩ := List.mem_map.1 hr
    exact fun he => h fields hfields (List.map_eq_nil_iff.1 he)
  have hread := readChars_flatMap hchars
  rw [List.flatMap_map] at hread
  rw [read, write, String.toList_ofList, hread, List.map_map]
  refine (List.map_congr_left fun r _ => ?_).trans (List.map_id records)
  simp

theorem write_cons (r : List String) (records : List (List String)) :
    write (r :: records) = writeRecord r ++ write records := by
  rw [write, write, writeRecord, List.flatMap_cons, String.ofList_append]

theorem write_append (records others : List (List String)) :
    write (records ++ others) = write records ++ write others := by
  rw [write, write, write, List.flatMap_append, String.ofList_append]

/-! ### Records of one length -/

namespace Writer

variable {w : Writer} {n : ℕ}

/-- Records with so many fields may follow. -/
def Takes (w : Writer) (n : ℕ) : Prop := ∀ m ∈ w.width, m = n

theorem write_eq {record : List String} (h : w.Takes record.length) :
    w.write record = .ok ⟨w.text ++ writeRecord record, some record.length⟩ := by
  obtain ⟨text, width⟩ := w
  cases width with
  | none => rfl
  | some m =>
    obtain rfl : m = record.length := h m rfl
    exact if_pos rfl

/-- Records of the length that is asked for are all written. -/
theorem writeAll_eq (hw : w.Takes n) {records : List (List String)}
    (h : ∀ r ∈ records, r.length = n) : ∃ v : Writer,
      w.writeAll records = (none, v) ∧ v.text = w.text ++ Csv.write records ∧ v.Takes n := by
  induction records generalizing w with
  | nil => exact ⟨w, rfl, by simp [Csv.write], hw⟩
  | cons r records ih =>
    obtain ⟨rfl, hrecords⟩ := List.forall_mem_cons.1 h
    have hnext : Takes ⟨w.text ++ writeRecord r, some r.length⟩ r.length := fun m hm =>
      (Option.some.inj hm).symm
    obtain ⟨v, hv, htext, htakes⟩ := ih hnext hrecords
    refine ⟨v, ?_, ?_, htakes⟩
    · rw [writeAll, write_eq hw]
      exact hv
    · rw [htext, write_cons, String.append_assoc]

end Writer

/-- Records of one length are all written. -/
theorem writeEven_eq {n : ℕ} {records : List (List String)} (h : ∀ r ∈ records, r.length = n) :
    writeEven records = .ok (write records) := by
  obtain ⟨v, hv, htext, -⟩ := Writer.writeAll_eq (w := {}) (n := n) nofun h
  rw [writeEven, hv]
  exact congrArg Except.ok (htext.trans String.empty_append)

end Csv
end Choropleth
