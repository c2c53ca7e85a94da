import CommentTags.CommandLine.Run
import CommentTags.Proofs.Json.Printing

/-!
# Reports as lines of JSON

A record is one line of JSON: the line has no line end in it, and as JSON it is the object with the
fields of the record.  So the lines of a report can be told apart again, and its records are read
back in their order.

* `TagMatch.InWords` — a record has numbers of 64 bits.  Greater ones would be written all the same,
  but no longer be read as whole numbers.
* `TagMatch.parse_jsonLine` — a record is read back from its line.
* `linesText`, `readLines?` — a report, and the reader that takes it apart again.
* `readLines?_linesText` — a report loses nothing.
-/

set_option autoImplicit false

namespace CommentTags.TagMatch

/-- The numbers of a record have 64 bits. -/
structure InWords (m : TagMatch) : Prop where
  start : m.start ≤ Json.maxWord
  stop : m.stop ≤ Json.maxWord
  line : m.line ≤ Json.maxWord
  column : m.column ≤ Json.maxWord

/-- A report: a line of JSON for each record. -/
def linesText (ms : List TagMatch) : String :=
  String.join (ms.map (·.jsonLine ++ "\n"))

/-- The names of the fields of a record, in the order in which they are written. -/
def fieldNames : List String := ["source", "tag", "start", "end", "line", "column", "text"]

/-- The record that a JSON value stands for: an object with the fields of a record and no others. -/
def ofJson? : Json → Option TagMatch
  | .object [(a, .string source), (b, .string tag), (c, .number (.nonneg start)),
      (d, .number (.nonneg stop)), (e, .number (.nonneg line)), (f, .number (.nonneg column)),
      (g, .string text)] =>
    if [a, b, c, d, e, f, g] = fieldNames then
      some ⟨source, tag, start, stop, line, column, text⟩
    else none
  | _ => none

/-- The record in a line of JSON. -/
def readLine? (line : List Char) : Option TagMatch :=
  (Json.parse (String.ofList line)).toOption.bind ofJson?

/-- The records of a report.  A line feed ends every line, so that nothing follows the last one. -/
def readLines? (text : String) : Option (List TagMatch) :=
  let parts := text.toList.splitOn '\n'
  if parts.getLast? = some [] then parts.dropLast.mapM readLine? else none

variable {m : TagMatch} {ms : List TagMatch}

/-! ## One record -/

theorem ofJson?_toJson (m : TagMatch) : ofJson? m.toJson = some m := rfl

theorem InWords.fits (h : m.InWords) (depth : Nat) : Json.Fits (depth + 3) m.toJson := by
  refine Json.fits_object.mpr ⟨by simp, ?_⟩
  simp [Json.fits_nat h.start, Json.fits_nat h.stop, Json.fits_nat h.line, Json.fits_nat h.column]

/-- **A record is read back from its line.** -/
theorem parse_jsonLine (h : m.InWords) : Json.parse m.jsonLine = .ok m.toJson := by
  refine Json.parse_eq_ok_iff.mpr ?_
  rw [jsonLine, String.toList_ofList]
  exact (h.fits 125).spelled

theorem readLine?_jsonLine (h : m.InWords) : readLine? m.jsonLine.toList = some m := by
  rw [readLine?, String.ofList_toList, parse_jsonLine h]
  exact ofJson?_toJson m

theorem ne_of_mem_jsonLine (h : m.InWords) {c : Char} (hc : c ∈ m.jsonLine.toList) :
    c ≠ '\n' ∧ c ≠ '\r' := by
  rw [jsonLine, String.toList_ofList] at hc
  have hle := (h.fits 125).le_toNat_of_mem hc
  constructor <;> rintro rfl <;> exact absurd hle (by decide)

/-! ## All records -/

theorem toList_linesText_cons (m : TagMatch) (ms : List TagMatch) :
    (linesText (m :: ms)).toList = m.jsonLine.toList ++ '\n' :: (linesText ms).toList := by
  simp [linesText, String.toList_join]

theorem splitOn_linesText (h : ∀ m ∈ ms, m.InWords) :
    (linesText ms).toList.splitOn '\n' = ms.map (·.jsonLine.toList) ++ [[]] := by
  induction ms with
  | nil => rfl
  | cons m ms ih =>
    obtain ⟨hm, hms⟩ := List.forall_mem_cons.mp h
    have hnot : '\n' ∉ m.jsonLine.toList := fun hc => (ne_of_mem_jsonLine hm hc).1 rfl
    rw [toList_linesText_cons, List.splitOn_append_cons_self_of_not_mem hnot, ih hms]
    rfl

theorem mapM_readLine? (h : ∀ m ∈ ms, m.InWords) :
    (ms.map (·.jsonLine.toList)).mapM readLine? = some ms := by
  induction ms with
  | nil => rfl
  | cons m ms ih =>
    obtain ⟨hm, hms⟩ := List.forall_mem_cons.mp h
    rw [List.map_cons, List.mapM_cons, readLine?_jsonLine hm, ih hms]
    rfl

/-- **A report of JSON lines loses nothing.**  Each of its lines is an object with the fields of the
record, in which no line ends; so the records are read back from the lines, in their order. -/
theorem readLines?_linesText (h : ∀ m ∈ ms, m.InWords) :
    (∀ m ∈ ms,
      Json.parse m.jsonLine = .ok (.object
        [("source", .string m.source), ("tag", .string m.tag),
          ("start", .number (.nonneg m.start)), ("end", .number (.nonneg m.stop)),
          ("line", .number (.nonneg m.line)), ("column", .number (.nonneg m.column)),
          ("text", .string m.text)]) ∧
      '\n' ∉ m.jsonLine.toList ∧ '\r' ∉ m.jsonLine.toList) ∧
    readLines? (linesText ms) = some ms ∧
    ∀ tags t c, collect t.label t.document tags c = ms →
      readLines? (writeMatches .json tags t c) = some ms := by
  have hread : readLines? (linesText ms) = some ms := by
    rw [readLines?, splitOn_linesText h, List.getLast?_concat, if_pos rfl, List.dropLast_concat,
      mapM_readLine? h]
  refine ⟨fun m hm => ⟨parse_jsonLine (h m hm), ?_, ?_⟩, hread, ?_⟩
  · exact fun hc => (ne_of_mem_jsonLine (h m hm) hc).1 rfl
  · exact fun hc => (ne_of_mem_jsonLine (h m hm) hc).2 rfl
  · rintro tags t c rfl
    exact hread

/-- Records with line ends, quotes, a line separator and the greatest number. -/
theorem readLines?_linesText_breaks :
    let a : TagMatch := ⟨"a\nb\r.rs", "\"\\", 0, 18446744073709551615, 1, 10, "\u2028😀\x1b"⟩
    let b : TagMatch := ⟨"<stdin>", "", 3, 3, 2, 1, ""⟩
    (∀ m ∈ [a, b], m.InWords) ∧
      Json.parse a.jsonLine = .ok (.object
        [("source", .string "a\nb\r.rs"), ("tag", .string "\"\\"), ("start", .number (.nonneg 0)),
          ("end", .number (.nonneg 18446744073709551615)), ("line", .number (.nonneg 1)),
          ("column", .number (.nonneg 10)), ("text", .string "\u2028😀\x1b")]) ∧
      readLines? (linesText [a, b]) = some [a, b] := by
  intro a b
  have hwords : ∀ m ∈ [a, b], m.InWords := by
    intro m hm
    simp only [List.mem_cons, List.not_mem_nil, or_false] at hm
    obtain rfl | rfl := hm <;> constructor <;> decide
  have hread := readLines?_linesText hwords
  exact ⟨hwords, (hread.1 a (by simp)).1, hread.2.1⟩

end CommentTags.TagMatch
