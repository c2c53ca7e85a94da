import Mathlib
import CommentTags.Proofs.Scan.BorrowedOpeners

/-!
# Where documentation comments are found

A tagged line of a documentation comment stands behind the opener of the comment, and nothing that
closes the comment stands between the two, except that the last star of the opener may be followed
by a slash.  A closing text that shares its star with the opener does not count: the text behind a
complete empty comment is still read as its interior.

* `Scope.HasAt` — a text stands at an offset of a scope.  It is decidable, so that what is said of a
  fixed text can be checked.
* `Enclosure.In.not_hasAt`, `Enclosure.In.hasAt_opener` — inside a comment nothing closes it, and
  its last opener stands right before its interior.
* `docFindings_behind_opener` — where the lines of documentation comments are found.
* `docFindings_behind_emptyComment` — a line that is found although no comment is open.
-/

set_option autoImplicit false

namespace CommentTags

open Text

/-- The text stands at this offset of the scope. -/
def Scope.HasAt (s : Scope) (word : List Char) (offset : Nat) : Prop :=
  ∃ front back, s.text = front ++ (word ++ back) ∧ offset = s.offset + byteLength front

/-- The places where a text can stand are those between the characters of the scope. -/
theorem Scope.hasAt_iff {s : Scope} {word : List Char} {offset : Nat} :
    s.HasAt word offset ↔ ∃ n ∈ List.range (s.text.length + 1),
      word <+: s.text.drop n ∧ offset = s.offset + byteLength (s.text.take n) := by
  constructor
  · rintro ⟨front, back, htext, rfl⟩
    refine ⟨front.length, ?_, ?_, ?_⟩
    · rw [List.mem_range, htext, List.length_append]
      omega
    · rw [htext, List.drop_left]
      exact List.prefix_append word back
    · rw [htext, List.take_left]
  · rintro ⟨n, -, ⟨back, hback⟩, hoffset⟩
    exact ⟨s.text.take n, back, by rw [hback, List.take_append_drop], hoffset⟩

instance (s : Scope) (word : List Char) (offset : Nat) : Decidable (s.HasAt word offset) :=
  decidable_of_iff _ Scope.hasAt_iff.symm

/-- Two texts that stand where the star of the one is the star of the other. -/
theorem Scope.HasAt.slash {s : Scope} {offset : Nat} (h : s.HasAt "/**".toList offset)
    (hclose : s.HasAt "*/".toList (offset + 2)) : s.HasAt "/**/".toList offset := by
  obtain ⟨u, v, hu, rfl⟩ := h
  obtain ⟨u', v', hu', hoffset⟩ := hclose
  have hsplit : (u ++ ['/', '*']) ++ ('*' :: v) = u' ++ ("*/".toList ++ v') := by
    rw [← hu', hu]
    simp
  obtain ⟨rfl, hrest⟩ := append_inj_of_byteLength hsplit (by
    rw [byteLength_append]
    have hbytes : byteLength ['/', '*'] = 2 := rfl
    omega)
  have hv : '*' :: v = '*' :: '/' :: v' := hrest
  obtain ⟨-, rfl⟩ := List.cons.inj hv
  exact ⟨u, v', hu, rfl⟩

/-- Inside a comment nothing stands that would close it. -/
theorem Enclosure.In.not_hasAt {Q : List Char → Prop} {word : List Char} {s : Scope} {r : Region}
    {x : Enclosure} (hx : x.In Q word s.text) (hr : r.Covers s x) {q : Nat}
    (hle : r.scope.offset ≤ q) (hlt : q < r.scope.stop) : ¬s.HasAt word q := by
  rintro ⟨u, v, hu, rfl⟩
  obtain ⟨htext, hoffset⟩ := hr.scope_eq hx
  obtain ⟨w, rfl, hw⟩ := append_eq_of_byteLength_le (htext.symm.trans hu) (by omega)
  rw [byteLength_append, ← Nat.add_assoc, ← hoffset, Scope.stop, Nat.add_lt_add_iff_left] at hlt
  obtain ⟨z, hz, hstands⟩ := append_eq_of_byteLength_le hw.symm hlt.le
  have hne : z ≠ [] := by
    rintro rfl
    rw [hz, List.append_nil] at hlt
    exact Nat.lt_irrefl _ hlt
  exact hx.interior w z (hr.interior_text.symm.trans hz) hne ⟨word, v, hstands.symm, .refl word⟩

/-- The last opener of a comment stands right before its interior. -/
theorem Enclosure.In.hasAt_opener {opener word : List Char} {s : Scope} {r : Region} {x : Enclosure}
    (hopener : ∀ b ∈ opener, Uncased b) (hx : x.In (Spells opener) word s.text)
    (hr : r.Covers s x) :
    ∃ start, s.HasAt opener start ∧ r.scope.offset = start + byteLength opener := by
  obtain ⟨n, hn, hrep, -⟩ := hx.openers
  obtain ⟨n, rfl⟩ := Nat.exists_eq_add_of_le' hn
  obtain ⟨u, v, hopeners, -, hv⟩ := hrep.exists_last
  obtain rfl := hv.eq hopener
  obtain ⟨htext, hoffset⟩ := hr.scope_eq hx
  refine ⟨s.offset + byteLength (x.front ++ (x.place ++ u)),
    ⟨_, r.scope.text ++ (x.close ++ x.back), ?_, rfl⟩, ?_⟩
  · rw [htext, hopeners]
    simp only [List.append_assoc]
  · rw [hoffset, hopeners]
    simp only [byteLength_append, Nat.add_assoc]

/-- **Documentation comments are open where their lines are found.**  Behind an opener nothing
closes the comment before the finding stops, unless the opener is closed by a slash right behind
it. -/
theorem docFindings_behind_opener {p : Profile} {tags : Registry} {s : Scope} {f : Finding}
    (hf : f ∈ docFindings p tags s) :
    ∃ start ≤ f.start, s.HasAt "/**".toList start ∧
      (∀ q, start + 3 ≤ q → q < f.stop → ¬s.HasAt "*/".toList q) ∧
      (¬s.HasAt "/**/".toList start →
        ∀ q, start + 2 ≤ q → q < f.stop → ¬s.HasAt "*/".toList q) := by
  rw [docFindings] at hf
  split at hf
  · obtain ⟨r, hr, hf⟩ := List.mem_flatMap.1 hf
    obtain ⟨m, hm, hf⟩ := List.mem_filterMap.1 hf
    have hsound : f.Sound tags r.scope := (taggedUpTo_of_mem_docLineExpression hm).sound hf
    obtain ⟨word, body, -, -, -, hin, hstop⟩ := hsound
    have hstart : r.scope.offset ≤ f.start := hin.offset_le
    have hend : f.stop ≤ r.scope.stop := hstop ▸ hin.stop_le
    obtain ⟨x, hx, hcovers⟩ :=
      (regions_enclosing (opensWith_literal (by decide)) s).enclosed r hr
    obtain ⟨start, hopener, hoffset⟩ := hx.hasAt_opener (by simp [Uncased, fold]) hcovers
    have hthree : byteLength "/**".toList = 3 := by decide
    rw [hthree] at hoffset
    have hnot (q : Nat) (hle : start + 3 ≤ q) (hlt : q < f.stop) : ¬s.HasAt "*/".toList q :=
      hx.not_hasAt hcovers (hoffset ▸ hle) (hlt.trans_le hend)
    refine ⟨start, by omega, hopener, hnot, fun hslash q hle hlt hclose => ?_⟩
    rcases Nat.eq_or_lt_of_le hle with rfl | hlt'
    · exact hslash (hopener.slash hclose)
    · exact hnot q hlt' hlt hclose
  · simp at hf

set_option maxRecDepth 20000 in
/-- A line behind two openers in a row. -/
theorem docFindings_behind_opener_twice :
    let p := Profile.of "javascript" (some ⟨some (.single "//"), none⟩) {}
    let tags : Registry := ⟨[⟨"todo", {}⟩]⟩
    let s : Scope := ⟨2, "/**/**\n * TODO x\n */".toList⟩
    (⟨0, 12, 18⟩ : Finding) ∈ docFindings p tags s ∧
      ∃ start ≤ 12, s.HasAt "/**".toList start ∧
        (∀ q, start + 3 ≤ q → q < 18 → ¬s.HasAt "*/".toList q) ∧
        (¬s.HasAt "/**/".toList start →
          ∀ q, start + 2 ≤ q → q < 18 → ¬s.HasAt "*/".toList q) := by
  intro p tags s
  have hfound : docFindings p tags s = [⟨0, 12, 18⟩] := by cbv
  have hmem : (⟨0, 12, 18⟩ : Finding) ∈ docFindings p tags s := hfound ▸ List.mem_cons_self
  exact ⟨hmem, docFindings_behind_opener hmem⟩

set_option maxRecDepth 20000 in
/-- Behind a complete empty comment a line is found, although every opener before it is closed. -/
theorem docFindings_behind_emptyComment :
    let p := Profile.of "javascript" (some ⟨some (.single "//"), none⟩) {}
    let tags : Registry := ⟨[⟨"todo", {}⟩]⟩
    let s : Scope := .document "/**/\n * TODO x\n*/".toList
    ∃ f ∈ docFindings p tags s, ∀ start ≤ f.start, s.HasAt "/**".toList start →
      ∃ q, start + 2 ≤ q ∧ q < f.stop ∧ s.HasAt "*/".toList q := by
  intro p tags s
  have hfound : docFindings p tags s = [⟨0, 8, 14⟩] := by cbv
  refine ⟨⟨0, 8, 14⟩, hfound ▸ List.mem_cons_self, fun start hle hopener => ?_⟩
  have honly : ∀ start ≤ 8, s.HasAt "/**".toList start → start = 0 := by decide
  rw [honly start hle hopener]
  exact ⟨2, by decide, by decide, by decide⟩

end CommentTags
