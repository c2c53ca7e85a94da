import CommentTags.Proofs.Text.Ascii
import CommentTags.Proofs.Text.Trimming
import CommentTags.Text.Lowercase

/-!
# Lowercase once and for all

The characters of a lowercase text are their own lowercase, wherever they stand, so taking the
lowercase twice is taking it once.  Lowercase neither makes nor loses white space at the ends of a
text.

What there is to know about the table of case mappings is that its images lie apart from its domain.
It is checked for ranges as a whole, not for one character after another.

* `CaseRange.apart`, `neverLowercase` — what is checked of the table.
* `Settled` — a character that is its own lowercase wherever it stands.
* `lowered` — the lowercase of a character, with what stands around it: a sigma at the end of a word
  has a lowercase of its own.
* `lowercase_lowercase` — the lowercase of a lowercase text is that text.
-/

set_option autoImplicit false

namespace CommentTags.Text

/-! ## Ranges that do not meet -/

/-- The range holds at most every other code point. -/
def CaseRange.sparse (r : CaseRange) : Bool :=
  r.step == 2 || r.first == r.last

/-- No image under `r` can lie in `q`: the intervals do not meet, or the parities differ. -/
def CaseRange.apart (r q : CaseRange) : Bool :=
  r.target + (r.last - r.first) < q.first || q.last < r.target ||
    (r.sparse && q.sparse && (r.target + q.first) % 2 == 1)

theorem CaseRange.image?_eq_some_iff {r : CaseRange} {n k : Nat} :
    r.image? n = some k ↔
      r.first ≤ n ∧ n ≤ r.last ∧ (n - r.first) % r.step = 0 ∧ k = r.target + (n - r.first) := by
  rw [CaseRange.image?]
  by_cases h : r.first ≤ n ∧ n ≤ r.last ∧ (n - r.first) % r.step = 0
  · obtain ⟨h1, h2, h3⟩ := h
    simp [h1, h2, h3, eq_comm]
  · rw [if_neg (by simpa [and_assoc] using h)]
    constructor
    · intro hk
      simp at hk
    · rintro ⟨h1, h2, h3, -⟩
      exact absurd ⟨h1, h2, h3⟩ h

theorem CaseRange.even_of_sparse {r : CaseRange} {n : Nat} (h : r.sparse) (hn : r.first ≤ n)
    (hn' : n ≤ r.last) (hstep : (n - r.first) % r.step = 0) : (n - r.first) % 2 = 0 := by
  rw [CaseRange.sparse, Bool.or_eq_true, beq_iff_eq, beq_iff_eq] at h
  rcases h with h | h
  · rwa [h] at hstep
  · omega

theorem CaseRange.image?_eq_none_of_apart {r q : CaseRange} {n k : Nat} (h : r.apart q)
    (hk : r.image? n = some k) : q.image? k = none := by
  obtain ⟨hn, hn', hstep, rfl⟩ := CaseRange.image?_eq_some_iff.1 hk
  rw [Option.eq_none_iff_forall_ne_some]
  intro l hl
  obtain ⟨hk, hk', hstep', -⟩ := CaseRange.image?_eq_some_iff.1 hl
  simp only [CaseRange.apart, Bool.or_eq_true, Bool.and_eq_true, decide_eq_true_eq,
    beq_iff_eq] at h
  rcases h with (h | h) | ⟨⟨hr, hq⟩, hparity⟩
  · omega
  · omega
  · have h1 := CaseRange.even_of_sparse hr hn hn' hstep
    have h2 := CaseRange.even_of_sparse hq hk hk' hstep'
    omega

/-! ## Lowercase characters -/

/-- Where no lowercase of a letter lies: capital letters, white space, and code points that are not
characters. -/
def neverLowercase : List CaseRange :=
  lowercaseRanges ++ [⟨0x41, 0x5A, 1, 0⟩, ⟨0x130, 0x130, 1, 0⟩, ⟨0xD800, 0xDFFF, 1, 0⟩] ++
    whiteRanges.map fun w => ⟨w.first, w.last, 1, 0⟩

theorem lowercaseRanges_apart :
    lowercaseRanges.all (fun r =>
      r.target + (r.last - r.first) < 0x110000 && neverLowercase.all r.apart) = true := by
  decide +kernel

theorem image?_eq_none_of_image? {r : CaseRange} {n k : Nat} (hr : r ∈ lowercaseRanges)
    (hk : r.image? n = some k) : k < 0x110000 ∧ ∀ q ∈ neverLowercase, q.image? k = none := by
  have h := List.all_eq_true.1 lowercaseRanges_apart r hr
  rw [Bool.and_eq_true, decide_eq_true_eq, List.all_eq_true] at h
  obtain ⟨hn, hn', -, rfl⟩ := CaseRange.image?_eq_some_iff.1 hk
  exact ⟨by omega, fun q hq => CaseRange.image?_eq_none_of_apart (h.2 q hq) hk⟩

/-- The character is its own lowercase wherever it stands. -/
structure Settled (c : Char) : Prop where
  ne_sigma : c ≠ 'Σ'
  ne_dotted : c ≠ 'İ'
  lowercaseChar_eq : lowercaseChar c = c

theorem isWhite_iff {c : Char} :
    isWhite c = true ↔ ∃ w ∈ whiteRanges, w.first ≤ c.toNat ∧ c.toNat ≤ w.last := by
  simp [isWhite, inRanges, CodeRange.contains]

/-- The image of a letter is settled, and it is not white space. -/
theorem settled_of_image? {r : CaseRange} {n k : Nat} (hr : r ∈ lowercaseRanges)
    (hk : r.image? n = some k) : Settled (Char.ofNat k) ∧ isWhite (Char.ofNat k) = false := by
  obtain ⟨hlt, hnever⟩ := image?_eq_none_of_image? hr hk
  -- a range of the list that is not sparse keeps `k` out of the whole interval
  have hout (first last : Nat) (hq : ⟨first, last, 1, 0⟩ ∈ neverLowercase) :
      ¬(first ≤ k ∧ k ≤ last) := by
    rintro ⟨h1, h2⟩
    have h := hnever _ hq
    rw [CaseRange.image?_eq_some_iff.2 ⟨h1, h2, Nat.mod_one _, rfl⟩] at h
    simp at h
  have hvalid : k.isValidChar := by
    have h := hout 0xD800 0xDFFF (by simp [neverLowercase])
    simp only [Nat.isValidChar]
    omega
  have htoNat := toNat_ofNat hvalid
  have hnone : lowercaseRanges.findSome? (·.image? k) = none :=
    List.findSome?_eq_none_iff.2 fun q hq => hnever q (by simp [neverLowercase, hq])
  refine ⟨⟨fun h => ?_, fun h => ?_, ?_⟩, ?_⟩
  · rw [h] at htoNat
    rw [← htoNat] at hnone
    exact absurd hnone (by decide)
  · rw [h] at htoNat
    exact hout 0x130 0x130 (by simp [neverLowercase]) (by rw [← htoNat]; decide)
  · rw [lowercaseChar, htoNat]
    split
    · refine toLower_eq_self ?_
      have h := hout 0x41 0x5A (by simp [neverLowercase])
      omega
    · rw [shiftCase, htoNat, hnone]
  · rw [Bool.eq_false_iff]
    intro hwhite
    obtain ⟨w, hw, h1, h2⟩ := isWhite_iff.1 hwhite
    refine hout w.first w.last ?_ (by rw [← htoNat]; exact ⟨h1, h2⟩)
    exact List.mem_append_right _ (List.mem_map_of_mem hw)

/-- What is said of the table holds of every character but the two special ones. -/
theorem settled_lowercaseChar {c : Char} (hs : c ≠ 'Σ') (hd : c ≠ 'İ') :
    Settled (lowercaseChar c) ∧ (isWhite c = false → isWhite (lowercaseChar c) = false) := by
  rw [lowercaseChar]
  split
  · next hascii =>
    obtain ⟨⟨h1, h2, h3⟩, h4⟩ := forall_ascii (P := fun a => (a.toLower ≠ 'Σ' ∧ a.toLower ≠ 'İ' ∧
      lowercaseChar a.toLower = a.toLower) ∧ (isWhite a = false → isWhite a.toLower = false))
      (by decide +kernel) hascii
    exact ⟨⟨h1, h2, h3⟩, h4⟩
  · next hascii =>
    cases hk : lowercaseRanges.findSome? (·.image? c.toNat) with
    | none =>
      have hc : shiftCase lowercaseRanges c = c := by rw [shiftCase, hk]
      rw [hc]
      exact ⟨⟨hs, hd, by rw [lowercaseChar, if_neg hascii, hc]⟩, id⟩
    | some k =>
      obtain ⟨r, hr, hk'⟩ := List.exists_of_findSome?_eq_some hk
      rw [show shiftCase lowercaseRanges c = Char.ofNat k by rw [shiftCase, hk]]
      exact ⟨(settled_of_image? hr hk').1, fun _ => (settled_of_image? hr hk').2⟩

/-! ## Lowercase texts -/

/-- The lowercase of a character between the characters before it and those after it. -/
def lowered (before : List Char) (c : Char) (rest : List Char) : List Char :=
  if c = 'Σ' then
    if nextIsCased before && !nextIsCased rest then ['ς'] else ['σ']
  else if c = 'İ' then ['i', '\u0307']
  else [lowercaseChar c]

theorem lowercaseAfter_cons (before : List Char) (c : Char) (rest : List Char) :
    lowercaseAfter before (c :: rest) =
      lowered before c rest ++ lowercaseAfter (c :: before) rest := rfl

theorem lowered_spec (before : List Char) (c : Char) (rest : List Char) :
    lowered before c rest ≠ [] ∧ ∀ a ∈ lowered before c rest,
      Settled a ∧ (isWhite c = false → isWhite a = false) := by
  have hspecial : ∀ a ∈ ['ς', 'σ', 'i', '\u0307'], Settled a ∧ isWhite a = false := by
    have hcheck : (['ς', 'σ', 'i', '\u0307'].all fun a =>
        a != 'Σ' && a != 'İ' && lowercaseChar a == a && !isWhite a) = true := by decide +kernel
    intro a ha
    have h := List.all_eq_true.1 hcheck a ha
    simp only [Bool.and_eq_true, bne_iff_ne, beq_iff_eq, Bool.not_eq_true'] at h
    obtain ⟨⟨⟨h1, h2⟩, h3⟩, h4⟩ := h
    exact ⟨⟨h1, h2, h3⟩, h4⟩
  have hsublist {l : List Char} (hl : l ≠ []) (hsub : l ⊆ ['ς', 'σ', 'i', '\u0307']) :
      l ≠ [] ∧ ∀ a ∈ l, Settled a ∧ (isWhite c = false → isWhite a = false) :=
    ⟨hl, fun a ha => ⟨(hspecial a (hsub ha)).1, fun _ => (hspecial a (hsub ha)).2⟩⟩
  rw [lowered]
  split
  · split
    · exact hsublist (by simp) (by simp)
    · exact hsublist (by simp) (by simp)
  · next hs =>
    split
    · exact hsublist (by simp) (by simp)
    · next hd =>
      refine ⟨by simp, fun a ha => ?_⟩
      rw [List.mem_singleton.1 ha]
      exact settled_lowercaseChar hs hd

theorem settled_of_mem_lowercaseAfter {before s : List Char} :
    ∀ a ∈ lowercaseAfter before s, Settled a := by
  induction s generalizing before with
  | nil => simp [lowercaseAfter]
  | cons c s ih =>
    intro a ha
    rw [lowercaseAfter_cons, List.mem_append] at ha
    exact ha.elim (fun ha => ((lowered_spec before c s).2 a ha).1) (ih a)

theorem lowercaseAfter_of_settled {before s : List Char} (h : ∀ a ∈ s, Settled a) :
    lowercaseAfter before s = s := by
  induction s generalizing before with
  | nil => rfl
  | cons c s ih =>
    rw [List.forall_mem_cons] at h
    rw [lowercaseAfter_cons, ih h.2, lowered, if_neg h.1.ne_sigma, if_neg h.1.ne_dotted,
      h.1.lowercaseChar_eq, List.singleton_append]

/-- In ASCII each letter has its lowercase, wherever it stands. -/
theorem lowercaseAfter_of_ascii {before s : List Char} (h : ∀ a ∈ s, a.toNat < 0x80) :
    lowercaseAfter before s = s.map Char.toLower := by
  induction s generalizing before with
  | nil => rfl
  | cons c s ih =>
    rw [List.forall_mem_cons] at h
    have hspecial : c ≠ 'Σ' ∧ c ≠ 'İ' :=
      forall_ascii (P := fun a => a ≠ 'Σ' ∧ a ≠ 'İ') (by decide) h.1
    rw [lowercaseAfter_cons, ih h.2, lowered, if_neg hspecial.1, if_neg hspecial.2, lowercaseChar,
      if_pos h.1, List.singleton_append, List.map_cons]

/-- **The lowercase of a lowercase text is that text.** -/
theorem lowercase_lowercase (s : List Char) : lowercase (lowercase s) = lowercase s :=
  lowercaseAfter_of_settled settled_of_mem_lowercaseAfter

/-! ## White space -/

theorem isWhite_of_mem_head?_lowercaseAfter {before s : List Char}
    (h : ∀ a ∈ s.head?, isWhite a = false) :
    ∀ a ∈ (lowercaseAfter before s).head?, isWhite a = false := by
  cases s with
  | nil => simp [lowercaseAfter]
  | cons c s =>
    intro a ha
    obtain ⟨hne, hall⟩ := lowered_spec before c s
    obtain ⟨b, l, hl⟩ := List.exists_cons_of_ne_nil hne
    rw [hl] at hall
    rw [lowercaseAfter_cons, hl, List.cons_append, List.head?_cons, Option.mem_some_iff] at ha
    exact (hall a (by simp [ha])).2 (h c rfl)

theorem isWhite_of_mem_getLast?_lowercaseAfter {before s : List Char}
    (h : ∀ a ∈ s.getLast?, isWhite a = false) :
    ∀ a ∈ (lowercaseAfter before s).getLast?, isWhite a = false := by
  induction s generalizing before with
  | nil => simp [lowercaseAfter]
  | cons c s ih =>
    intro a ha
    rw [lowercaseAfter_cons] at ha
    cases s with
    | nil =>
      rw [lowercaseAfter, List.append_nil] at ha
      exact ((lowered_spec before c []).2 a (List.mem_of_mem_getLast? ha)).2 (h c rfl)
    | cons d s =>
      have hne : lowercaseAfter (c :: before) (d :: s) ≠ [] := by
        rw [lowercaseAfter_cons]
        exact List.append_ne_nil_of_left_ne_nil (lowered_spec (c :: before) d s).1 _
      rw [List.getLast?_append, List.getLast?_eq_some_getLast hne, Option.some_or] at ha
      have hlast : a ∈ (lowercaseAfter (c :: before) (d :: s)).getLast? := by
        rwa [List.getLast?_eq_some_getLast hne]
      exact ih (fun b hb => h b (by rwa [List.getLast?_cons_cons])) a hlast

/-! ## Line feeds -/

/-- Only a line feed has a line feed for its lowercase. -/
theorem eq_feed_of_mem_lowered {before rest : List Char} {c : Char}
    (h : '\n' ∈ lowered before c rest) : c = '\n' := by
  have hspecial {l : List Char} (hl : l ⊆ ['ς', 'σ', 'i', '\u0307']) : '\n' ∉ l := fun hn =>
    absurd (hl hn) (by decide)
  rw [lowered] at h
  split at h
  · split at h
    · exact absurd h (hspecial (by simp))
    · exact absurd h (hspecial (by simp))
  · split at h
    · exact absurd h (hspecial (by simp))
    · rw [List.mem_singleton, lowercaseChar] at h
      split at h
      · next hascii =>
        exact forall_ascii (P := fun a => '\n' = a.toLower → a = '\n') (by decide) hascii h
      · rw [shiftCase] at h
        cases hk : lowercaseRanges.findSome? (·.image? c.toNat) with
        | none =>
          rw [hk] at h
          exact h.symm
        | some k =>
          obtain ⟨r, hr, hk'⟩ := List.exists_of_findSome?_eq_some hk
          have hwhite := (settled_of_image? hr hk').2
          rw [hk] at h
          rw [show Char.ofNat k = '\n' from h.symm] at hwhite
          exact absurd hwhite (by decide)

/-- Texts with the same lowercase are both empty or none, and both begin with a line feed or none. -/
theorem head?_of_lowercase_eq {s t : List Char} (h : lowercase s = lowercase t) (hs : s ≠ [])
    (hfeed : s.head? ≠ some '\n') : t ≠ [] ∧ t.head? ≠ some '\n' := by
  obtain ⟨c, s, rfl⟩ := List.exists_cons_of_ne_nil hs
  obtain ⟨b, l, hl⟩ := List.exists_cons_of_ne_nil (lowered_spec [] c s).1
  rw [lowercase, lowercase, lowercaseAfter_cons, hl, List.cons_append] at h
  refine ⟨fun ht => ?_, fun ht => ?_⟩
  · rw [ht] at h
    exact List.cons_ne_nil _ _ h
  · obtain ⟨u, rfl⟩ := List.head?_eq_some_iff.1 ht
    have hn : lowered [] '\n' u = ['\n'] := by
      rw [lowered, if_neg (by decide), if_neg (by decide)]
      decide
    rw [lowercaseAfter_cons, hn, List.singleton_append] at h
    have hmem : '\n' ∈ lowered [] c s := by
      rw [hl, (List.cons.inj h).1]
      exact List.mem_cons_self
    exact hfeed (congrArg some (eq_feed_of_mem_lowered hmem))

end CommentTags.Text
