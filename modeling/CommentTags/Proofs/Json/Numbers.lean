import CommentTags.Proofs.Json.Strings

/-!
# Numbers of a JSON text

What a number means is told by its reader: a grammar of numbers would repeat the arithmetic of the
reader word for word.  What is proved instead is that the reader looks at no more than the
characters of the word in which the number stands, so that it reads the number in the same way
wherever the word is written.

* `Beside`, `Agrees` — two inputs that go on with the same word, and two results for it.  Each part
  of the reader takes the first to the second.
* `numberFrom_stopped_iff` — a number is read from its word alone.
* `NumberText` — the words that stand for numbers.
* `unsigned_toDigits` — a natural number that fits a word is read back from its digits.
-/

set_option autoImplicit false

namespace CommentTags.Json

variable {t u : List Char} {i j : Input}

theorem isWordChar_of_isDigit {c : Char} (h : c.isDigit = true) : isWordChar c = true := by
  have hrange : 0x30 ≤ c.toNat ∧ c.toNat ≤ 0x39 := by
    simpa [Char.isDigit, UInt32.le_iff_toNat_le] using h
  simp only [isWordChar, Text.inRanges, List.any_eq_true]
  exact ⟨⟨0x30, 0x39⟩, by simp [wordRanges], by simpa [Text.CodeRange.contains] using hrange⟩

/-! ## Inputs that go on with the same word -/

/-- Both inputs go on with the same characters of words, up to the given rests. -/
def Beside (t u : List Char) (i j : Input) : Prop :=
  ∃ n : List Char, (∀ c ∈ n, isWordChar c = true) ∧ i.rest = n ++ t ∧ j.rest = n ++ u

theorem head?_append_eq_some_iff {n s : List Char} {c : Char} (hs : Stopped s)
    (hc : isWordChar c = true) : (n ++ s).head? = some c ↔ n.head? = some c := by
  cases n with
  | nil =>
    simp only [List.nil_append, List.head?_nil, reduceCtorEq, iff_false]
    intro h
    rw [hs c h] at hc
    exact absurd hc (by decide)
  | cons a n => simp

namespace Beside

variable (ht : Stopped t) (hu : Stopped u)
include ht hu

theorem head?_iff (h : Beside t u i j) {c : Char} (hc : isWordChar c = true) :
    i.rest.head? = some c ↔ j.rest.head? = some c := by
  obtain ⟨n, -, hi, hj⟩ := h
  rw [hi, hj, head?_append_eq_some_iff ht hc, head?_append_eq_some_iff hu hc]

theorem startsWithDigit_eq (h : Beside t u i j) : startsWithDigit i = startsWithDigit j := by
  have hiff : ∀ k : Input,
      startsWithDigit k = true ↔ ∃ c, c.isDigit = true ∧ k.rest.head? = some c := by
    intro k
    unfold startsWithDigit
    split <;> simp_all
  rw [Bool.eq_iff_iff, hiff, hiff]
  refine exists_congr fun c => and_congr_right fun hc => ?_
  exact h.head?_iff ht hu (isWordChar_of_isDigit hc)

end Beside

theorem Beside.skip {c : Char} (h : Beside t u i j) (ht : Stopped t) (hc : isWordChar c = true)
    (hi : i.rest.head? = some c) : Beside t u i.skip j.skip := by
  obtain ⟨n, hn, hit, hju⟩ := h
  rw [hit, head?_append_eq_some_iff ht hc] at hi
  obtain ⟨n, rfl⟩ : ∃ m, n = c :: m := by
    cases n with
    | nil => simp at hi
    | cons a m => exact ⟨m, by simpa using hi⟩
  rw [Input.skip_eq hit, Input.skip_eq hju]
  exact ⟨n, fun a ha => hn a (List.mem_cons_of_mem c ha), rfl, rfl⟩

theorem isDigit_eq_false_of_stopped {c : Char} {s : List Char} (h : Stopped (c :: s)) :
    c.isDigit = false := by
  by_contra hc
  have := isWordChar_of_isDigit (c := c) (by simpa using hc)
  rw [stopped_cons.mp h] at this
  exact absurd this (by decide)

section

variable {n : List Char} (hn : ∀ c ∈ n, isWordChar c = true) (ht : Stopped t) (hu : Stopped u)
include hn ht hu

theorem beside_skipWhile_isDigit (p q : Place) :
    Beside t u (Input.skipWhile Char.isDigit (n ++ t) p)
      (Input.skipWhile Char.isDigit (n ++ u) q) := by
  have hstop : ∀ {s : List Char} (r : Place), Stopped s →
      Input.skipWhile Char.isDigit s r = ⟨s, r⟩ := by
    intro s r hs
    cases s with
    | nil => rfl
    | cons c s => simp [Input.skipWhile, isDigit_eq_false_of_stopped hs]
  induction n generalizing p q with
  | nil =>
    rw [List.nil_append, List.nil_append, hstop p ht, hstop q hu]
    exact ⟨[], hn, rfl, rfl⟩
  | cons c n ih =>
    simp only [List.cons_append, Input.skipWhile]
    split
    · exact ih (fun a ha => hn a (List.mem_cons_of_mem c ha)) _ _
    · exact ⟨c :: n, hn, rfl, rfl⟩

theorem beside_addDigits (m taken : Nat) (p q : Place) :
    (addDigits m taken (n ++ t) p).1 = (addDigits m taken (n ++ u) q).1 ∧
      (addDigits m taken (n ++ t) p).2.1 = (addDigits m taken (n ++ u) q).2.1 ∧
      Beside t u (addDigits m taken (n ++ t) p).2.2 (addDigits m taken (n ++ u) q).2.2 := by
  have hstop : ∀ {s : List Char} (m taken : Nat) (r : Place), Stopped s →
      addDigits m taken s r = (m, taken, ⟨s, r⟩) := by
    intro s m taken r hs
    cases s with
    | nil => rfl
    | cons c s => simp [addDigits, isDigit_eq_false_of_stopped hs]
  induction n generalizing m taken p q with
  | nil =>
    rw [List.nil_append, List.nil_append, hstop m taken p ht, hstop m taken q hu]
    exact ⟨rfl, rfl, [], hn, rfl, rfl⟩
  | cons c n ih =>
    simp only [List.cons_append, addDigits]
    split
    · exact ih (fun a ha => hn a (List.mem_cons_of_mem c ha)) _ _ _ _
    · exact ⟨rfl, rfl, c :: n, hn, rfl, rfl⟩

theorem beside_exponentDigits (m : Nat) (p q : Place) :
    (exponentDigits m (n ++ t) p).1 = (exponentDigits m (n ++ u) q).1 ∧
      Beside t u (exponentDigits m (n ++ t) p).2 (exponentDigits m (n ++ u) q).2 := by
  have hstop : ∀ {s : List Char} (m : Nat) (r : Place), Stopped s →
      exponentDigits m s r = (some m, ⟨s, r⟩) := by
    intro s m r hs
    cases s with
    | nil => rfl
    | cons c s => simp [exponentDigits, isDigit_eq_false_of_stopped hs]
  induction n generalizing m p q with
  | nil =>
    rw [List.nil_append, List.nil_append, hstop m p ht, hstop m q hu]
    exact ⟨rfl, [], hn, rfl, rfl⟩
  | cons c n ih =>
    have hn' : ∀ a ∈ n, isWordChar a = true := fun a ha => hn a (List.mem_cons_of_mem c ha)
    simp only [List.cons_append, exponentDigits]
    split
    · split
      · exact ih hn' _ _ _
      · exact ⟨rfl, n, hn', rfl, rfl⟩
    · exact ⟨rfl, c :: n, hn, rfl, rfl⟩

end

/-! ## The reader of numbers -/

/-- Inputs that go on alike have the same distance between them. -/
theorem Beside.length_sub {i' j' : Input} (h : Beside t u i j) (h' : Beside t u i' j') :
    i.rest.length - i'.rest.length = j.rest.length - j'.rest.length := by
  obtain ⟨n, -, hi, hj⟩ := h
  obtain ⟨n', -, hi', hj'⟩ := h'
  simp only [hi, hj, hi', hj', List.length_append]
  omega

/-- If the first result is a number, the second one is the same number, and both inputs go on with
the same word. -/
def Agrees (t u : List Char) (r r' : Except Error (JsonNumber × Input)) : Prop :=
  ∀ x k, r = .ok (x, k) → ∃ k', r' = .ok (x, k') ∧ Beside t u k k'

theorem Agrees.of_error {e : Error} {r : Except Error (JsonNumber × Input)} :
    Agrees t u (.error e) r := by
  intro x k h
  exact absurd h (by simp)

theorem Agrees.ok {x : JsonNumber} (h : Beside t u i j) : Agrees t u (.ok (x, i)) (.ok (x, j)) := by
  intro y k hy
  obtain ⟨rfl, rfl⟩ := ok_pair_inj hy
  exact ⟨j, rfl, h⟩

theorem agrees_floatNumber (positive : Bool) (digits : Nat) (exponent : Int)
    (h : Beside t u i j) :
    Agrees t u (floatNumber positive digits exponent i)
      (floatNumber positive digits exponent j) := by
  unfold floatNumber
  split
  · exact .of_error
  · exact .ok h

/-- The sign of an exponent, with the input after it. -/
def exponentSign (i : Input) : Bool × Input :=
  match i.rest with
  | '+' :: _ => (true, i.skip)
  | '-' :: _ => (false, i.skip)
  | _ => (true, i)

theorem exponentSign_eq (i : Input) : exponentSign i =
    if i.rest.head? = some '+' then (true, i.skip)
    else if i.rest.head? = some '-' then (false, i.skip)
    else (true, i) := by
  unfold exponentSign
  split <;> simp_all [List.head?_eq_some_iff]

/-- Read the digits of an exponent. -/
def unsignedExponent (positive : Bool) (digits : Nat) (exponent : Int) (up : Bool) (i : Input) :
    Except Error (JsonNumber × Input) :=
  match i.rest with
  | [] => i.fail .endInValue
  | c :: rest =>
    if !c.isDigit then i.failNext .invalidNumber
    else
      match exponentDigits (digitValue c) rest (i.place.after c) with
      | (some n, i) => floatNumber positive digits (if up then exponent + n else exponent - n) i
      | (none, i) =>
        if digits ≠ 0 && up then i.fail .numberOutOfRange
        else floatNumber positive 0 0 i.skipDigits

theorem exponentPart_eq (positive : Bool) (digits : Nat) (exponent : Int) (i : Input) :
    exponentPart positive digits exponent i =
      unsignedExponent positive digits exponent (exponentSign i.skip).1 (exponentSign i.skip).2 :=
  rfl

theorem afterFraction_eq (positive : Bool) (digits : Nat) (exponent : Int) (i : Input) :
    afterFraction positive digits exponent i =
      if i.rest.head? = some 'e' ∨ i.rest.head? = some 'E' then
        exponentPart positive digits exponent i
      else floatNumber positive digits exponent i := by
  unfold afterFraction
  split <;> simp_all [List.head?_eq_some_iff]

theorem fractionPart_eq (positive : Bool) (digits : Nat) (exponent : Int) (i : Input) :
    fractionPart positive digits exponent i =
      let r := addDigits digits 0 i.skip.rest i.skip.place
      if startsWithDigit r.2.2 then
        afterFraction positive r.1 (exponent - r.2.1) r.2.2.skipDigits
      else if r.2.1 = 0 then
        r.2.2.failNext (if r.2.2.rest.isEmpty then .endInValue else .invalidNumber)
      else afterFraction positive r.1 (exponent - r.2.1) r.2.2 :=
  rfl

theorem afterWhole_eq (positive : Bool) (digits : Nat) (i : Input) :
    afterWhole positive digits i =
      if i.rest.head? = some '.' then fractionPart positive digits 0 i
      else if i.rest.head? = some 'e' ∨ i.rest.head? = some 'E' then
        exponentPart positive digits 0 i
      else .ok (wholeNumber positive digits, i) := by
  unfold afterWhole
  split <;> simp_all [List.head?_eq_some_iff]

theorem afterLongWhole_eq (positive : Bool) (digits exponent : Nat) (i : Input) :
    afterLongWhole positive digits exponent i =
      if i.rest.head? = some '.' then fractionPart positive digits exponent i
      else afterFraction positive digits exponent i := by
  unfold afterLongWhole
  split <;> simp_all [List.head?_eq_some_iff]

theorem numberFrom_cons {positive : Bool} {c : Char} {r : List Char} (h : i.rest = c :: r) :
    numberFrom positive i =
      if c = '0' then
        if startsWithDigit i.skip then i.skip.failNext .invalidNumber
        else afterWhole positive 0 i.skip
      else if c.isDigit then
        let w := addDigits 0 0 i.rest i.place
        if startsWithDigit w.2.2 then
          afterLongWhole positive w.1 (w.2.2.rest.length - w.2.2.skipDigits.rest.length)
            w.2.2.skipDigits
        else afterWhole positive w.1 w.2.2
      else i.failNext .invalidNumber := by
  obtain ⟨rest, place⟩ := i
  subst h
  rfl

section

variable (ht : Stopped t) (hu : Stopped u)
include ht hu

theorem Beside.skipDigits (h : Beside t u i j) : Beside t u i.skipDigits j.skipDigits := by
  obtain ⟨n, hn, hi, hj⟩ := h
  rw [Input.skipDigits, Input.skipDigits, hi, hj]
  exact beside_skipWhile_isDigit hn ht hu _ _

theorem Beside.exponentSign (h : Beside t u i j) :
    (exponentSign i).1 = (exponentSign j).1 ∧
      Beside t u (Json.exponentSign i).2 (Json.exponentSign j).2 := by
  rw [exponentSign_eq, exponentSign_eq]
  simp only [← h.head?_iff ht hu (c := '+') (by decide), ← h.head?_iff ht hu (c := '-') (by decide)]
  split
  · exact ⟨rfl, h.skip (c := '+') ht (by decide) ‹_›⟩
  · split
    · exact ⟨rfl, h.skip (c := '-') ht (by decide) ‹_›⟩
    · exact ⟨rfl, h⟩

theorem agrees_unsignedExponent (positive : Bool) (digits : Nat) (exponent : Int) (up : Bool)
    (h : Beside t u i j) :
    Agrees t u (unsignedExponent positive digits exponent up i)
      (unsignedExponent positive digits exponent up j) := by
  obtain ⟨n, hn, hi, hj⟩ := h
  unfold unsignedExponent
  rw [hi, hj]
  cases n with
  | nil =>
    -- No digit can follow at the end of the word.
    cases t with
    | nil => exact .of_error
    | cons c t =>
      simp only [List.nil_append, isDigit_eq_false_of_stopped ht, Bool.not_false, if_true]
      exact .of_error
  | cons c n =>
    have hn' : ∀ a ∈ n, isWordChar a = true := fun a ha => hn a (List.mem_cons_of_mem c ha)
    obtain ⟨hdigits, hbeside⟩ :=
      beside_exponentDigits hn' ht hu (digitValue c) (i.place.after c) (j.place.after c)
    simp only [List.cons_append]
    generalize exponentDigits (digitValue c) (n ++ t) (i.place.after c) = r at hdigits hbeside
    generalize exponentDigits (digitValue c) (n ++ u) (j.place.after c) = r' at hdigits hbeside
    obtain ⟨m, i'⟩ := r
    obtain ⟨m', j'⟩ := r'
    obtain rfl : m = m' := hdigits
    split
    · exact .of_error
    · cases m with
      | some m => exact agrees_floatNumber _ _ _ hbeside
      | none =>
        dsimp only
        split
        · exact .of_error
        · exact agrees_floatNumber _ _ _ (hbeside.skipDigits ht hu)

theorem agrees_exponentPart (positive : Bool) (digits : Nat) (exponent : Int) {c : Char}
    (hc : isWordChar c = true) (hi : i.rest.head? = some c) (h : Beside t u i j) :
    Agrees t u (exponentPart positive digits exponent i)
      (exponentPart positive digits exponent j) := by
  rw [exponentPart_eq, exponentPart_eq]
  obtain ⟨hsign, hbeside⟩ := (h.skip ht hc hi).exponentSign ht hu
  rw [hsign]
  exact agrees_unsignedExponent ht hu _ _ _ _ hbeside

theorem agrees_afterFraction (positive : Bool) (digits : Nat) (exponent : Int)
    (h : Beside t u i j) :
    Agrees t u (afterFraction positive digits exponent i)
      (afterFraction positive digits exponent j) := by
  rw [afterFraction_eq, afterFraction_eq]
  simp only [← h.head?_iff ht hu (show isWordChar 'e' = true by decide),
    ← h.head?_iff ht hu (show isWordChar 'E' = true by decide)]
  split
  · rename_i hc
    obtain hc | hc := hc <;> exact agrees_exponentPart ht hu _ _ _ (by decide) hc h
  · exact agrees_floatNumber _ _ _ h

theorem agrees_fractionPart (positive : Bool) (digits : Nat) (exponent : Int)
    (hi : i.rest.head? = some '.') (h : Beside t u i j) :
    Agrees t u (fractionPart positive digits exponent i)
      (fractionPart positive digits exponent j) := by
  obtain ⟨n, hn, hit, hju⟩ := h.skip ht (by decide) hi
  obtain ⟨hdigits, htaken, hbeside⟩ :=
    beside_addDigits hn ht hu digits 0 i.skip.place j.skip.place
  rw [← hit, ← hju] at hdigits htaken hbeside
  rw [fractionPart_eq, fractionPart_eq]
  simp only [← hdigits, ← htaken, ← hbeside.startsWithDigit_eq ht hu]
  split
  · exact agrees_afterFraction ht hu _ _ _ (hbeside.skipDigits ht hu)
  · split
    · exact .of_error
    · exact agrees_afterFraction ht hu _ _ _ hbeside

theorem agrees_afterWhole (positive : Bool) (digits : Nat) (h : Beside t u i j) :
    Agrees t u (afterWhole positive digits i) (afterWhole positive digits j) := by
  rw [afterWhole_eq, afterWhole_eq]
  simp only [← h.head?_iff ht hu (show isWordChar '.' = true by decide),
    ← h.head?_iff ht hu (show isWordChar 'e' = true by decide),
    ← h.head?_iff ht hu (show isWordChar 'E' = true by decide)]
  split
  · exact agrees_fractionPart ht hu _ _ _ ‹_› h
  · split
    · rename_i hc
      obtain hc | hc := hc <;> exact agrees_exponentPart ht hu _ _ _ (by decide) hc h
    · exact .ok h

theorem agrees_afterLongWhole (positive : Bool) (digits exponent : Nat) (h : Beside t u i j) :
    Agrees t u (afterLongWhole positive digits exponent i)
      (afterLongWhole positive digits exponent j) := by
  rw [afterLongWhole_eq, afterLongWhole_eq]
  simp only [← h.head?_iff ht hu (show isWordChar '.' = true by decide)]
  split
  · exact agrees_fractionPart ht hu _ _ _ ‹_› h
  · exact agrees_afterFraction ht hu _ _ _ h

theorem agrees_numberFrom (positive : Bool) (h : Beside t u i j) :
    Agrees t u (numberFrom positive i) (numberFrom positive j) := by
  cases hi : i.rest with
  | nil =>
    have hfail : numberFrom positive i = i.fail .endInValue := by simp [numberFrom, hi]
    exact hfail ▸ .of_error
  | cons c r =>
    rw [numberFrom_cons hi]
    by_cases hc : c.isDigit
    · have hhead : i.rest.head? = some c := by rw [hi]; rfl
      obtain ⟨r', hj⟩ := List.head?_eq_some_iff.mp
        ((h.head?_iff ht hu (isWordChar_of_isDigit hc)).mp hhead)
      have hskip := h.skip ht (isWordChar_of_isDigit hc) hhead
      obtain ⟨n, hn, hit, hju⟩ := id h
      obtain ⟨hdigits, -, hbeside⟩ := beside_addDigits hn ht hu 0 0 i.place j.place
      rw [← hit, ← hju] at hdigits hbeside
      rw [numberFrom_cons hj]
      simp only [hc, if_true, ← hdigits, ← hbeside.startsWithDigit_eq ht hu,
        ← hskip.startsWithDigit_eq ht hu,
        ← hbeside.length_sub (hbeside.skipDigits ht hu)]
      split
      · split
        · exact .of_error
        · exact agrees_afterWhole ht hu _ _ hskip
      · split
        · exact agrees_afterLongWhole ht hu _ _ _ (hbeside.skipDigits ht hu)
        · exact agrees_afterWhole ht hu _ _ hbeside
    · have hzero : c ≠ '0' := by
        rintro rfl
        exact hc (by decide)
      rw [if_neg hzero, if_neg hc]
      exact .of_error

end

/-! ## Numbers as words -/

/-- The reader of numbers takes all of the text and gives the number. -/
def Unsigned (positive : Bool) (digits : List Char) (x : JsonNumber) : Prop :=
  ∃ k, numberFrom positive ⟨digits, {}⟩ = .ok (x, k) ∧ k.rest = []

/-- A number begins with a digit. -/
theorem Unsigned.exists_digit {positive : Bool} {digits : List Char} {x : JsonNumber}
    (h : Unsigned positive digits x) : ∃ c r, digits = c :: r ∧ c.isDigit = true := by
  obtain ⟨k, hk, -⟩ := h
  cases digits with
  | nil => exact absurd hk (by simp [numberFrom, Input.fail])
  | cons c r =>
    refine ⟨c, r, rfl, ?_⟩
    rw [numberFrom_cons rfl] at hk
    split at hk
    · rename_i hc
      exact hc ▸ rfl
    · split at hk
      · assumption
      · exact absurd hk (by simp [Input.failNext])

/-- A word that stands for a number. -/
inductive NumberText : List Char → JsonNumber → Prop
  | positive {digits : List Char} {x : JsonNumber} :
      Unsigned true digits x → NumberText digits x
  | negative {digits : List Char} {x : JsonNumber} :
      Unsigned false digits x → NumberText ('-' :: digits) x

/-- **A number is read from its word alone**, if the word ends where the reader stops. -/
theorem numberFrom_stopped_iff {positive : Bool} {x : JsonNumber} {s : List Char}
    (hs : Stopped s) : (∃ j, numberFrom positive i = .ok (x, j) ∧ j.rest = s) ↔
      ∃ n, (∀ c ∈ n, isWordChar c = true) ∧ i.rest = n ++ s ∧ Unsigned positive n x := by
  constructor
  · rintro ⟨j, hread, rfl⟩
    -- The word is as long as can be, which a priori is longer than what the reader took.
    have hn : ∀ c ∈ i.rest.takeWhile isWordChar, isWordChar c = true :=
      fun c hc => List.mem_takeWhile_imp hc
    have hrest : i.rest = i.rest.takeWhile isWordChar ++ i.rest.dropWhile isWordChar :=
      List.takeWhile_append_dropWhile.symm
    have hstop : Stopped (i.rest.dropWhile isWordChar) := by
      intro c hc
      have hnot := List.head?_dropWhile_not isWordChar i.rest
      rw [hc] at hnot
      simpa using hnot
    obtain ⟨k, hk, m, hm, hj, hkm⟩ := agrees_numberFrom hstop stopped_nil positive
      (j := ⟨i.rest.takeWhile isWordChar, {}⟩) ⟨_, hn, hrest, (List.append_nil _).symm⟩ x j hread
    cases m with
    | nil => exact ⟨_, hn, by rw [hj]; exact hrest, k, hk, hkm⟩
    | cons c m =>
      rw [hj] at hs
      exact absurd (stopped_cons.mp hs) (by simp [hm c List.mem_cons_self])
  · rintro ⟨n, hn, hi, k, hk, hkrest⟩
    obtain ⟨j, hj, m, hm, hkm, hjm⟩ := agrees_numberFrom stopped_nil hs positive
      (i := ⟨n, {}⟩) ⟨n, hn, (List.append_nil n).symm, hi⟩ x k hk
    obtain rfl : m = [] := by simpa [hkrest] using hkm
    exact ⟨j, hj, hjm⟩

theorem Unsigned.wordChars {positive : Bool} {digits : List Char} {x : JsonNumber}
    (h : Unsigned positive digits x) : ∀ c ∈ digits, isWordChar c = true := by
  obtain ⟨k, hk, hrest⟩ := h
  obtain ⟨n, hn, hdigits, -⟩ := (numberFrom_stopped_iff stopped_nil).mp ⟨k, hk, hrest⟩
  rw [List.append_nil] at hdigits
  rwa [show digits = n from hdigits]

theorem NumberText.wordChars {letters : List Char} {x : JsonNumber} (h : NumberText letters x) :
    ∀ c ∈ letters, isWordChar c = true := by
  cases h with
  | positive h => exact h.wordChars
  | negative h => exact List.forall_mem_cons.mpr ⟨by decide, h.wordChars⟩

theorem NumberText.ne_nil {letters : List Char} {x : JsonNumber} (h : NumberText letters x) :
    letters ≠ [] := by
  cases h with
  | positive h =>
    obtain ⟨c, r, rfl, -⟩ := h.exists_digit
    simp
  | negative h => simp

/-! ## Numbers that are written -/

theorem head?_toDigits_ne_zero {n : Nat} (hn : 0 < n) :
    (Nat.toDigits 10 n).head? ≠ some '0' := by
  induction n using Nat.strong_induction_on with
  | _ n ih =>
    rw [Nat.toDigits_eq_if (by decide)]
    split
    · have hdigit : ∀ d < 10, 0 < d → d.digitChar ≠ '0' := by decide
      simpa using hdigit n ‹_› hn
    · have hquot := ih (n / 10) (Nat.div_lt_self hn (by decide)) (by omega)
      obtain ⟨c, digits, hcons⟩ := List.exists_cons_of_ne_nil (Nat.toDigits_ne_nil (b := 10))
      rw [hcons] at hquot ⊢
      exact hquot

/-- All digits are added if the number that they make with those before fits a word. -/
theorem addDigits_of_le {digits : List Char} (hdigits : ∀ c ∈ digits, c.isDigit = true)
    {m : Nat} (h : Nat.ofDigitChars 10 digits m ≤ maxWord) (taken : Nat) (p : Place) :
    (addDigits m taken digits p).1 = Nat.ofDigitChars 10 digits m ∧
      (addDigits m taken digits p).2.2.rest = [] := by
  induction digits generalizing m taken p with
  | nil => exact ⟨rfl, rfl⟩
  | cons c digits ih =>
    obtain ⟨hc, hdigits⟩ := List.forall_mem_cons.mp hdigits
    rw [Nat.ofDigitChars_cons] at h ⊢
    have hle : 10 * m + digitValue c ≤ maxWord := by
      refine le_trans ?_ h
      rw [Nat.ofDigitChars_eq_ofDigitChars_zero]
      exact (Nat.le_mul_of_pos_left _ (Nat.pow_pos (by decide))).trans (Nat.le_add_right _ _)
    rw [addDigits, if_pos (by simp [hc, hle])]
    exact ih hdigits h _ _

/-- **A natural number that fits a word is read back from its digits.** -/
theorem unsigned_toDigits {n : Nat} (h : n ≤ maxWord) :
    Unsigned true (Nat.toDigits 10 n) (.nonneg n) := by
  have hdigits : ∀ c ∈ Nat.toDigits 10 n, c.isDigit = true :=
    fun c hc => Nat.isDigit_of_mem_toDigits (by decide) le_rfl hc
  have hvalue : Nat.ofDigitChars 10 (Nat.toDigits 10 n) 0 = n := Nat.ofDigitChars_ten_toDigits
  obtain rfl | hpos := Nat.eq_zero_or_pos n
  · exact ⟨⟨[], _⟩, rfl, rfl⟩
  · obtain ⟨hnumber, hrest⟩ := addDigits_of_le hdigits (hvalue.trans_le h) 0 {}
    have hhead := head?_toDigits_ne_zero hpos
    generalize Nat.toDigits 10 n = letters at *
    cases letters with
    | nil => exact absurd hvalue (by simpa using hpos.ne)
    | cons c letters =>
      have hc : c ≠ '0' := fun hc => hhead (congrArg some hc)
      refine ⟨(addDigits 0 0 (c :: letters) {}).2.2, ?_, hrest⟩
      rw [numberFrom_cons (i := ⟨c :: letters, {}⟩) rfl, if_neg hc,
        if_pos (hdigits c List.mem_cons_self)]
      simp [startsWithDigit, afterWhole, hrest, hnumber, hvalue, wholeNumber]

end CommentTags.Json
