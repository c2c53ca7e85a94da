import CommentTags.Proofs.Json.Grammar
import Mathlib.Data.List.DropRight

/-!
# Reading JSON by its grammar

The reader of values accepts a text exactly if the grammar has tokens for it, and gives the value
that these tokens spell: `accepts_iff` and, for whole texts, `parse_eq_ok_iff`. What each reader
does is said once, by an `iff` for a successful run of it; soundness and completeness go through
these.

* `items_eq_ok_iff`, `field_eq_ok_iff`, `fields_eq_ok_iff`, `value_cons`: one step of each reader.
* `sound_value`: what has been read is spelled by tokens.
* `Spells.reads`: what is spelled by tokens is read, with one lemma for each rule of the grammar.
-/

set_option autoImplicit false

namespace CommentTags.Json

/-! ## Blanks and words -/

theorem Input.skipWhile_rest (p : Char → Bool) (s : List Char) (place : Place) :
    (skipWhile p s place).rest = s.dropWhile p := by
  induction s generalizing place with
  | nil => rfl
  | cons c s ih =>
    rw [skipWhile, List.dropWhile_cons]
    split
    · exact ih _
    · rfl

theorem Input.skipBlanks_rest (i : Input) : i.skipBlanks.rest = i.rest.dropWhile isBlank :=
  skipWhile_rest isBlank i.rest i.place

theorem length_skipBlanks_le (i : Input) : i.skipBlanks.rest.length ≤ i.rest.length := by
  rw [Input.skipBlanks_rest]
  exact (List.dropWhile_suffix isBlank).length_le

theorem plain_skipBlanks_iff {ts : List Token} {i : Input} :
    Plain ts i.skipBlanks.rest ↔ Plain ts i.rest := by
  rw [Input.skipBlanks_rest, Plain.dropWhile_iff]

theorem word_eq_ok_iff {letters : List Char} {v w : Json} {i j : Input} :
    word letters v i = .ok (w, j) ↔ w = v ∧ i.Passes letters j := by
  induction letters generalizing i with
  | nil =>
    simp only [word, Except.ok.injEq, Prod.mk.injEq]
    constructor
    · rintro ⟨rfl, rfl⟩
      exact ⟨rfl, ⟨rfl, rfl⟩⟩
    · rintro ⟨rfl, hp⟩
      exact ⟨rfl, Input.Passes.unique ⟨rfl, rfl⟩ hp⟩
  | cons a letters ih =>
    rw [word]
    split
    · rename_i hrest
      simp only [Input.fail, reduceCtorEq, false_iff, not_and]
      exact fun _ hp => absurd (hrest.symm.trans hp.rest) (by simp)
    · rename_i c r hrest
      split
      · rename_i hca
        subst hca
        rw [ih]
        exact and_congr_right fun _ =>
          ⟨fun hp => Input.Passes.append (.skip hrest) hp, fun hp => hp.of_cons.2⟩
      · rename_i hca
        simp only [Input.failNext, reduceCtorEq, false_iff, not_and]
        exact fun _ hp => absurd (List.cons.inj (hrest.symm.trans hp.rest)).1 hca

/-! ## One step of the readers -/

/-- From `i` on, the reader of items or fields finds the next one at `j`. -/
inductive Ahead : Bool → Input → Input → Prop
  | first (i : Input) : Ahead true i i.skipBlanks
  | next {i : Input} {r : List Char} :
      i.skipBlanks.rest = ',' :: r → Ahead false i i.skipBlanks.skip.skipBlanks

/-- Read one item or field, and then the rest of them.  The reader insists that the first of them
takes something away from the input. -/
def moreOf {α : Type} (one : Except Error (α × Input))
    (more : Input → Except Error (List α × Input)) (n : Nat) : Except Error (List α × Input) := do
  let x ← one
  if _h : x.2.rest.length < n then do
    let y ← more x.2
    pure (x.1 :: y.1, y.2)
  else x.2.fail .endInValue

theorem moreOf_eq_ok_iff {α : Type} {one : Except Error (α × Input)}
    {more : Input → Except Error (List α × Input)} {n : Nat} {xs : List α} {k : Input} :
    moreOf one more n = .ok (xs, k) ↔
      ∃ x j ys, one = .ok (x, j) ∧ j.rest.length < n ∧ more j = .ok (ys, k) ∧ xs = x :: ys := by
  rw [moreOf, bind_eq_ok_iff, Prod.exists]
  refine exists_congr fun x => exists_congr fun j => ?_
  split
  · rename_i hlt
    rw [bind_eq_ok_iff, Prod.exists]
    constructor
    · rintro ⟨hone, ys, k', hmore, h⟩
      obtain ⟨rfl, rfl⟩ := ok_pair_inj h
      exact ⟨ys, hone, hlt, hmore, rfl⟩
    · rintro ⟨ys, hone, -, hmore, rfl⟩
      exact ⟨hone, ys, k, hmore, rfl⟩
  · rename_i hlt
    simp only [Input.fail, reduceCtorEq, and_false, false_iff, not_exists, not_and]
    exact fun ys _ h => absurd h hlt

variable {item : Input → Except Error (Json × Input)} {first : Bool} {i j k : Input}

theorem items_closing {r : List Char} (hrest : i.skipBlanks.rest = ']' :: r) :
    items item first i = .ok ([], i.skipBlanks.skip) := by
  rw [items]
  simp only [hrest]
  rfl

/-- The reader of items goes on with the next one. -/
theorem items_of_ahead (hahead : Ahead first i j) {c : Char} {r : List Char} (hj : j.rest = c :: r)
    (hc : c ≠ ']') : items item first i = moreOf (item j) (items item false) i.rest.length := by
  rw [items]
  dsimp only
  have hne (r' : List Char) : j.rest ≠ ']' :: r' := fun h => hc (List.cons.inj (hj.symm.trans h)).1
  cases hahead with
  | first i =>
    split
    · rename_i hnil
      exact absurd (hnil.symm.trans hj) (by simp)
    · rename_i hclose
      exact absurd hclose (hne _)
    · rfl
  | next hcomma =>
    split
    · simp_all
    · simp_all
    · rename_i hrest
      obtain ⟨rfl, rfl⟩ := List.cons.inj (hrest.symm.trans hcomma)
      rw [if_neg (by decide), if_pos rfl]
      split
      · rename_i hnil
        exact absurd (hnil.symm.trans hj) (by simp)
      · rename_i hclose
        exact absurd hclose (hne _)
      · rfl

/-- Where items are read, there is the closing bracket or the next item. -/
theorem exists_ahead_of_items {vs : List Json} (h : items item first i = .ok (vs, k)) :
    (∃ r, i.skipBlanks.rest = ']' :: r) ∨
      ∃ j, Ahead first i j ∧ ∃ c r, j.rest = c :: r ∧ c ≠ ']' := by
  rw [items] at h
  dsimp only at h
  split at h
  · exact absurd h (by simp [Input.failNext])
  · rename_i r hrest
    exact .inl ⟨r, hrest⟩
  · rename_i c r hc hrest
    right
    split at h
    · rename_i hfirst
      subst hfirst
      exact ⟨_, .first i, c, r, hrest, hc⟩
    · rename_i hfirst
      obtain rfl : first = false := by simpa using hfirst
      split at h
      · rename_i hcomma
        subst hcomma
        split at h
        · exact absurd h (by simp [Input.failNext, bind, Except.bind])
        · exact absurd h (by simp [Input.failNext, bind, Except.bind])
        · rename_i hnil hclose
          obtain ⟨c, r', hr'⟩ := List.exists_cons_of_ne_nil hnil
          exact ⟨_, .next hrest, c, r', hr', fun hc => hclose r' (hc ▸ hr')⟩
      · exact absurd h (by simp [Input.failNext, bind, Except.bind])

/-- The reader of items either finds the closing bracket, or an item and more of them. -/
theorem items_eq_ok_iff {vs : List Json} : items item first i = .ok (vs, k) ↔
    (vs = [] ∧ (∃ r, i.skipBlanks.rest = ']' :: r) ∧ k = i.skipBlanks.skip) ∨
    ∃ j, Ahead first i j ∧ (∃ c r, j.rest = c :: r ∧ c ≠ ']') ∧
      ∃ v j' ws, item j = .ok (v, j') ∧ j'.rest.length < i.rest.length ∧
        items item false j' = .ok (ws, k) ∧ vs = v :: ws := by
  constructor
  · intro h
    obtain ⟨r, hrest⟩ | ⟨j, hahead, c, r, hj, hc⟩ := exists_ahead_of_items h
    · rw [items_closing hrest] at h
      obtain ⟨rfl, rfl⟩ := ok_pair_inj h
      exact .inl ⟨rfl, ⟨r, hrest⟩, rfl⟩
    · rw [items_of_ahead hahead hj hc] at h
      exact .inr ⟨j, hahead, ⟨c, r, hj, hc⟩, moreOf_eq_ok_iff.mp h⟩
  · rintro (⟨rfl, ⟨r, hrest⟩, rfl⟩ | ⟨j, hahead, ⟨c, r, hj, hc⟩, h⟩)
    · exact items_closing hrest
    · rw [items_of_ahead hahead hj hc]
      exact moreOf_eq_ok_iff.mpr h

theorem field_eq_ok_iff {name : String} {v : Json} :
    field item i = .ok ((name, v), k) ↔
      ∃ x j r, stringBody i = .ok (x, j) ∧ j.skipBlanks.rest = ':' :: r ∧
        item j.skipBlanks.skip = .ok (v, k) ∧ name = String.ofList x := by
  rw [field, bind_eq_ok_iff, Prod.exists]
  refine exists_congr fun x => exists_congr fun j => ?_
  dsimp only
  split
  · rename_i hrest
    simp [Input.failNext, hrest]
  · rename_i r hrest
    rw [bind_eq_ok_iff, Prod.exists]
    constructor
    · rintro ⟨hx, v', k', hv, h⟩
      obtain ⟨hfield, rfl⟩ := ok_pair_inj h
      obtain ⟨rfl, rfl⟩ := Prod.ext_iff.mp hfield
      exact ⟨r, hx, hrest, hv, rfl⟩
    · rintro ⟨r', hx, -, hv, rfl⟩
      exact ⟨hx, v, k, hv, rfl⟩
  · rename_i hcolon
    simp only [Input.failNext, reduceCtorEq, and_false, false_iff, not_exists, not_and]
    exact fun r _ hr => absurd hr (hcolon r)

theorem fields_closing {r : List Char} (hrest : i.skipBlanks.rest = '\x7d' :: r) :
    fields item first i = .ok ([], i.skipBlanks.skip) := by
  rw [fields]
  simp only [hrest]
  rfl

/-- The reader of fields goes on with the next one. -/
theorem fields_of_ahead (hahead : Ahead first i j) {r : List Char} (hj : j.rest = '"' :: r) :
    fields item first i = moreOf (field item j.skip) (fields item false) i.rest.length := by
  rw [fields]
  cases hahead with
  | first i =>
    simp only [hj, if_true, pure_bind]
    rfl
  | next hcomma =>
    simp only [hcomma, hj, Bool.false_eq_true, if_false, pure_bind]
    rfl

/-- Where fields are read, there is the closing brace or the name of the next field. -/
theorem exists_ahead_of_fields {fs : List (String × Json)}
    (h : fields item first i = .ok (fs, k)) :
    (∃ r, i.skipBlanks.rest = '\x7d' :: r) ∨ ∃ j, Ahead first i j ∧ ∃ r, j.rest = '"' :: r := by
  rw [fields] at h
  dsimp only at h
  split at h
  · exact absurd h (by simp [Input.failNext])
  · rename_i r hrest
    exact .inl ⟨r, hrest⟩
  · rename_i c r hc hrest
    right
    split at h
    · rename_i hfirst
      subst hfirst
      split at h
      · rename_i hquote
        subst hquote
        exact ⟨_, .first i, r, hrest⟩
      · exact absurd h (by simp [Input.failNext, bind, Except.bind])
    · rename_i hfirst
      obtain rfl : first = false := by simpa using hfirst
      split at h
      · rename_i hcomma
        subst hcomma
        split at h
        · exact absurd h (by simp [Input.failNext, bind, Except.bind])
        · rename_i r' hr'
          exact ⟨_, .next hrest, r', hr'⟩
        · exact absurd h (by simp [Input.failNext, bind, Except.bind])
        · exact absurd h (by simp [Input.failNext, bind, Except.bind])
      · exact absurd h (by simp [Input.failNext, bind, Except.bind])

/-- The reader of fields either finds the closing brace, or a field and more of them. -/
theorem fields_eq_ok_iff {fs : List (String × Json)} : fields item first i = .ok (fs, k) ↔
    (fs = [] ∧ (∃ r, i.skipBlanks.rest = '\x7d' :: r) ∧ k = i.skipBlanks.skip) ∨
    ∃ j, Ahead first i j ∧ (∃ r, j.rest = '"' :: r) ∧
      ∃ f j' gs, field item j.skip = .ok (f, j') ∧ j'.rest.length < i.rest.length ∧
        fields item false j' = .ok (gs, k) ∧ fs = f :: gs := by
  constructor
  · intro h
    obtain ⟨r, hrest⟩ | ⟨j, hahead, r, hj⟩ := exists_ahead_of_fields h
    · rw [fields_closing hrest] at h
      obtain ⟨rfl, rfl⟩ := ok_pair_inj h
      exact .inl ⟨rfl, ⟨r, hrest⟩, rfl⟩
    · rw [fields_of_ahead hahead hj] at h
      exact .inr ⟨j, hahead, ⟨r, hj⟩, moreOf_eq_ok_iff.mp h⟩
  · rintro (⟨rfl, ⟨r, hrest⟩, rfl⟩ | ⟨j, hahead, ⟨r, hj⟩, h⟩)
    · exact fields_closing hrest
    · rw [fields_of_ahead hahead hj]
      exact moreOf_eq_ok_iff.mpr h

/-- The first character tells what kind of value it is. -/
theorem value_cons {depth : Nat} {c : Char} {r : List Char} (h : i.skipBlanks.rest = c :: r) :
    value (depth + 1) i =
      if c = 'n' then word "ull".toList .null i.skipBlanks.skip
      else if c = 't' then word "rue".toList (.bool true) i.skipBlanks.skip
      else if c = 'f' then word "alse".toList (.bool false) i.skipBlanks.skip
      else if c = '"' then
        (stringBody i.skipBlanks.skip).map fun (s, j) => (.string (String.ofList s), j)
      else if c = '-' then (numberFrom false i.skipBlanks.skip).map fun (n, j) => (.number n, j)
      else if c = '[' then
        if depth = 0 then i.skipBlanks.failNext .tooDeep
        else (items (value depth) true i.skipBlanks.skip).map fun (xs, j) => (.array xs, j)
      else if c = '\x7b' then
        if depth = 0 then i.skipBlanks.failNext .tooDeep
        else (fields (value depth) true i.skipBlanks.skip).map fun (xs, j) => (.object xs, j)
      else if c.isDigit then (numberFrom true i.skipBlanks).map fun (n, j) => (.number n, j)
      else i.skipBlanks.failNext .expectedValue := by
  rw [value]
  simp only [h]
  split <;> simp_all

/-! ## What has been read is spelled by tokens -/

/-- The reader gives the meaning from `i` on, and has come to `j`. -/
def Gives (depth : Nat) (i j : Input) : Meaning → Prop
  | .value v => value depth i = .ok (v, j)
  | .items first vs => items (value depth) first i = .ok (vs, j)
  | .fields first fs => fields (value depth) first i = .ok (fs, j)

theorem Plain.stopped_of_mark {m : Mark} {ts : List Token} {s : List Char}
    (h : Plain (.mark m :: ts) s) : Stopped s := by
  obtain ⟨w, r, rfl, hw, -, -⟩ := Plain.cons_iff.mp h
  exact .blank_append hw (stopped_cons.mpr m.isWordChar_char)

/-- A token in front, where the blanks are passed over. -/
theorem Plain.of_skipBlanks {t : Token} {ts : List Token} {r : List Char}
    (h : i.skipBlanks.rest = t.text ++ r) (ht : t.Apart r) (hr : Plain ts r) :
    Plain (t :: ts) i.rest :=
  Plain.dropWhile_cons_iff.mpr ⟨r, by rw [← Input.skipBlanks_rest, h], ht, hr⟩

theorem Plain.mark_of_skipBlanks {m : Mark} {ts : List Token} {r : List Char}
    (h : i.skipBlanks.rest = m.char :: r) (hr : Plain ts i.skipBlanks.skip.rest) :
    Plain (.mark m :: ts) i.rest := by
  rw [Input.skip_eq h] at hr
  exact of_skipBlanks (t := .mark m) h trivial hr

theorem Ahead.plain {ts : List Token} (h : Ahead first i j) (hj : Plain ts j.rest) :
    Plain (separator first ++ ts) i.rest := by
  cases h with
  | first i => exact plain_skipBlanks_iff.mp hj
  | next hcomma => exact Plain.mark_of_skipBlanks (m := .comma) hcomma (plain_skipBlanks_iff.mp hj)

/-- What stands between items or fields and after the last one is a mark. -/
theorem Spells.exists_mark {depth : Nat} {vs : List Json} {ts : List Token}
    (h : Spells depth (.items false vs) ts) : ∃ m us, ts = .mark m :: us := by
  cases h <;> exact ⟨_, _, rfl⟩

theorem Spells.exists_mark_of_fields {depth : Nat} {fs : List (String × Json)} {ts : List Token}
    (h : Spells depth (.fields false fs) ts) : ∃ m us, ts = .mark m :: us := by
  cases h <;> exact ⟨_, _, rfl⟩

/-- Whatever is read as a value at the given depth is spelled by tokens, if no word goes on after
it. -/
def Sound (depth : Nat) : Prop :=
  ∀ {i j : Input} {v : Json} {us : List Token}, value depth i = .ok (v, j) → Plain us j.rest →
    Stopped j.rest → ∃ ts, Spells depth (.value v) ts ∧ Plain (ts ++ us) i.rest

variable {depth : Nat} {us : List Token}

theorem Sound.items (hsound : Sound depth) {vs : List Json}
    (h : items (value depth) first i = .ok (vs, k)) (hk : Plain us k.rest) :
    ∃ ts, Spells depth (.items first vs) ts ∧ Plain (ts ++ us) i.rest := by
  -- Every item leaves less to read. What follows it begins with a mark, so its word ends there.
  induction hn : i.rest.length using Nat.strong_induction_on generalizing first i vs with
  | _ n ih =>
    subst hn
    obtain ⟨rfl, ⟨r, hrest⟩, rfl⟩ | ⟨j, hahead, -, v, j', ws, hv, hlt, hws, rfl⟩ :=
      items_eq_ok_iff.mp h
    · exact ⟨_, .endItems, Plain.mark_of_skipBlanks (m := .endArray) hrest hk⟩
    · obtain ⟨us', hus', hplain⟩ := ih _ hlt hws rfl
      obtain ⟨m, us'', rfl⟩ := hus'.exists_mark
      obtain ⟨ts, hts, hplain'⟩ := hsound hv hplain hplain.stopped_of_mark
      exact ⟨_, .item hts hus', by simpa using hahead.plain hplain'⟩

theorem Sound.fields (hsound : Sound depth) {fs : List (String × Json)}
    (h : fields (value depth) first i = .ok (fs, k)) (hk : Plain us k.rest) :
    ∃ ts, Spells depth (.fields first fs) ts ∧ Plain (ts ++ us) i.rest := by
  induction hn : i.rest.length using Nat.strong_induction_on generalizing first i fs with
  | _ n ih =>
    subst hn
    obtain ⟨rfl, ⟨r, hrest⟩, rfl⟩ |
      ⟨j, hahead, ⟨r, hquote⟩, ⟨name, v⟩, j', gs, hf, hlt, hgs, rfl⟩ := fields_eq_ok_iff.mp h
    · exact ⟨_, .endFields, Plain.mark_of_skipBlanks (m := .endObject) hrest hk⟩
    · obtain ⟨us', hus', hplain⟩ := ih _ hlt hgs rfl
      obtain ⟨m, us'', rfl⟩ := hus'.exists_mark_of_fields
      obtain ⟨x, l, r', hx, hcolon, hv, rfl⟩ := field_eq_ok_iff.mp hf
      obtain ⟨ts, hts, hplain'⟩ := hsound hv hplain hplain.stopped_of_mark
      obtain ⟨body, hbody, hp⟩ := stringBody_eq_ok_iff.mp hx
      have hname : Plain (.string body hbody.closed ::
          .mark .colon :: (ts ++ (.mark m :: us'' ++ us))) j.rest := by
        have hj : j.rest = (Token.string body hbody.closed).text ++ l.rest := by
          rw [hquote, Token.text, List.cons_append, ← hp.rest, Input.skip_eq hquote]
        rw [hj]
        exact Plain.token trivial (Plain.mark_of_skipBlanks (m := .colon) hcolon hplain')
      exact ⟨_, .field hbody hts hus', by simpa using hahead.plain hname⟩

theorem exists_spells_of_word {c : Char} {letters : List Char} {v w : Json}
    (hmem : (c :: letters, w) ∈ literals) (hc : ∃ r, i.skipBlanks.rest = c :: r)
    (h : word letters w i.skipBlanks.skip = .ok (v, j)) (hj : Plain us j.rest)
    (hs : Stopped j.rest) :
    ∃ ts, Spells (depth + 1) (.value v) ts ∧ Plain (ts ++ us) i.rest := by
  obtain ⟨hne, hword⟩ := wordChars_of_mem_literals _ hmem
  obtain ⟨rfl, hp⟩ := word_eq_ok_iff.mp h
  obtain ⟨r, hr⟩ := hc
  refine ⟨[.word _ hne hword], .literal hmem, Plain.of_skipBlanks ?_ hs hj⟩
  rw [hr, Token.text, List.cons_append, ← hp.rest, Input.skip_eq hr]

theorem exists_spells_of_number {letters : List Char} {x : JsonNumber}
    (hx : NumberText letters x) (hrest : i.skipBlanks.rest = letters ++ j.rest)
    (hj : Plain us j.rest) (hs : Stopped j.rest) :
    ∃ ts, Spells (depth + 1) (.value (.number x)) ts ∧ Plain (ts ++ us) i.rest :=
  ⟨[.word letters hx.ne_nil hx.wordChars], .number hx, Plain.of_skipBlanks hrest hs hj⟩

theorem exists_spells_of_stringBody {x : List Char} (hc : ∃ r, i.skipBlanks.rest = '"' :: r)
    (h : stringBody i.skipBlanks.skip = .ok (x, j)) (hj : Plain us j.rest) :
    ∃ ts, Spells (depth + 1) (.value (.string (String.ofList x))) ts ∧ Plain (ts ++ us) i.rest := by
  obtain ⟨body, hbody, hp⟩ := stringBody_eq_ok_iff.mp h
  obtain ⟨r, hr⟩ := hc
  refine ⟨[.string body hbody.closed], .string hbody, Plain.of_skipBlanks ?_ trivial hj⟩
  rw [hr, Token.text, List.cons_append, ← hp.rest, Input.skip_eq hr]

/-- The sign has been passed over. -/
theorem exists_spells_of_negative {v : Json} (hc : ∃ r, i.skipBlanks.rest = '-' :: r)
    (h : ((numberFrom false i.skipBlanks.skip).map fun (n, j) => (Json.number n, j)) = .ok (v, j))
    (hj : Plain us j.rest) (hs : Stopped j.rest) :
    ∃ ts, Spells (depth + 1) (.value v) ts ∧ Plain (ts ++ us) i.rest := by
  obtain ⟨x, hx, rfl⟩ := map_eq_ok_iff.mp h
  obtain ⟨n, -, hrest, hnum⟩ := (numberFrom_stopped_iff hs).mp ⟨_, hx, rfl⟩
  obtain ⟨r, hr⟩ := hc
  refine exists_spells_of_number (.negative hnum) ?_ hj hs
  rw [hr, List.cons_append, ← hrest, Input.skip_eq hr]

theorem exists_spells_of_positive {v : Json}
    (h : ((numberFrom true i.skipBlanks).map fun (n, j) => (Json.number n, j)) = .ok (v, j))
    (hj : Plain us j.rest) (hs : Stopped j.rest) :
    ∃ ts, Spells (depth + 1) (.value v) ts ∧ Plain (ts ++ us) i.rest := by
  obtain ⟨x, hx, rfl⟩ := map_eq_ok_iff.mp h
  obtain ⟨n, -, hrest, hnum⟩ := (numberFrom_stopped_iff hs).mp ⟨_, hx, rfl⟩
  exact exists_spells_of_number (.positive hnum) hrest hj hs

/-- The items of an array may be nested one time less. -/
theorem Sound.array (hsound : Sound depth) {v : Json} (hc : ∃ r, i.skipBlanks.rest = '[' :: r)
    (h : (if depth = 0 then i.skipBlanks.failNext .tooDeep
      else (Json.items (value depth) true i.skipBlanks.skip).map fun (xs, j) => (.array xs, j)) =
        .ok (v, j)) (hj : Plain us j.rest) :
    ∃ ts, Spells (depth + 1) (.value v) ts ∧ Plain (ts ++ us) i.rest := by
  split at h
  · exact absurd h (by simp [Input.failNext])
  · rename_i hdepth
    obtain ⟨depth, rfl⟩ := Nat.exists_eq_succ_of_ne_zero hdepth
    obtain ⟨xs, hx, rfl⟩ := map_eq_ok_iff.mp h
    obtain ⟨ts, hts, hplain⟩ := hsound.items hx hj
    obtain ⟨r, hr⟩ := hc
    exact ⟨_, .array hts, Plain.mark_of_skipBlanks (m := .beginArray) hr hplain⟩

theorem Sound.object (hsound : Sound depth) {v : Json}
    (hc : ∃ r, i.skipBlanks.rest = '\x7b' :: r)
    (h : (if depth = 0 then i.skipBlanks.failNext .tooDeep
      else (Json.fields (value depth) true i.skipBlanks.skip).map fun (xs, j) => (.object xs, j)) =
        .ok (v, j)) (hj : Plain us j.rest) :
    ∃ ts, Spells (depth + 1) (.value v) ts ∧ Plain (ts ++ us) i.rest := by
  split at h
  · exact absurd h (by simp [Input.failNext])
  · rename_i hdepth
    obtain ⟨depth, rfl⟩ := Nat.exists_eq_succ_of_ne_zero hdepth
    obtain ⟨xs, hx, rfl⟩ := map_eq_ok_iff.mp h
    obtain ⟨ts, hts, hplain⟩ := hsound.fields hx hj
    obtain ⟨r, hr⟩ := hc
    exact ⟨_, .object hts, Plain.mark_of_skipBlanks (m := .beginObject) hr hplain⟩

/-- **What has been read as a value is spelled by tokens**, if no word goes on after it. -/
theorem sound_value (depth : Nat) : Sound depth := by
  induction depth with
  | zero =>
    intro i j v us h
    exact absurd h (by simp [value, Input.failNext])
  | succ depth ih =>
    intro i j v us h hj hs
    cases hr : i.skipBlanks.rest with
    | nil => exact absurd h (by simp [value, hr, Input.failNext])
    | cons c r =>
      rw [value_cons hr] at h
      -- the three literals
      split at h
      · rename_i hc
        exact exists_spells_of_word (c := c) (by simp [literals, hc]) ⟨r, hr⟩ h hj hs
      split at h
      · rename_i hc
        exact exists_spells_of_word (c := c) (by simp [literals, hc]) ⟨r, hr⟩ h hj hs
      split at h
      · rename_i hc
        exact exists_spells_of_word (c := c) (by simp [literals, hc]) ⟨r, hr⟩ h hj hs
      -- a string, and a number with a sign
      split at h
      · rename_i hc
        obtain ⟨x, hx, rfl⟩ :=
          (map_eq_ok_iff (f := fun s : List Char => Json.string (String.ofList s))).mp h
        exact exists_spells_of_stringBody ⟨r, hc ▸ hr⟩ hx hj
      split at h
      · rename_i hc
        exact exists_spells_of_negative ⟨r, hc ▸ hr⟩ h hj hs
      -- an array and an object
      split at h
      · rename_i hc
        exact ih.array ⟨r, hc ▸ hr⟩ h hj
      split at h
      · rename_i hc
        exact ih.object ⟨r, hc ▸ hr⟩ h hj
      -- a number that begins with a digit
      split at h
      · exact exists_spells_of_positive h hj hs
      · exact absurd h (by simp [Input.failNext])

/-! ## What is spelled by tokens is read -/

theorem exists_skipBlanks_of_plain {t : Token} {ts : List Token} (h : Plain (t :: ts) i.rest) :
    ∃ r, i.skipBlanks.rest = t.text ++ r ∧ t.Apart r ∧ Plain ts r ∧ r.length < i.rest.length := by
  obtain ⟨r, hr, ht, hts⟩ := Plain.dropWhile_cons_iff.mp h
  rw [← Input.skipBlanks_rest] at hr
  obtain ⟨c, s, htext, -⟩ := t.exists_text_eq_cons
  have hle := length_skipBlanks_le i
  rw [hr, htext, List.length_append, List.length_cons] at hle
  exact ⟨r, hr, ht, hts, by omega⟩

theorem exists_skip_of_plain_mark {m : Mark} {ts : List Token}
    (h : Plain (.mark m :: ts) i.rest) :
    (∃ r, i.skipBlanks.rest = m.char :: r) ∧ Plain ts i.skipBlanks.skip.rest ∧
      i.skipBlanks.skip.rest.length < i.rest.length := by
  obtain ⟨r, hr, -, hts, hlt⟩ := exists_skipBlanks_of_plain h
  have hr' : i.skipBlanks.rest = m.char :: r := hr
  rw [Input.skip_eq hr']
  exact ⟨⟨r, hr'⟩, hts, hlt⟩

theorem exists_ahead {ts : List Token} (h : Plain (separator first ++ ts) i.rest) :
    ∃ j, Ahead first i j ∧ Plain ts j.rest ∧ j.rest.length ≤ i.rest.length ∧
      j.rest = j.rest.dropWhile isBlank := by
  have hidem : ∀ k : Input, k.skipBlanks.rest = k.skipBlanks.rest.dropWhile isBlank := by
    intro k
    rw [Input.skipBlanks_rest, List.dropWhile_idempotent]
  cases first with
  | true =>
    exact ⟨_, .first i, plain_skipBlanks_iff.mpr h, length_skipBlanks_le i, hidem i⟩
  | false =>
    obtain ⟨⟨r, hr⟩, hts, hlt⟩ := exists_skip_of_plain_mark h
    have hle := length_skipBlanks_le i.skipBlanks.skip
    exact ⟨_, .next hr, plain_skipBlanks_iff.mpr hts, by omega, hidem _⟩

theorem value_literal {c : Char} {letters r : List Char} {w : Json}
    (hmem : (c :: letters, w) ∈ literals) (h : i.skipBlanks.rest = c :: r) :
    value (depth + 1) i = word letters w i.skipBlanks.skip := by
  have hcases : c = 'n' ∧ letters = "ull".toList ∧ w = .null ∨
      c = 't' ∧ letters = "rue".toList ∧ w = .bool true ∨
      c = 'f' ∧ letters = "alse".toList ∧ w = .bool false := by
    simpa [literals, and_assoc] using hmem
  rw [value_cons h]
  obtain ⟨rfl, rfl, rfl⟩ | ⟨rfl, rfl, rfl⟩ | ⟨rfl, rfl, rfl⟩ := hcases <;> rfl

theorem value_number {c : Char} {r : List Char} (hc : c.isDigit = true)
    (h : i.skipBlanks.rest = c :: r) :
    value (depth + 1) i = (numberFrom true i.skipBlanks).map fun (n, j) => (.number n, j) := by
  have hne : ∀ a : Char, a.isDigit = false → c ≠ a := by
    rintro a ha rfl
    rw [hc] at ha
    exact absurd ha (by decide)
  rw [value_cons h, if_neg (hne 'n' rfl), if_neg (hne 't' rfl), if_neg (hne 'f' rfl),
    if_neg (hne '"' rfl), if_neg (hne '-' rfl), if_neg (hne '[' rfl), if_neg (hne '\x7b' rfl),
    if_pos hc]

/-- From tokens on, the reader gives the meaning, and the tokens after it are left. -/
def Reads (depth : Nat) (m : Meaning) (ts : List Token) : Prop :=
  ∀ {i : Input} {us : List Token}, Plain (ts ++ us) i.rest →
    ∃ j, Gives depth i j m ∧ Plain us j.rest ∧ j.rest.length < i.rest.length

theorem Reads.literal {letters : List Char} {v : Json} {hne : letters ≠ []}
    {hall : ∀ c ∈ letters, isWordChar c = true} (hmem : (letters, v) ∈ literals) :
    Reads (depth + 1) (.value v) [.word letters hne hall] := by
  intro i us hi
  obtain ⟨r, hr, -, hus, hlt⟩ := exists_skipBlanks_of_plain hi
  obtain ⟨c, letters, rfl⟩ := List.exists_cons_of_ne_nil hne
  have hr' : i.skipBlanks.rest = c :: (letters ++ r) := hr
  obtain ⟨j, hp, rfl⟩ := Input.Passes.exists_of_rest (i := i.skipBlanks.skip)
    (by rw [Input.skip_eq hr'])
  exact ⟨j, (value_literal hmem hr').trans (word_eq_ok_iff.mpr ⟨rfl, hp⟩), hus, hlt⟩

theorem Reads.number {letters : List Char} {x : JsonNumber} {hne : letters ≠ []}
    {hall : ∀ c ∈ letters, isWordChar c = true} (hnum : NumberText letters x) :
    Reads (depth + 1) (.value (.number x)) [.word letters hne hall] := by
  intro i us hi
  obtain ⟨r, hr, hs, hus, hlt⟩ := exists_skipBlanks_of_plain hi
  cases hnum with
  | positive hnum =>
    obtain ⟨c, n, rfl, hc⟩ := hnum.exists_digit
    obtain ⟨j, hj, rfl⟩ := (numberFrom_stopped_iff hs).mpr ⟨_, hall, hr, hnum⟩
    refine ⟨j, ?_, hus, hlt⟩
    have hr' : i.skipBlanks.rest = c :: (n ++ j.rest) := hr
    rw [Gives, value_number hc hr', hj]
    rfl
  | @negative n _ hnum =>
    have hr' : i.skipBlanks.rest = '-' :: (n ++ r) := hr
    obtain ⟨j, hj, rfl⟩ := (numberFrom_stopped_iff (i := i.skipBlanks.skip) hs).mpr
      ⟨n, fun a ha => hall a (List.mem_cons_of_mem _ ha), by rw [Input.skip_eq hr'], hnum⟩
    refine ⟨j, ?_, hus, hlt⟩
    rw [Gives, value_cons hr']
    simp [hj, Except.map]

theorem Reads.string {body x : List Char} {closed : Closed body} (hquoted : Quoted body x) :
    Reads (depth + 1) (.value (.string (String.ofList x))) [.string body closed] := by
  intro i us hi
  obtain ⟨r, hr, -, hus, hlt⟩ := exists_skipBlanks_of_plain hi
  have hr' : i.skipBlanks.rest = '"' :: (body ++ ['"'] ++ r) := hr
  obtain ⟨j, hp, rfl⟩ := Input.Passes.exists_of_rest (i := i.skipBlanks.skip)
    (by rw [Input.skip_eq hr'])
  refine ⟨j, ?_, hus, hlt⟩
  have hx := stringBody_eq_ok_iff.mpr ⟨body, hquoted, hp⟩
  rw [Gives, value_cons hr']
  simp [hx, Except.map]

theorem Reads.array {vs : List Json} {ts : List Token} (h : Reads (depth + 1) (.items true vs) ts) :
    Reads (depth + 2) (.value (.array vs)) (.mark .beginArray :: ts) := by
  intro i us hi
  obtain ⟨⟨r, hr⟩, hts, hlt⟩ := exists_skip_of_plain_mark hi
  obtain ⟨j, hj, hus, hlt'⟩ := h hts
  refine ⟨j, ?_, hus, by omega⟩
  rw [Gives] at hj
  rw [Gives, value_cons hr]
  simp [Mark.char, hj, Except.map]

theorem Reads.object {fs : List (String × Json)} {ts : List Token}
    (h : Reads (depth + 1) (.fields true fs) ts) :
    Reads (depth + 2) (.value (.object fs)) (.mark .beginObject :: ts) := by
  intro i us hi
  obtain ⟨⟨r, hr⟩, hts, hlt⟩ := exists_skip_of_plain_mark hi
  obtain ⟨j, hj, hus, hlt'⟩ := h hts
  refine ⟨j, ?_, hus, by omega⟩
  rw [Gives] at hj
  rw [Gives, value_cons hr]
  simp [Mark.char, hj, Except.map]

theorem Reads.endItems {first : Bool} : Reads depth (.items first []) [.mark .endArray] := by
  intro i us hi
  obtain ⟨⟨r, hr⟩, hts, hlt⟩ := exists_skip_of_plain_mark hi
  exact ⟨_, items_eq_ok_iff.mpr (.inl ⟨rfl, ⟨r, hr⟩, rfl⟩), hts, hlt⟩

theorem Reads.endFields {first : Bool} : Reads depth (.fields first []) [.mark .endObject] := by
  intro i us hi
  obtain ⟨⟨r, hr⟩, hts, hlt⟩ := exists_skip_of_plain_mark hi
  exact ⟨_, fields_eq_ok_iff.mpr (.inl ⟨rfl, ⟨r, hr⟩, rfl⟩), hts, hlt⟩

/-- A value does not begin with a closing bracket. -/
theorem ne_endArray_of_plain {v : Json} {ts : List Token} (hv : Spells depth (.value v) ts)
    (hj : Plain (ts ++ us) j.rest) (hblank : j.rest = j.rest.dropWhile isBlank) :
    ∃ c r, j.rest = c :: r ∧ c ≠ ']' := by
  obtain ⟨t, ts, rfl, ht⟩ := hv.exists_cons
  obtain ⟨r, hr, -, -⟩ := Plain.dropWhile_cons_iff.mp hj
  obtain ⟨c, s, htext, -⟩ := t.exists_text_eq_cons
  rw [← hblank, htext, List.cons_append] at hr
  exact ⟨c, _, hr, Token.ne_of_text_eq_cons (m := .endArray) rfl ht htext⟩

theorem Reads.consItem {first : Bool} {v : Json} {vs : List Json} {ts us : List Token}
    (hspells : Spells depth (.value v) ts) (hv : Reads depth (.value v) ts)
    (hvs : Reads depth (.items false vs) us) :
    Reads depth (.items first (v :: vs)) (separator first ++ (ts ++ us)) := by
  intro i ws hi
  rw [List.append_assoc, List.append_assoc] at hi
  obtain ⟨j, hahead, hj, hle, hblank⟩ := exists_ahead hi
  obtain ⟨j', hv', hplain, hlt⟩ := hv hj
  obtain ⟨k, hvs', hus, hlt'⟩ := hvs hplain
  exact ⟨k, items_eq_ok_iff.mpr (.inr ⟨j, hahead, ne_endArray_of_plain hspells hj hblank, _, j', _,
    hv', by omega, hvs', rfl⟩), hus, by omega⟩

theorem Reads.consField {first : Bool} {body x : List Char} {closed : Closed body} {v : Json}
    {fs : List (String × Json)} {ts us : List Token} (hname : Quoted body x)
    (hv : Reads depth (.value v) ts) (hfs : Reads depth (.fields false fs) us) :
    Reads depth (.fields first ((String.ofList x, v) :: fs))
      (separator first ++ .string body closed :: .mark .colon :: (ts ++ us)) := by
  intro i ws hi
  rw [List.append_assoc, List.cons_append, List.cons_append, List.append_assoc] at hi
  obtain ⟨j, hahead, hj, hle, hblank⟩ := exists_ahead hi
  obtain ⟨r, hr, -, hcolon⟩ := Plain.dropWhile_cons_iff.mp hj
  have hr' : j.rest = '"' :: (body ++ ['"'] ++ r) := by rw [hblank, hr]; rfl
  obtain ⟨l, hp, rfl⟩ := Input.Passes.exists_of_rest (i := j.skip)
    (by rw [Input.skip_eq hr'])
  have hx := stringBody_eq_ok_iff.mpr ⟨body, hname, hp⟩
  obtain ⟨⟨r', hr''⟩, hts, hlt⟩ := exists_skip_of_plain_mark hcolon
  obtain ⟨j', hv', hplain, hlt'⟩ := hv hts
  obtain ⟨k, hfs', hus, hlt''⟩ := hfs hplain
  have hfield := field_eq_ok_iff.mpr ⟨x, l, r', hx, hr'', hv', rfl⟩
  have hlen : l.rest.length < j.rest.length := by
    rw [hr', List.length_cons, List.length_append]
    omega
  exact ⟨k, fields_eq_ok_iff.mpr (.inr ⟨j, hahead, ⟨_, hr'⟩, _, j', _, hfield, by omega, hfs',
    rfl⟩), hus, by omega⟩

/-- **What is spelled by tokens is read**, and the tokens after it are left. -/
theorem Spells.reads {m : Meaning} {ts : List Token} (h : Spells depth m ts) :
    Reads depth m ts := by
  induction h with
  | literal hmem => exact Reads.literal hmem
  | number hnum => exact Reads.number hnum
  | string hquoted => exact Reads.string hquoted
  | array _ ih => exact Reads.array ih
  | object _ ih => exact Reads.object ih
  | endItems => exact Reads.endItems
  | item hv _ ihv ihvs => exact Reads.consItem hv ihv ihvs
  | endFields => exact Reads.endFields
  | field hname _ _ ihv ihfs => exact Reads.consField hname ihv ihfs

/-! ## Whole texts -/

/-- The text is read as the value, with nothing but blanks after it. -/
def Accepts (depth : Nat) (s : List Char) (v : Json) : Prop :=
  ∃ i, value depth ⟨s, {}⟩ = .ok (v, i) ∧ i.skipBlanks.rest = []

/-- **A text is read as a value exactly if tokens that spell the value make up the text.** -/
theorem accepts_iff {s : List Char} {v : Json} :
    Accepts depth s v ↔ ∃ ts, Spells depth (.value v) ts ∧ Plain ts s := by
  constructor
  · rintro ⟨i, hv, hrest⟩
    have hblank : Blank i.rest := by
      rw [← Plain.nil_iff, ← plain_skipBlanks_iff, hrest]
      exact .last blank_nil
    have hstop : Stopped i.rest := by
      simpa using Stopped.blank_append hblank stopped_nil
    obtain ⟨ts, hts, hplain⟩ := sound_value depth hv (.last hblank) hstop
    exact ⟨ts, hts, by simpa using hplain⟩
  · rintro ⟨ts, hts, hplain⟩
    have hinput : Plain (ts ++ []) (Input.mk s {}).rest := by simpa using hplain
    obtain ⟨i, hv, hlast, -⟩ := hts.reads hinput
    refine ⟨i, hv, ?_⟩
    rw [Input.skipBlanks_rest, (Plain.nil_iff.mp hlast).dropWhile_eq_nil]

theorem parse_eq_ok_iff_accepts {text : String} {v : Json} :
    parse text = .ok v ↔ Accepts maxDepth text.toList v := by
  constructor
  · intro h
    obtain ⟨⟨w, i⟩, hw, h⟩ := bind_eq_ok_iff.mp h
    dsimp only at h
    split at h
    · rename_i hrest
      obtain rfl : w = v := Except.ok.inj h
      exact ⟨i, hw, hrest⟩
    · exact absurd h (by simp [Input.failNext])
  · rintro ⟨i, hv, hrest⟩
    refine bind_eq_ok_iff.mpr ⟨(v, i), hv, ?_⟩
    dsimp only
    rw [hrest]
    rfl

theorem parse_eq_ok_iff {text : String} {v : Json} :
    parse text = .ok v ↔ ∃ ts, Spells maxDepth (.value v) ts ∧ Plain ts text.toList :=
  parse_eq_ok_iff_accepts.trans accepts_iff

end CommentTags.Json
