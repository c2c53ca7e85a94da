import CommentTags.Proofs.Json.Numbers

/-!
# The grammar of JSON

* `Meaning` — what a sequence of tokens can mean: a value, or what stands in an array or an object
  from some place up to its end.
* `Spells depth m ts` — the tokens `ts` spell `m`, where `depth` bounds how deep arrays and objects
  may be nested.  The rules are those of the readers, one rule for each way that a reader can go on.
* `Spells.exists_cons` — a value begins with a token that ends nothing.
* `Spells.dropTrailing_append` — a comma that no item follows is not part of the grammar.
* `Spells.append_ne_replicate` — nothing in the grammar opens as many arrays as the depth allows.
-/

set_option autoImplicit false

namespace CommentTags.Json

/-- What a sequence of tokens can mean. -/
inductive Meaning
  | value (v : Json)
  /-- The rest of an array with its closing bracket; `first` before the first item. -/
  | items (first : Bool) (vs : List Json)
  /-- The rest of an object with its closing brace; `first` before the first field. -/
  | fields (first : Bool) (fs : List (String × Json))

/-- The words with a meaning of their own. -/
def literals : List (List Char × Json) :=
  [("null".toList, .null), ("true".toList, .bool true), ("false".toList, .bool false)]

theorem wordChars_of_mem_literals :
    ∀ l ∈ literals, l.1 ≠ [] ∧ ∀ c ∈ l.1, isWordChar c = true := by
  simp [literals, isWordChar, wordRanges, Text.inRanges, Text.CodeRange.contains]

/-- What stands before an item or a field. -/
def separator (first : Bool) : List Token := if first then [] else [.mark .comma]

/-- The grammar of JSON. -/
inductive Spells : Nat → Meaning → List Token → Prop
  | literal {depth : Nat} {letters : List Char} {v : Json} {nonempty : letters ≠ []}
      {wordChars : ∀ c ∈ letters, isWordChar c = true} :
      (letters, v) ∈ literals →
      Spells (depth + 1) (.value v) [.word letters nonempty wordChars]
  | number {depth : Nat} {letters : List Char} {x : JsonNumber} {nonempty : letters ≠ []}
      {wordChars : ∀ c ∈ letters, isWordChar c = true} :
      NumberText letters x →
      Spells (depth + 1) (.value (.number x)) [.word letters nonempty wordChars]
  | string {depth : Nat} {body x : List Char} {closed : Closed body} :
      Quoted body x →
      Spells (depth + 1) (.value (.string (String.ofList x))) [.string body closed]
  | array {depth : Nat} {vs : List Json} {ts : List Token} :
      Spells (depth + 1) (.items true vs) ts →
      Spells (depth + 2) (.value (.array vs)) (.mark .beginArray :: ts)
  | object {depth : Nat} {fs : List (String × Json)} {ts : List Token} :
      Spells (depth + 1) (.fields true fs) ts →
      Spells (depth + 2) (.value (.object fs)) (.mark .beginObject :: ts)
  | endItems {depth : Nat} {first : Bool} : Spells depth (.items first []) [.mark .endArray]
  | item {depth : Nat} {first : Bool} {v : Json} {vs : List Json} {ts us : List Token} :
      Spells depth (.value v) ts → Spells depth (.items false vs) us →
      Spells depth (.items first (v :: vs)) (separator first ++ (ts ++ us))
  | endFields {depth : Nat} {first : Bool} : Spells depth (.fields first []) [.mark .endObject]
  | field {depth : Nat} {first : Bool} {body x : List Char} {closed : Closed body} {v : Json}
      {fs : List (String × Json)} {ts us : List Token} :
      Quoted body x → Spells depth (.value v) ts → Spells depth (.fields false fs) us →
      Spells depth (.fields first ((String.ofList x, v) :: fs))
        (separator first ++ .string body closed :: .mark .colon :: (ts ++ us))

/-- What a value is spelled with begins with a token that ends nothing. -/
theorem Spells.exists_cons {depth : Nat} {v : Json} {ts : List Token}
    (h : Spells depth (.value v) ts) : ∃ t us, ts = t :: us ∧ t.closes = false := by
  cases h <;> exact ⟨_, _, rfl, rfl⟩

/-! ## Commas before the end -/

/-- Whether an array or an object ends next. -/
def endsNext (ts : List Token) : Bool := ts.head?.any Token.closes

@[simp] theorem endsNext_cons (t : Token) (ts : List Token) : endsNext (t :: ts) = t.closes := rfl

/-- Leave out the commas before the end of an array or an object. -/
def dropTrailing : List Token → List Token
  | [] => []
  | t :: ts => if t.isComma && endsNext ts then dropTrailing ts else t :: dropTrailing ts

theorem dropTrailing_cons {t : Token} {ts : List Token} (h : t.isComma = false) :
    dropTrailing (t :: ts) = t :: dropTrailing ts := by
  simp [dropTrailing, h]

theorem dropTrailing_replicate_append {t : Token} (h : t.isComma = false) (n : Nat)
    (ts : List Token) :
    dropTrailing (List.replicate n t ++ ts) = List.replicate n t ++ dropTrailing ts := by
  induction n with
  | zero => rfl
  | succ n ih =>
    rw [List.replicate_succ, List.cons_append, dropTrailing_cons h, ih, List.cons_append]

theorem dropTrailing_separator_append {first : Bool} {ts : List Token} (h : endsNext ts = false) :
    dropTrailing (separator first ++ ts) = separator first ++ dropTrailing ts := by
  cases first
  · simp [separator, dropTrailing, h]
  · rfl

/-- **The grammar has no comma before the end of an array or an object.** -/
theorem Spells.dropTrailing_append {depth : Nat} {m : Meaning} {ts : List Token}
    (h : Spells depth m ts) (us : List Token) :
    dropTrailing (ts ++ us) = ts ++ dropTrailing us := by
  induction h generalizing us with
  | literal _ => exact dropTrailing_cons rfl
  | number _ => exact dropTrailing_cons rfl
  | string _ => exact dropTrailing_cons rfl
  | endItems => exact dropTrailing_cons rfl
  | endFields => exact dropTrailing_cons rfl
  | array _ ih => rw [List.cons_append, dropTrailing_cons rfl, ih, List.cons_append]
  | object _ ih => rw [List.cons_append, dropTrailing_cons rfl, ih, List.cons_append]
  | item hv _ ihv ihs =>
    obtain ⟨t, ts, rfl, ht⟩ := hv.exists_cons
    rw [List.append_assoc, dropTrailing_separator_append (by simpa using ht), List.append_assoc,
      ihv, ihs, List.append_assoc, List.append_assoc]
  | field _ _ _ ihv ihs =>
    rw [List.append_assoc, dropTrailing_separator_append rfl, List.cons_append, List.cons_append,
      dropTrailing_cons rfl, dropTrailing_cons rfl, List.append_assoc, ihv, ihs]
    simp

theorem Spells.dropTrailing_eq {depth : Nat} {m : Meaning} {ts : List Token}
    (h : Spells depth m ts) : dropTrailing ts = ts := by
  simpa [dropTrailing] using h.dropTrailing_append []

/-! ## Nesting -/

/-- **Nothing that the grammar has begins with as many opening brackets as the depth allows.** -/
theorem Spells.append_ne_replicate {depth : Nat} {v : Json} {ts : List Token}
    (h : Spells depth (.value v) ts) (us r : List Token) :
    ts ++ us ≠ List.replicate depth (.mark .beginArray) ++ r := by
  induction depth generalizing v ts us r with
  | zero => cases h
  | succ depth ih =>
    intro heq
    rw [List.replicate_succ, List.cons_append] at heq
    cases h with
    | literal _ => exact absurd (List.cons.inj heq).1 (by simp)
    | number _ => exact absurd (List.cons.inj heq).1 (by simp)
    | string _ => exact absurd (List.cons.inj heq).1 (by simp)
    | object _ => exact absurd (List.cons.inj heq).1 (by simp)
    | array h =>
      have htail := (List.cons.inj heq).2
      cases h with
      | endItems =>
        rw [List.replicate_succ] at htail
        exact absurd (List.cons.inj htail).1 (by simp)
      | @item _ _ v vs ts' us' hv _ =>
        exact ih hv (us' ++ us) r ((List.append_assoc ..).symm.trans htail)

end CommentTags.Json
