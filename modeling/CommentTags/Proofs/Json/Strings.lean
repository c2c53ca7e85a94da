import CommentTags.Json.Printer
import CommentTags.Proofs.Json.Tokens

/-!
# Strings of a JSON text

What a string means is given by a grammar of its characters and escapes.  The reader of strings
agrees with it in both directions, and the text that is written for a string means that string.

* `bind_eq_ok_iff`, `map_eq_ok_iff` — readers that succeed, taken apart.
* `Input.Passes` — the text that lies between two states of the input.
* `Hex`, `Escape`, `Quoted` — the grammar: four hexadecimal digits, an escape without its backslash,
  and what stands between quotes.
* `unicodeEscape_eq_ok_iff` — escapes with a number.  A character outside the first 65536 is written
  as two of them, so this is the one place where the reader looks at more than one escape at a time.
* `stringBody_eq_ok_iff` — the reader of strings reads a text exactly as the grammar has it.
* `quoted_flatMap_printChar` — the text that is written for a string stands for that string.
-/

set_option autoImplicit false

namespace CommentTags.Json

/-! ## Readers that succeed -/

theorem bind_eq_ok_iff {ε α β : Type} {r : Except ε α} {f : α → Except ε β} {b : β} :
    r >>= f = .ok b ↔ ∃ a, r = .ok a ∧ f a = .ok b := by
  cases r <;> simp [bind, Except.bind]

/-- The value of a result, changed, with the input that is left. -/
theorem map_eq_ok_iff {ε α β γ : Type} {r : Except ε (α × γ)} {f : α → β} {b : β} {k : γ} :
    (r.map fun (a, k) => (f a, k)) = .ok (b, k) ↔ ∃ a, r = .ok (a, k) ∧ f a = b := by
  constructor
  · intro h
    cases r with
    | error e => exact absurd h (by simp [Except.map])
    | ok pair =>
      obtain ⟨rfl, rfl⟩ := (Prod.mk.injEq ..).mp (Except.ok.inj h)
      exact ⟨pair.1, rfl, rfl⟩
  · rintro ⟨a, rfl, rfl⟩
    rfl

theorem ok_pair_inj {ε α γ : Type} {a b : α} {j k : γ}
    (h : (.ok (a, j) : Except ε (α × γ)) = .ok (b, k)) : a = b ∧ j = k := by
  simpa using h

/-! ## Passing a text -/

theorem Input.skip_eq {i : Input} {c : Char} {r : List Char} (h : i.rest = c :: r) :
    i.skip = ⟨r, i.place.after c⟩ := by
  obtain ⟨rest, place⟩ := i
  subst h
  rfl

/-- The given text is what lies between two states of the input. -/
structure Input.Passes (s : List Char) (i j : Input) : Prop where
  rest : i.rest = s ++ j.rest
  place : j.place = placeAtEnd s i.place

namespace Input.Passes

variable {s r : List Char} {i j k : Input}

theorem append (h : Passes s i j) (h' : Passes r j k) : Passes (s ++ r) i k where
  rest := by rw [h.rest, h'.rest, List.append_assoc]
  place := by rw [h'.place, h.place, placeAtEnd, placeAtEnd, placeAtEnd, List.foldl_append]

theorem skip {c : Char} (h : i.rest = c :: r) : Passes [c] i i.skip := by
  rw [Input.skip_eq h]
  exact ⟨h, rfl⟩

/-- A text can be passed if the input starts with it. -/
theorem exists_of_rest (h : i.rest = s ++ r) : ∃ j, Passes s i j ∧ j.rest = r :=
  ⟨⟨r, placeAtEnd s i.place⟩, ⟨h, rfl⟩, rfl⟩

theorem unique (h : Passes s i j) (h' : Passes s i k) : j = k := by
  obtain ⟨rest, place⟩ := j
  obtain ⟨rest', place'⟩ := k
  have hrest : rest = rest' := List.append_cancel_left (h.rest.symm.trans h'.rest)
  have hplace : place = place' := h.place.trans h'.place.symm
  rw [hrest, hplace]

theorem of_append (h : Passes (s ++ r) i k) : ∃ j, Passes s i j ∧ Passes r j k := by
  obtain ⟨j, hj, hrest⟩ := exists_of_rest (h.rest.trans (List.append_assoc ..))
  refine ⟨j, hj, hrest, ?_⟩
  rw [h.place, hj.place, placeAtEnd, placeAtEnd, placeAtEnd, List.foldl_append]

theorem of_cons {c : Char} (h : Passes (c :: r) i k) :
    i.rest = c :: i.skip.rest ∧ Passes r i.skip k := by
  obtain ⟨j, hj, hr⟩ := of_append (s := [c]) h
  obtain rfl := hj.unique (skip hj.rest)
  exact ⟨hj.rest, hr⟩

theorem length_lt (h : Passes s i j) (hs : s ≠ []) : j.rest.length < i.rest.length := by
  rw [h.rest, List.length_append]
  have := List.length_pos_iff.mpr hs
  omega

end Input.Passes

/-! ## The grammar of strings -/

/-- The letters of the escapes for one character, with what they stand for. -/
def simpleEscapes : List (Char × Char) :=
  [('"', '"'), ('\\', '\\'), ('/', '/'), ('b', '\x08'), ('f', '\x0C'), ('n', '\n'), ('r', '\r'),
    ('t', '\t')]

/-- Four hexadecimal digits for a number. -/
def Hex (digits : List Char) (n : Nat) : Prop :=
  digits.length = 4 ∧ Text.number? 16 digits = some n

/-- What an escape stands for, written without its backslash. -/
inductive Escape : List Char → Char → Prop
  | simple {e a : Char} : (e, a) ∈ simpleEscapes → Escape [e] a
  | code {digits : List Char} {n : Nat} :
      Hex digits n → n < 0xD800 ∨ 0xDFFF < n → Escape ('u' :: digits) (Char.ofNat n)
  /-- A character that needs two numbers of 16 bits. -/
  | pair {digits digits' : List Char} {high low : Nat} :
      Hex digits high → 0xD800 ≤ high → high ≤ 0xDBFF →
      Hex digits' low → 0xDC00 ≤ low → low ≤ 0xDFFF →
      Escape ('u' :: (digits ++ '\\' :: 'u' :: digits'))
        (Char.ofNat ((high - 0xD800) * 0x400 + (low - 0xDC00) + 0x10000))

/-- What a text between quotes stands for. -/
inductive Quoted : List Char → List Char → Prop
  | nil : Quoted [] []
  | char {c : Char} {s x : List Char} :
      c ≠ '"' → c ≠ '\\' → 0x20 ≤ c.toNat → Quoted s x → Quoted (c :: s) (c :: x)
  | escape {e s x : List Char} {a : Char} :
      Escape e a → Quoted s x → Quoted ('\\' :: (e ++ s)) (a :: x)

/-! ## Strings end where they are closed -/

theorem ne_quote_of_digitValue? {c : Char} (h : (Text.digitValue? 16 c).isSome) :
    c ≠ '"' ∧ c ≠ '\\' := by
  constructor <;> rintro rfl <;> exact absurd h (by decide)

/-- Every character of a number is a digit. -/
theorem isSome_digitValue?_of_number? {base n : Nat} {digits : List Char}
    (h : Text.number? base digits = some n) :
    ∀ c ∈ digits, (Text.digitValue? base c).isSome := by
  suffices hfold : ∀ (start : Option Nat), (digits.foldl
      (fun n c => n.bind fun n => (Text.digitValue? base c).map (base * n + ·)) start).isSome →
      start.isSome ∧ ∀ c ∈ digits, (Text.digitValue? base c).isSome by
    exact (hfold (some 0) (Option.isSome_of_eq_some h)).2
  clear h
  induction digits with
  | nil => intro start h; simpa using h
  | cons c digits ih =>
    intro start h
    obtain ⟨hstart, hdigits⟩ := ih _ h
    cases start with
    | none => exact absurd hstart (by simp)
    | some m =>
      simp only [Option.bind_some, Option.isSome_map] at hstart
      exact ⟨rfl, by simpa [hstart] using hdigits⟩

theorem Hex.closed_append {digits s : List Char} {n : Nat} (h : Hex digits n) (hs : Closed s) :
    Closed (digits ++ s) := by
  have hdigits := isSome_digitValue?_of_number? h.2
  clear h
  induction digits with
  | nil => exact hs
  | cons c digits ih =>
    obtain ⟨hquote, hslash⟩ := ne_quote_of_digitValue? (hdigits c List.mem_cons_self)
    exact .char hquote hslash (ih fun a ha => hdigits a (List.mem_cons_of_mem c ha))

theorem Escape.closed_append {e s : List Char} {a : Char} (h : Escape e a) (hs : Closed s) :
    Closed ('\\' :: (e ++ s)) := by
  cases h with
  | simple _ => exact .escape hs
  | code hdigits hn => exact .escape (hdigits.closed_append hs)
  | pair hdigits _ _ hdigits' _ _ =>
    simp only [List.cons_append, List.append_assoc]
    exact .escape (hdigits.closed_append (.escape (hdigits'.closed_append hs)))

theorem Quoted.closed {s x : List Char} (h : Quoted s x) : Closed s := by
  induction h with
  | nil => exact .nil
  | char hquote hslash _ _ ih => exact .char hquote hslash ih
  | escape he _ ih => exact he.closed_append ih

/-! ## Reading escapes -/

theorem hexEscape_eq_ok_iff {i j : Input} {n : Nat} :
    hexEscape i = .ok (n, j) ↔ ∃ digits, Hex digits n ∧ i.Passes digits j := by
  have hpasses : ∀ {a b c d : Char} {r : List Char}, i.rest = a :: b :: c :: d :: r →
      i.Passes [a, b, c, d] i.skip.skip.skip.skip := by
    intro a b c d r h
    obtain ⟨rest, place⟩ := i
    subst h
    exact ⟨rfl, rfl⟩
  constructor
  · intro h
    unfold hexEscape at h
    dsimp only at h
    split at h
    · rename_i m hm
      obtain ⟨rfl, rfl⟩ : m = n ∧ i.skip.skip.skip.skip = j := by simpa using h
      split at hm
      · rename_i a b c d r hrest
        exact ⟨[a, b, c, d], ⟨rfl, hm⟩, hpasses hrest⟩
      · exact absurd hm (by simp)
    · split at h <;> exact absurd h (by simp)
  · rintro ⟨digits, ⟨hlength, hn⟩, hp⟩
    match digits, hlength with
    | [a, b, c, d], _ =>
      have hrest : i.rest = a :: b :: c :: d :: j.rest := hp.rest
      rw [hp.unique (hpasses hrest)]
      simp [hexEscape, hrest, hn]

theorem surrogateMark_eq_ok_iff {c : Char} {i j : Input} :
    surrogateMark c i = .ok j ↔ i.Passes [c] j := by
  unfold surrogateMark
  split
  · rename_i hrest
    simp only [Input.fail, reduceCtorEq, false_iff]
    exact fun hp => absurd (hrest.symm.trans hp.rest) (by simp)
  · rename_i a r hrest
    constructor
    · intro h
      split at h
      · rename_i hac
        obtain rfl : i.skip = j := by simpa using h
        exact .skip (hac ▸ hrest)
      · exact absurd h (by simp [Input.failNext])
    · intro hp
      obtain rfl : a = c := (List.cons.inj (hrest.symm.trans hp.rest)).1
      rw [if_pos rfl, hp.unique (.skip hrest)]

/-- What the reader of numbers in escapes has read is an escape. -/
theorem exists_escape_of_unicodeEscape {i j : Input} {a : Char}
    (h : unicodeEscape i = .ok (a, j)) : ∃ e, Escape ('u' :: e) a ∧ i.Passes e j := by
  unfold unicodeEscape at h
  obtain ⟨⟨high, i₁⟩, hhigh, h⟩ := bind_eq_ok_iff.mp h
  obtain ⟨digits, hdigits, hp⟩ := hexEscape_eq_ok_iff.mp hhigh
  dsimp only at h
  split at h
  · exact absurd h (by simp [Input.fail])
  · rename_i hlone
    split at h
    · rename_i hcode
      obtain ⟨rfl, rfl⟩ : Char.ofNat high = a ∧ i₁ = j := by simpa [pure, Except.pure] using h
      simp only [Bool.and_eq_true, Bool.or_eq_true, decide_eq_true_eq] at hlone hcode
      exact ⟨digits, .code hdigits (by omega), hp⟩
    · rename_i hcode
      obtain ⟨i₂, hslash, h⟩ := bind_eq_ok_iff.mp h
      obtain ⟨i₃, hu, h⟩ := bind_eq_ok_iff.mp h
      obtain ⟨⟨low, i₄⟩, hlow, h⟩ := bind_eq_ok_iff.mp h
      obtain ⟨digits', hdigits', hp'⟩ := hexEscape_eq_ok_iff.mp hlow
      dsimp only at h
      split at h
      · exact absurd h (by simp [Input.fail])
      · rename_i hpair
        obtain ⟨rfl, rfl⟩ := ok_pair_inj h
        simp only [Bool.or_eq_true, decide_eq_true_eq] at hcode hpair
        refine ⟨_, .pair hdigits (by omega) (by omega) hdigits' (by omega) (by omega), ?_⟩
        exact hp.append ((surrogateMark_eq_ok_iff.mp hslash).append
          ((surrogateMark_eq_ok_iff.mp hu).append hp'))

/-- A number that stands for a character is read. -/
theorem unicodeEscape_code {i j : Input} {digits : List Char} {n : Nat} (hdigits : Hex digits n)
    (hn : n < 0xD800 ∨ 0xDFFF < n) (hp : i.Passes digits j) :
    unicodeEscape i = .ok (Char.ofNat n, j) := by
  have hlone : (decide (0xDC00 ≤ n) && decide (n ≤ 0xDFFF)) = false := by
    simp only [Bool.and_eq_false_iff, decide_eq_false_iff_not]
    omega
  have hcode : (decide (n < 0xD800) || decide (0xDBFF < n)) = true := by
    simp only [Bool.or_eq_true, decide_eq_true_eq]
    omega
  refine bind_eq_ok_iff.mpr ⟨_, hexEscape_eq_ok_iff.mpr ⟨_, hdigits, hp⟩, ?_⟩
  simp [hlone, hcode, pure, Except.pure]

/-- Two numbers that stand for a character are read. -/
theorem unicodeEscape_pair {i j : Input} {digits digits' : List Char} {high low : Nat}
    (hdigits : Hex digits high) (hhigh : 0xD800 ≤ high) (hhigh' : high ≤ 0xDBFF)
    (hdigits' : Hex digits' low) (hlow : 0xDC00 ≤ low) (hlow' : low ≤ 0xDFFF)
    (hp : i.Passes (digits ++ '\\' :: 'u' :: digits') j) :
    unicodeEscape i =
      .ok (Char.ofNat ((high - 0xD800) * 0x400 + (low - 0xDC00) + 0x10000), j) := by
  obtain ⟨i₁, hp₁, hp⟩ := hp.of_append
  obtain ⟨i₂, hp₂, hp⟩ := Input.Passes.of_append (s := ['\\']) hp
  obtain ⟨i₃, hp₃, hp⟩ := Input.Passes.of_append (s := ['u']) hp
  have hlone : (decide (0xDC00 ≤ high) && decide (high ≤ 0xDFFF)) = false := by
    simp only [Bool.and_eq_false_iff, decide_eq_false_iff_not]
    omega
  have hcode : (decide (high < 0xD800) || decide (0xDBFF < high)) = false := by
    simp only [Bool.or_eq_false_iff, decide_eq_false_iff_not]
    omega
  have hpair : (decide (low < 0xDC00) || decide (0xDFFF < low)) = false := by
    simp only [Bool.or_eq_false_iff, decide_eq_false_iff_not]
    omega
  refine bind_eq_ok_iff.mpr ⟨_, hexEscape_eq_ok_iff.mpr ⟨_, hdigits, hp₁⟩, ?_⟩
  simp only [hlone, hcode, Bool.false_eq_true, if_false]
  refine bind_eq_ok_iff.mpr ⟨_, surrogateMark_eq_ok_iff.mpr hp₂, ?_⟩
  refine bind_eq_ok_iff.mpr ⟨_, surrogateMark_eq_ok_iff.mpr hp₃, ?_⟩
  refine bind_eq_ok_iff.mpr ⟨_, hexEscape_eq_ok_iff.mpr ⟨_, hdigits', hp⟩, ?_⟩
  simp [hpair, pure, Except.pure]

theorem unicodeEscape_eq_ok_iff {i j : Input} {a : Char} :
    unicodeEscape i = .ok (a, j) ↔ ∃ e, Escape ('u' :: e) a ∧ i.Passes e j := by
  refine ⟨exists_escape_of_unicodeEscape, ?_⟩
  rintro ⟨e, he, hp⟩
  cases he with
  | simple h => exact absurd h (by simp [simpleEscapes])
  | code hdigits hn => exact unicodeEscape_code hdigits hn hp
  | pair hdigits hhigh hhigh' hdigits' hlow hlow' =>
    exact unicodeEscape_pair hdigits hhigh hhigh' hdigits' hlow hlow' hp

theorem escapedChar_eq_ok_iff {i j : Input} {a : Char} :
    escapedChar i = .ok (a, j) ↔ ∃ e, Escape e a ∧ i.Passes e j := by
  have hsimple : ∀ {e b : Char} {r : List Char}, (e, b) ∈ simpleEscapes → i.rest = e :: r →
      .ok (b, i.skip) = (.ok (a, j) : Except Error (Char × Input)) →
      ∃ e, Escape e a ∧ i.Passes e j := by
    intro e b r he hrest h
    obtain ⟨rfl, rfl⟩ := ok_pair_inj h
    exact ⟨[e], .simple he, .skip hrest⟩
  constructor
  · intro h
    unfold escapedChar at h
    split at h
    · exact absurd h (by simp [Input.fail])
    case h_10 r hrest =>
      obtain ⟨e, he, hp⟩ := unicodeEscape_eq_ok_iff.mp h
      exact ⟨_, he, Input.Passes.append (.skip hrest) hp⟩
    case h_11 => exact absurd h (by simp [Input.failNext])
    all_goals
      refine hsimple ?_ (by assumption) h
      simp [simpleEscapes]
  · rintro ⟨e, he, hp⟩
    cases he with
    | simple he =>
      have hrest := hp.rest
      rw [hp.unique (.skip hrest)]
      simp only [simpleEscapes, List.mem_cons, List.not_mem_nil, or_false, Prod.mk.injEq] at he
      rcases he with ⟨rfl, rfl⟩ | ⟨rfl, rfl⟩ | ⟨rfl, rfl⟩ | ⟨rfl, rfl⟩ | ⟨rfl, rfl⟩ | ⟨rfl, rfl⟩ |
        ⟨rfl, rfl⟩ | ⟨rfl, rfl⟩ <;> simp [escapedChar, hrest]
    | code hdigits hn =>
      obtain ⟨hrest, hp⟩ := hp.of_cons
      simp only [escapedChar, hrest]
      exact unicodeEscape_eq_ok_iff.mpr ⟨_, .code hdigits hn, hp⟩
    | pair hdigits hhigh hhigh' hdigits' hlow hlow' =>
      obtain ⟨hrest, hp⟩ := hp.of_cons
      simp only [escapedChar, hrest]
      exact unicodeEscape_eq_ok_iff.mpr ⟨_, .pair hdigits hhigh hhigh' hdigits' hlow hlow', hp⟩

/-! ## Reading strings -/

theorem stringBody_cons {i : Input} {c : Char} {r : List Char} (h : i.rest = c :: r) :
    stringBody i =
      if c = '"' then .ok ([], i.skip)
      else if c = '\\' then
        match escapedChar i.skip with
        | .error e => .error e
        | .ok (a, j) =>
          if j.rest.length < i.rest.length then (stringBody j).map fun (s, k) => (a :: s, k)
          else j.fail .endInString
      else if c.toNat < 0x20 then i.failNext .controlCharacter
      else (stringBody i.skip).map fun (s, k) => (c :: s, k) := by
  obtain ⟨rest, place⟩ := i
  subst h
  rw [stringBody]
  rfl

/-- What the reader of strings has read stands for the string. -/
theorem exists_quoted_of_stringBody {i j : Input} {x : List Char}
    (h : stringBody i = .ok (x, j)) : ∃ body, Quoted body x ∧ i.Passes (body ++ ['"']) j := by
  fun_induction stringBody i generalizing x j with
  | case1 i hrest => exact absurd h (by simp [Input.fail])
  | case2 i r hrest =>
    obtain ⟨rfl, rfl⟩ := ok_pair_inj h
    exact ⟨[], .nil, .skip hrest⟩
  | case3 => exact absurd h (by simp)
  | case4 i r a j' hlt hrest hne hescape ih =>
    obtain ⟨y, hread, rfl⟩ := map_eq_ok_iff.mp h
    obtain ⟨e, he, hpe⟩ := escapedChar_eq_ok_iff.mp hescape
    obtain ⟨body, hbody, hp⟩ := ih hread
    refine ⟨_, .escape he hbody, ?_⟩
    rw [← Input.skip_eq hrest] at hpe
    simpa using Input.Passes.append (.skip hrest) (hpe.append hp)
  | case5 i r a j' hlt hrest hne hescape => exact absurd h (by simp [Input.fail])
  | case6 i c r hrest hquote hslash hcontrol => exact absurd h (by simp [Input.failNext])
  | case7 i c r hrest hquote hslash hcontrol ih =>
    obtain ⟨y, hread, rfl⟩ := map_eq_ok_iff.mp h
    obtain ⟨body, hbody, hp⟩ := ih hread
    refine ⟨_, .char hquote hslash (by omega) hbody, ?_⟩
    rw [← Input.skip_eq hrest] at hp
    simpa using Input.Passes.append (.skip hrest) hp

/-- What stands for a string is read as it. -/
theorem Quoted.stringBody_eq {i j : Input} {body x : List Char} (hbody : Quoted body x)
    (hp : i.Passes (body ++ ['"']) j) : stringBody i = .ok (x, j) := by
  induction hbody generalizing i with
  | nil =>
    have hrest : i.rest = '"' :: j.rest := hp.rest
    rw [stringBody_cons hrest, if_pos rfl, hp.unique (.skip hrest)]
  | char hquote hslash hcontrol _ ih =>
    rw [List.cons_append] at hp
    obtain ⟨hrest, hp'⟩ := hp.of_cons
    rw [stringBody_cons hrest, if_neg hquote, if_neg hslash, if_neg (by omega), ih hp']
    rfl
  | escape he _ ih =>
    rw [List.cons_append, List.append_assoc] at hp
    obtain ⟨hrest, hp'⟩ := hp.of_cons
    obtain ⟨k, hpe, hpk⟩ := hp'.of_append
    have hlt : k.rest.length < i.rest.length :=
      (Input.Passes.append (.skip hrest) hpe).length_lt (by simp)
    rw [stringBody_cons hrest, if_neg (by decide), if_pos rfl,
      escapedChar_eq_ok_iff.mpr ⟨_, he, hpe⟩]
    simp only [if_pos hlt, ih hpk]
    rfl

/-- **The reader of strings reads a text exactly as the grammar has it.** -/
theorem stringBody_eq_ok_iff {i j : Input} {x : List Char} :
    stringBody i = .ok (x, j) ↔ ∃ body, Quoted body x ∧ i.Passes (body ++ ['"']) j := by
  refine ⟨exists_quoted_of_stringBody, ?_⟩
  rintro ⟨body, hbody, hp⟩
  exact hbody.stringBody_eq hp

/-! ## Writing strings -/

theorem number?_hexDigit : ∀ n < 0x20,
    Text.number? 16 ['0', '0', hexDigit (n / 16), hexDigit (n % 16)] = some n := by
  decide

/-- A character is written as itself or as an escape. -/
theorem Quoted.printChar_append (c : Char) {s x : List Char} (h : Quoted s x) :
    Quoted (printChar c ++ s) (c :: x) := by
  have hsimple : ∀ {e a : Char}, (e, a) ∈ simpleEscapes → Quoted (['\\', e] ++ s) (a :: x) :=
    fun he => Quoted.escape (.simple he) h
  unfold printChar
  split_ifs with h₁ h₂ h₃ h₄ h₅ h₆ h₇ hcontrol
  any_goals
    subst c
    exact hsimple (by simp [simpleEscapes])
  · have hcode := Escape.code (n := c.toNat) ⟨rfl, number?_hexDigit c.toNat hcontrol⟩
      (.inl (by omega))
    rw [Char.ofNat_toNat] at hcode
    exact Quoted.escape hcode h
  · exact .char h₁ h₂ (by omega) h

/-- **The text that is written for a string stands for that string.** -/
theorem quoted_flatMap_printChar (x : List Char) : Quoted (x.flatMap printChar) x := by
  induction x with
  | nil => exact .nil
  | cons c x ih => exact ih.printChar_append c

end CommentTags.Json
