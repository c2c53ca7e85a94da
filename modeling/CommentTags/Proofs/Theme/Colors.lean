import CommentTags.Proofs.Json.Strings
import CommentTags.Proofs.Text.Boundaries
import CommentTags.Proofs.Text.Trimming
import CommentTags.Theme.Color

/-!
# How colours are spelled

A colour is spelled with three, six or eight hexadecimal digits: one digit, doubled, or two for each
of red, green and blue, and two for how opaque it is.  Number signs may stand before the digits, and
white space around them all.

Every such spelling is read as the colour that it says.  A number may have a sign, though, so a plus
sign is read in place of the first digit of a pair as well, and nothing else is read.

* `Color.HexDigit`, `Color.HexPair`, `Color.SignedPair` — digits and pairs with their values.
* `Color.Says` — what digits say, for either kind of pairs.
* `Color.Spelled`, `Color.SpelledWithPlus` — the spellings, and what is read besides.
* `Color.StandsFrom` — what stands in the text from a byte offset on; channels are read by offsets.
* `Color.parse_eq_ok_iff_spelled` — a colour is read from these texts and from nothing else.
* `Color.parse_spelled` — so it is read from its spellings, unless there are plus signs.
-/

set_option autoImplicit false

namespace CommentTags

open Text

namespace Color

/-! ## Spellings -/

/-- The hexadecimal digits in order, once with small and once with capital letters. -/
def digitTables : List (List Char) :=
  ["0123456789abcdef".toList, "0123456789ABCDEF".toList]

/-- A hexadecimal digit and its value. -/
def HexDigit (a : Char) (n : Nat) : Prop :=
  ∃ table ∈ digitTables, table[n]? = some a

instance (a : Char) (n : Nat) : Decidable (HexDigit a n) :=
  inferInstanceAs (Decidable (∃ table ∈ digitTables, table[n]? = some a))

/-- Two hexadecimal digits and their value. -/
def HexPair (a b : Char) (n : Nat) : Prop :=
  ∃ x y, HexDigit a x ∧ HexDigit b y ∧ n = 16 * x + y

/-- Two hexadecimal digits, or a plus sign and one digit, and their value. -/
def SignedPair (a b : Char) (n : Nat) : Prop :=
  HexPair a b n ∨ a = '+' ∧ HexDigit b n

/-- The characters say the colour, when `Pair a b n` means that the characters `a` and `b` say the
value `n` of a channel. -/
inductive Says (Pair : Char → Char → Nat → Prop) : List Char → Color → Prop
  /-- Each digit counts twice. -/
  | short {a b c : Char} {red green blue : Nat} :
      Pair a a red → Pair b b green → Pair c c blue → Says Pair [a, b, c] ⟨red, green, blue, 255⟩
  | long {a a' b b' c c' : Char} {red green blue : Nat} :
      Pair a a' red → Pair b b' green → Pair c c' blue →
      Says Pair [a, a', b, b', c, c'] ⟨red, green, blue, 255⟩
  | withAlpha {a a' b b' c c' d d' : Char} {red green blue alpha : Nat} :
      Pair a a' red → Pair b b' green → Pair c c' blue → Pair d d' alpha →
      Says Pair [a, a', b, b', c, c', d, d'] ⟨red, green, blue, alpha⟩

/-- The text consists of the digits, of number signs before them and of white space around. -/
def Around (text digits : List Char) : Prop :=
  ∃ lead signs trail : List Char, text = lead ++ (signs ++ digits ++ trail) ∧
    (∀ a ∈ lead, isWhite a = true) ∧ (∀ a ∈ signs, a = '#') ∧ ∀ a ∈ trail, isWhite a = true

/-- The text is a spelling of the colour. -/
def Spelled (text : String) (c : Color) : Prop :=
  ∃ digits, Around text.toList digits ∧ Says HexPair digits c

/-- The text is a spelling of the colour, but for plus signs in place of the first digits of
channels. -/
def SpelledWithPlus (text : String) (c : Color) : Prop :=
  ∃ digits, Around text.toList digits ∧ '+' ∈ digits ∧ Says SignedPair digits c

/-! ## Digits -/

theorem digitValue?_of_hexDigit {a : Char} {n : Nat} (h : HexDigit a n) :
    digitValue? 16 a = some n := by
  have htables : ∀ table ∈ digitTables, ∀ n (_ : n < table.length),
      digitValue? 16 table[n] = some n := by decide
  obtain ⟨table, htable, hn⟩ := h
  obtain ⟨hlt, rfl⟩ := List.getElem?_eq_some_iff.1 hn
  exact htables table htable n hlt

theorem hexDigit_of_digitValue? {a : Char} {n : Nat} (h : digitValue? 16 a = some n) :
    HexDigit a n := by
  have hascii : ∀ k < 0x67, ∀ n ∈ digitValue? 16 (Char.ofNat k), HexDigit (Char.ofNat k) n := by
    decide
  -- no letter after `f` is a digit
  have ha : a.toNat < 0x67 := by
    have hle : ∀ last : Char, a ≤ last → a.toNat ≤ last.toNat := fun _ hlast => hlast
    obtain ⟨hvalue, -⟩ := Option.filter_eq_some_iff.1 h
    simp only [Bool.and_eq_true, decide_eq_true_eq] at hvalue
    split_ifs at hvalue with h0 h1 h2
    · exact Nat.lt_of_le_of_lt (hle _ h0.2) (by decide)
    · exact Nat.lt_of_le_of_lt (hle _ h1.2) (by decide)
    · exact Nat.lt_of_le_of_lt (hle _ h2.2) (by decide)
  have hdigit := hascii a.toNat ha
  rw [Char.ofNat_toNat] at hdigit
  exact hdigit n h

theorem digitValue?_eq_some_iff {a : Char} {n : Nat} : digitValue? 16 a = some n ↔ HexDigit a n :=
  ⟨hexDigit_of_digitValue?, digitValue?_of_hexDigit⟩

/-- A digit is one byte, and neither white space nor one of the signs. -/
theorem HexDigit.plain {a : Char} {n : Nat} (h : HexDigit a n) :
    a.utf8Size = 1 ∧ isWhite a = false ∧ a ≠ '#' ∧ a ≠ '+' := by
  have htables : ∀ table ∈ digitTables, ∀ n (_ : n < table.length),
      table[n].utf8Size = 1 ∧ isWhite table[n] = false ∧ table[n] ≠ '#' ∧ table[n] ≠ '+' := by
    decide
  obtain ⟨table, htable, hn⟩ := h
  obtain ⟨hlt, rfl⟩ := List.getElem?_eq_some_iff.1 hn
  exact htables table htable n hlt

theorem number?_pair {a b : Char} {n : Nat} : number? 16 [a, b] = some n ↔ HexPair a b n := by
  simp only [number?, List.foldl_cons, List.foldl_nil, Option.bind_some, Option.bind_eq_some_iff,
    Option.map_eq_some_iff, digitValue?_eq_some_iff]
  constructor
  · rintro ⟨_, ⟨x, hx, rfl⟩, y, hy, rfl⟩
    exact ⟨x, y, hx, hy, by omega⟩
  · rintro ⟨x, y, hx, hy, rfl⟩
    exact ⟨_, ⟨x, hx, rfl⟩, y, hy, by omega⟩

/-! ## Channels -/

theorem SignedPair.plain {a b : Char} {n : Nat} (h : SignedPair a b n) :
    ∀ c ∈ [a, b], c.utf8Size = 1 ∧ isWhite c = false ∧ c ≠ '#' := by
  rw [List.forall_mem_cons, List.forall_mem_singleton]
  obtain ⟨x, y, hx, hy, -⟩ | ⟨rfl, hb⟩ := h
  · exact ⟨⟨hx.plain.1, hx.plain.2.1, hx.plain.2.2.1⟩, hy.plain.1, hy.plain.2.1, hy.plain.2.2.1⟩
  · exact ⟨by decide, hb.plain.1, hb.plain.2.1, hb.plain.2.2.1⟩

theorem SignedPair.byteLength_eq {a b : Char} {n : Nat} (h : SignedPair a b n) :
    byteLength [a, b] = 2 := by
  rw [byteLength_cons, byteLength_cons, (h.plain a (by simp)).1, (h.plain b (by simp)).1,
    byteLength_nil]

/-- The same character twice is a digit twice. -/
theorem signedPair_self_iff {a : Char} {n : Nat} :
    SignedPair a a n ↔ ∃ x, HexDigit a x ∧ n = 17 * x := by
  constructor
  · rintro (⟨x, y, hx, hy, rfl⟩ | ⟨rfl, hplus⟩)
    · rw [← digitValue?_eq_some_iff] at hx hy
      obtain rfl := Option.some_inj.1 (hx.symm.trans hy)
      exact ⟨x, digitValue?_eq_some_iff.1 hx, by omega⟩
    · exact absurd rfl hplus.plain.2.2.2
  · rintro ⟨x, hx, rfl⟩
    exact .inl ⟨x, x, hx, hx, by omega⟩

theorem channelValue?_pair {a b : Char} {n : Nat} :
    channelValue? [a, b] = some n ↔ SignedPair a b n := by
  by_cases ha : a = '+'
  · subst ha
    have hplus : ∀ {x : Nat}, ¬HexDigit '+' x := fun h => h.plain.2.2.2 rfl
    simp [channelValue?, number?, SignedPair, HexPair, hplus, digitValue?_eq_some_iff]
  · have hvalue : channelValue? [a, b] = number? 16 [a, b] := by
      simp [channelValue?, ha]
    rw [hvalue, number?_pair, SignedPair, or_iff_left fun h => ha h.1]

/-- A channel of one byte is a digit. -/
theorem channelValue?_of_one {part : List Char} {n : Nat} (hpart : byteLength part = 1) :
    channelValue? part = some n ↔ ∃ a, part = [a] ∧ HexDigit a n := by
  match part, hpart with
  | [a], _ => simp [channelValue?, digitValue?_eq_some_iff]
  | a :: b :: part, h =>
    have hlength := length_le_byteLength (a :: b :: part)
    simp only [List.length_cons, h] at hlength
    omega

/-- A channel of two bytes is a pair, where the first digit may be a plus sign. -/
theorem channelValue?_of_two {part : List Char} {n : Nat} (hpart : byteLength part = 2) :
    channelValue? part = some n ↔ ∃ a b, part = [a, b] ∧ SignedPair a b n := by
  match part, hpart with
  | [a], h =>
    -- a single character of two bytes is no digit
    have ha : ¬HexDigit a n := fun ha => by
      rw [byteLength_cons, ha.plain.1] at h
      exact absurd h (by decide)
    simp [channelValue?, digitValue?_eq_some_iff, ha]
  | [a, b], _ =>
    rw [channelValue?_pair]
    refine ⟨fun h => ⟨a, b, rfl, h⟩, ?_⟩
    rintro ⟨a', b', ⟨⟩, h⟩
    exact h
  | a :: b :: c :: part, h =>
    have hlength := length_le_byteLength (a :: b :: c :: part)
    simp only [List.length_cons, h] at hlength
    omega

/-- What stands in the text from a byte offset on. -/
def StandsFrom (s : List Char) (start : Nat) (rest : List Char) : Prop :=
  ∃ front, s = front ++ rest ∧ byteLength front = start

namespace StandsFrom

variable {text : String} {s rest : List Char} {a b : Char} {start width n : Nat}

theorem zero (s : List Char) : StandsFrom s 0 s :=
  ⟨[], rfl, rfl⟩

theorem step (h : StandsFrom s start (a :: rest)) (ha : a.utf8Size = 1) :
    StandsFrom s (start + 1) rest := by
  obtain ⟨front, rfl, rfl⟩ := h
  exact ⟨front ++ [a], by simp, by rw [byteLength_append, byteLength_cons, ha, byteLength_nil]⟩

theorem byteLength_eq (h : StandsFrom s start rest) : byteLength s = start + byteLength rest := by
  obtain ⟨front, rfl, rfl⟩ := h
  exact byteLength_append front rest

/-- Nothing stands behind the last byte. -/
theorem eq_nil (h : StandsFrom s start rest) (hs : byteLength s = start) : rest = [] :=
  eq_nil_of_byteLength (Nat.left_eq_add.1 (hs ▸ h.byteLength_eq))

/-- A channel is read from what stands at its start. -/
theorem channel_eq_ok_iff (h : StandsFrom s start rest) :
    channel text s start (start + width) = .ok n ↔
      ∃ part back, rest = part ++ back ∧ byteLength part = width ∧ channelValue? part = some n := by
  obtain ⟨front, rfl, rfl⟩ := h
  constructor
  · intro h
    rw [channel] at h
    split at h
    · cases h
    · next part hpart =>
      obtain ⟨front', back, hsplit, hfront', hwidth⟩ := slice?_eq_some_iff.1 hpart
      obtain ⟨-, rfl⟩ := append_inj_of_byteLength hsplit hfront'.symm
      split at h
      · cases h
      · next m hm =>
        rw [← Except.ok.inj h]
        exact ⟨part, back, rfl, Nat.add_left_cancel hwidth, hm⟩
  · rintro ⟨part, back, rfl, rfl, hvalue⟩
    rw [channel, slice?_eq_some_iff.2 ⟨front, back, rfl, rfl, rfl⟩]
    simp only [hvalue]

/-- A channel of one byte is a digit. -/
theorem digit_iff (h : StandsFrom s start rest) : channel text s start (start + 1) = .ok n ↔
    ∃ a back, rest = a :: back ∧ HexDigit a n := by
  rw [h.channel_eq_ok_iff]
  constructor
  · rintro ⟨part, back, rfl, hpart, hvalue⟩
    obtain ⟨a, rfl, ha⟩ := (channelValue?_of_one hpart).1 hvalue
    exact ⟨a, back, rfl, ha⟩
  · rintro ⟨a, back, rfl, ha⟩
    have hpart : byteLength [a] = 1 := ha.plain.1
    exact ⟨[a], back, rfl, hpart, (channelValue?_of_one hpart).2 ⟨a, rfl, ha⟩⟩

/-- A channel of two bytes is a pair. -/
theorem pair_iff (h : StandsFrom s start rest) : channel text s start (start + 2) = .ok n ↔
    ∃ a b back, rest = a :: b :: back ∧ SignedPair a b n := by
  rw [h.channel_eq_ok_iff]
  constructor
  · rintro ⟨part, back, rfl, hpart, hvalue⟩
    obtain ⟨a, b, rfl, hab⟩ := (channelValue?_of_two hpart).1 hvalue
    exact ⟨a, b, back, rfl, hab⟩
  · rintro ⟨a, b, back, rfl, hab⟩
    have hpart : byteLength [a, b] = 2 := hab.byteLength_eq
    exact ⟨[a, b], back, rfl, hpart, (channelValue?_of_two hpart).2 ⟨a, b, rfl, hab⟩⟩

theorem step_pair (h : StandsFrom s start (a :: b :: rest)) (hab : SignedPair a b n) :
    StandsFrom s (start + 2) rest :=
  (h.step (hab.plain a (by simp)).1).step (hab.plain b (by simp)).1

end StandsFrom

/-! ## Whole colours -/

/-- The digits of a colour: the text without white space around it and without number signs before
it. -/
def bare (text : List Char) : List Char :=
  (trim text).dropWhile (· == '#')

section

variable (text : String) {s : List Char} {red green blue : Nat}

/-- Three bytes are read as digits. -/
theorem three_digits_iff : byteLength s = 3 ∧ channel text s 0 1 = .ok red ∧
    channel text s 1 2 = .ok green ∧ channel text s 2 3 = .ok blue ↔
      ∃ a b c, s = [a, b, c] ∧ HexDigit a red ∧ HexDigit b green ∧ HexDigit c blue := by
  have h0 := StandsFrom.zero s
  constructor
  · rintro ⟨hs, hred, hgreen, hblue⟩
    obtain ⟨a, _, rfl, ha⟩ := h0.digit_iff.1 hred
    have h1 := h0.step ha.plain.1
    obtain ⟨b, _, rfl, hb⟩ := h1.digit_iff.1 hgreen
    have h2 := h1.step hb.plain.1
    obtain ⟨c, _, rfl, hc⟩ := h2.digit_iff.1 hblue
    obtain rfl := (h2.step hc.plain.1).eq_nil hs
    exact ⟨a, b, c, rfl, ha, hb, hc⟩
  · rintro ⟨a, b, c, rfl, ha, hb, hc⟩
    have h1 := h0.step ha.plain.1
    have h2 := h1.step hb.plain.1
    exact ⟨(h2.step hc.plain.1).byteLength_eq, h0.digit_iff.2 ⟨a, _, rfl, ha⟩,
      h1.digit_iff.2 ⟨b, _, rfl, hb⟩, h2.digit_iff.2 ⟨c, _, rfl, hc⟩⟩

theorem StandsFrom.after_pairs {a a' b b' c c' : Char} (rest : List Char)
    (ha : SignedPair a a' red) (hb : SignedPair b b' green) (hc : SignedPair c c' blue) :
    StandsFrom (a :: a' :: b :: b' :: c :: c' :: rest) 6 rest :=
  (((zero _).step_pair ha).step_pair hb).step_pair hc

/-- Six bytes are read as pairs, with or without others behind them. -/
theorem three_pairs_iff : channel text s 0 2 = .ok red ∧ channel text s 2 4 = .ok green ∧
    channel text s 4 6 = .ok blue ↔
      ∃ a a' b b' c c' rest, s = a :: a' :: b :: b' :: c :: c' :: rest ∧
        SignedPair a a' red ∧ SignedPair b b' green ∧ SignedPair c c' blue := by
  have h0 := StandsFrom.zero s
  constructor
  · rintro ⟨hred, hgreen, hblue⟩
    obtain ⟨a, a', _, rfl, ha⟩ := h0.pair_iff.1 hred
    have h2 := h0.step_pair ha
    obtain ⟨b, b', _, rfl, hb⟩ := h2.pair_iff.1 hgreen
    obtain ⟨c, c', rest, rfl, hc⟩ := (h2.step_pair hb).pair_iff.1 hblue
    exact ⟨a, a', b, b', c, c', rest, rfl, ha, hb, hc⟩
  · rintro ⟨a, a', b, b', c, c', rest, rfl, ha, hb, hc⟩
    have h2 := h0.step_pair ha
    exact ⟨h0.pair_iff.2 ⟨a, a', _, rfl, ha⟩, h2.pair_iff.2 ⟨b, b', _, rfl, hb⟩,
      (h2.step_pair hb).pair_iff.2 ⟨c, c', _, rfl, hc⟩⟩

end

theorem says_of_parse_eq_ok {text : String} {c : Color} (h : parse text = .ok c) :
    Says SignedPair (bare text.toList) c := by
  have hbare : (trim text.toList).dropWhile (· == '#') = bare text.toList := rfl
  simp only [parse, hbare] at h
  generalize bare text.toList = s at h
  split at h
  · next hs =>
    simp only [Json.bind_eq_ok_iff] at h
    obtain ⟨red, hred, green, hgreen, blue, hblue, h⟩ := h
    obtain ⟨a, b, c, rfl, ha, hb, hc⟩ := (three_digits_iff text).1 ⟨hs, hred, hgreen, hblue⟩
    rw [← Except.ok.inj h]
    exact .short (signedPair_self_iff.2 ⟨red, ha, rfl⟩) (signedPair_self_iff.2 ⟨green, hb, rfl⟩)
      (signedPair_self_iff.2 ⟨blue, hc, rfl⟩)
  · next hs =>
    simp only [Json.bind_eq_ok_iff] at h
    obtain ⟨red, hred, green, hgreen, blue, hblue, h⟩ := h
    obtain ⟨a, a', b, b', c, c', rest, rfl, ha, hb, hc⟩ :=
      (three_pairs_iff text).1 ⟨hred, hgreen, hblue⟩
    -- the length leaves no room for a rest
    obtain rfl := (StandsFrom.after_pairs rest ha hb hc).eq_nil hs
    rw [← Except.ok.inj h]
    exact .long ha hb hc
  · next hs =>
    simp only [Json.bind_eq_ok_iff] at h
    obtain ⟨red, hred, green, hgreen, blue, hblue, alpha, halpha, h⟩ := h
    obtain ⟨a, a', b, b', c, c', rest, rfl, ha, hb, hc⟩ :=
      (three_pairs_iff text).1 ⟨hred, hgreen, hblue⟩
    have h6 := StandsFrom.after_pairs rest ha hb hc
    obtain ⟨d, d', rest, rfl, hd⟩ := h6.pair_iff.1 halpha
    obtain rfl := (h6.step_pair hd).eq_nil hs
    rw [← Except.ok.inj h]
    exact .withAlpha ha hb hc hd
  · cases h

theorem parse_eq_ok_of_says {text : String} {c : Color}
    (h : Says SignedPair (bare text.toList) c) : parse text = .ok c := by
  have hbare : (trim text.toList).dropWhile (· == '#') = bare text.toList := rfl
  simp only [parse, hbare]
  generalize bare text.toList = s at h
  cases h with
  | short ha hb hc =>
    obtain ⟨red, hdigit, rfl⟩ := signedPair_self_iff.1 ha
    obtain ⟨green, hdigit', rfl⟩ := signedPair_self_iff.1 hb
    obtain ⟨blue, hdigit'', rfl⟩ := signedPair_self_iff.1 hc
    obtain ⟨hs, hred, hgreen, hblue⟩ :=
      (three_digits_iff text).2 ⟨_, _, _, rfl, hdigit, hdigit', hdigit''⟩
    simp only [hs, hred, hgreen, hblue]
    rfl
  | long ha hb hc =>
    have hs : byteLength _ = 6 := (StandsFrom.after_pairs [] ha hb hc).byteLength_eq
    obtain ⟨hred, hgreen, hblue⟩ :=
      (three_pairs_iff text).2 ⟨_, _, _, _, _, _, [], rfl, ha, hb, hc⟩
    simp only [hs, hred, hgreen, hblue]
    rfl
  | @withAlpha _ _ _ _ _ _ d d' _ _ _ _ ha hb hc hd =>
    have h6 := StandsFrom.after_pairs [d, d'] ha hb hc
    obtain ⟨hred, hgreen, hblue⟩ :=
      (three_pairs_iff text).2 ⟨_, _, _, _, _, _, [d, d'], rfl, ha, hb, hc⟩
    have halpha : channel text _ 6 8 = .ok _ := h6.pair_iff.2 ⟨d, d', [], rfl, hd⟩
    have hs : byteLength _ = 8 := (h6.step_pair hd).byteLength_eq
    simp only [hs, hred, hgreen, hblue, halpha]
    rfl

/-- The reader reads the digits of a text, where a pair may have a plus sign. -/
theorem parse_eq_ok_iff_bare {text : String} {c : Color} :
    parse text = .ok c ↔ Says SignedPair (bare text.toList) c :=
  ⟨says_of_parse_eq_ok, parse_eq_ok_of_says⟩

/-! ## Where the digits stand -/

theorem Says.imp {P Q : Char → Char → Nat → Prop} {digits : List Char} {c : Color}
    (h : Says P digits c) (hPQ : ∀ a ∈ digits, ∀ b n, P a b n → Q a b n) : Says Q digits c := by
  cases h with
  | short ha hb hc =>
    exact .short (hPQ _ (by simp) _ _ ha) (hPQ _ (by simp) _ _ hb) (hPQ _ (by simp) _ _ hc)
  | long ha hb hc =>
    exact .long (hPQ _ (by simp) _ _ ha) (hPQ _ (by simp) _ _ hb) (hPQ _ (by simp) _ _ hc)
  | withAlpha ha hb hc hd =>
    exact .withAlpha (hPQ _ (by simp) _ _ ha) (hPQ _ (by simp) _ _ hb) (hPQ _ (by simp) _ _ hc)
      (hPQ _ (by simp) _ _ hd)

theorem Says.forall_mem {P : Char → Char → Nat → Prop} {K : Char → Prop} {digits : List Char}
    {c : Color} (h : Says P digits c) (hP : ∀ a b n, P a b n → K a ∧ K b) : ∀ a ∈ digits, K a := by
  cases h with
  | short ha hb hc => simp [hP _ _ _ ha, hP _ _ _ hb, hP _ _ _ hc]
  | long ha hb hc => simp [hP _ _ _ ha, hP _ _ _ hb, hP _ _ _ hc]
  | withAlpha ha hb hc hd => simp [hP _ _ _ ha, hP _ _ _ hb, hP _ _ _ hc, hP _ _ _ hd]

/-- No digit is white space or a number sign. -/
theorem Says.plain {digits : List Char} {c : Color} (h : Says SignedPair digits c) :
    ∀ a ∈ digits, isWhite a = false ∧ a ≠ '#' :=
  h.forall_mem fun a b _ hab => ⟨(hab.plain a (by simp)).2, (hab.plain b (by simp)).2⟩

theorem Says.plus_not_mem {digits : List Char} {c : Color} (h : Says HexPair digits c) :
    '+' ∉ digits := by
  have hplus : ∀ a ∈ digits, a ≠ '+' := h.forall_mem fun _ _ _ ⟨_, _, ha, hb, _⟩ =>
    ⟨ha.plain.2.2.2, hb.plain.2.2.2⟩
  exact fun hmem => hplus _ hmem rfl

/-- What is left of a text is what stands in it between white space and signs. -/
theorem around_iff {text digits : List Char} (h : ∀ a ∈ digits, isWhite a = false ∧ a ≠ '#') :
    Around text digits ↔ bare text = digits := by
  constructor
  · rintro ⟨lead, signs, trail, rfl, hlead, hsigns, htrail⟩
    have hwhite : ∀ a ∈ signs ++ digits, isWhite a = false := by
      intro a ha
      rcases List.mem_append.1 ha with ha | ha
      · rw [hsigns a ha]
        decide
      · exact (h a ha).1
    rw [bare, trim_append_of_white hlead htrail,
      trim_eq_self (fun a ha => hwhite a (List.mem_of_mem_head? ha))
        (fun a ha => hwhite a (List.mem_of_mem_getLast? ha)),
      List.dropWhile_append_of_pos fun a ha => beq_iff_eq.2 (hsigns a ha)]
    exact List.dropWhile_eq_self_iff.2 fun hpos => by simpa using (h _ (List.getElem_mem hpos)).2
  · rintro rfl
    obtain ⟨trail, htrim, htrail⟩ := exists_trimEnd_append (trimStart text)
    refine ⟨text.takeWhile isWhite, (trim text).takeWhile (· == '#'), trail, ?_,
      fun a ha => List.mem_takeWhile_imp ha, fun a ha => ?_, htrail⟩
    · rw [bare, List.takeWhile_append_dropWhile, trim, ← htrim, trimStart,
        List.takeWhile_append_dropWhile]
    · simpa using List.mem_takeWhile_imp ha

/-! ## What is read -/

theorem parse_eq_ok_iff {text : String} {c : Color} : parse text = .ok c ↔
    ∃ digits, Around text.toList digits ∧ Says SignedPair digits c := by
  rw [parse_eq_ok_iff_bare]
  constructor
  · intro h
    exact ⟨_, (around_iff h.plain).2 rfl, h⟩
  · rintro ⟨digits, hdigits, h⟩
    rwa [(around_iff h.plain).1 hdigits]

/-- A colour is read from its spellings, with or without plus signs, and from nothing else. -/
theorem parse_eq_ok_iff_spelled {text : String} {c : Color} :
    parse text = .ok c ↔ Spelled text c ∨ SpelledWithPlus text c := by
  rw [parse_eq_ok_iff]
  constructor
  · rintro ⟨digits, hdigits, h⟩
    by_cases hplus : '+' ∈ digits
    · exact .inr ⟨digits, hdigits, hplus, h⟩
    · refine .inl ⟨digits, hdigits, h.imp fun a ha b n hab => hab.resolve_right fun hsign => ?_⟩
      exact hplus (hsign.1 ▸ ha)
  · rintro (⟨digits, hdigits, h⟩ | ⟨digits, hdigits, -, h⟩)
    · exact ⟨digits, hdigits, h.imp fun _ _ _ _ => .inl⟩
    · exact ⟨digits, hdigits, h⟩

/-- A text with plus signs among its digits is no spelling of any colour. -/
theorem SpelledWithPlus.not_spelled {text : String} {c c' : Color} (h : SpelledWithPlus text c) :
    ¬Spelled text c' := by
  rintro ⟨digits', hdigits', h'⟩
  obtain ⟨digits, hdigits, hplus, h⟩ := h
  have h'' : Says SignedPair digits' c' := h'.imp fun _ _ _ _ => .inl
  obtain rfl : digits = digits' :=
    ((around_iff h.plain).1 hdigits).symm.trans ((around_iff h''.plain).1 hdigits')
  exact h'.plus_not_mem hplus

/-- **A colour is read from its spellings.**  This holds of every text that is not a spelling with
plus signs; such a text is read too, as if a zero stood for each plus sign. -/
theorem parse_spelled (text : String) :
    (∀ c, parse text = .ok c ↔ Spelled text c ∨ SpelledWithPlus text c) ∧
      ((∀ c, parse text = .ok c ↔ Spelled text c) ↔ ∀ c, ¬SpelledWithPlus text c) := by
  refine ⟨fun c => parse_eq_ok_iff_spelled, fun h c hplus => ?_, fun h c => ?_⟩
  · exact hplus.not_spelled ((h c).1 (parse_eq_ok_iff_spelled.2 (.inr hplus)))
  · rw [parse_eq_ok_iff_spelled, or_iff_left (h c)]

/-- Plus signs among the digits are read, although nothing is spelled with them. -/
theorem parse_plusSigns :
    parse "#+1+2+3" = .ok ⟨1, 2, 3, 255⟩ ∧ ∀ c, ¬Spelled "#+1+2+3" c := by
  have hplus : SpelledWithPlus "#+1+2+3" ⟨1, 2, 3, 255⟩ :=
    ⟨"+1+2+3".toList, ⟨[], ['#'], [], by decide, by simp, by simp, by simp⟩, by decide,
      .long (.inr (by decide)) (.inr (by decide)) (.inr (by decide))⟩
  exact ⟨parse_eq_ok_iff_spelled.2 (.inr hplus), fun c => hplus.not_spelled⟩

end Color

end CommentTags
