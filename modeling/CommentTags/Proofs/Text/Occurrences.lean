import Mathlib.Data.List.Forall2
import CommentTags.Proofs.Text.LineEnds

/-!
# Where a word stands in a text

Words are looked for without regard to letter case.

* `Spells` — a text is the word up to simple case folding.
* `StandsAt`, `Occurs` — the word stands at the beginning of a text, or somewhere in it.
* `Repeats` — a text consists of several pieces of one kind.
* `Spells.append_inj` — only one text that spells the word begins a given text.
* `Spells.eq` — a word without letters is spelled in one way.
-/

set_option autoImplicit false

namespace CommentTags.Text

/-- The text is the word, up to letter case. -/
def Spells (word w : List Char) : Prop :=
  List.Forall₂ (fun b a => sameLetter b a = true) word w

/-- The text begins with the word, up to letter case. -/
def StandsAt (word text : List Char) : Prop :=
  ∃ w back, text = w ++ back ∧ Spells word w

/-- The word stands somewhere in the text, up to letter case. -/
def Occurs (word text : List Char) : Prop :=
  ∃ front back, text = front ++ back ∧ StandsAt word back

/-- The text consists of `n` pieces of one kind. -/
def Repeats (Q : List Char → Prop) : Nat → List Char → Prop
  | 0, s => s = []
  | n + 1, s => ∃ u v, s = u ++ v ∧ Q u ∧ Repeats Q n v

theorem Spells.length_eq {word w : List Char} (h : Spells word w) : w.length = word.length :=
  (List.Forall₂.length_eq h).symm

/-- A text that spells a word has the same letters. -/
theorem spells_iff {word w : List Char} : Spells word w ↔ word.map fold = w.map fold := by
  rw [Spells, ← List.forall₂_eq_eq_eq, List.forall₂_map_left_iff, List.forall₂_map_right_iff]
  simp only [sameLetter_iff]

/-- Only a word with a character without letter case is spelled with that character. -/
theorem Spells.not_mem {word w : List Char} {a : Char} (ha : Uncased a) (h : Spells word w)
    (hword : a ∉ word) : a ∉ w := by
  induction h with
  | nil => exact List.not_mem_nil
  | @cons b c word w hbc _ ih =>
    rw [List.mem_cons, not_or] at hword
    rw [List.mem_cons, not_or]
    exact ⟨fun hac => hword.1 (ha.eq_of_sameLetter (hac ▸ hbc)).symm, ih hword.2⟩

/-- A word without letters is spelled in one way. -/
theorem Spells.eq {word w : List Char} (h : Spells word w) (hword : ∀ b ∈ word, Uncased b) :
    w = word := by
  induction h with
  | nil => rfl
  | @cons b a word w hba _ ih =>
    rw [List.forall_mem_cons] at hword
    have hab : sameLetter a b = true := sameLetter_iff.2 (sameLetter_iff.1 hba).symm
    rw [ih hword.2, hword.1.eq_of_sameLetter hab]

/-- Every word spells itself. -/
theorem Spells.refl (word : List Char) : Spells word word :=
  spells_iff.2 rfl

/-- Only one text that spells the word begins a given text. -/
theorem Spells.append_inj {word v w s t : List Char} (hv : Spells word v) (hw : Spells word w)
    (h : v ++ s = w ++ t) : v = w ∧ s = t :=
  List.append_inj h (hv.length_eq.trans hw.length_eq.symm)

theorem StandsAt.occurs {word text : List Char} (h : StandsAt word text) : Occurs word text :=
  ⟨[], text, rfl, h⟩

theorem Occurs.append {word text : List Char} (h : Occurs word text) (front : List Char) :
    Occurs word (front ++ text) := by
  obtain ⟨u, v, rfl, hv⟩ := h
  exact ⟨front ++ u, v, (List.append_assoc front u v).symm, hv⟩

namespace Repeats

variable {Q : List Char → Prop} {m n k : Nat} {s t : List Char}

theorem one (h : Q s) : Repeats Q 1 s := ⟨s, [], (List.append_nil s).symm, h, rfl⟩

theorem append (hs : Repeats Q m s) (ht : Repeats Q n t) : Repeats Q (m + n) (s ++ t) := by
  induction m generalizing s with
  | zero =>
    obtain rfl : s = [] := hs
    rwa [Nat.zero_add, List.nil_append]
  | succ m ih =>
    obtain ⟨u, v, rfl, hu, hv⟩ := hs
    rw [Nat.add_right_comm, List.append_assoc]
    exact ⟨u, v ++ t, rfl, hu, ih hv⟩

/-- The last piece comes after the others. -/
theorem exists_last (h : Repeats Q (n + 1) s) : ∃ u v, s = u ++ v ∧ Repeats Q n u ∧ Q v := by
  induction n generalizing s with
  | zero =>
    obtain ⟨u, v, rfl, hu, hv⟩ := h
    obtain rfl : v = [] := hv
    exact ⟨[], u, List.append_nil u, rfl, hu⟩
  | succ n ih =>
    obtain ⟨u, v, rfl, hu, hv⟩ := h
    obtain ⟨w, z, rfl, hw, hz⟩ := ih hv
    exact ⟨u ++ w, z, (List.append_assoc u w z).symm, ⟨u, w, rfl, hu, hw⟩, hz⟩

/-- Pieces of one length. -/
theorem length_eq (hQ : ∀ u, Q u → u.length = k) (h : Repeats Q n s) : s.length = n * k := by
  induction n generalizing s with
  | zero =>
    obtain rfl : s = [] := h
    rw [Nat.zero_mul, List.length_nil]
  | succ n ih =>
    obtain ⟨u, v, rfl, hu, hv⟩ := h
    rw [List.length_append, hQ u hu, ih hv, Nat.succ_mul, Nat.add_comm]

theorem ne_nil (hQ : ∀ u, Q u → u ≠ []) (hn : 1 ≤ n) (h : Repeats Q n s) : s ≠ [] := by
  obtain ⟨n, rfl⟩ := Nat.exists_eq_add_of_le' hn
  obtain ⟨u, v, rfl, hu, -⟩ := h
  exact List.append_ne_nil_of_left_ne_nil (hQ u hu) v

/-- What holds of every character of each piece holds of every character of the text. -/
theorem forall_mem {P : Char → Prop} (hQ : ∀ u, Q u → ∀ a ∈ u, P a) (h : Repeats Q n s) :
    ∀ a ∈ s, P a := by
  induction n generalizing s with
  | zero =>
    obtain rfl : s = [] := h
    simp
  | succ n ih =>
    obtain ⟨u, v, rfl, hu, hv⟩ := h
    exact List.forall_mem_append.2 ⟨hQ u hu, ih hv⟩

end Repeats

end CommentTags.Text
