import CommentTags.Text.Bytes

/-!
# Boundaries and slices

A byte offset is a *boundary* of a text when it is the length of a first part of it.  The readers of
`CommentTags.Text.Bytes` succeed exactly at boundaries.

* `IsBoundary` — the boundaries of a text.
* `append_inj_of_byteLength` — two first parts of a text with as many bytes are the same; whatever
  is said about offsets is said about first parts by this.
* `slice?_eq_some_iff` — a slice is what stands between two boundaries.
* `slice?_map` — writing characters in another way, but with as many bytes, moves no boundary.
-/

namespace CommentTags.Text

/-- `n` bytes end between two characters of the text, or at one of its ends. -/
def IsBoundary (s : List Char) (n : Nat) : Prop :=
  ∃ front back, s = front ++ back ∧ byteLength front = n

@[simp] theorem byteLength_nil : byteLength [] = 0 := rfl

@[simp] theorem byteLength_cons (c : Char) (s : List Char) :
    byteLength (c :: s) = c.utf8Size + byteLength s := rfl

/-- Every character has at least one byte. -/
theorem length_le_byteLength (s : List Char) : s.length ≤ byteLength s := by
  induction s with
  | nil => simp
  | cons c s ih =>
    have := c.utf8Size_pos
    simp only [List.length_cons, byteLength_cons]
    omega

theorem eq_nil_of_byteLength {s : List Char} (h : byteLength s = 0) : s = [] :=
  List.eq_nil_of_length_eq_zero (Nat.eq_zero_of_le_zero (h ▸ length_le_byteLength s))

/-- Of two first parts of a text, the one with more bytes begins with the other one. -/
theorem append_eq_of_byteLength_le {u v s t : List Char} (h : u ++ v = s ++ t)
    (hle : byteLength u ≤ byteLength s) : ∃ w, s = u ++ w ∧ v = w ++ t := by
  rcases List.append_eq_append_iff.1 h with ⟨w, rfl, rfl⟩ | ⟨w, rfl, rfl⟩
  · exact ⟨w, rfl, rfl⟩
  · rw [byteLength_append] at hle
    obtain rfl := eq_nil_of_byteLength (s := w) (by omega)
    exact ⟨[], by simp, rfl⟩

/-- Two first parts of a text with the same number of bytes are the same. -/
theorem append_inj_of_byteLength {u v s t : List Char} (h : u ++ v = s ++ t)
    (hlen : byteLength u = byteLength s) : u = s ∧ v = t := by
  obtain ⟨w, rfl, rfl⟩ := append_eq_of_byteLength_le h (Nat.le_of_eq hlen)
  rw [byteLength_append] at hlen
  obtain rfl := eq_nil_of_byteLength (s := w) (by omega)
  exact ⟨(List.append_nil u).symm, rfl⟩

theorem byteLength_map {f : Char → Char} (h : ∀ c, (f c).utf8Size = c.utf8Size) (s : List Char) :
    byteLength (s.map f) = byteLength s := by
  induction s with
  | nil => rfl
  | cons c s ih => rw [List.map_cons, byteLength_cons, byteLength_cons, h, ih]

/-- The bytes of a string are those of its characters. -/
theorem utf8ByteSize_eq (s : String) : s.utf8ByteSize = byteLength s.toList := by
  have h (l : List Char) : l.utf8Encode.size = byteLength l := by
    induction l with
    | nil => rfl
    | cons c l ih =>
      rw [List.utf8Encode_cons, ByteArray.size_append, List.utf8Encode_singleton,
        List.size_toByteArray, String.length_utf8EncodeChar, ih, byteLength_cons]
  rw [← String.size_toByteArray, ← String.utf8Encode_toList, h]

/-! ## Reading a part of a text -/

theorem dropBytes?_zero (s : List Char) : dropBytes? 0 s = some s := by
  cases s <;> rw [dropBytes?]

theorem takeBytes?_zero (s : List Char) : takeBytes? 0 s = some [] := by
  cases s <;> rw [takeBytes?]

theorem dropBytes?_byteLength (s t : List Char) : dropBytes? (byteLength s) (s ++ t) = some t := by
  induction s with
  | nil => exact dropBytes?_zero t
  | cons c s ih =>
    have hc := c.utf8Size_pos
    obtain ⟨n, hn⟩ : ∃ n, byteLength (c :: s) = n + 1 :=
      ⟨byteLength (c :: s) - 1, by rw [byteLength_cons]; omega⟩
    rw [byteLength_cons] at hn
    rw [byteLength_cons, hn, List.cons_append, dropBytes?, if_pos (by omega),
      show n + 1 - c.utf8Size = byteLength s by omega, ih]

theorem takeBytes?_byteLength (s t : List Char) : takeBytes? (byteLength s) (s ++ t) = some s := by
  induction s with
  | nil => exact takeBytes?_zero t
  | cons c s ih =>
    have hc := c.utf8Size_pos
    obtain ⟨n, hn⟩ : ∃ n, byteLength (c :: s) = n + 1 :=
      ⟨byteLength (c :: s) - 1, by rw [byteLength_cons]; omega⟩
    rw [byteLength_cons] at hn
    rw [byteLength_cons, hn, List.cons_append, takeBytes?, if_pos (by omega),
      show n + 1 - c.utf8Size = byteLength s by omega, ih, Option.map_some]

theorem eq_append_of_dropBytes? {n : Nat} {s t : List Char} (h : dropBytes? n s = some t) :
    ∃ front, s = front ++ t ∧ byteLength front = n := by
  fun_induction dropBytes? n s with
  | case1 s => exact ⟨[], by simpa using h, rfl⟩
  | case2 => simp at h
  | case3 n c s hc ih =>
    obtain ⟨front, rfl, hf⟩ := ih h
    exact ⟨c :: front, rfl, by rw [byteLength_cons]; omega⟩
  | case4 => simp at h

theorem eq_append_of_takeBytes? {n : Nat} {s t : List Char} (h : takeBytes? n s = some t) :
    ∃ back, s = t ++ back ∧ byteLength t = n := by
  fun_induction takeBytes? n s generalizing t with
  | case1 s => exact ⟨s, by simp_all⟩
  | case2 => simp at h
  | case3 n c s hc ih =>
    obtain ⟨u, hu, rfl⟩ := Option.map_eq_some_iff.1 h
    obtain ⟨back, rfl, hb⟩ := ih hu
    exact ⟨back, rfl, by rw [byteLength_cons]; omega⟩
  | case4 => simp at h

/-- **A slice is what stands between two boundaries.** -/
theorem slice?_eq_some_iff {s t : List Char} {a b : Nat} :
    slice? s a b = some t ↔
      ∃ front back, s = front ++ (t ++ back) ∧ byteLength front = a ∧ a + byteLength t = b := by
  rw [slice?]
  constructor
  · intro h
    split at h
    · obtain ⟨u, hu, ht⟩ := Option.bind_eq_some_iff.1 h
      obtain ⟨front, rfl, hf⟩ := eq_append_of_dropBytes? hu
      obtain ⟨back, rfl, hb⟩ := eq_append_of_takeBytes? ht
      exact ⟨front, back, rfl, hf, by omega⟩
    · simp at h
  · rintro ⟨front, back, rfl, rfl, rfl⟩
    rw [if_pos (Nat.le_add_right _ _), dropBytes?_byteLength, Option.bind_some,
      Nat.add_sub_cancel_left, takeBytes?_byteLength]

theorem slice?_whole (s : List Char) : slice? s 0 (byteLength s) = some s :=
  slice?_eq_some_iff.2 ⟨[], [], by simp, rfl, by simp⟩

/-- Writing characters in another way, but with as many bytes, moves no boundary. -/
theorem slice?_map {f : Char → Char} (hf : ∀ c, (f c).utf8Size = c.utf8Size) (s : List Char)
    (a b : Nat) : slice? (s.map f) a b = (slice? s a b).map (List.map f) := by
  have hdrop (n : Nat) (s : List Char) :
      dropBytes? n (s.map f) = (dropBytes? n s).map (List.map f) := by
    fun_induction dropBytes? n s with
    | case1 s => exact dropBytes?_zero _
    | case2 n => rw [List.map_nil, dropBytes?, Option.map_none]
    | case3 n c s hc ih => rw [List.map_cons, dropBytes?, hf, if_pos hc, ih]
    | case4 n c s hc => rw [List.map_cons, dropBytes?, hf, if_neg hc, Option.map_none]
  have htake (n : Nat) (s : List Char) :
      takeBytes? n (s.map f) = (takeBytes? n s).map (List.map f) := by
    fun_induction takeBytes? n s with
    | case1 s => exact takeBytes?_zero _
    | case2 n => rw [List.map_nil, takeBytes?, Option.map_none]
    | case3 n c s hc ih =>
      rw [List.map_cons, takeBytes?, hf, if_pos hc, ih, Option.map_map, Option.map_map]
      rfl
    | case4 n c s hc => rw [List.map_cons, takeBytes?, hf, if_neg hc, Option.map_none]
  rw [slice?, slice?]
  split
  · rw [hdrop, Option.bind_map, Option.map_bind]
    exact congrArg _ (funext fun t => htake (b - a) t)
  · rfl

theorem isBoundary_of_slice? {s t : List Char} {a b : Nat} (h : slice? s a b = some t) :
    IsBoundary s a ∧ IsBoundary s b := by
  obtain ⟨front, back, rfl, rfl, rfl⟩ := slice?_eq_some_iff.1 h
  exact ⟨⟨front, t ++ back, rfl, rfl⟩, ⟨front ++ t, back, by simp, by simp⟩⟩

end CommentTags.Text
