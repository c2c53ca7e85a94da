import CommentTags.Proofs.Pattern.LineTails
import CommentTags.Proofs.Pattern.Preference

/-!
# Searching a text with carriage returns

A search of the text with carriage returns takes one step more at the end of each line.  No comment
begins there, so if the matches that begin at one place correspond, all the matches of a search do.

* `Expression.matchesFrom_break` — nothing begins at a character that ends a line.
* `Expression.Follows` — what is asked of an expression: its matches correspond at every place that
  is `valid`, if the match found there is `good`.
* `Expression.Follows.matchesFrom` — the induction along the text.
* `Expression.Follows.findAll`, `Expression.Follows.findAll_feed` — the search of a whole text, and
  of one that has the line feed in front of it as well.
-/

set_option autoImplicit false

namespace CommentTags

namespace Expression

variable {e : Expression}

/-! ## Searches for what begins on a line -/

section

variable {c : Cursor} {m : Match}

theorem splits_of_matchAt (h : e.matchAt c = some m) : m.start = c ∧ e.Splits c m.parts m.stop := by
  obtain ⟨⟨parts, stop⟩, hp, rfl⟩ := Option.map_eq_some_iff.1 h
  exact ⟨rfl, splits_of_partsAt hp⟩

variable (he : e.BeginsOnLine)
include he

theorem matchAt_eq_none (hc : ¬c.OnLine) : e.matchAt c = none := by
  rw [matchAt, partsAt_eq_none he hc, Option.map_none]

theorem BeginsOnLine.neverEmpty : e.NeverEmpty := fun _ _ _ h =>
  ((splits_of_partsAt h).advances he).2

theorem matchesFrom_of_some (fresh : Bool) (h : e.matchAt c = some m) :
    e.matchesFrom fresh c = m :: e.matchesFrom false m.stop := by
  obtain ⟨r, hr, rfl⟩ := Option.map_eq_some_iff.1 h
  exact (BeginsOnLine.neverEmpty he).matchesFrom_of_some fresh hr

theorem matchesFrom_of_none (fresh : Bool) (h : e.matchAt c = none) {a : Char} {rest : List Char}
    (hc : c.rest = a :: rest) :
    e.matchesFrom fresh c = e.matchesFrom true ⟨c.offset + a.utf8Size, some a, rest⟩ := by
  rw [(BeginsOnLine.neverEmpty he).matchesFrom_of_none fresh (Option.map_eq_none_iff.1 h),
    matchesBehind, Cursor.next?, hc]

/-- Nothing begins at a character that ends a line. -/
theorem matchesFrom_break (fresh : Bool) {a : Char} (ha : a = '\r' ∨ a = '\n') (offset : Nat)
    (before : Option Char) (rest : List Char) :
    e.matchesFrom fresh ⟨offset, before, a :: rest⟩ =
      e.matchesFrom true ⟨offset + a.utf8Size, some a, rest⟩ :=
  matchesFrom_of_none he fresh
    (matchAt_eq_none he (Cursor.not_onLine_of_break ha offset before rest)) rfl

theorem matchesFrom_of_nil (fresh : Bool) (hc : c.rest = []) : e.matchesFrom fresh c = [] := by
  rw [(BeginsOnLine.neverEmpty he).matchesFrom_of_none fresh
    (partsAt_eq_none he (Cursor.not_onLine_of_nil hc)), matchesBehind, Cursor.next?, hc]

end

/-! ## Two searches side by side -/

/-- Matches that begin at a place are related to those that begin at the same place of the text with
carriage returns, and the search goes on from the same place after them.  The places are `valid`, and
the matches in the text without carriage returns are `good`. -/
structure Follows (e : Expression) (fed : Bool) (valid : Cursor → Prop) (good : Match → Prop)
    (R : Nat → Match → Match → Prop) : Prop where
  begins : e.BeginsOnLine
  /-- What is asked of a place holds of all later ones. -/
  valid_of_reads : ∀ {c d : Cursor} {w : List Char}, valid c → c.Reads w d → valid d
  matchAt : ∀ {c : Cursor} (lines : Nat), valid c → (∀ m, e.matchAt c = some m → good m) →
    Option.Rel
      (fun m m' => R lines m m' ∧
        ∃ w, c.Reads w m.stop ∧ m.stop.Near fed (lines + w.count '\n') m'.stop)
      (e.matchAt c) (e.matchAt (c.crlf fed lines))

variable {fed : Bool} {valid : Cursor → Prop} {good : Match → Prop}
  {R : Nat → Match → Match → Prop}

/-- What is related from a later place on is related from an earlier one on. -/
theorem forall₂_of_reads {c d : Cursor} {w : List Char} {lines : Nat} {l l' : List Match}
    (hw : c.Reads w d)
    (h : List.Forall₂ (fun m m' => ∃ v, d.Reads v m.start ∧
      R (lines + w.count '\n' + v.count '\n') m m') l l') :
    List.Forall₂ (fun m m' => ∃ v, c.Reads v m.start ∧ R (lines + v.count '\n') m m') l l' := by
  refine h.imp ?_
  rintro m m' ⟨v, hv, hm⟩
  refine ⟨w ++ v, hw.trans hv, ?_⟩
  rwa [List.count_append, ← Nat.add_assoc]

/-- At the end of a line both searches go on to the next one, the second one over the carriage
return, unless it has passed that already. -/
theorem Follows.matchesFrom_feed (h : e.Follows fed valid good R) {lines offset : Nat}
    {before : Option Char} {rest : List Char} {c' : Cursor}
    (hc' : Cursor.Near fed lines ⟨offset, before, '\n' :: rest⟩ c') (fresh : Bool) :
    e.matchesFrom fresh c' = e.matchesFrom true
      (Cursor.crlf fed (lines + 1) ⟨offset + '\n'.utf8Size, some '\n', rest⟩) := by
  rw [Cursor.crlf_next_feed]
  rcases hc' with rfl | rfl
  · rw [Cursor.crlf, Text.crlf_cons_feed, matchesFrom_break h.begins fresh (.inl rfl),
      matchesFrom_break h.begins true (.inr rfl)]
  · rw [Cursor.crlfFeed_cons_feed, matchesFrom_break h.begins fresh (.inr rfl)]
    rfl

/-- Where no match begins on a line, the search goes on behind the next character. -/
theorem matchesFrom_crlf_of_none (he : e.BeginsOnLine) {lines offset : Nat} {before : Option Char}
    {a : Char} {rest : List Char} (ha : a ≠ '\n') (fresh : Bool)
    (hm : e.matchAt (Cursor.crlf fed lines ⟨offset, before, a :: rest⟩) = none) :
    e.matchesFrom fresh (Cursor.crlf fed lines ⟨offset, before, a :: rest⟩) =
      e.matchesFrom true (Cursor.crlf fed lines ⟨offset + a.utf8Size, some a, rest⟩) := by
  have hrest : (Cursor.crlf fed lines ⟨offset, before, a :: rest⟩).rest = a :: Text.crlf rest := by
    rw [Cursor.crlf_rest, Text.crlf_cons ha]
  rw [matchesFrom_of_none he fresh hm hrest, Cursor.crlf_next, Cursor.crlf_offset]

/-- **Two searches find related matches**, from the same place on, be it before or after a carriage
return. -/
theorem Follows.matchesFrom (h : e.Follows fed valid good R) {c c' : Cursor} {lines : Nat}
    (hc : valid c) (hc' : c.Near fed lines c') (fresh fresh' : Bool)
    (hgood : ∀ m ∈ e.matchesFrom fresh c, good m) :
    List.Forall₂ (fun m m' => ∃ w, c.Reads w m.start ∧ R (lines + w.count '\n') m m')
      (e.matchesFrom fresh c) (e.matchesFrom fresh' c') := by
  induction hn : c.rest.length using Nat.strongRecOn generalizing c c' lines fresh fresh' with
  | ind n ih =>
    obtain ⟨offset, before, rest⟩ := c
    cases rest with
    | nil =>
      have hnil : c'.rest = [] := by rcases hc' with rfl | rfl <;> rfl
      rw [matchesFrom_of_nil h.begins fresh rfl, matchesFrom_of_nil h.begins fresh' hnil]
      exact .nil
    | cons a rest =>
      have hstep := Cursor.Reads.step offset before a rest
      have hlt : rest.length < n := by rw [← hn]; exact Nat.lt_succ_self _
      by_cases ha : a = '\n'
      · subst ha
        rw [matchesFrom_break h.begins fresh (.inr rfl)] at hgood
        rw [matchesFrom_break h.begins fresh (.inr rfl), h.matchesFrom_feed hc' fresh']
        -- the line is over in both texts, and nothing begins there
        exact forall₂_of_reads hstep
          (ih _ hlt (h.valid_of_reads hc hstep) (.inl rfl) true true hgood rfl)
      · have hcrlf : c' = Cursor.crlf fed lines ⟨offset, before, a :: rest⟩ := by
          rcases hc' with rfl | rfl
          · rfl
          · exact Cursor.crlfFeed_cons ha offset before rest
        have hfound (m : Match) (hm : e.matchAt ⟨offset, before, a :: rest⟩ = some m) : good m :=
          hgood m (by rw [matchesFrom_of_some h.begins fresh hm]; exact List.mem_cons_self)
        have hrel := h.matchAt lines hc hfound
        rw [← hcrlf] at hrel
        generalize hm : e.matchAt ⟨offset, before, a :: rest⟩ = x, hm' : e.matchAt c' = y at hrel
        cases hrel with
        | none =>
          rw [matchesFrom_of_none h.begins fresh hm rfl] at hgood
          rw [matchesFrom_of_none h.begins fresh hm rfl, hcrlf,
            matchesFrom_crlf_of_none h.begins ha fresh' (hcrlf ▸ hm')]
          refine forall₂_of_reads hstep ?_
          rw [List.count_singleton, if_neg (by simpa using ha)]
          exact ih _ hlt (h.valid_of_reads hc hstep) (.inl rfl) true true hgood rfl
        | @some m m' hrel =>
          obtain ⟨hR, w, hw, hnear⟩ := hrel
          obtain ⟨hstart, hsplits⟩ := splits_of_matchAt hm
          have hshorter := (hsplits.advances h.begins).2
          rw [matchesFrom_of_some h.begins fresh hm] at hgood
          rw [matchesFrom_of_some h.begins fresh hm, matchesFrom_of_some h.begins fresh' hm']
          -- matches read something, so there is less text behind them
          refine .cons ⟨[], by rw [hstart]; exact .refl _, hR⟩ (forall₂_of_reads hw ?_)
          exact ih _ (hn ▸ hshorter) (h.valid_of_reads hc hw) hnear false false
            (List.forall_mem_cons.1 hgood).2 rfl

/-- The search of a whole text. -/
theorem Follows.findAll (h : e.Follows false valid good R) {offset : Nat} {text : List Char}
    (hstart : valid (.atStart offset text)) (hgood : ∀ m ∈ e.findAll offset text, good m)
    (lines : Nat) :
    List.Forall₂
      (fun m m' => ∃ w, (Cursor.atStart offset text).Reads w m.start ∧
        R (lines + w.count '\n') m m')
      (e.findAll offset text) (e.findAll (offset + lines) (Text.crlf text)) :=
  h.matchesFrom hstart (.inl rfl) true true hgood

/-- A line feed in front of the text makes no difference: no match begins there, and a line begins
after it. -/
theorem Follows.findAll_feed (h : e.Follows true valid good R) {offset : Nat} {text : List Char}
    (hstart : valid (.atStart offset text)) (hgood : ∀ m ∈ e.findAll offset text, good m)
    {lines offset' : Nat}
    (hoffset : offset' + 1 = offset + lines) :
    List.Forall₂
      (fun m m' => ∃ w, (Cursor.atStart offset text).Reads w m.start ∧
        R (lines + w.count '\n') m m')
      (e.findAll offset text) (e.findAll offset' ('\n' :: Text.crlf text)) := by
  have hnext : e.findAll offset' ('\n' :: Text.crlf text) =
      e.matchesFrom true ((Cursor.atStart offset text).crlf true lines) := by
    rw [Expression.findAll, Cursor.atStart, matchesFrom_break h.begins true (.inr rfl)]
    exact congrArg (fun o => e.matchesFrom true ⟨o, some '\n', Text.crlf text⟩) hoffset
  rw [hnext]
  exact h.matchesFrom hstart (.inl rfl) true true hgood

end Expression

end CommentTags
