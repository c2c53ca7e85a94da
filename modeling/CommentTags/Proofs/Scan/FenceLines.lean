import Mathlib.Data.List.Chain
import CommentTags.Proofs.Scan.Lines

/-!
# Fences as lines

A line that begins with three backticks opens a fence if a later line begins with three backticks
too, and the first such line closes it.  `Fence.ofLines` goes through the lines of a text like this,
from each opening line on to the line behind the closing one.

* `Consecutive` — each line begins behind the line feed of the line before it.
* `beginsFence`, `opensFence`, `fenceHint` — a line that begins with backticks, one that can open a
  fence, and what names the language.
* `Fence.ofLines`, `Fence.ofLines_induction` — the fences among lines, and induction along them: a
  line is passed over, or a fence is opened and closed.
* `Fence.ClosedAmong` — the body has no line that could close the fence, and the line that closes it
  opens no other one.
* `Fence.ofLines_closed` — this holds of every fence, and the bodies do not meet.
-/

set_option autoImplicit false

namespace CommentTags

open Text

/-! ## Lines one after another -/

/-- Each line begins behind the line feed of the line before it. -/
def Consecutive (lines : List Scope) : Prop :=
  lines.IsChain fun a b => b.offset = a.stop + 1

theorem text_mem_of_mem_placeLines {line : Scope} {texts : List (List Char)} {offset : Nat}
    (h : line ∈ placeLines offset texts) : line.text ∈ texts := by
  induction texts generalizing offset with
  | nil => simp [placeLines] at h
  | cons text texts ih =>
    rcases List.mem_cons.1 h with rfl | h
    · exact .head _
    · exact .tail _ (ih h)

theorem consecutive_placeLines (offset : Nat) (texts : List (List Char)) :
    Consecutive (placeLines offset texts) := by
  induction texts generalizing offset with
  | nil => exact .nil
  | cons text texts ih =>
    refine List.isChain_cons.2 ⟨fun b hb => ?_, ih _⟩
    cases texts with
    | nil => simp [placeLines] at hb
    | cons text' texts =>
      obtain rfl := Option.some_inj.1 hb
      rfl

theorem Consecutive.pairwise {lines : List Scope} (h : Consecutive lines) :
    lines.Pairwise fun a b => a.stop < b.offset := by
  have htrans : IsTrans Scope fun a b => a.stop < b.offset :=
    ⟨fun a b c hab hbc => (hab.trans_le (Nat.le_add_right _ _)).trans hbc⟩
  exact List.isChain_iff_pairwise.1 (h.imp fun a b hab => by omega)

/-! ## Lines of fences -/

/-- What a line of a fence begins with. -/
def backticks : List Char :=
  ['\x60', '\x60', '\x60']

/-- The line begins with blanks and three backticks. -/
def beginsFence (line : List Char) : Bool :=
  backticks.isPrefixOf (line.dropWhile CharClass.blank.contains)

/-- What stands after the three backticks. -/
def fenceInfo (line : List Char) : List Char :=
  (line.dropWhile CharClass.blank.contains).drop 3

/-- The line can open a fence: only its last character may be a carriage return. -/
def opensFence (line : List Char) : Bool :=
  beginsFence line && !line.dropLast.contains '\r'

/-- What names the language of a fence. -/
def fenceHint (line : List Char) : List Char :=
  ((fenceInfo line).dropWhile CharClass.blank.contains).takeWhile CharClass.hintChar.contains

namespace Fence

/-- The fence whose body are the given lines, behind the line that opens it. -/
def between (opening : Scope) (body : List Scope) : Fence where
  hint := String.ofList (fenceHint opening.text)
  language := Language.canonical (String.ofList (fenceHint opening.text))
  body := ⟨opening.stop + 1, body.flatMap (·.text ++ ['\n'])⟩

/-- The fences among lines that follow one another.  A line opens a fence if a later one closes
it, and the next fence is looked for behind that line. -/
def ofLines : List Scope → List Fence
  | [] => []
  | line :: lines =>
    if opensFence line.text then
      match _h : lines.dropWhile (!beginsFence ·.text) with
      | [] => ofLines lines
      | _ :: later => between line (lines.takeWhile (!beginsFence ·.text)) :: ofLines later
    else ofLines lines
termination_by lines => lines.length
decreasing_by
  · simp
  · have hle := List.length_dropWhile_le (!beginsFence ·.text) lines
    simp_all
    omega
  · simp

/-! ## One fence after another -/

variable {line opening close : Scope} {lines body later : List Scope} {f : Fence}

/-- A line that opens no fence is passed over. -/
theorem ofLines_skip
    (h : opensFence line.text = true → ∀ l ∈ lines, beginsFence l.text = false) :
    ofLines (line :: lines) = ofLines lines := by
  rw [ofLines]
  split
  · next hopens =>
    have hdrop : lines.dropWhile (!beginsFence ·.text) = [] := by
      simpa using h hopens
    split
    · rfl
    · next heq =>
      rw [hdrop] at heq
      simp at heq
  · rfl

/-- The first line that begins a fence closes the one that is open. -/
theorem ofLines_fence (hopens : opensFence line.text = true)
    (hbody : ∀ l ∈ body, beginsFence l.text = false) (hclose : beginsFence close.text = true) :
    ofLines (line :: (body ++ close :: later)) = between line body :: ofLines later := by
  have hnot : ∀ l ∈ body, (!beginsFence l.text) = true := by simpa using hbody
  have hdrop : (body ++ close :: later).dropWhile (!beginsFence ·.text) = close :: later := by
    rw [List.dropWhile_append_of_pos hnot, List.dropWhile_cons_of_neg (by simp [hclose])]
  have htake : (body ++ close :: later).takeWhile (!beginsFence ·.text) = body := by
    rw [List.takeWhile_append_of_pos hnot, List.takeWhile_cons_of_neg (by simp [hclose]),
      List.append_nil]
  rw [ofLines, if_pos hopens]
  split
  · next heq =>
    rw [hdrop] at heq
    simp at heq
  · next heq =>
    rw [hdrop] at heq
    obtain ⟨-, rfl⟩ := List.cons.inj heq
    rw [htake]

/-- A line is passed over, or it opens a fence. -/
theorem skip_or_fence (line : Scope) (lines : List Scope) :
    (opensFence line.text = true → ∀ l ∈ lines, beginsFence l.text = false) ∨
    ∃ body close later, lines = body ++ close :: later ∧ opensFence line.text = true ∧
      (∀ l ∈ body, beginsFence l.text = false) ∧ beginsFence close.text = true := by
  by_cases hopens : opensFence line.text = true
  · cases hdrop : lines.dropWhile (!beginsFence ·.text) with
    | nil => exact .inl fun _ => by simpa using hdrop
    | cons close later =>
      refine .inr ⟨lines.takeWhile (!beginsFence ·.text), close, later, ?_, hopens, ?_, ?_⟩
      · rw [← hdrop, List.takeWhile_append_dropWhile]
      · intro l hl
        simpa using List.mem_takeWhile_imp hl
      · have hhead := List.head?_dropWhile_not (!beginsFence ·.text) lines
        rw [hdrop] at hhead
        simpa using hhead
  · exact .inl fun h => absurd h hopens

/-- Induction along the fences of a text. -/
theorem ofLines_induction {motive : List Scope → List Fence → Prop} (nil : motive [] [])
    (skip : ∀ line lines, motive lines (ofLines lines) → motive (line :: lines) (ofLines lines))
    (fence : ∀ line body close later, opensFence line.text = true →
      (∀ l ∈ body, beginsFence l.text = false) → beginsFence close.text = true →
      motive later (ofLines later) →
      motive (line :: (body ++ close :: later)) (between line body :: ofLines later))
    (lines : List Scope) : motive lines (ofLines lines) := by
  induction hn : lines.length using Nat.strongRecOn generalizing lines with
  | ind n ih =>
    cases lines with
    | nil =>
      rw [ofLines]
      exact nil
    | cons line lines =>
      rw [List.length_cons] at hn
      rcases skip_or_fence line lines with h | ⟨body, close, later, rfl, hopens, hbody, hclose⟩
      · rw [ofLines_skip h]
        exact skip line lines (ih _ (by omega) lines rfl)
      · rw [ofLines_fence hopens hbody hclose]
        rw [List.length_append, List.length_cons] at hn
        exact fence line body close later hopens hbody hclose (ih _ (by omega) later rfl)

/-! ## Bodies of fences -/

/-- Each fence is opened by one of the lines, and its body are others of them that begin no
fence. -/
theorem exists_between_of_mem_ofLines (hf : f ∈ ofLines lines) :
    ∃ opening ∈ lines, ∃ body, f = between opening body ∧
      ∀ l ∈ body, l ∈ lines ∧ beginsFence l.text = false := by
  induction lines using ofLines_induction with
  | nil => simp at hf
  | skip line lines ih =>
    obtain ⟨opening, hopening, body, rfl, hbody⟩ := ih hf
    exact ⟨opening, .tail _ hopening, body, rfl, fun l hl => (hbody l hl).imp_left (.tail _)⟩
  | fence line body close later hopens hbody hclose ih =>
    rcases List.mem_cons.1 hf with rfl | hf
    · exact ⟨line, .head _, body, rfl, fun l hl => ⟨by simp [hl], hbody l hl⟩⟩
    · obtain ⟨opening, hopening, body', rfl, hbody'⟩ := ih hf
      exact ⟨opening, by simp [hopening], body', rfl,
        fun l hl => (hbody' l hl).imp_left fun h => by simp [h]⟩

/-- The lines of a body, and an empty one behind its last line feed. -/
theorem splitOn_between (hbody : ∀ l ∈ body, '\n' ∉ l.text) :
    (body.flatMap (·.text ++ ['\n'])).splitOn '\n' = body.map (·.text) ++ [[]] := by
  induction body with
  | nil => rfl
  | cons l body ih =>
    rw [List.forall_mem_cons] at hbody
    rw [List.flatMap_cons, List.append_assoc, List.singleton_append,
      List.splitOn_append_cons_self_of_not_mem hbody.1, ih hbody.2, List.map_cons, List.cons_append]

/-- The text of consecutive lines goes on to where the line behind them begins. -/
theorem consecutive_offset_eq {offset : Nat} (h : Consecutive (body ++ close :: later))
    (hoffset : ∀ l ∈ (body ++ close :: later).head?, l.offset = offset) :
    offset + byteLength (body.flatMap (·.text ++ ['\n'])) = close.offset := by
  induction body generalizing offset with
  | nil => exact (hoffset close rfl).symm
  | cons l body ih =>
    have hl : l.offset = offset := hoffset l rfl
    have hfeed : byteLength ['\n'] = 1 := rfl
    obtain ⟨hnext, hrest⟩ := List.isChain_cons.1 h
    have hlater := ih hrest hnext
    rw [Scope.stop, hl] at hlater
    rw [List.flatMap_cons, byteLength_append, byteLength_append, ← hlater]
    omega

/-- The body stops where the closing line begins. -/
theorem bodyStop_between (h : Consecutive (opening :: (body ++ close :: later))) :
    (between opening body).bodyStop = close.offset := by
  obtain ⟨hnext, hrest⟩ := List.isChain_cons.1 h
  exact consecutive_offset_eq hrest hnext

/-- The body has no line that could close the fence.  A line that can closes it, and that line opens
no other fence. -/
structure ClosedAmong (lines : List Scope) (found : List Fence) (f : Fence) : Prop where
  body_lines : ∀ line ∈ f.body.lines, beginsFence line.text = false
  body_end : f.body.text = [] ∨ f.body.text.getLast? = some '\n'
  closed : ∃ close ∈ lines, close.offset = f.bodyStop ∧ beginsFence close.text = true ∧
    ∀ g ∈ found, g.body.offset ≠ close.stop + 1

theorem between_body_lines (hbody : ∀ l ∈ body, '\n' ∉ l.text ∧ beginsFence l.text = false) :
    ∀ line ∈ (between opening body).body.lines, beginsFence line.text = false := by
  intro line hline
  simp only [Scope.lines, between, splitOn_between fun l hl => (hbody l hl).1] at hline
  have htext := text_mem_of_mem_placeLines hline
  rw [List.mem_append, List.mem_map, List.mem_singleton] at htext
  rcases htext with ⟨l, hl, htext⟩ | htext
  · rw [← htext]
    exact (hbody l hl).2
  · rw [htext]
    rfl

theorem between_body_end (opening : Scope) (body : List Scope) :
    (between opening body).body.text = [] ∨
      (between opening body).body.text.getLast? = some '\n' := by
  rw [between]
  cases body using List.reverseRecOn with
  | nil => exact .inl rfl
  | append_singleton body l =>
    refine .inr ?_
    simp

theorem ClosedAmong.extend {all found : List Fence} (h : f.ClosedAmong lines found)
    {lines' : List Scope} (hlines : lines ⊆ lines')
    (hfound : ∀ close ∈ lines, ∀ g ∈ all, g ∈ found ∨ g.body.offset < close.offset) :
    f.ClosedAmong lines' all := by
  obtain ⟨close, hclose, hstop, hbegins, hothers⟩ := h.closed
  refine ⟨h.body_lines, h.body_end, close, hlines hclose, hstop, hbegins, fun g hg => ?_⟩
  rcases hfound close hclose g hg with hg | hg
  · exact hothers g hg
  · have hle : close.offset ≤ close.stop := Nat.le_add_right _ _
    omega

/-- Where the lines begin behind a place, so do the bodies of their fences. -/
theorem lt_body_offset_of_mem_ofLines {stop : Nat} (hlines : ∀ l ∈ lines, stop < l.offset)
    (hf : f ∈ ofLines lines) : stop + 1 < f.body.offset := by
  obtain ⟨opening, hopening, _, rfl, -⟩ := exists_between_of_mem_ofLines hf
  have hlt := hlines opening hopening
  simp only [between, Scope.stop]
  omega

theorem body_offset_between_le (h : Consecutive (opening :: (body ++ close :: later))) :
    (between opening body).body.offset ≤ close.offset :=
  bodyStop_between h ▸ Nat.le_add_right _ _

/-- The fence that a line closes, if the other fences are opened behind that line. -/
theorem closedAmong_between {found : List Fence}
    (h : Consecutive (opening :: (body ++ close :: later)))
    (hbody : ∀ l ∈ body, '\n' ∉ l.text ∧ beginsFence l.text = false)
    (hclose : beginsFence close.text = true)
    (hfound : ∀ g ∈ found, close.stop + 1 < g.body.offset) :
    (between opening body).ClosedAmong (opening :: (body ++ close :: later))
      (between opening body :: found) := by
  refine ⟨between_body_lines hbody, between_body_end opening body, close, by simp,
    (bodyStop_between h).symm, hclose, List.forall_mem_cons.2 ⟨?_, fun g hg => (hfound g hg).ne'⟩⟩
  have hfirst := body_offset_between_le h
  have hle : close.offset ≤ close.stop := Nat.le_add_right _ _
  omega

/-- **The fences of consecutive lines** come one after another, and each of them is closed by a line
that opens no fence. -/
theorem ofLines_closed (hlines : Consecutive lines) (hfeed : ∀ l ∈ lines, '\n' ∉ l.text) :
    (ofLines lines).Pairwise (fun f g => f.bodyStop < g.body.offset) ∧
      ∀ f ∈ ofLines lines, f.ClosedAmong lines (ofLines lines) := by
  induction lines using ofLines_induction with
  | nil => simp
  | skip line lines ih =>
    obtain ⟨hpairs, hclosed⟩ := ih hlines.tail fun l hl => hfeed l (.tail _ hl)
    exact ⟨hpairs, fun f hf =>
      (hclosed f hf).extend (List.subset_cons_self _ _) fun _ _ g hg => .inl hg⟩
  | fence line body close later hopens hbody hclose ih =>
    have hpair := hlines.pairwise
    rw [List.pairwise_cons, List.pairwise_append, List.pairwise_cons] at hpair
    have hafter : ∀ l ∈ later, close.stop < l.offset := hpair.2.2.1.1
    obtain ⟨hpairs, hclosed⟩ := ih hlines.tail.right_of_append.tail
      fun l hl => hfeed l (by simp [hl])
    have hfirst := body_offset_between_le hlines
    have hle : close.offset ≤ close.stop := Nat.le_add_right _ _
    refine ⟨List.pairwise_cons.2 ⟨fun g hg => ?_, hpairs⟩, List.forall_mem_cons.2 ⟨?_, ?_⟩⟩
    · have hlt := lt_body_offset_of_mem_ofLines hafter hg
      rw [bodyStop_between hlines]
      omega
    · exact closedAmong_between hlines (fun l hl => ⟨hfeed l (by simp [hl]), hbody l hl⟩) hclose
        fun g hg => lt_body_offset_of_mem_ofLines hafter hg
    · intro f hf
      refine (hclosed f hf).extend (by intro l hl; simp [hl]) fun close' hclose' g hg => ?_
      rcases List.mem_cons.1 hg with rfl | hg
      · have hlt := hafter close' hclose'
        exact .inr (by omega)
      · exact .inl hg

end Fence

end CommentTags
