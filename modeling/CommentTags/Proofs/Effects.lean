import Mathlib.Data.List.Forall2

/-!
# Results of computations with effects

Looking up the syntax of a language may have effects, so a scan is a computation in some monad.
What is said of a scan is said for every lawful monad, and none of it looks at the effects.

* `Ensures P x` says what holds of the results of `x`: the computation can be run on values that
  carry a proof of `P`.
* `Together R x y` compares two computations: a single one, run once, gives a result of each, and
  these are related by `R`.
* A `Comparison` is any way to compare computations of two kinds that goes well with doing one
  computation after another.  A statement about all scans is then proved once
  (`Highlighter.scanRange_rel`) and used with several comparisons.

For each of them there are lemmas for `pure`, `bind` and `mapM`, which follow a scan step by step.
-/

set_option autoImplicit false

namespace CommentTags

variable {m : Type → Type} [Monad m] {α β : Type}

/-- Every result of the computation has the property. -/
def Ensures (P : α → Prop) (x : m α) : Prop :=
  ∃ y : m { a // P a }, Subtype.val <$> y = x

namespace Ensures

variable [LawfulMonad m] {P : α → Prop} {Q : β → Prop}

theorem pure {a : α} (h : P a) : Ensures P (Pure.pure a : m α) :=
  ⟨Pure.pure ⟨a, h⟩, by rw [map_pure]⟩

theorem of_forall (h : ∀ a, P a) (x : m α) : Ensures P x :=
  ⟨(fun a => ⟨a, h a⟩) <$> x, by rw [Functor.map_map]; exact id_map' x⟩

theorem imp {P' : α → Prop} {x : m α} (hx : Ensures P x) (h : ∀ a, P a → P' a) : Ensures P' x := by
  obtain ⟨y, rfl⟩ := hx
  exact ⟨(fun a : { a // P a } => ⟨a.1, h a.1 a.2⟩) <$> y, by rw [Functor.map_map]⟩

theorem bind {x : m α} {f : α → m β} (hx : Ensures P x) (hf : ∀ a, P a → Ensures Q (f a)) :
    Ensures Q (x >>= f) := by
  obtain ⟨y, rfl⟩ := hx
  refine ⟨y >>= fun a => (hf a a.2).choose, ?_⟩
  rw [map_bind, bind_map_left]
  exact bind_congr fun a => (hf a a.2).choose_spec

/-- Only what the results can be matters for how a computation goes on. -/
theorem bind_eq_bind {x : m α} {f g : α → m β} (hx : Ensures P x) (h : ∀ a, P a → f a = g a) :
    x >>= f = x >>= g := by
  obtain ⟨y, rfl⟩ := hx
  rw [bind_map_left, bind_map_left]
  exact bind_congr fun a => h a a.2

theorem map {x : m α} {f : α → β} (hx : Ensures P x) (hf : ∀ a, P a → Q (f a)) :
    Ensures Q (f <$> x) := by
  rw [map_eq_pure_bind]
  exact hx.bind fun a ha => .pure (hf a ha)

theorem map_of_forall {f : α → β} (hf : ∀ a, Q (f a)) (x : m α) : Ensures Q (f <$> x) :=
  (of_forall (P := fun _ => True) (fun _ => trivial) x).map fun a _ => hf a

/-- If every step ensures its part, the list of all results has the property part by part. -/
theorem mapM {l : List α} {f : α → m β} {R : α → β → Prop} (h : ∀ a ∈ l, Ensures (R a) (f a)) :
    Ensures (fun bs => ∀ b ∈ bs, ∃ a ∈ l, R a b) (l.mapM f) := by
  induction l with
  | nil => exact .pure (by simp)
  | cons a l ih =>
    rw [List.mapM_cons]
    refine (h a (by simp)).bind fun b hb => ?_
    refine (ih fun a ha => h a (List.mem_cons_of_mem _ ha)).bind fun bs hbs => .pure ?_
    rw [List.forall_mem_cons]
    refine ⟨⟨a, by simp, hb⟩, fun b hb => ?_⟩
    obtain ⟨a, ha, hab⟩ := hbs b hb
    exact ⟨a, List.mem_cons_of_mem _ ha, hab⟩

end Ensures

/-- The two computations can be run as one, with the same effects, and then their results are
related. -/
def Together (R : α → β → Prop) (x : m α) (y : m β) : Prop :=
  ∃ z : m { p : α × β // R p.1 p.2 }, (fun p => p.1.1) <$> z = x ∧ (fun p => p.1.2) <$> z = y

namespace Together

variable [LawfulMonad m] {γ δ : Type} {R : α → β → Prop} {S : γ → δ → Prop}

theorem pure {a : α} {b : β} (h : R a b) : Together R (Pure.pure a : m α) (Pure.pure b) :=
  ⟨Pure.pure ⟨(a, b), h⟩, by rw [map_pure], by rw [map_pure]⟩

theorem refl {R : α → α → Prop} (h : ∀ a, R a a) (x : m α) : Together R x x :=
  ⟨(fun a => ⟨(a, a), h a⟩) <$> x, by rw [Functor.map_map]; exact id_map' x,
    by rw [Functor.map_map]; exact id_map' x⟩

theorem bind {x : m α} {y : m β} {f : α → m γ} {g : β → m δ} (h : Together R x y)
    (hfg : ∀ a b, R a b → Together S (f a) (g b)) : Together S (x >>= f) (y >>= g) := by
  obtain ⟨z, rfl, rfl⟩ := h
  refine ⟨z >>= fun p => (hfg p.1.1 p.1.2 p.2).choose, ?_, ?_⟩
  · rw [map_bind, bind_map_left]
    exact bind_congr fun p => (hfg p.1.1 p.1.2 p.2).choose_spec.1
  · rw [map_bind, bind_map_left]
    exact bind_congr fun p => (hfg p.1.1 p.1.2 p.2).choose_spec.2

/-- Computations that go on from the same result. -/
theorem bind_left {x : m α} {f : α → m γ} {g : α → m δ} (hfg : ∀ a, Together S (f a) (g a)) :
    Together S (x >>= f) (x >>= g) :=
  (refl (R := Eq) (fun _ => rfl) x).bind fun a _ h => h ▸ hfg a

/-- Computations that go on from the same result, which has a property. -/
theorem bind_left_of_ensures {P : α → Prop} {x : m α} {f : α → m γ} {g : α → m δ}
    (hx : Ensures P x) (hfg : ∀ a, P a → Together S (f a) (g a)) :
    Together S (x >>= f) (x >>= g) := by
  obtain ⟨y, rfl⟩ := hx
  rw [bind_map_left, bind_map_left]
  exact bind_left fun a => hfg a.1 a.2

theorem mapM {l : List α} {f : α → m γ} {g : α → m δ} (h : ∀ a ∈ l, Together S (f a) (g a)) :
    Together (List.Forall₂ S) (l.mapM f) (l.mapM g) := by
  induction l with
  | nil => exact .pure .nil
  | cons a l ih =>
    rw [List.mapM_cons, List.mapM_cons]
    refine (h a (by simp)).bind fun b c hbc => ?_
    refine (ih fun a ha => h a (List.mem_cons_of_mem _ ha)).bind fun bs cs hbcs => .pure ?_
    exact .cons hbc hbcs

end Together

/-- A comparison of computations of two kinds, for every type of results.  Giving the same result at
once compares well, and so does going on in ways that compare well. -/
structure Comparison (m n : Type → Type) [Monad m] [Monad n] where
  Rel {α : Type} : m α → n α → Prop
  pure {α : Type} (a : α) : Rel (Pure.pure a) (Pure.pure a)
  bind {α β : Type} {x : m α} {y : n α} {f : α → m β} {g : α → n β} :
    Rel x y → (∀ a, Rel (f a) (g a)) → Rel (x >>= f) (y >>= g)

theorem Comparison.mapM {n : Type → Type} [Monad n] [LawfulMonad m] [LawfulMonad n]
    (C : Comparison m n) {f : α → m β} {g : α → n β} {l : List α}
    (h : ∀ a ∈ l, C.Rel (f a) (g a)) : C.Rel (l.mapM f) (l.mapM g) := by
  induction l with
  | nil => exact C.pure []
  | cons a l ih =>
    obtain ⟨ha, hl⟩ := List.forall_mem_cons.1 h
    rw [List.mapM_cons, List.mapM_cons]
    exact C.bind ha fun b => C.bind (ih hl) fun bs => C.pure (b :: bs)

/-- Computations with a state compare as they do from each state. -/
def Comparison.stateT {n : Type → Type} [Monad n] (C : Comparison m n) (σ : Type) :
    Comparison (StateT σ m) (StateT σ n) where
  Rel x y := ∀ s, C.Rel (x.run s) (y.run s)
  pure a s := C.pure (a, s)
  bind hxy hfg s := C.bind (hxy s) fun p => hfg p.1 p.2

/-! ## Lists of computations -/

variable [LawfulMonad m]

theorem mapM_congr {l : List α} {f g : α → m β} (h : ∀ a ∈ l, f a = g a) : l.mapM f = l.mapM g := by
  induction l with
  | nil => rfl
  | cons a l ih =>
    rw [List.mapM_cons, List.mapM_cons, h a (by simp),
      ih fun a ha => h a (List.mem_cons_of_mem _ ha)]

/-- A change of every result is a change of the list of results. -/
theorem mapM_map_result {γ : Type} (g : β → γ) (l : List α) (f : α → m β) :
    (l.mapM fun a => g <$> f a) = List.map g <$> l.mapM f := by
  induction l with
  | nil => rw [List.mapM_nil, List.mapM_nil, map_pure, List.map_nil]
  | cons a l ih =>
    rw [List.mapM_cons, List.mapM_cons, ih]
    simp only [map_eq_pure_bind, bind_assoc, pure_bind, List.map_cons]

/-- Computations that never fail, done for a list, make one that never fails. -/
theorem mapM_lift (f : α → m β) (l : List α) :
    l.mapM (fun a => OptionT.lift (f a)) = (OptionT.lift (l.mapM f) : OptionT m (List β)) := by
  induction l with
  | nil => rw [List.mapM_nil, List.mapM_nil, OptionT.lift_pure]
  | cons a l ih =>
    rw [List.mapM_cons, List.mapM_cons, ih]
    refine OptionT.ext ?_
    simp

theorem mapM_eq_some {f : α → Option β} {g : α → β} {l : List α} (h : ∀ a ∈ l, f a = some (g a)) :
    l.mapM f = some (l.map g) := by
  rw [mapM_congr (g := fun a => pure (g a)) h, List.mapM_pure]
  rfl

end CommentTags
