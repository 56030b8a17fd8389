import Mathlib.Tactic.SplitIfs

/-!
# Programs over a state that may fail

A program takes a state to a result and a state; where it fails, the state it reached is kept.
Several ways to say what a program does: a triple of what holds before and after, an invariant, what
it yields where it is sure to succeed, what it ensures where it succeeds, and the trace that it adds
to one part of the state.
-/

namespace Nanobook

universe u v w

/-- A computation over a state that ends with a value or an error. -/
def Program (E : Type u) (S : Type v) (A : Type w) := S → Except E A × S

namespace Program

variable {E S A B T : Type}

protected def pure (a : A) : Program E S A := fun s ↦ (.ok a, s)

protected def bind (m : Program E S A) (f : A → Program E S B) : Program E S B := fun s ↦
  match m s with
  | (.ok a, s) => f a s
  | (.error e, s) => (.error e, s)

instance : Monad (Program E S) where
  pure := Program.pure
  bind := Program.bind

/-- Fail with an error. -/
def raise (e : E) : Program E S A := fun s ↦ (.error e, s)

/-- End as a computation without a state did. -/
def lift (x : Except E A) : Program E S A := fun s ↦ (x, s)

def read (f : S → A) : Program E S A := fun s ↦ (.ok (f s), s)

def modify (f : S → S) : Program E S Unit := fun s ↦ (.ok (), f s)

/-- Do something only under a condition. -/
def when (c : Prop) [Decidable c] (m : Program E S Unit) : Program E S Unit :=
  if c then m else pure ()

theorem bind_of_ok {m : Program E S A} {f : A → Program E S B} {s s' : S} {a : A}
    (h : m s = (.ok a, s')) : (m >>= f) s = f a s' := by
  change Program.bind m f s = _
  rw [Program.bind, h]

theorem bind_of_error {m : Program E S A} {f : A → Program E S B} {s s' : S} {e : E}
    (h : m s = (.error e, s')) : (m >>= f) s = (.error e, s') := by
  change Program.bind m f s = _
  rw [Program.bind, h]

section Run

variable {f : A → Program E S B} {s : S}

theorem read_bind (g : S → A) : (read g >>= f) s = f (g s) s := rfl

theorem pure_bind (a : A) : ((pure a : Program E S A) >>= f) s = f a s := rfl

theorem raise_bind (e : E) : ((raise e : Program E S A) >>= f) s = (.error e, s) := rfl

theorem lift_ok_bind (a : A) : (lift (.ok a) >>= f) s = f a s := rfl

theorem lift_error_bind (e : E) : ((lift (.error e) : Program E S A) >>= f) s = (.error e, s) := rfl

theorem when_pos {c : Prop} [Decidable c] (h : c) (m : Program E S Unit) : when c m = m := if_pos h

theorem when_neg {c : Prop} [Decidable c] (h : ¬ c) (m : Program E S Unit) : when c m = pure () :=
  if_neg h

end Run

/-- Programs that end in the same way are followed by the same. -/
theorem bind_congr_left {m m' : Program E S A} {f : A → Program E S B} {s s' : S}
    (h : m s = m' s') : (m >>= f) s = (m' >>= f) s' := by
  change Program.bind m f s = Program.bind m' f s'
  rw [Program.bind, Program.bind, h]

/-- Where both succeed, one after the other. -/
theorem bind_eq_ok {m : Program E S A} {f : A → Program E S B} {s s'' : S} {b : B}
    (h : (m >>= f) s = (.ok b, s'')) : ∃ a s', m s = (.ok a, s') ∧ f a s' = (.ok b, s'') := by
  rcases hres : m s with ⟨result, s'⟩
  cases result with
  | ok a =>
      rw [bind_of_ok hres] at h
      exact ⟨a, s', rfl, h⟩
  | error e =>
      rw [bind_of_error hres] at h
      cases h

/-! ## Triples and invariants -/

/-- From a state with `P`, the result and the state reached satisfy `Q`. -/
def Triple (P : S → Prop) (m : Program E S A) (Q : Except E A → S → Prop) : Prop :=
  ∀ s, P s → Q (m s).1 (m s).2

/-- The program keeps `I`, also where it fails. -/
def Keeps (I : S → Prop) (m : Program E S A) : Prop := Triple I m fun _ ↦ I

section Triple

variable {P I : S → Prop} {Q : Except E A → S → Prop} {R : Except E B → S → Prop}
  {m : Program E S A} {f : A → Program E S B}

theorem Triple.bind (hm : Triple P m Q) (hf : ∀ a, Triple (Q (.ok a)) (f a) R)
    (herror : ∀ e s, Q (.error e) s → R (.error e) s) : Triple P (m >>= f) R := by
  intro s hs
  have h := hm s hs
  rcases hres : m s with ⟨result, s'⟩
  rw [hres] at h
  cases result with
  | ok a =>
      rw [bind_of_ok hres]
      exact hf a s' h
  | error e =>
      rw [bind_of_error hres]
      exact herror e s' h

theorem Keeps.pure (a : A) : Keeps I (pure a : Program E S A) := fun _ hs ↦ hs

theorem Keeps.raise (e : E) : Keeps I (raise e : Program E S A) := fun _ hs ↦ hs

theorem Keeps.read (g : S → A) : Keeps I (read g : Program E S A) := fun _ hs ↦ hs

theorem Keeps.bind (hm : Keeps I m) (hf : ∀ a, Keeps I (f a)) : Keeps I (m >>= f) :=
  Triple.bind hm hf fun _ _ hs ↦ hs

theorem Keeps.ite {c : Prop} [Decidable c] {m m' : Program E S A} (h : Keeps I m)
    (h' : Keeps I m') : Keeps I (if c then m else m') := by
  split_ifs
  · exact h
  · exact h'

theorem Keeps.when {c : Prop} [Decidable c] {m : Program E S Unit} (h : Keeps I m) :
    Keeps I (when c m) :=
  h.ite (Keeps.pure ())

end Triple

/-! ## Success -/

/-- From a state with `I`, the program succeeds with a value that satisfies `K`, and keeps `I`. -/
def Yields (I : S → Prop) (m : Program E S A) (K : A → Prop) : Prop :=
  ∀ s, I s → ∃ a s', m s = (.ok a, s') ∧ K a ∧ I s'

section Yields

variable {I : S → Prop} {m m' : Program E S A} {f : A → Program E S B} {K : A → Prop}
  {K' : B → Prop}

theorem Yields.pure {a : A} (ha : K a) : Yields I (pure a : Program E S A) K :=
  fun s hs ↦ ⟨a, s, rfl, ha, hs⟩

theorem Yields.bind (hm : Yields I m K) (hf : ∀ a, K a → Yields I (f a) K') :
    Yields I (m >>= f) K' := by
  intro s hs
  obtain ⟨a, s', hres, ha, hs'⟩ := hm s hs
  rw [bind_of_ok hres]
  exact hf a ha s' hs'

theorem Yields.when {c : Prop} [Decidable c] {m : Program E S Unit} {K : Unit → Prop}
    (h : Yields I m K) (hunit : K ()) : Yields I (when c m) K := by
  rw [Program.when]
  split_ifs
  · exact h
  · exact Yields.pure hunit

end Yields

/-- How the state before, the result and the state after are related where the program succeeds. -/
def Ensures (m : Program E S A) (R : S → A → S → Prop) : Prop :=
  ∀ s a s', m s = (.ok a, s') → R s a s'

section Ensures

variable {m m' : Program E S A} {f : A → Program E S B} {R R' : S → A → S → Prop}

theorem Ensures.mono (h : Ensures m R) (himp : ∀ s a s', R s a s' → R' s a s') : Ensures m R' :=
  fun s a s' hres ↦ himp s a s' (h s a s' hres)

theorem Ensures.pure (a : A) : Ensures (pure a : Program E S A) fun s b s' ↦ b = a ∧ s' = s := by
  intro s b s' hres
  cases hres
  exact ⟨rfl, rfl⟩

theorem Ensures.raise (e : E) : Ensures (raise e : Program E S A) R := by
  intro s b s' hres
  cases hres

/-- The relations are composed. -/
theorem Ensures.bind {R' : A → S → B → S → Prop} (hm : Ensures m R)
    (hf : ∀ a, Ensures (f a) (R' a)) :
    Ensures (m >>= f) fun s b s'' ↦ ∃ a s', R s a s' ∧ R' a s' b s'' := by
  intro s b s'' hbind
  obtain ⟨a, s', hres, hrest⟩ := bind_eq_ok hbind
  exact ⟨a, s', hm s a s' hres, hf a s' b s'' hrest⟩

theorem Ensures.ite {c : Prop} [Decidable c] (h : c → Ensures m R) (h' : ¬ c → Ensures m' R) :
    Ensures (if c then m else m') R := by
  split_ifs with hc
  · exact h hc
  · exact h' hc

end Ensures

/-! ## Traces -/

section Trace

variable (trace : S → List T)

/-- The program adds to the trace, and what it adds is in the language of its result. -/
def Emits (m : Program E S A) (L : Except E A → List T → Prop) : Prop :=
  ∀ s, ∃ l, trace (m s).2 = trace s ++ l ∧ L (m s).1 l

/-- Everything that is added satisfies `p`, and the result `q`. -/
def EmitsOnly (p : T → Prop) (q : Except E A → Prop) (m : Program E S A) : Prop :=
  Emits trace m fun r l ↦ (∀ x ∈ l, p x) ∧ q r

variable {trace} {p : T → Prop} {q : Except E A → Prop} {L L' : Except E A → List T → Prop}
  {m m' : Program E S A}
  {f : A → Program E S B}

theorem Emits.mono (h : Emits trace m L) (himp : ∀ r l, L r l → L' r l) : Emits trace m L' := by
  intro s
  obtain ⟨l, htrace, hl⟩ := h s
  exact ⟨l, htrace, himp _ _ hl⟩

theorem Emits.pure (a : A) : Emits trace (pure a : Program E S A) fun r l ↦ r = .ok a ∧ l = [] :=
  fun _ ↦ ⟨[], (List.append_nil _).symm, rfl, rfl⟩

theorem Emits.raise (e : E) :
    Emits trace (raise e : Program E S A) fun r l ↦ r = .error e ∧ l = [] :=
  fun _ ↦ ⟨[], (List.append_nil _).symm, rfl, rfl⟩

/-- The trace of the first program comes first; it is all there is where that fails. -/
theorem Emits.bind {M : A → Except E B → List T → Prop} (hm : Emits trace m L)
    (hf : ∀ a l, L (.ok a) l → Emits trace (f a) (M a)) : Emits trace (m >>= f) fun r l ↦
      (∃ e, r = .error e ∧ L (.error e) l) ∨
        ∃ a l₁ l₂, l = l₁ ++ l₂ ∧ L (.ok a) l₁ ∧ M a r l₂ := by
  intro s
  obtain ⟨l₁, htrace₁, hl₁⟩ := hm s
  rcases hres : m s with ⟨result, s'⟩
  rw [hres] at htrace₁ hl₁
  cases result with
  | ok a =>
      obtain ⟨l₂, htrace₂, hl₂⟩ := hf a l₁ hl₁ s'
      rw [bind_of_ok hres]
      refine ⟨l₁ ++ l₂, ?_, .inr ⟨a, l₁, l₂, rfl, hl₁, hl₂⟩⟩
      rw [htrace₂, htrace₁, List.append_assoc]
  | error e =>
      rw [bind_of_error hres]
      exact ⟨l₁, htrace₁, .inl ⟨e, rfl, hl₁⟩⟩

/-- What is known of the result of the first program can be used for the second. -/
theorem EmitsOnly.bind {q' : Except E B → Prop} (hm : EmitsOnly trace p q m)
    (hf : ∀ a, q (.ok a) → EmitsOnly trace p q' (f a))
    (herror : ∀ e, q (.error e) → q' (.error e)) :
    EmitsOnly trace p q' (m >>= f) := by
  refine (Emits.bind hm fun a l h ↦ hf a h.2).mono fun r l h ↦ ?_
  rcases h with ⟨e, rfl, hl, he⟩ | ⟨-, l₁, l₂, rfl, ⟨h₁, -⟩, h₂, hr⟩
  · exact ⟨hl, herror e he⟩
  · refine ⟨fun x hx ↦ ?_, hr⟩
    rcases List.mem_append.mp hx with hx | hx
    · exact h₁ x hx
    · exact h₂ x hx

/-- A program that leaves the trace as it is. -/
theorem EmitsOnly.of_eq (htrace : ∀ s, trace (m s).2 = trace s) (hq : ∀ s, q (m s).1) :
    EmitsOnly trace p q m :=
  fun s ↦ ⟨[], (htrace s).trans (List.append_nil _).symm, by simp, hq s⟩

theorem EmitsOnly.pure {a : A} (ha : q (.ok a)) : EmitsOnly trace p q (pure a : Program E S A) :=
  (Emits.pure a).mono fun r l h ↦ ⟨by simp [h.2], h.1 ▸ ha⟩

theorem EmitsOnly.raise {e : E} (he : q (.error e)) :
    EmitsOnly trace p q (raise e : Program E S A) :=
  (Emits.raise e).mono fun r l h ↦ ⟨by simp [h.2], h.1 ▸ he⟩

theorem EmitsOnly.ite {c : Prop} [Decidable c] (h : EmitsOnly trace p q m)
    (h' : EmitsOnly trace p q m') : EmitsOnly trace p q (if c then m else m') := by
  split_ifs
  · exact h
  · exact h'

end Trace

end Program

end Nanobook
