import Mathlib.Data.List.Basic

/-!
# Runs tracked by an abstract run

A concrete step `f : S → A → Option S` and an abstract one `g : T → A → T` work off the same inputs.
`Tracks` says that a relation `R` holds between the two states after every input, which is what a
display, a mirror or a cache promises of what it shows.  Where one step keeps `R` exactly if its
input meets a condition on the abstract state, so does a run whose inputs all meet it.
-/

namespace Nanobook.Tracking

universe u v w

variable {S : Type u} {A : Type v} {T : Type w}

/-- The concrete run goes through, and is related to the abstract one after every input. -/
def Tracks (f : S → A → Option S) (g : T → A → T) (R : S → T → Prop) (l : List A) (s : S) (t : T) :
    Prop :=
  ∀ i ≤ l.length, ∃ s', (l.take i).foldlM f s = some s' ∧ R s' ((l.take i).foldl g t)

/-- Every input meets a condition in the concrete state it finds. -/
def Admissible (f : S → A → Option S) (P : S → A → Prop) (l : List A) (s : S) : Prop :=
  ∀ i a s', l[i]? = some a → (l.take i).foldlM f s = some s' → P s' a

/-- Every input meets a condition in the abstract state it finds. -/
def Meets (g : T → A → T) (C : T → A → Prop) (l : List A) (t : T) : Prop :=
  ∀ i a, l[i]? = some a → C ((l.take i).foldl g t) a

variable {f : S → A → Option S} {g : T → A → T} {R : S → T → Prop} {P : S → A → Prop}
  {C : T → A → Prop} {l : List A} {a : A} {s : S} {t : T}

theorem tracks_nil : Tracks f g R [] s t ↔ R s t := by
  constructor
  · intro h
    obtain ⟨s', hs', hR⟩ := h 0 (Nat.zero_le _)
    cases hs'
    exact hR
  · intro hR i _
    exact ⟨s, by rw [List.take_nil]; rfl, by rwa [List.take_nil]⟩

theorem tracks_cons :
    Tracks f g R (a :: l) s t ↔ R s t ∧ ∃ s', f s a = some s' ∧ Tracks f g R l s' (g t a) := by
  constructor
  · intro h
    obtain ⟨s₀, hs₀, hR⟩ := h 0 (Nat.zero_le _)
    cases hs₀
    obtain ⟨s', hs', -⟩ := h 1 (by simp)
    obtain ⟨s', hfirst, -⟩ := Option.bind_eq_some_iff.mp hs'
    refine ⟨hR, s', hfirst, fun i hi ↦ ?_⟩
    obtain ⟨s'', hs'', hR''⟩ := h (i + 1) (by simpa using hi)
    rw [List.take_succ_cons, List.foldlM_cons, hfirst] at hs''
    exact ⟨s'', hs'', hR''⟩
  · rintro ⟨hR, s', hfirst, h⟩ i hi
    cases i with
    | zero => exact ⟨s, rfl, hR⟩
    | succ i =>
        obtain ⟨s'', hs'', hR''⟩ := h i (by simpa using hi)
        refine ⟨s'', ?_, hR''⟩
        rw [List.take_succ_cons, List.foldlM_cons, hfirst]
        exact hs''

theorem admissible_nil : Admissible f P [] s := fun _ _ _ h ↦ by cases h

theorem admissible_cons :
    Admissible f P (a :: l) s ↔ P s a ∧ ∀ s', f s a = some s' → Admissible f P l s' := by
  constructor
  · intro h
    refine ⟨h 0 a s rfl rfl, fun s' hfirst i b s'' hb hs'' ↦ h (i + 1) b s'' hb ?_⟩
    rw [List.take_succ_cons, List.foldlM_cons, hfirst]
    exact hs''
  · rintro ⟨hP, h⟩ i b s'' hb hs''
    cases i with
    | zero =>
        cases hb
        cases hs''
        exact hP
    | succ i =>
        rw [List.take_succ_cons, List.foldlM_cons] at hs''
        obtain ⟨s', hfirst, hs''⟩ := Option.bind_eq_some_iff.mp hs''
        exact h s' hfirst i b s'' hb hs''

theorem meets_nil : Meets g C [] t := fun _ _ h ↦ by cases h

theorem meets_cons : Meets g C (a :: l) t ↔ C t a ∧ Meets g C l (g t a) := by
  constructor
  · exact fun h ↦ ⟨h 0 a rfl, fun i b hb ↦ h (i + 1) b hb⟩
  · rintro ⟨hfirst, h⟩ i b hb
    cases i with
    | zero =>
        cases hb
        exact hfirst
    | succ i => exact h i b hb

/-- The two runs stay related exactly if every input meets the condition under which a step keeps
them so. -/
theorem tracks_iff {I : S → Prop}
    (hstep : ∀ s t a, I s → R s t → P s a →
      ∃ s', f s a = some s' ∧ I s' ∧ (R s' (g t a) ↔ C t a))
    (hI : I s) (hR : R s t) (hP : Admissible f P l s) : Tracks f g R l s t ↔ Meets g C l t := by
  induction l generalizing s t with
  | nil => exact iff_of_true (tracks_nil.mpr hR) meets_nil
  | cons a l ih =>
      obtain ⟨hfirst, hrest⟩ := admissible_cons.mp hP
      obtain ⟨s', hs', hI', hstep'⟩ := hstep s t a hI hR hfirst
      rw [tracks_cons, meets_cons]
      constructor
      · rintro ⟨-, s'', hs'', h⟩
        obtain rfl : s' = s'' := Option.some.inj (hs'.symm.trans hs'')
        have hR' : R s' (g t a) := by
          obtain ⟨r, hr, hR'⟩ := h 0 (Nat.zero_le _)
          cases hr
          exact hR'
        exact ⟨hstep'.mp hR', (ih hI' hR' (hrest s' hs')).mp h⟩
      · rintro ⟨hC, h⟩
        have hR' : R s' (g t a) := hstep'.mpr hC
        exact ⟨hR, s', hs', (ih hI' hR' (hrest s' hs')).mpr h⟩

end Nanobook.Tracking
