import Mathlib.Data.List.Infix

/-!
# Objects in a text

What every reader of JSON goes by, whatever is in the object that it reads: outside of strings the
brackets are closed in the end and not before, and what follows a string is a comma, a colon or a
closing bracket.  So what is left of the texts of objects when their writers stopped within them is
no object, and does not become one by the beginnings of other texts that are written behind it.
-/

namespace Nanobook.Objects

/-- Where a reader is: outside of strings in so many brackets, in a string, behind a backslash in
it, right behind a string, or behind the whole object; or it has given up. -/
inductive State where
  | outside (depth : Nat)
  | inString (depth : Nat)
  | escaped (depth : Nat)
  | afterString (depth : Nat)
  | finished
  | lost
deriving DecidableEq, Repr

def isBlank (c : Char) : Bool := c = ' ' || c = '\t' || c = '\n' || c = '\r'

namespace State

/-- Behind a closing bracket. -/
def closed : Nat → State
  | 0 => .lost
  | 1 => .finished
  | depth + 2 => .outside (depth + 1)

def step : State → Char → State
  | .outside depth, c =>
      if c = '"' then .inString depth
      else if c = '\x7b' ∨ c = '[' then .outside (depth + 1)
      else if c = '\x7d' ∨ c = ']' then closed depth
      else .outside depth
  | .inString depth, c =>
      if c = '"' then .afterString depth
      else if c = '\\' then .escaped depth
      else .inString depth
  | .escaped depth, _ => .inString depth
  | .afterString depth, c =>
      if c = '\x7d' ∨ c = ']' then closed depth
      else if c = ',' ∨ c = ':' then .outside depth
      else if isBlank c then .afterString depth
      else .lost
  | .finished, c => if isBlank c then .finished else .lost
  | .lost, _ => .lost

def run (st : State) (text : List Char) : State := text.foldl step st

/-- What has been read is no object: a bracket is open, or the reader has given up. -/
def Unclosed : State → Prop
  | .outside depth | .inString depth | .escaped depth | .afterString depth => 0 < depth
  | .finished => False
  | .lost => True

/-- The same place within more brackets. -/
def within (d : Nat) : State → State
  | .outside depth => .outside (depth + d)
  | .inString depth => .inString (depth + d)
  | .escaped depth => .escaped (depth + d)
  | .afterString depth => .afterString (depth + d)
  | .finished => .outside d
  | .lost => .lost

variable {st : State} {c : Char} {d : Nat} {text p : List Char}

@[simp] theorem run_cons : run st (c :: text) = run (step st c) text := rfl

theorem run_append : run st (p ++ text) = run (run st p) text := List.foldl_append

@[simp] theorem run_lost : run .lost text = .lost := by
  induction text with
  | nil => rfl
  | cons c text ih => exact ih

theorem closed_cases (h : 0 < d) : (closed d).Unclosed ∨ closed d = .finished := by
  match d, h with
  | 1, _ => exact .inr rfl
  | d + 2, _ => exact .inl d.succ_pos

/-- The last bracket that is open may be closed. -/
theorem step_cases (h : st.Unclosed) : (st.step c).Unclosed ∨ st.step c = .finished := by
  cases st with
  | outside d =>
      rw [step]
      split_ifs
      · exact .inl h
      · exact .inl d.succ_pos
      · exact closed_cases h
      · exact .inl h
  | inString d =>
      rw [step]
      split_ifs
      · exact .inl h
      · exact .inl h
      · exact .inl h
  | escaped d => exact .inl h
  | afterString d =>
      rw [step]
      split_ifs
      · exact closed_cases h
      · exact .inl h
      · exact .inl h
      · exact .inl trivial
  | finished => exact h.elim
  | lost => exact .inl trivial

theorem step_finished : step .finished c = .finished ∨ step .finished c = .lost := by
  rw [step]
  split_ifs
  · exact .inl rfl
  · exact .inr rfl

theorem run_finished (text : List Char) :
    run .finished text = .finished ∨ run .finished text = .lost := by
  induction text with
  | nil => exact .inl rfl
  | cons c text ih =>
      rcases step_finished (c := c) with h | h
      · rw [run_cons, h]
        exact ih
      · rw [run_cons, h, run_lost]
        exact .inr rfl

theorem run_cases (h : st.Unclosed) : (st.run text).Unclosed ∨ st.run text = .finished := by
  induction text generalizing st with
  | nil => exact .inl h
  | cons c text ih =>
      rcases step_cases (c := c) h with hstep | hstep
      · exact ih hstep
      · rw [run_cons, hstep]
        rcases run_finished text with hrun | hrun
        · exact .inr hrun
        · rw [hrun]
          exact .inl trivial

/-- The text of an object is open from its first bracket on. -/
theorem run_bracket_cases (rest : List Char) :
    (run (.outside 0) ('\x7b' :: rest)).Unclosed ∨
      run (.outside 0) ('\x7b' :: rest) = .finished := by
  have hopen : (State.outside 1).Unclosed := Nat.one_pos
  have hrun := @run_cases (.outside 1) rest hopen
  exact hrun

theorem closed_add (hd : 0 < d) {depth : Nat} (h : closed depth ≠ .lost) :
    closed (depth + d) = within d (closed depth) := by
  match depth, d, hd with
  | 0, _, _ => exact absurd rfl h
  | 1, d + 1, _ => exact congrArg closed (by omega : 1 + (d + 1) = d + 2)
  | depth + 2, d + 1, _ =>
      have hsum : depth + 2 + (d + 1) = depth + d + 1 + 2 := by omega
      rw [hsum]
      exact congrArg State.outside (by omega)

/-- Within more brackets a reader does the same, until it is behind the object. -/
theorem step_within (hd : 0 < d) (hst : st ≠ .finished) (h : st.step c ≠ .lost) :
    (st.within d).step c = (st.step c).within d := by
  cases st with
  | outside depth =>
      simp only [within, step] at h ⊢
      split_ifs at h ⊢
      · rfl
      · exact congrArg State.outside (by omega)
      · exact closed_add hd h
      · rfl
  | inString depth =>
      simp only [within, step]
      split_ifs <;> rfl
  | escaped depth => rfl
  | afterString depth =>
      simp only [within, step] at h ⊢
      split_ifs at h ⊢
      · exact closed_add hd h
      · rfl
      · rfl
      · exact absurd rfl h
  | finished => exact absurd rfl hst
  | lost => rfl

theorem run_within (hd : 0 < d) (hfinished : ∀ p, p <+: text → p ≠ text → st.run p ≠ .finished)
    (h : st.run text ≠ .lost) : (st.within d).run text = (st.run text).within d := by
  induction text generalizing st with
  | nil => rfl
  | cons c text ih =>
      have hstep : st.step c ≠ .lost := by
        intro hlost
        rw [run_cons, hlost, run_lost] at h
        exact h rfl
      have hst : st ≠ .finished := hfinished [] List.nil_prefix (List.cons_ne_nil c text).symm
      rw [run_cons, step_within hd hst hstep]
      refine ih (fun p hp hne ↦ ?_) h
      exact hfinished (c :: p) ((List.prefix_cons_inj c).mpr hp) fun heq ↦ hne (List.cons.inj heq).2

end State

open State

/-- A text that a reader can take for an object. -/
def IsObject (text : List Char) : Prop := run (.outside 0) text = .finished

instance (text : List Char) : Decidable (IsObject text) :=
  inferInstanceAs (Decidable (run (.outside 0) text = .finished))

/-- The text of an object whose first key begins with a letter, without blanks around it. -/
structure Entry (s : List Char) : Prop where
  object : IsObject s
  start : ∃ c, c.isAlpha = true ∧ ['\x7b', '"', c] <+: s
  stop : s.getLast? = some '\x7d'

/-- What a writer of such a text has written when it stops. -/
def Piece (q : List Char) : Prop := q ≠ [] ∧ ∃ s, Entry s ∧ q <+: s

section Splicing

variable {s p q : List Char} {st : State}

theorem Entry.ne_nil (h : Entry s) : s ≠ [] := by
  rintro rfl
  cases h.stop

theorem Entry.piece (h : Entry s) : Piece s := ⟨h.ne_nil, s, h, List.prefix_refl s⟩

/-- A writer that stopped had written up to the key, or some of it. -/
theorem Entry.prefix_cases (h : Entry s) (hq : q <+: s) :
    q = [] ∨ q = ['\x7b'] ∨ q = ['\x7b', '"'] ∨
      ∃ c rest, c.isAlpha = true ∧ q = '\x7b' :: '"' :: c :: rest := by
  obtain ⟨c, hc, rest, rfl⟩ := h.start
  match q with
  | [] => exact .inl rfl
  | [a] =>
      obtain ⟨rfl, -⟩ := List.cons_prefix_cons.mp hq
      exact .inr (.inl rfl)
  | [a, b] =>
      obtain ⟨rfl, hq₁⟩ := List.cons_prefix_cons.mp hq
      obtain ⟨rfl, -⟩ := List.cons_prefix_cons.mp hq₁
      exact .inr (.inr (.inl rfl))
  | a :: b :: e :: q =>
      obtain ⟨rfl, hq₁⟩ := List.cons_prefix_cons.mp hq
      obtain ⟨rfl, hq₂⟩ := List.cons_prefix_cons.mp hq₁
      obtain ⟨rfl, -⟩ := List.cons_prefix_cons.mp hq₂
      exact .inr (.inr (.inr ⟨e, q, hc, rfl⟩))

theorem Piece.head (h : Piece q) : ∃ rest, q = '\x7b' :: rest := by
  obtain ⟨hne, s, hs, hq⟩ := h
  rcases hs.prefix_cases hq with rfl | rfl | rfl | ⟨c, rest, -, rfl⟩
  · exact absurd rfl hne
  · exact ⟨_, rfl⟩
  · exact ⟨_, rfl⟩
  · exact ⟨_, rfl⟩

/-- A text that is cut off is no object. -/
theorem Entry.unclosed_of_prefix (h : Entry s) (hp : p <+: s) (hne : p ≠ []) (hcut : p ≠ s) :
    (run (.outside 0) p).Unclosed := by
  obtain ⟨rest, rfl⟩ := Piece.head ⟨hne, s, h, hp⟩
  refine (run_bracket_cases rest).resolve_right fun hfinished ↦ ?_
  obtain ⟨r, rfl⟩ := hp
  have hr : r ≠ [] := by
    rintro rfl
    exact hcut (List.append_nil _).symm
  obtain ⟨r, last, rfl⟩ := (List.eq_nil_or_concat' r).resolve_left hr
  have hobject := h.object
  have hstop := h.stop
  rw [← List.append_assoc, List.getLast?_concat] at hstop
  obtain rfl := Option.some_inj.mp hstop
  rw [IsObject, run_append, hfinished, run_append] at hobject
  rcases run_finished r with hrun | hrun
  · rw [hrun] at hobject
    cases hobject
  · rw [hrun] at hobject
    cases hobject

/-- A letter behind a string is not read over. -/
theorem step_afterString_of_isAlpha {c : Char} (hc : c.isAlpha = true) (d : Nat) :
    step (.afterString d) c = .lost := by
  have hne : ∀ b : Char, b.isAlpha = false → c ≠ b := by
    rintro b hb rfl
    rw [hc] at hb
    cases hb
  have hblank : isBlank c = false := by
    simp [isBlank, hne ' ' rfl, hne '\t' rfl, hne '\n' rfl, hne '\r' rfl]
  simp [step, hne '\x7d' rfl, hne ']' rfl, hne ',' rfl, hne ':' rfl, hblank]

/-- In a string, the text of an object ends the string at its first key. -/
theorem Entry.unclosed_inString (h : Entry s) (hq : q <+: s) {d : Nat} (hd : 0 < d)
    (hst : st = .inString d ∨ st = .escaped d) : (run st q).Unclosed := by
  have hbracket : step st '\x7b' = .inString d := by
    rcases hst with rfl | rfl
    · rfl
    · rfl
  rcases h.prefix_cases hq with rfl | rfl | rfl | ⟨c, rest, hc, rfl⟩
  · rcases hst with rfl | rfl
    · exact hd
    · exact hd
  · rw [run_cons, hbracket]
    exact hd
  · rw [run_cons, hbracket]
    exact hd
  · have hquote : step (.inString d) '"' = .afterString d := rfl
    rw [run_cons, hbracket, run_cons, hquote, run_cons, step_afterString_of_isAlpha hc, run_lost]
    exact trivial

/-- What is no object does not become one by a text that is written behind it. -/
theorem Entry.unclosed_run (h : Entry s) (hq : q <+: s) (hst : st.Unclosed) :
    (run st q).Unclosed := by
  by_cases hne : q = []
  · rwa [hne]
  obtain ⟨rest, hrest⟩ := Piece.head ⟨hne, s, h, hq⟩
  cases st with
  | outside d =>
      have hlost : run (.outside 0) q ≠ .lost := by
        intro hlost
        obtain ⟨r, rfl⟩ := hq
        have hobject := h.object
        rw [IsObject, run_append, hlost, run_lost] at hobject
        cases hobject
      have hproper : ∀ p, p <+: q → p ≠ q → run (.outside 0) p ≠ .finished := by
        intro p hp hpq hfinished
        by_cases hnil : p = []
        · subst hnil
          cases hfinished
        · have hcut : p ≠ s := by
            rintro rfl
            exact hpq (hp.eq_of_length (hp.length_le.antisymm hq.length_le))
          have hunclosed := h.unclosed_of_prefix (hp.trans hq) hnil hcut
          rw [hfinished] at hunclosed
          exact hunclosed
      have hwithin := run_within hst hproper hlost
      rw [within, Nat.zero_add] at hwithin
      rw [hwithin]
      have hopen : (run (.outside 0) q).Unclosed ∨ run (.outside 0) q = .finished := by
        rw [hrest]
        exact run_bracket_cases rest
      rcases hopen with hopen | hopen
      · cases hrun : run (.outside 0) q with
        | outside depth => exact Nat.add_pos_right depth hst
        | inString depth => exact Nat.add_pos_right depth hst
        | escaped depth => exact Nat.add_pos_right depth hst
        | afterString depth => exact Nat.add_pos_right depth hst
        | finished => exact hst
        | lost => exact trivial
      · rw [hopen]
        exact hst
  | inString d => exact h.unclosed_inString hq hst (.inl rfl)
  | escaped d => exact h.unclosed_inString hq hst (.inr rfl)
  | afterString d =>
      have hbracket : step (.afterString d) '\x7b' = .lost := rfl
      rw [hrest, run_cons, hbracket, run_lost]
      exact trivial
  | finished => exact hst.elim
  | lost =>
      rw [run_lost]
      exact trivial

theorem unclosed_run_flatten {pieces : List (List Char)} (h : ∀ q ∈ pieces, Piece q)
    (hst : st.Unclosed) : (run st pieces.flatten).Unclosed := by
  induction pieces generalizing st with
  | nil => exact hst
  | cons q pieces ih =>
      obtain ⟨-, s, hs, hq⟩ := h q List.mem_cons_self
      rw [List.flatten_cons, run_append]
      exact ih (fun q hq ↦ h q (List.mem_cons_of_mem _ hq)) (hs.unclosed_run hq hst)

/-- What writers left that stopped one after the other in the same place is an object only if it is
one whole text. -/
theorem not_isObject_flatten (h : Entry s) (hp : p <+: s) (hne : p ≠ [])
    {pieces : List (List Char)} (hpieces : ∀ q ∈ pieces, Piece q)
    (hsplice : pieces ≠ [] ∨ p ≠ s) : ¬ IsObject (p ++ pieces.flatten) := by
  intro hobject
  have hunclosed : (run (.outside 0) (p ++ pieces.flatten)).Unclosed := by
    rw [run_append]
    by_cases hcut : p = s
    · obtain ⟨q, pieces, rfl⟩ :=
        List.exists_cons_of_ne_nil (hsplice.resolve_right (not_not.mpr hcut))
      have hfinished : run (.outside 0) p = .finished := hcut ▸ h.object
      obtain ⟨rest, rfl⟩ := (hpieces q List.mem_cons_self).head
      have hbracket : step .finished '\x7b' = .lost := rfl
      rw [hfinished, List.flatten_cons, List.cons_append, run_cons, hbracket, run_lost]
      exact trivial
    · exact unclosed_run_flatten hpieces (h.unclosed_of_prefix hp hne hcut)
  rw [hobject] at hunclosed
  exact hunclosed

end Splicing

end Nanobook.Objects
