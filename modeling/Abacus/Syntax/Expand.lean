import Abacus.Text.Basic
import Mathlib.Data.List.Basic

/-!
# Expanding calls in a list of tokens

A call stands for the body it calls. Expanding a list of tokens puts in place of each token that
names a body that body's tokens, themselves expanded in turn, down to a given depth; below it the
tokens are left as they are. A *marked* expansion keeps each expanded token in front of what
replaces it, as a run reads them: first the call, then the body.

A depth within which every call is expanded is one below which no token names a body. From such
a depth on, expanding deeper gives the same tokens, so the expansion there is the whole one.

## Main definitions

* `Expand.expand` — the tokens with their calls expanded to a depth.
* `Expand.Within` — every call is expanded within a depth; `Expand.within?` checks it.

## Main statements

* `Expand.expand_append` — expanding goes token by token.
* `Expand.length_le_expand` — a marked expansion is no shorter than what it expands.
* `Expand.Within.mono`, `Expand.expand_add_of_within` — past a depth within which every call is
  expanded, expanding deeper changes nothing.
* `Expand.exists_within` — tokens each expanded within some depth are all expanded within one.
-/

namespace Abacus

namespace Expand

variable (text : Bytes → Option (List Bytes)) (marked : Bool)

/-- The tokens of `ws` with every call expanded `depth` levels deep: a token that `text` gives
tokens for is replaced by them, expanded one level less, behind the token itself when
`marked`. -/
def expand : Nat → List Bytes → List Bytes
  | 0, ws => ws
  | d + 1, ws => ws.flatMap fun w =>
    match text w with
    | none => [w]
    | some b => (if marked then [w] else []) ++ expand d b

/-- Every call in `ws` is expanded within `depth` levels: no token left below names a body. -/
def Within : Nat → List Bytes → Prop
  | 0, ws => ∀ w ∈ ws, text w = none
  | d + 1, ws => ∀ w ∈ ws, ∀ b, text w = some b → Within d b

/-- Whether every call in `ws` is expanded within `depth` levels, computed. -/
def within? : Nat → List Bytes → Bool
  | 0, ws => ws.all fun w => (text w).isNone
  | d + 1, ws => ws.all fun w =>
    match text w with
    | none => true
    | some b => within? d b

variable {text marked} {d : Nat} {w : Bytes} {b ws vs : List Bytes}

@[simp] theorem expand_zero : expand text marked 0 ws = ws := rfl

@[simp] theorem expand_nil : expand text marked d [] = [] := by
  cases d <;> rfl

theorem expand_append :
    expand text marked d (ws ++ vs) = expand text marked d ws ++ expand text marked d vs := by
  cases d <;> simp [expand]

theorem expand_cons :
    expand text marked d (w :: ws) = expand text marked d [w] ++ expand text marked d ws := by
  rw [← List.singleton_append, expand_append]

/-- A token that names no body is left as it is. -/
theorem expand_single_of_none (h : text w = none) : expand text marked d [w] = [w] := by
  cases d <;> simp [expand, h]

/-- A token that names a body is replaced by the body, expanded one level less. -/
theorem expand_succ_single_of_some (h : text w = some b) :
    expand text marked (d + 1) [w] = (if marked then [w] else []) ++ expand text marked d b := by
  simp [expand, h]

/-- A marked expansion keeps every token, so it is no shorter. The induction is on the tokens,
each expanded on its own. -/
theorem length_le_expand : ws.length ≤ (expand text true d ws).length := by
  induction ws with
  | nil => simp
  | cons w ws ih =>
    rw [expand_cons, List.length_append, List.length_cons]
    have hw : 1 ≤ (expand text true d [w]).length := by
      cases d with
      | zero => exact Nat.le_refl _
      | succ d =>
        cases h : text w with
        | none => rw [expand_single_of_none h]; exact Nat.le_refl _
        | some b => simp [expand_succ_single_of_some h]
    omega

theorem within?_iff : ∀ {d : Nat} {ws : List Bytes}, within? text d ws = true ↔ Within text d ws
  | 0, ws => by simp [within?, Within]
  | d + 1, ws => by
    simp only [within?, Within, List.all_eq_true]
    refine forall₂_congr fun w _ => ?_
    cases text w with
    | none => simp
    | some b => simp [within?_iff]

instance : Decidable (Within text d ws) := decidable_of_iff _ within?_iff

@[simp] theorem within_nil : Within text d [] := by
  cases d <;> simp [Within]

theorem within_append : Within text d (ws ++ vs) ↔ Within text d ws ∧ Within text d vs := by
  cases d <;> simp only [Within, List.mem_append, or_imp, forall_and]

theorem within_cons : Within text d (w :: ws) ↔ Within text d [w] ∧ Within text d ws := by
  rw [← List.singleton_append, within_append]

theorem within_single_of_none (h : text w = none) : Within text d [w] := by
  cases d <;> simp [Within, h]

theorem within_succ_single_of_some (h : text w = some b) :
    Within text (d + 1) [w] ↔ Within text d b := by
  simp [Within, h]

theorem not_within_zero_single_of_some (h : text w = some b) : ¬ Within text 0 [w] := by
  simp [Within, h]

/-- Every call expanded within `d` levels is expanded within `d + 1`. -/
theorem Within.mono : ∀ {d : Nat} {ws : List Bytes}, Within text d ws → Within text (d + 1) ws
  | 0, _, h => fun w hw b hb => by
    rw [h w hw] at hb
    cases hb
  | d + 1, _, h => fun w hw b hb => Within.mono (h w hw b hb)

theorem Within.le {d' : Nat} (h : Within text d ws) (hle : d ≤ d') : Within text d' ws := by
  induction hle with
  | refl => exact h
  | step _ ih => exact ih.mono

/-- **Tokens each expanded within some depth are all expanded within one**, the deepest of
theirs. -/
theorem exists_within (h : ∀ w ∈ ws, ∃ d, Within text d [w]) : ∃ d, Within text d ws := by
  induction ws with
  | nil => exact ⟨0, within_nil⟩
  | cons w ws ih =>
    obtain ⟨d₁, h₁⟩ := h w (by simp)
    obtain ⟨d₂, h₂⟩ := ih fun v hv => h v (List.mem_cons_of_mem w hv)
    exact ⟨max d₁ d₂,
      within_cons.2 ⟨h₁.le (Nat.le_max_left d₁ d₂), h₂.le (Nat.le_max_right d₁ d₂)⟩⟩

/-- Within a depth that expands every call, one level more changes nothing. The induction is on
the depth: at the bottom no token names a body, and above it each body is expanded alike. -/
theorem expand_succ_of_within :
    ∀ {d : Nat} {ws : List Bytes}, Within text d ws →
      expand text marked (d + 1) ws = expand text marked d ws
  | 0, ws, h => by
    simp only [expand]
    rw [List.flatMap_congr (g := fun w => [w]) fun w hw => by rw [h w hw]]
    exact List.flatMap_singleton' ws
  | d + 1, ws, h => by
    show ws.flatMap _ = ws.flatMap _
    refine List.flatMap_congr fun w hw => ?_
    cases hb : text w with
    | none => rfl
    | some b =>
      dsimp only
      rw [expand_succ_of_within (h w hw b hb)]

/-- **Past a depth within which every call is expanded, expanding deeper changes nothing**: the
expansion there is the whole expansion. -/
theorem expand_add_of_within (h : Within text d ws) :
    ∀ j, expand text marked (d + j) ws = expand text marked d ws
  | 0 => rfl
  | j + 1 => by
    rw [← Nat.add_assoc, expand_succ_of_within (h.le (Nat.le_add_right d j)),
      expand_add_of_within h j]

end Expand

end Abacus
