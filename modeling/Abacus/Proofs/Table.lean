import Abacus.Proofs.Lexemes
import Abacus.Program.Table
import Mathlib.Data.List.Nodup
import Mathlib.Data.Nat.Init

/-!
# The function table and the grammar of sources

`Table.build` reads each source once from its start, one token at a time, passing over bodies
by counting braces. This module says what it accepts and what it gives in terms of the grammar
of sources rather than of the reading:

* the sources are accepted exactly when the tokens of each are a sequence of definitions
  `name { body }`, each body balanced, and no name is defined twice in all of them;
* the table then lists every definition, sources in order and each in the order of its text,
  with the address just after the name's token, from where the body's `{` is read;
* otherwise the fault is the one for the first token where the tokens leave the grammar, or for
  the end of the source when they stop inside a definition.

## Main definitions

* `Definitions` — a source's lexemes as definitions, each name with the position after it.
* `entriesOf`, `entriesFrom` — the table entries of the definitions of some sources.
* `FirstFault` — how the tokens after the last whole definition leave the grammar.

## Main statements

* `definitions_iff_defines` — `Definitions` is the grammar `Defines`, with positions.
* `definitions_or_firstFault` — every list of tokens is whole definitions, or whole definitions
  followed by tokens that leave the grammar.
* `Table.build_spec` — the table of a list of sources, or its fault.
-/

namespace Abacus

/-! ### Definitions with their positions -/

/-- A source's lexemes read as definitions `name { body }`: each defined name with the position
just after its token, in the order of the text. -/
inductive Definitions : List Lexeme → List (Bytes × Nat) → Prop
  /-- No definition. -/
  | nil : Definitions [] []
  /-- A name, its body as a group, then more definitions. -/
  | cons {n o c : Lexeme} {inner rest : List Lexeme} {ds : List (Bytes × Nat)} :
      isName n.word = true → o.word = openWord → Balanced (inner.map (·.word)) →
      c.word = closeWord → Definitions rest ds →
      Definitions (n :: o :: inner ++ c :: rest) ((n.word, n.stop) :: ds)

theorem Definitions.defines {ls : List Lexeme} {ds : List (Bytes × Nat)}
    (h : Definitions ls ds) : Defines (ls.map (·.word)) (ds.map (·.1)) := by
  induction h with
  | nil => exact .nil
  | cons hn ho hb hc _ ih =>
    simp only [List.map_cons, List.map_append, ho, hc]
    exact .cons hn hb ih

theorem definitions_of_defines {ws : List Bytes} {names : List Bytes} (h : Defines ws names) :
    ∀ {ls : List Lexeme}, ls.map (·.word) = ws →
      ∃ ds, Definitions ls ds ∧ ds.map (·.1) = names := by
  induction h with
  | nil =>
    intro ls hls
    rw [List.map_eq_nil_iff.1 hls]
    exact ⟨[], .nil, rfl⟩
  | cons hn hb _ ih =>
    intro ls h₀
    obtain ⟨n, ls₁, rfl, rfl, h₁⟩ := List.map_eq_cons_iff.1 h₀
    obtain ⟨o, ls₂, rfl, ho, h₂⟩ := List.map_eq_cons_iff.1 h₁
    obtain ⟨inner, ls₃, rfl, rfl, h₃⟩ := List.map_eq_append_iff.1 h₂
    obtain ⟨c, rest, rfl, hc, hrest⟩ := List.map_eq_cons_iff.1 h₃
    obtain ⟨ds, hds, rfl⟩ := ih hrest
    exact ⟨_, .cons hn ho hb hc hds, rfl⟩

/-- Reading lexemes as definitions is the grammar of sources, with each name's position. -/
theorem definitions_iff_defines (ls : List Lexeme) (names : List Bytes) :
    (∃ ds, Definitions ls ds ∧ ds.map (·.1) = names) ↔ Defines (ls.map (·.word)) names := by
  constructor
  · rintro ⟨ds, hds, rfl⟩
    exact hds.defines
  · intro h
    exact definitions_of_defines h rfl

/-- Each definition's name is a name, followed by its `{`, its balanced body and its `}`. -/
theorem Definitions.mem {ls : List Lexeme} {ds : List (Bytes × Nat)} (h : Definitions ls ds)
    {w : Bytes} {o : Nat} (hw : (w, o) ∈ ds) :
    ∃ pre n op inner c rest, ls = pre ++ n :: op :: inner ++ c :: rest ∧ n.word = w ∧
      n.stop = o ∧ op.word = openWord ∧ Balanced (inner.map (·.word)) ∧ c.word = closeWord ∧
      isName w = true := by
  induction h with
  | nil => cases hw
  | @cons n op c inner rest ds hn ho hb hc _ ih =>
    rcases List.mem_cons.1 hw with heq | hmem
    · obtain ⟨rfl, rfl⟩ := Prod.mk.inj heq
      exact ⟨[], n, op, inner, c, rest, rfl, rfl, rfl, ho, hb, hc, hn⟩
    · obtain ⟨pre, n', op', inner', c', rest', rfl, h₁, h₂, h₃, h₄, h₅, h₆⟩ := ih hmem
      exact ⟨n :: op :: inner ++ c :: pre, n', op', inner', c', rest', by simp, h₁, h₂, h₃, h₄, h₅,
        h₆⟩

/-- The table entries of the definitions `ds` of source number `i`. -/
def entriesOf (i : Nat) (ds : List (Bytes × Nat)) : List (Bytes × Address) :=
  ds.map fun d => (d.1, ⟨i, d.2⟩)

/-- The table entries of the definitions of consecutive sources, from number `i` on. -/
def entriesFrom : Nat → List (List (Bytes × Nat)) → List (Bytes × Address)
  | _, [] => []
  | i, ds :: dss => entriesOf i ds ++ entriesFrom (i + 1) dss

@[simp] theorem map_fst_entriesOf (i : Nat) (ds : List (Bytes × Nat)) :
    (entriesOf i ds).map (·.1) = ds.map (·.1) := by
  simp [entriesOf]

@[simp] theorem map_fst_entriesFrom (i : Nat) (dss : List (List (Bytes × Nat))) :
    (entriesFrom i dss).map (·.1) = dss.flatten.map (·.1) := by
  induction dss generalizing i with
  | nil => rfl
  | cons ds dss ih => simp [entriesFrom, ih]

/-! ### Leaving the grammar -/

/-- How the tokens after the last whole definition of source `src` leave the grammar, with the
fault that says so. `prior` holds the entries of every definition read before them. The tokens
leave the grammar at their first token, or at the token after a new name, or at the end of the
source when a body never closes. -/
inductive FirstFault (sources : List Source) (src : Source) (prior : List (Bytes × Address)) :
    List Lexeme → Fault → Prop
  /-- A group with no name before it. -/
  | unnamed {l : Lexeme} {ls : List Lexeme} :
      l.word = openWord → FirstFault sources src prior (l :: ls) (.unnamedGroup l.start src.name)
  /-- A close with no group open. -/
  | unopened {l : Lexeme} {ls : List Lexeme} :
      l.word = closeWord → FirstFault sources src prior (l :: ls) (.unopenedGroup l.start src.name)
  /-- Another reserved token where a definition should start. -/
  | stray {l : Lexeme} {ls : List Lexeme} {s : Symbol} :
      Symbol.ofWord? l.word = some s → s ≠ .openBrace → s ≠ .closeBrace →
      FirstFault sources src prior (l :: ls) (.strayTopLevel s l.start src.name)
  /-- A name defined before. -/
  | duplicate {l : Lexeme} {ls : List Lexeme} {a : Address} :
      isName l.word = true → (l.word, a) ∈ prior →
      FirstFault sources src prior (l :: ls)
        (.duplicateName l.word l.start src.name (Table.origin sources a))
  /-- A new name at the end of the source. -/
  | atEnd {n : Lexeme} :
      isName n.word = true → n.word ∉ prior.map (·.1) →
      FirstFault sources src prior [n] (.bodyMissingAtEnd n.word src.name)
  /-- A new name followed by another name. -/
  | nameAfterName {n l : Lexeme} {ls : List Lexeme} :
      isName n.word = true → n.word ∉ prior.map (·.1) → isName l.word = true →
      FirstFault sources src prior (n :: l :: ls) (.bodyMissing n.word src.name l.word)
  /-- A new name followed by a close. -/
  | unopenedAfterName {n l : Lexeme} {ls : List Lexeme} :
      isName n.word = true → n.word ∉ prior.map (·.1) → l.word = closeWord →
      FirstFault sources src prior (n :: l :: ls) (.unopenedGroup l.start src.name)
  /-- A new name followed by another reserved token. -/
  | strayAfterName {n l : Lexeme} {ls : List Lexeme} {s : Symbol} :
      isName n.word = true → n.word ∉ prior.map (·.1) → Symbol.ofWord? l.word = some s →
      s ≠ .openBrace → s ≠ .closeBrace →
      FirstFault sources src prior (n :: l :: ls) (.strayTopLevel s l.start src.name)
  /-- A new name whose body never closes: no balanced stretch of what follows its `{` is
  followed by a `}`. -/
  | unclosed {n o : Lexeme} {ls : List Lexeme} :
      isName n.word = true → n.word ∉ prior.map (·.1) → o.word = openWord →
      (∀ pre c rest, ls = pre ++ c :: rest → c.word = closeWord → ¬Balanced (pre.map (·.word))) →
      FirstFault sources src prior (n :: o :: ls) (.unclosedGroup o.stop src.name)

theorem isName_iff_ofWord?_eq_none {w : Bytes} : isName w = true ↔ Symbol.ofWord? w = none := by
  unfold isName isReserved
  cases Symbol.ofWord? w <;> simp

namespace Table

/-! ### The reading of one source, a token at a time -/

section Walk

variable {sources : List Source} {i : Nat} {src : Source} {known : List (Bytes × Address)}
  {l : Lexeme} {ls : List Lexeme}

theorem walk_top_open (h : l.word = openWord) :
    walk sources i src (.top none) known (l :: ls) = .error (.unnamedGroup l.start src.name) := by
  simp [walk, Scan.ofWord?_eq_openBrace.2 h]

theorem walk_pending_open {f : Bytes} (h : l.word = openWord) :
    walk sources i src (.top (some f)) known (l :: ls) =
      walk sources i src (.body 0 l.stop) known ls := by
  simp [walk, Scan.ofWord?_eq_openBrace.2 h]

theorem walk_top_close {pending : Option Bytes} (h : l.word = closeWord) :
    walk sources i src (.top pending) known (l :: ls) =
      .error (.unopenedGroup l.start src.name) := by
  cases pending <;> simp [walk, Scan.ofWord?_eq_closeBrace.2 h]

theorem walk_top_stray {pending : Option Bytes} {s : Symbol} (h : Symbol.ofWord? l.word = some s)
    (ho : s ≠ .openBrace) (hc : s ≠ .closeBrace) :
    walk sources i src (.top pending) known (l :: ls) =
      .error (.strayTopLevel s l.start src.name) := by
  cases pending <;> cases s <;> simp_all [walk]

theorem walk_pending_name {f : Bytes} (h : isName l.word = true) :
    walk sources i src (.top (some f)) known (l :: ls) =
      .error (.bodyMissing f src.name l.word) := by
  simp [walk, isName_iff_ofWord?_eq_none.1 h]

theorem walk_top_fresh (h : isName l.word = true) (hf : l.word ∉ known.map (·.1)) :
    walk sources i src (.top none) known (l :: ls) =
      walk sources i src (.top (some l.word)) ((l.word, ⟨i, l.stop⟩) :: known) ls := by
  have hfind : known.find? (·.1 == l.word) = none := by
    rw [List.find?_eq_none]
    intro x hx hxl
    exact hf (List.mem_map.2 ⟨x, hx, by simpa using hxl⟩)
  simp [walk, isName_iff_ofWord?_eq_none.1 h, hfind]

theorem walk_top_duplicate {a : Address} (h : isName l.word = true)
    (hnd : (known.map (·.1)).Nodup) (ha : (l.word, a) ∈ known) :
    walk sources i src (.top none) known (l :: ls) =
      .error (.duplicateName l.word l.start src.name (origin sources a)) := by
  cases hfind : known.find? (·.1 == l.word) with
  | none =>
    rw [List.find?_eq_none] at hfind
    exact absurd (by simp) (hfind _ ha)
  | some e =>
    -- the entry found names the same function, so it is the one entry of that name
    have he : e.1 = l.word := by simpa using List.find?_some hfind
    have hmem := List.mem_of_find?_eq_some hfind
    have heq : e = (l.word, a) := List.inj_on_of_nodup_map hnd hmem ha he
    simp [walk, isName_iff_ofWord?_eq_none.1 h, hfind, heq]

/-- Inside a body the reading passes over tokens until the close of the body, and goes on at
the top level after it. -/
theorem walk_body (d p : Nat) (known : List (Bytes × Address)) (ls : List Lexeme) :
    walk sources i src (.body d p) known ls =
      match Scan.closeOf d ls with
      | none => .error (.unclosedGroup p src.name)
      | some (_, rest) => walk sources i src (.top none) known rest := by
  induction ls generalizing d with
  | nil => rfl
  | cons l ls ih =>
    by_cases ho : l.word = openWord
    · rw [Scan.closeOf_open ho, ← ih]
      simp [walk, Scan.ofWord?_eq_openBrace.2 ho]
    by_cases hc : l.word = closeWord
    · cases d with
      | zero =>
        rw [Scan.closeOf_close_zero hc]
        simp [walk, Scan.ofWord?_eq_closeBrace.2 hc]
      | succ d =>
        rw [Scan.closeOf_close_succ hc, ← ih]
        simp [walk, Scan.ofWord?_eq_closeBrace.2 hc]
    · rw [Scan.closeOf_other ho hc, ← ih]
      have ho' : Symbol.ofWord? l.word ≠ some .openBrace := mt Scan.ofWord?_eq_openBrace.1 ho
      have hc' : Symbol.ofWord? l.word ≠ some .closeBrace := mt Scan.ofWord?_eq_closeBrace.1 hc
      cases hw : Symbol.ofWord? l.word with
      | none => simp [walk, hw]
      | some sym => cases sym <;> cases d <;> simp_all [walk]

end Walk

/-! ### Whole definitions, then the first fault -/

section Reading

variable {sources : List Source} {i : Nat} {src : Source}

/-- Whole definitions are read one after another, each name entered in the table. -/
theorem walk_definitions {D : List Lexeme} {ds : List (Bytes × Nat)} (hD : Definitions D ds)
    (known : List (Bytes × Address)) (hfresh : (known.map (·.1) ++ ds.map (·.1)).Nodup)
    (tail : List Lexeme) :
    walk sources i src (.top none) known (D ++ tail) =
      walk sources i src (.top none) ((entriesOf i ds).reverse ++ known) tail := by
  induction hD generalizing known with
  | nil => rfl
  | @cons n o c inner rest ds hn ho hb hc _ ih =>
    have hfresh' : (n.word :: (known.map (·.1) ++ ds.map (·.1))).Nodup :=
      List.perm_middle.nodup_iff.1 hfresh
    have hnew : n.word ∉ known.map (·.1) := fun hm =>
      (List.nodup_cons.1 hfresh').1 (List.mem_append_left _ hm)
    simp only [List.cons_append, List.append_assoc]
    rw [walk_top_fresh hn hnew, walk_pending_open ho, walk_body,
      Scan.closeOf_balanced_close _ hb hc]
    dsimp only
    rw [ih _ (by simpa using hfresh')]
    simp [entriesOf]

/-- The tokens after the last whole definition are refused with the fault of the place where
they leave the grammar. -/
theorem walk_firstFault {prior : List (Bytes × Address)} {tail : List Lexeme} {f : Fault}
    (h : FirstFault sources src prior tail f) (known : List (Bytes × Address))
    (hknown : ∀ e, e ∈ known ↔ e ∈ prior) (hnd : (known.map (·.1)).Nodup) :
    walk sources i src (.top none) known tail = .error f := by
  have hfresh : ∀ {w : Bytes}, w ∉ prior.map (·.1) → w ∉ known.map (·.1) := by
    intro w hw hk
    obtain ⟨e, he, rfl⟩ := List.mem_map.1 hk
    exact hw (List.mem_map.2 ⟨e, (hknown e).1 he, rfl⟩)
  cases h with
  | unnamed ho => exact walk_top_open ho
  | unopened hc => exact walk_top_close hc
  | stray hs ho hc => exact walk_top_stray hs ho hc
  | duplicate hn ha => exact walk_top_duplicate hn hnd ((hknown _).2 ha)
  | atEnd hn hf => rw [walk_top_fresh hn (hfresh hf)]; rfl
  | nameAfterName hn hf hl => rw [walk_top_fresh hn (hfresh hf), walk_pending_name hl]
  | unopenedAfterName hn hf hc => rw [walk_top_fresh hn (hfresh hf), walk_top_close hc]
  | strayAfterName hn hf hs ho hc =>
    rw [walk_top_fresh hn (hfresh hf), walk_top_stray hs ho hc]
  | @unclosed n o ls hn hf ho hno =>
    have hnone : Scan.closeOf 0 ls = none := by
      cases hc : Scan.closeOf 0 ls with
      | none => rfl
      | some cr =>
        obtain ⟨pre, hls, hb, hcw⟩ := Scan.closeOf_eq_some_iff.1 hc
        exact absurd hb (hno pre _ _ hls hcw)
    rw [walk_top_fresh hn (hfresh hf), walk_pending_open ho, walk_body, hnone]

/-- At the top level a token either leaves the grammar at once or is a new name. -/
theorem firstFault_or_fresh (prior : List (Bytes × Address)) (l : Lexeme) (ls : List Lexeme) :
    (∃ f, FirstFault sources src prior (l :: ls) f) ∨
      (isName l.word = true ∧ l.word ∉ prior.map (·.1)) := by
  by_cases ho : l.word = openWord
  · exact .inl ⟨_, .unnamed ho⟩
  by_cases hc : l.word = closeWord
  · exact .inl ⟨_, .unopened hc⟩
  cases hs : Symbol.ofWord? l.word with
  | some s =>
    exact .inl ⟨_, .stray hs (fun h => ho (Scan.ofWord?_eq_openBrace.1 (h ▸ hs)))
      (fun h => hc (Scan.ofWord?_eq_closeBrace.1 (h ▸ hs)))⟩
  | none =>
    have hn := isName_iff_ofWord?_eq_none.2 hs
    by_cases hdup : l.word ∈ prior.map (·.1)
    · obtain ⟨⟨w, a⟩, ha, hw⟩ := List.mem_map.1 hdup
      obtain rfl : w = l.word := hw
      exact .inl ⟨_, .duplicate hn ha⟩
    · exact .inr ⟨hn, hdup⟩

/-- After a new name the tokens either leave the grammar or hold its whole body. -/
theorem firstFault_or_body (prior : List (Bytes × Address)) {n : Lexeme}
    (hn : isName n.word = true) (hf : n.word ∉ prior.map (·.1)) (ls : List Lexeme) :
    (∃ f, FirstFault sources src prior (n :: ls) f) ∨
      ∃ o inner c rest, ls = o :: inner ++ c :: rest ∧ o.word = openWord ∧
        Balanced (inner.map (·.word)) ∧ c.word = closeWord := by
  cases ls with
  | nil => exact .inl ⟨_, .atEnd hn hf⟩
  | cons o ls =>
    by_cases ho : o.word = openWord
    · cases hc : Scan.closeOf 0 ls with
      | none =>
        refine .inl ⟨_, .unclosed hn hf ho fun pre c rest hls hcw hb => ?_⟩
        rw [hls, Scan.closeOf_balanced_close rest hb hcw] at hc
        cases hc
      | some cr =>
        obtain ⟨c, rest⟩ := cr
        obtain ⟨inner, rfl, hb, hcw⟩ := Scan.closeOf_eq_some_iff.1 hc
        exact .inr ⟨o, inner, c, rest, rfl, ho, hb, hcw⟩
    by_cases hc : o.word = closeWord
    · exact .inl ⟨_, .unopenedAfterName hn hf hc⟩
    cases hs : Symbol.ofWord? o.word with
    | some s =>
      exact .inl ⟨_, .strayAfterName hn hf hs
        (fun h => ho (Scan.ofWord?_eq_openBrace.1 (h ▸ hs)))
        (fun h => hc (Scan.ofWord?_eq_closeBrace.1 (h ▸ hs)))⟩
    | none => exact .inl ⟨_, .nameAfterName hn hf (isName_iff_ofWord?_eq_none.2 hs)⟩

/-- Tokens that leave the grammar at once follow no whole definition. -/
theorem firstFault_after_none {prior : List (Bytes × Address)} {ls : List Lexeme} {f : Fault}
    (hnd : (prior.map (·.1)).Nodup) (h : FirstFault sources src prior ls f) :
    ∃ D ds tail f, ls = D ++ tail ∧ Definitions D ds ∧
      (prior.map (·.1) ++ ds.map (·.1)).Nodup ∧
      FirstFault sources src (prior ++ entriesOf i ds) tail f :=
  ⟨[], [], ls, f, rfl, .nil, by simpa using hnd, by simpa [entriesOf] using h⟩

/-- **Every list of tokens is whole definitions, or whole definitions followed by tokens that
leave the grammar**, given that the names defined before are distinct. -/
theorem definitions_or_firstFault (sources : List Source) (src : Source) (i : Nat)
    (ls : List Lexeme) (prior : List (Bytes × Address))
    (hnd : (prior.map (·.1)).Nodup) :
    (∃ ds, Definitions ls ds ∧ (prior.map (·.1) ++ ds.map (·.1)).Nodup) ∨
      ∃ D ds tail f, ls = D ++ tail ∧ Definitions D ds ∧
        (prior.map (·.1) ++ ds.map (·.1)).Nodup ∧
        FirstFault sources src (prior ++ entriesOf i ds) tail f := by
  -- strong induction on the length: a definition's body is passed over whole
  induction hlen : ls.length using Nat.strong_induction_on generalizing ls prior with
  | _ len ih =>
  cases ls with
  | nil => exact .inl ⟨[], .nil, by simpa using hnd⟩
  | cons n ls =>
    rcases firstFault_or_fresh prior n ls with ⟨f, hf⟩ | ⟨hn, hfresh⟩
    · exact .inr (firstFault_after_none hnd hf)
    rcases firstFault_or_body prior hn hfresh ls with ⟨f, hf⟩ | ⟨o, inner, c, rest, rfl, ho, hb, hc⟩
    · exact .inr (firstFault_after_none hnd hf)
    -- the next definitions are read after the body, with `n` among the names before them
    have hnd' : ((prior ++ [((n.word, ⟨i, n.stop⟩) : Bytes × Address)]).map (·.1)).Nodup := by
      rw [List.map_append, List.nodup_append]
      refine ⟨hnd, by simp, ?_⟩
      intro a ha b hb hab
      have hbn : b = n.word := by simpa using hb
      exact hfresh (hbn ▸ hab ▸ ha)
    have hshort : rest.length < len := by
      subst hlen
      simp
      omega
    rcases ih _ hshort rest _ hnd' rfl with ⟨ds, hds, hdsnd⟩ | ⟨D, ds, tail, f, rfl, hD, hDnd, hf⟩
    · exact .inl ⟨_, .cons hn ho hb hc hds, by simpa using hdsnd⟩
    · refine .inr ⟨n :: o :: inner ++ c :: D, (n.word, n.stop) :: ds, tail, f, by simp,
        .cons hn ho hb hc hD, by simpa using hDnd, ?_⟩
      simpa [entriesOf] using hf

end Reading


/-! ### The outcome of reading one source -/

section Outcome

variable {sources : List Source} {i : Nat} {src : Source} {known : List (Bytes × Address)}

theorem nodup_entries {ds : List (Bytes × Nat)} (h : (known.map (·.1) ++ ds.map (·.1)).Nodup) :
    (((entriesOf i ds).reverse ++ known).map (·.1)).Nodup := by
  rw [List.map_append, List.map_reverse, map_fst_entriesOf]
  exact (((List.reverse_perm _).append_right _).trans List.perm_append_comm).nodup_iff.2 h

theorem nodup_reverse_append_iff {names : List Bytes} :
    (known.reverse.map (·.1) ++ names).Nodup ↔ (known.map (·.1) ++ names).Nodup := by
  rw [List.map_reverse]
  exact ((List.reverse_perm _).append_right _).nodup_iff

theorem mem_entries_iff {ds : List (Bytes × Nat)} (e : Bytes × Address) :
    e ∈ (entriesOf i ds).reverse ++ known ↔ e ∈ known.reverse ++ entriesOf i ds := by
  simp [or_comm]

/-- A source is read to its end exactly when its tokens are whole definitions with new names. -/
theorem walk_eq_ok_iff (sources : List Source) (i : Nat) (src : Source)
    (hnd : (known.map (·.1)).Nodup) (ls : List Lexeme)
    (k : List (Bytes × Address)) :
    walk sources i src (.top none) known ls = .ok k ↔
      ∃ ds, Definitions ls ds ∧ (known.map (·.1) ++ ds.map (·.1)).Nodup ∧
        k = (entriesOf i ds).reverse ++ known := by
  constructor
  · intro h
    rcases definitions_or_firstFault sources src i ls known.reverse
      (by rw [List.map_reverse]; exact List.nodup_reverse.2 hnd) with
      ⟨ds, hds, hfresh⟩ | ⟨D, ds, tail, f, rfl, hD, hfresh, hf⟩
    · have hfresh' := nodup_reverse_append_iff.1 hfresh
      rw [← List.append_nil ls, walk_definitions hds known hfresh'] at h
      exact ⟨ds, hds, hfresh', (Except.ok.inj h).symm⟩
    · have hfresh' := nodup_reverse_append_iff.1 hfresh
      rw [walk_definitions hD known hfresh',
        walk_firstFault hf _ mem_entries_iff (nodup_entries hfresh')] at h
      cases h
  · rintro ⟨ds, hds, hfresh, rfl⟩
    rw [← List.append_nil ls, walk_definitions hds known hfresh]
    rfl

/-- A source is refused with the fault of the first place where its tokens leave the grammar. -/
theorem walk_eq_error_iff (sources : List Source) (i : Nat) (src : Source)
    (hnd : (known.map (·.1)).Nodup) (ls : List Lexeme) (f : Fault) :
    walk sources i src (.top none) known ls = .error f ↔
      ∃ D ds tail, ls = D ++ tail ∧ Definitions D ds ∧
        (known.map (·.1) ++ ds.map (·.1)).Nodup ∧
        FirstFault sources src (known.reverse ++ entriesOf i ds) tail f := by
  constructor
  · intro h
    rcases definitions_or_firstFault sources src i ls known.reverse
      (by rw [List.map_reverse]; exact List.nodup_reverse.2 hnd) with
      ⟨ds, hds, hfresh⟩ | ⟨D, ds, tail, f', rfl, hD, hfresh, hf⟩
    · rw [← List.append_nil ls, walk_definitions hds known (nodup_reverse_append_iff.1 hfresh)] at h
      cases h
    · have hfresh' := nodup_reverse_append_iff.1 hfresh
      rw [walk_definitions hD known hfresh',
        walk_firstFault hf _ mem_entries_iff (nodup_entries hfresh')] at h
      cases h
      exact ⟨D, ds, tail, rfl, hD, hfresh', hf⟩
  · rintro ⟨D, ds, tail, rfl, hD, hfresh, hf⟩
    rw [walk_definitions hD known hfresh,
      walk_firstFault hf _ mem_entries_iff (nodup_entries hfresh)]

end Outcome


/-! ### The sources in order -/

section Sources

variable {sources : List Source} {i : Nat} {known : List (Bytes × Address)}

/-- The names entered by one source join those before it. -/
theorem nodup_after_source {ds : List (Bytes × Nat)} {rest : List Bytes} :
    ((((entriesOf i ds).reverse ++ known).map (·.1)) ++ rest).Nodup ↔
      (known.map (·.1) ++ (ds.map (·.1) ++ rest)).Nodup := by
  rw [List.map_append, List.map_reverse, map_fst_entriesOf, ← List.append_assoc]
  refine List.Perm.nodup_iff ?_
  exact (((List.reverse_perm _).append_right _).trans List.perm_append_comm).append_right _

theorem nodup_before_rest {ds : List (Bytes × Nat)} {rest : List Bytes}
    (h : (known.map (·.1) ++ (ds.map (·.1) ++ rest)).Nodup) :
    (known.map (·.1) ++ ds.map (·.1)).Nodup := by
  rw [← List.append_assoc] at h
  exact h.sublist (List.sublist_append_left _ _)

/-- A source of whole definitions whose names are new, before any more names, is read to its
end. -/
theorem walk_of_definitions {src : Source} {ds : List (Bytes × Nat)} {rest : List Bytes}
    (hnd : (known.map (·.1)).Nodup) (hds : Definitions (Scan.lexemes src.bytes 0) ds)
    (hfresh : (known.map (·.1) ++ (ds.map (·.1) ++ rest)).Nodup) :
    walk sources i src (.top none) known (Scan.lexemes src.bytes 0) =
      .ok ((entriesOf i ds).reverse ++ known) :=
  (walk_eq_ok_iff sources i src hnd _ _).2 ⟨ds, hds, nodup_before_rest hfresh, rfl⟩

/-- The sources from number `i` on are read to their ends exactly when each is whole
definitions and all names are new. -/
theorem buildFrom_eq_ok_iff (srcs : List Source) (i : Nat) (known : List (Bytes × Address))
    (hnd : (known.map (·.1)).Nodup) (k : List (Bytes × Address)) :
    buildFrom sources i srcs known = .ok k ↔
      ∃ dss, List.Forall₂ (fun src ds => Definitions (Scan.lexemes src.bytes 0) ds) srcs dss ∧
        (known.map (·.1) ++ dss.flatten.map (·.1)).Nodup ∧
        k = (entriesFrom i dss).reverse ++ known := by
  induction srcs generalizing i known with
  | nil =>
    constructor
    · intro h
      cases h
      exact ⟨[], .nil, by simpa using hnd, rfl⟩
    · rintro ⟨dss, hdss, -, rfl⟩
      cases hdss
      rfl
  | cons src rest ih =>
    rw [buildFrom]
    cases hw : walk sources i src (.top none) known (Scan.lexemes src.bytes 0) with
    | error f =>
      dsimp only
      refine ⟨fun h => (by cases h), ?_⟩
      rintro ⟨_, hall, hfresh, -⟩
      cases hall with
      | cons hds _ =>
      rw [walk_of_definitions hnd hds (by simpa using hfresh)] at hw
      cases hw
    | ok known' =>
      dsimp only
      constructor
      · intro h
        obtain ⟨ds, hds, hfresh, rfl⟩ := (walk_eq_ok_iff _ _ _ hnd _ _).1 hw
        obtain ⟨dss, hdss, hfresh', rfl⟩ := (ih (i + 1) _ (nodup_entries hfresh)).1 h
        refine ⟨ds :: dss, .cons hds hdss, ?_, by simp [entriesFrom]⟩
        simpa using nodup_after_source.1 hfresh'
      · rintro ⟨_, hall, hfresh, rfl⟩
        cases hall with
        | @cons _ ds _ dss hds hdss =>
        have hfresh' : (known.map (·.1) ++ (ds.map (·.1) ++ dss.flatten.map (·.1))).Nodup := by
          simpa using hfresh
        rw [walk_of_definitions hnd hds hfresh'] at hw
        cases hw
        refine (ih (i + 1) _ (nodup_entries (nodup_before_rest hfresh'))).2
          ⟨_, hdss, nodup_after_source.2 hfresh', ?_⟩
        simp [entriesFrom]


/-- The sources from number `i` on are refused with the fault of the first source that leaves
the grammar, at the first place where it does, after whole definitions in the sources before. -/
theorem buildFrom_eq_error_iff (srcs : List Source) (i : Nat) (known : List (Bytes × Address))
    (hnd : (known.map (·.1)).Nodup) (f : Fault) :
    buildFrom sources i srcs known = .error f ↔
      ∃ j src dss D ds tail, srcs[j]? = some src ∧
        List.Forall₂ (fun src ds => Definitions (Scan.lexemes src.bytes 0) ds) (srcs.take j) dss ∧
        Scan.lexemes src.bytes 0 = D ++ tail ∧ Definitions D ds ∧
        (known.map (·.1) ++ (dss.flatten ++ ds).map (·.1)).Nodup ∧
        FirstFault sources src (known.reverse ++ entriesFrom i dss ++ entriesOf (i + j) ds)
          tail f := by
  induction srcs generalizing i known with
  | nil =>
    refine ⟨fun h => (by cases h), ?_⟩
    rintro ⟨j, src, -, -, -, -, hj, -⟩
    simp at hj
  | cons src rest ih =>
    rw [buildFrom]
    cases hw : walk sources i src (.top none) known (Scan.lexemes src.bytes 0) with
    | error f' =>
      dsimp only
      constructor
      · rintro ⟨⟩
        obtain ⟨D, ds, tail, hls, hD, hfresh, hf⟩ := (walk_eq_error_iff _ _ _ hnd _ _).1 hw
        exact ⟨0, src, [], D, ds, tail, rfl, .nil, hls, hD, by simpa using hfresh,
          by simpa [entriesFrom] using hf⟩
      · rintro ⟨j, src', dss, D, ds, tail, hj, hdss, hls, hD, hfresh, hf⟩
        cases j with
        | zero =>
          obtain rfl : src = src' := by simpa using hj
          cases hdss
          have herr := (walk_eq_error_iff sources i src hnd _ _).2
            ⟨D, ds, tail, hls, hD, by simpa using hfresh, by simpa [entriesFrom] using hf⟩
          rw [hw] at herr
          exact herr
        | succ j =>
          -- the first source is whole definitions, so it is read to its end
          cases hdss with
          | @cons _ ds₀ _ dss hds₀ _ =>
          have hfresh' :
              (known.map (·.1) ++ (ds₀.map (·.1) ++ (dss.flatten ++ ds).map (·.1))).Nodup :=
            by simpa using hfresh
          rw [walk_of_definitions hnd hds₀ hfresh'] at hw
          cases hw
    | ok known' =>
      dsimp only
      constructor
      · intro h
        obtain ⟨ds₀, hds₀, hfresh₀, rfl⟩ := (walk_eq_ok_iff _ _ _ hnd _ _).1 hw
        obtain ⟨j, src', dss, D, ds, tail, hj, hdss, hls, hD, hfresh, hf⟩ :=
          (ih (i + 1) _ (nodup_entries hfresh₀)).1 h
        refine ⟨j + 1, src', ds₀ :: dss, D, ds, tail, hj, .cons hds₀ hdss, hls, hD, ?_, ?_⟩
        · simpa using nodup_after_source.1 hfresh
        · have hij : i + 1 + j = i + (j + 1) := by omega
          simpa [entriesFrom, hij] using hf
      · rintro ⟨j, src', dss, D, ds, tail, hj, hdss, hls, hD, hfresh, hf⟩
        cases j with
        | zero =>
          -- then the first source would be refused
          obtain rfl : src = src' := by simpa using hj
          have herr := (walk_eq_error_iff sources i src hnd _ _).2
            ⟨D, ds, tail, hls, hD, by cases hdss; simpa using hfresh,
              by cases hdss; simpa [entriesFrom] using hf⟩
          rw [hw] at herr
          cases herr
        | succ j =>
          cases hdss with
          | @cons _ ds₀ _ dss hds₀ hdss =>
          have hfresh' :
              (known.map (·.1) ++ (ds₀.map (·.1) ++ (dss.flatten ++ ds).map (·.1))).Nodup :=
            by simpa using hfresh
          rw [walk_of_definitions hnd hds₀ hfresh'] at hw
          cases hw
          refine (ih (i + 1) _ (nodup_entries (nodup_before_rest hfresh'))).2
            ⟨j, src', dss, D, ds, tail, by simpa using hj, hdss, hls, hD,
              nodup_after_source.2 hfresh', ?_⟩
          have hij : i + 1 + j = i + (j + 1) := by omega
          simpa [entriesFrom, hij] using hf

end Sources


/-! ### The table of a list of sources -/

section Build

variable {sources : List Source}

theorem except_map_eq_ok {ε α β : Type} {g : α → β} {x : Except ε α} {b : β} :
    x.map g = .ok b ↔ ∃ a, x = .ok a ∧ g a = b := by
  cases x <;> simp [Except.map]

theorem except_map_eq_error {ε α β : Type} {g : α → β} {x : Except ε α} {e : ε} :
    x.map g = .error e ↔ x = .error e := by
  cases x <;> simp [Except.map]

theorem build_eq_ok_iff (t : Table) :
    build sources = .ok t ↔
      ∃ dss, List.Forall₂ (fun src ds => Definitions (Scan.lexemes src.bytes 0) ds) sources dss ∧
        (dss.flatten.map (·.1)).Nodup ∧ t.entries = entriesFrom 0 dss := by
  rw [build, except_map_eq_ok]
  constructor
  · rintro ⟨k, hk, rfl⟩
    obtain ⟨dss, hdss, hnd, rfl⟩ := (buildFrom_eq_ok_iff sources 0 [] (by simp) k).1 hk
    exact ⟨dss, hdss, by simpa using hnd, by simp⟩
  · rintro ⟨dss, hdss, hnd, ht⟩
    refine ⟨(entriesFrom 0 dss).reverse,
      (buildFrom_eq_ok_iff sources 0 [] (by simp) _).2 ⟨dss, hdss, by simpa using hnd, by simp⟩, ?_⟩
    cases t
    simp_all

theorem build_eq_error_iff (f : Fault) :
    build sources = .error f ↔
      ∃ j src dss D ds tail, sources[j]? = some src ∧
        List.Forall₂ (fun src ds => Definitions (Scan.lexemes src.bytes 0) ds)
          (sources.take j) dss ∧
        Scan.lexemes src.bytes 0 = D ++ tail ∧ Definitions D ds ∧
        ((dss.flatten ++ ds).map (·.1)).Nodup ∧
        FirstFault sources src (entriesFrom 0 dss ++ entriesOf j ds) tail f := by
  rw [build, except_map_eq_error, buildFrom_eq_error_iff sources 0 [] (by simp) f]
  simp

theorem nodup_names_of_build {t : Table} (h : build sources = .ok t) :
    (t.entries.map (·.1)).Nodup := by
  obtain ⟨dss, -, hnd, ht⟩ := (build_eq_ok_iff t).1 h
  rwa [ht, map_fst_entriesFrom]

/-- A function found in a table is one of its names. -/
theorem mem_names_of_find? {t : Table} {name : Bytes} {a : Address} (h : t.find? name = some a) :
    name ∈ t.entries.map (·.1) := by
  obtain ⟨x, hx, -⟩ := Option.map_eq_some_iff.1 h
  have hname : x.1 = name := by simpa using List.find?_some hx
  exact List.mem_map.2 ⟨x, List.mem_of_find?_eq_some hx, hname⟩

/-- With distinct names, a function's address is the one its entry records. -/
theorem find?_eq_some_iff {t : Table} (hnd : (t.entries.map (·.1)).Nodup) (name : Bytes)
    (a : Address) : t.find? name = some a ↔ (name, a) ∈ t.entries := by
  unfold find?
  constructor
  · intro h
    obtain ⟨e, he, rfl⟩ := Option.map_eq_some_iff.1 h
    have hname : e.1 = name := by simpa using List.find?_some he
    have hmem := List.mem_of_find?_eq_some he
    rwa [← hname]
  · intro h
    cases he : t.entries.find? (·.1 == name) with
    | none =>
      rw [List.find?_eq_none] at he
      exact absurd (by simp) (he _ h)
    | some e =>
      have hname : e.1 = name := by simpa using List.find?_some he
      have heq : e = (name, a) :=
        List.inj_on_of_nodup_map hnd (List.mem_of_find?_eq_some he) h hname
      simp [heq]

theorem mem_entriesFrom {i : Nat} {dss : List (List (Bytes × Nat))} {w : Bytes} {a : Address}
    (h : (w, a) ∈ entriesFrom i dss) :
    ∃ j ds, dss[j]? = some ds ∧ a.source = i + j ∧ (w, a.offset) ∈ ds := by
  induction dss generalizing i with
  | nil => cases h
  | cons ds dss ih =>
    rcases List.mem_append.1 h with h | h
    · obtain ⟨⟨w', o⟩, hmem, he⟩ := List.mem_map.1 h
      cases he
      exact ⟨0, ds, rfl, rfl, hmem⟩
    · obtain ⟨j, ds', hj, ha, hmem⟩ := ih h
      exact ⟨j + 1, ds', hj, by omega, hmem⟩

theorem Forall₂.getElem? {α β : Type} {R : α → β → Prop} {xs : List α} {ys : List β}
    (h : List.Forall₂ R xs ys) {j : Nat} {y : β} (hy : ys[j]? = some y) :
    ∃ x, xs[j]? = some x ∧ R x y := by
  induction h generalizing j with
  | nil => simp at hy
  | cons hxy _ ih =>
    cases j with
    | zero =>
      obtain rfl : _ = y := by simpa using hy
      exact ⟨_, rfl, hxy⟩
    | succ j => exact ih hy

/-- A function's table entry comes from its definition: the name's token, then the body's `{`,
a balanced stretch of tokens and its `}`, in the source the address names; the address is just
after the name's token, which is a name. -/
theorem find?_definition {t : Table} (h : build sources = .ok t) {name : Bytes} {a : Address}
    (ha : t.find? name = some a) :
    ∃ pre n op inner c rest, Scan.lexemes (sources.getD a.source default).bytes 0 =
        pre ++ n :: op :: inner ++ c :: rest ∧ n.word = name ∧ n.stop = a.offset ∧
      op.word = openWord ∧ Balanced (inner.map (·.word)) ∧ c.word = closeWord ∧
      isName name = true := by
  obtain ⟨dss, hdss, hnd, ht⟩ := (build_eq_ok_iff t).1 h
  have hmem := (find?_eq_some_iff (nodup_names_of_build h) name a).1 ha
  rw [ht] at hmem
  obtain ⟨j, ds, hj, hsrc, hmem⟩ := mem_entriesFrom hmem
  obtain ⟨src, hsrcj, hds⟩ := Forall₂.getElem? hdss hj
  have hget : sources.getD a.source default = src := by
    rw [List.getD_eq_getElem?_getD, hsrc, Nat.zero_add, hsrcj, Option.getD_some]
  rw [hget]
  exact hds.mem hmem

/-- **From a function's address the scanner reads its body**: the `{`, a balanced stretch of
tokens, and the `}` that closes it. -/
theorem find?_body {t : Table} (h : build sources = .ok t) {name : Bytes} {a : Address}
    (ha : t.find? name = some a) :
    ∃ o inner c rest, Scan.lexemes (sources.getD a.source default).bytes a.offset =
        o :: inner ++ c :: rest ∧
      o.word = openWord ∧ Balanced (inner.map (·.word)) ∧ c.word = closeWord := by
  obtain ⟨pre, n, op, inner, c, rest, hls, -, hstop, ho, hb, hc, -⟩ := find?_definition h ha
  rw [← hstop]
  refine ⟨op, inner, c, rest, ?_, ho, hb, hc⟩
  have hsplit : Scan.lexemes (sources.getD a.source default).bytes 0 =
      pre ++ n :: (op :: inner ++ c :: rest) := by
    rw [hls]
    simp
  exact (Scan.lexemes_of_eq_append hsplit).2

/-- Sources accepted as definitions are accepted by the grammar, and back. -/
theorem forall₂_definitions_iff {srcs : List Source} {namess : List (List Bytes)} :
    (∃ dss, List.Forall₂ (fun src ds => Definitions (Scan.lexemes src.bytes 0) ds) srcs dss ∧
        dss.map (·.map (·.1)) = namess) ↔
      List.Forall₂ (fun src names => Defines ((Scan.lexemes src.bytes 0).map (·.word)) names)
        srcs namess := by
  constructor
  · rintro ⟨dss, hdss, rfl⟩
    rw [List.forall₂_map_right_iff]
    exact hdss.imp fun _ _ h => h.defines
  · intro h
    induction h with
    | nil => exact ⟨[], .nil, rfl⟩
    | cons hd _ ih =>
      obtain ⟨ds, hds, rfl⟩ := (definitions_iff_defines _ _).2 hd
      obtain ⟨dss, hdss, rfl⟩ := ih
      exact ⟨ds :: dss, .cons hds hdss, rfl⟩

/-- **What the table of a list of sources is.** The sources are accepted exactly when the tokens
of each are definitions `name { body }` and no name is defined twice in all of them. The table
then holds every definition, sources in order and each in the order of its text, at the
address just after its name's token, and from that address the scanner reads the body's `{`,
a balanced stretch of tokens and its `}`. A list of sources that is not accepted is refused
with the fault of the first place, sources and tokens in order, where the tokens leave the
grammar. -/
theorem build_spec (sources : List Source) :
    ((∃ t, build sources = .ok t) ↔
      ∃ namess, List.Forall₂
          (fun src names => Defines ((Scan.lexemes src.bytes 0).map (·.word)) names)
          sources namess ∧ namess.flatten.Nodup) ∧
    (∀ t, build sources = .ok t ↔
      ∃ dss, List.Forall₂ (fun src ds => Definitions (Scan.lexemes src.bytes 0) ds) sources dss ∧
        (dss.flatten.map (·.1)).Nodup ∧ t.entries = entriesFrom 0 dss) ∧
    (∀ t name a, build sources = .ok t → (t.find? name = some a ↔ (name, a) ∈ t.entries)) ∧
    (∀ t name a, build sources = .ok t → t.find? name = some a →
      ∃ o inner c rest, Scan.lexemes (sources.getD a.source default).bytes a.offset =
          o :: inner ++ c :: rest ∧
        o.word = openWord ∧ Balanced (inner.map (·.word)) ∧ c.word = closeWord) ∧
    (∀ f, build sources = .error f ↔
      ∃ j src dss D ds tail, sources[j]? = some src ∧
        List.Forall₂ (fun src ds => Definitions (Scan.lexemes src.bytes 0) ds)
          (sources.take j) dss ∧
        Scan.lexemes src.bytes 0 = D ++ tail ∧ Definitions D ds ∧
        ((dss.flatten ++ ds).map (·.1)).Nodup ∧
        FirstFault sources src (entriesFrom 0 dss ++ entriesOf j ds) tail f) := by
  refine ⟨?_, build_eq_ok_iff, fun t name a h => find?_eq_some_iff (nodup_names_of_build h) name a,
    fun t name a h ha => find?_body h ha, build_eq_error_iff⟩
  constructor
  · rintro ⟨t, ht⟩
    obtain ⟨dss, hdss, hnd, -⟩ := (build_eq_ok_iff t).1 ht
    refine ⟨_, forall₂_definitions_iff.1 ⟨dss, hdss, rfl⟩, ?_⟩
    simpa [List.map_flatten] using hnd
  · rintro ⟨namess, hnames, hnd⟩
    obtain ⟨dss, hdss, rfl⟩ := forall₂_definitions_iff.2 hnames
    exact ⟨_, (build_eq_ok_iff ⟨entriesFrom 0 dss⟩).2
      ⟨dss, hdss, by simpa [List.map_flatten] using hnd, rfl⟩⟩

end Build

end Table

end Abacus
