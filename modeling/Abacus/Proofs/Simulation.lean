import Abacus.Proofs.Exec
import Abacus.Semantics.BigStep
import Abacus.Syntax.Expand

/-!
# The machine runs bodies as the rules say

The machine reads the print of a body's tree token by token. A derivation of the rules for an
item, an alternative or a group drives it across the piece's print: it lands just past the
piece with the same groups and calls open, in the success mode with the derived register, or in
the failed mode; or, for a call of a function that is not defined, it comes to a step that meets
that fault. The texts it shows on the way are the derived output.

The failed mode passes over the rest of an alternative without showing anything, stepping over
each nested group whole; a `|` then goes back to the register the group was entered with, and a
`}` closes the group as failed. A call pushes a frame and enters the body at its `{`; the body's
`}` brings the machine back past the call, in the mode the body ended in.

Each token of the print is read at most once on the way: a call reads its own token and then
the body it calls, and a `|` or a failure passes over what is left of a group. So the steps
across a piece, with the one that meets the fault of an undefined call, are at most the tokens
of its print with every call expanded into the call's token and the body it calls.

## Main definitions

* `Program.bodyText?` — the tokens of a function's body, braces included.
* `Machine.StepsWithin` — a number of steps within the expanded print of a piece.

* `Machine.Inside`, `Machine.Moved` — a machine inside a body reading a piece's print, and one
  that has moved past it.
* `Machine.Lands` — how the machine ends a piece with a given result.
* `Machine.Enters`, `Machine.Leaves` — the steps into a group's inside, and out of it.

## Main statements

* `Machine.skip_seq` — the failed mode passes over an alternative.
* `Machine.enter_group`, `Machine.enter_call` — a nested group and a call are entered and left.
* `Machine.skip_rest`, `Machine.backtrack_next` — the `|` after an alternative, in either mode.
* `Machine.RunItem.lands_within`, `Machine.RunSeq.lands_within`, `Machine.RunGroup.lands_within`
  — the machine follows a derivation, within the steps its expanded print allows.
* `Machine.RunItem.lands`, `Machine.RunSeq.lands`, `Machine.RunGroup.lands` — the machine
  follows a derivation.
-/

namespace Abacus

/-- The tokens of a function's body, its braces included, printed from its tree; nothing when
the function is not defined. -/
def Program.bodyText? (p : Program) (name : Bytes) : Option (List Bytes) :=
  (p.body? name).map fun body => (Item.group body).words

/-- Whether a piece ends at a call of a function that is not defined. -/
def Result.isUndefined : Result → Bool
  | .undefined _ => true
  | _ => false

namespace Machine

/-- Machine `m` is inside the body of its innermost call, has not finished, has `chain` as the
names of its calls, and reads the tokens `ws`, then `rest`. -/
structure Inside (p : Program) (chain : List Bytes) (m : Machine) (ws : List Bytes)
    (rest : List Lexeme) : Prop where
  finished : m.finished = false
  names : m.frames.map (·.name) = chain
  deeper : ∃ f fs, m.frames = f :: fs ∧ f.depth < m.depth
  view : ∃ pre, p.view m.pc = pre ++ rest ∧ pre.map (·.word) = ws

/-- `m'` has the groups and the calls of `m` open, has not finished, and reads `rest`. -/
structure Moved (p : Program) (m m' : Machine) (rest : List Lexeme) : Prop where
  depth : m'.depth = m.depth
  snapshots : m'.snapshots = m.snapshots
  frames : m'.frames = m.frames
  finished : m'.finished = false
  view : p.view m'.pc = rest

/-- How the machine ends, in `k` steps, a piece that ends with result `r` and shows `out`: past
the piece with the same groups and calls open, in the success mode with the register or in the
failed mode; or, for a call of a function that is not defined, at a step that meets its fault. -/
def Lands (p : Program) (m : Machine) (rest : List Lexeme) (r : Result) (out : Text)
    (k : Nat) : Prop :=
  ∃ texts m', Exec p m k texts m' ∧ texts.flatten = out ∧
    match r with
    | .ok v => Moved p m m' rest ∧ m'.mode = .success ∧ m'.register = v
    | .fail => Moved p m m' rest ∧ m'.mode = .failed
    | .undefined f => m'.finished = false ∧
        ∃ st offset file, m'.step p = .ok st ∧ st.effect = .error (.undefinedCall f offset file)

/-- Wherever the machine stands after reading `mid` from `m₁`, one step takes it back to the
groups and calls of `m`, reading `rest`, with the mode and register it had. -/
def Leaves (p : Program) (m : Machine) (rest : List Lexeme) (m₁ : Machine)
    (mid : List Lexeme) : Prop :=
  ∀ m₂, Moved p m₁ m₂ mid →
    ∃ m₃, Exec p m₂ 1 [] m₃ ∧ Moved p m m₃ rest ∧ m₃.mode = m₂.mode ∧ m₃.register = m₂.register

section Pieces

variable {p : Program} {chain : List Bytes} {m m₁ m₂ : Machine} {ws vs : List Bytes}
  {rest mid : List Lexeme}

theorem Moved.trans (h₁ : Moved p m m₁ mid) (h₂ : Moved p m₁ m₂ rest) : Moved p m m₂ rest :=
  ⟨h₂.depth.trans h₁.depth, h₂.snapshots.trans h₁.snapshots, h₂.frames.trans h₁.frames,
    h₂.finished, h₂.view⟩

/-- Past a piece, the machine is inside the same body, reading what follows. -/
theorem Inside.of_moved (h : Inside p chain m ws rest) (hm : Moved p m m₁ mid)
    {pre : List Lexeme} (hmid : mid = pre ++ rest) (hpre : pre.map (·.word) = vs) :
    Inside p chain m₁ vs rest := by
  obtain ⟨f, fs, hfs, hlt⟩ := h.deeper
  exact ⟨hm.finished, by rw [hm.frames]; exact h.names, ⟨f, fs, by rw [hm.frames]; exact hfs,
    by rw [hm.depth]; exact hlt⟩, pre, by rw [hm.view, hmid], hpre⟩

/-- The print of a piece followed by more is read as the piece, then the rest. -/
theorem Inside.split (h : Inside p chain m (ws ++ vs) rest) :
    ∃ pre, Inside p chain m ws (pre ++ rest) ∧ pre.map (·.word) = vs := by
  obtain ⟨pre, hv, hw⟩ := h.view
  obtain ⟨pre₁, pre₂, rfl, hw₁, hw₂⟩ := List.map_eq_append_iff.1 hw
  exact ⟨pre₂, ⟨h.finished, h.names, h.deeper, pre₁, by rw [hv, List.append_assoc], hw₁⟩, hw₂⟩

/-- A piece of one token is read as one lexeme. -/
theorem Inside.single {w : Bytes} (h : Inside p chain m [w] rest) :
    ∃ l, p.view m.pc = l :: rest ∧ l.word = w := by
  obtain ⟨pre, hv, hw⟩ := h.view
  obtain ⟨l, rfl, hl⟩ := List.map_eq_singleton_iff.1 hw
  exact ⟨l, hv, hl⟩

/-- A whole group is read as its `{`, its inside, and its `}`. -/
theorem Inside.group (h : Inside p chain m (openWord :: ws ++ [closeWord]) rest) :
    ∃ o pre c, p.view m.pc = o :: (pre ++ c :: rest) ∧ o.word = openWord ∧
      pre.map (·.word) = ws ∧ c.word = closeWord := by
  obtain ⟨all, hv, hw⟩ := h.view
  obtain ⟨o, tl, rfl, ho, htl⟩ := List.map_eq_cons_iff.1 hw
  obtain ⟨pre, cl, rfl, hpre, hcl⟩ := List.map_eq_append_iff.1 htl
  obtain ⟨c, rfl, hc⟩ := List.map_eq_singleton_iff.1 hcl
  exact ⟨o, pre, c, by rw [hv]; simp, ho, hpre, hc⟩

/-- The machine past a token that leaves the groups and calls as they are. -/
theorem moved_past {l : Lexeme} (hf : m.finished = false) (hv : p.view m.pc = l :: rest)
    {m' : Machine} (hd : m'.depth = m.depth) (hs : m'.snapshots = m.snapshots)
    (hfs : m'.frames = m.frames) (hf' : m'.finished = m.finished)
    (hpc : m'.pc = ⟨m.pc.source, l.stop⟩) : Moved p m m' rest :=
  ⟨hd, hs, hfs, hf'.trans hf, by rw [hpc]; exact Program.view_next hv⟩

/-- A run to a machine that has moved past part of a piece, then the end of the rest of it, is
the end of the piece. -/
theorem Lands.prepend {k₁ k₂ : Nat} {t₁ : List Text} {r : Result} {out : Text}
    (h₁ : Exec p m k₁ t₁ m₁) (hm : Moved p m m₁ mid) (h₂ : Lands p m₁ rest r out k₂) :
    Lands p m rest r (t₁.flatten ++ out) (k₁ + k₂) := by
  obtain ⟨t₂, m', h₂, rfl, hend⟩ := h₂
  refine ⟨t₁ ++ t₂, m', h₁.trans h₂, List.flatten_append, ?_⟩
  cases r with
  | ok v => exact ⟨hm.trans hend.1, hend.2⟩
  | fail => exact ⟨hm.trans hend.1, hend.2⟩
  | undefined f => exact hend

theorem lands_ok {k v : Nat} {texts : List Text} (h : Exec p m k texts m₁) (hm : Moved p m m₁ rest)
    (hmode : m₁.mode = .success) (hr : m₁.register = v) :
    Lands p m rest (.ok v) texts.flatten k :=
  ⟨texts, m₁, h, rfl, hm, hmode, hr⟩

theorem lands_fail {k : Nat} {texts : List Text} (h : Exec p m k texts m₁)
    (hm : Moved p m m₁ rest) (hmode : m₁.mode = .failed) : Lands p m rest .fail texts.flatten k :=
  ⟨texts, m₁, h, rfl, hm, hmode⟩

/-- A piece entered in `k₁` steps that show nothing, whose inside ends at a token that one more
step takes past the piece, ends as its inside does, one step after it (none when it stops at an
undefined call). -/
theorem Exec.wrap_lands {k₁ k : Nat} {r : Result} {out : Text} (h₁ : Exec p m k₁ [] m₁)
    (hk₁ : 0 < k₁)
    (hclose : Leaves p m rest m₁ mid) (h : Lands p m₁ mid r out k) :
    ∃ k', 0 < k' ∧ k' + r.isUndefined.toNat = k₁ + k + 1 ∧ Lands p m rest r out k' := by
  obtain ⟨texts, m₂, h₂, rfl, hend⟩ := h
  cases r with
  | ok v =>
    obtain ⟨m₃, h₃, hmoved, hmode, hreg⟩ := hclose m₂ hend.1
    refine ⟨k₁ + k + 1, by omega, rfl, [] ++ texts ++ [], m₃, (h₁.trans h₂).trans h₃, by simp,
      hmoved, hmode.trans hend.2.1, hreg.trans hend.2.2⟩
  | fail =>
    obtain ⟨m₃, h₃, hmoved, hmode, -⟩ := hclose m₂ hend.1
    exact ⟨k₁ + k + 1, by omega, rfl, [] ++ texts ++ [], m₃, (h₁.trans h₂).trans h₃, by simp,
      hmoved, hmode.trans hend.2⟩
  | undefined f => exact ⟨k₁ + k, by omega, rfl, [] ++ texts, m₂, h₁.trans h₂, by simp, hend⟩

/-- A call of a function that is not defined stops wherever it stands. -/
theorem Lands.undefined_rest {f : Bytes} {out : Text} {k : Nat} {rest' : List Lexeme}
    (h : Lands p m rest (.undefined f) out k) : Lands p m rest' (.undefined f) out k := h

end Pieces

/-! ### The failed mode passes over an alternative -/

/-- An item is a group, or a single token other than a brace or `|`. -/
theorem Item.group_or_single {i : Item} (hi : i.Valid) :
    (∃ alts, i = .group alts) ∨
      ∃ w, i.words = [w] ∧ w ≠ openWord ∧ w ≠ closeWord ∧ w ≠ barWord := by
  cases i with
  | plus => exact .inr ⟨_, rfl, by decide, by decide, by decide⟩
  | minus => exact .inr ⟨_, rfl, by decide, by decide, by decide⟩
  | query => exact .inr ⟨_, rfl, by decide, by decide, by decide⟩
  | bang => exact .inr ⟨_, rfl, by decide, by decide, by decide⟩
  | atSign => exact .inr ⟨_, rfl, by decide, by decide, by decide⟩
  | call name =>
    exact .inr ⟨_, rfl, (ne_braces_of_call hi).1, (ne_braces_of_call hi).2,
      fun hw => absurd (hi _ (Symbol.ofWord?_eq_some_iff.2 hw)) (by decide)⟩
  | group alts => exact .inl ⟨alts, rfl⟩

/-- Every item is printed as at least one token. -/
theorem Item.one_le_length_words {i : Item} : 1 ≤ i.words.length := by
  cases i <;> simp [Item.words]

section Skip

variable {p : Program} {chain : List Bytes}

/-- **In the failed mode the machine passes over the rest of an alternative**, showing nothing:
each token is passed over, and each nested group is stepped over whole, so the steps are no more
than the alternative's tokens. The induction is on the items of the alternative. -/
theorem skip_seq : ∀ {is : List Item} {m : Machine} {rest : List Lexeme}, ValidSeq is →
    Inside p chain m (seqWords is) rest → m.mode = .failed →
    ∃ k m', Exec p m k [] m' ∧ Moved p m m' rest ∧ m'.mode = .failed ∧ k ≤ (seqWords is).length
  | [], m, rest, _, h, hm => by
    obtain ⟨pre, hv, hw⟩ := h.view
    obtain rfl : pre = [] := List.map_eq_nil_iff.1 hw
    exact ⟨0, m, .refl m, ⟨rfl, rfl, rfl, h.finished, hv⟩, hm, Nat.zero_le _⟩
  | i :: is, m, rest, hvalid, h, hm => by
    obtain ⟨pre, hi, hpre⟩ := (show Inside p chain m (i.words ++ seqWords is) rest from h).split
    -- pass over the item to a machine `m₁` reading the rest of the alternative
    obtain ⟨m₁, h₁, hmoved₁, hm₁⟩ :
        ∃ m₁, Exec p m 1 [] m₁ ∧ Moved p m m₁ (pre ++ rest) ∧ m₁.mode = .failed := by
      rcases Item.group_or_single hvalid.1 with ⟨alts, rfl⟩ | ⟨w, hw, ho, hc, hb⟩
      · obtain ⟨o, inner, c, hv, hwo, hwi, hwc⟩ := hi.group
        have hview := Program.view_next hv
        have hcl : Scan.closeOf 0 (inner ++ c :: (pre ++ rest)) = some (c, pre ++ rest) :=
          Scan.closeOf_balanced_close _ (hwi ▸ balanced_altsWords hvalid.1) hwc
        have hclose : p.close? ⟨m.pc.source, o.stop⟩ = some c := by
          rw [Program.close?_eq_closeOf, hview, hcl]
          rfl
        exact ⟨_, exec_skipGroup hi.finished hv hm hwo hclose,
          ⟨rfl, rfl, rfl, hi.finished, (Program.view_of_eq_append hview).2⟩, hm⟩
      · rw [hw] at hi
        obtain ⟨l, hv, rfl⟩ := hi.single
        exact ⟨_, exec_pass hi.finished hv hm ho hc hb,
          moved_past hi.finished hv rfl rfl rfl rfl rfl, hm⟩
    obtain ⟨k, m', h₂, hmoved₂, hm', hk⟩ :=
      skip_seq hvalid.2 (h.of_moved hmoved₁ rfl hpre) hm₁
    have hlen : 1 ≤ i.words.length := Item.one_le_length_words
    refine ⟨1 + k, m', h₁.trans h₂, hmoved₁.trans hmoved₂, hm', ?_⟩
    rw [seqWords_cons, List.length_append]
    omega

end Skip

/-! ### Entering and leaving groups -/

theorem Program.find?_of_body? {p : Program} {name : Bytes} {body : List (List Item)}
    (h : p.body? name = some body) : ∃ a, p.table.find? name = some a := by
  unfold Program.body? at h
  cases ha : p.table.find? name with
  | none =>
    rw [ha] at h
    cases h
  | some a => exact ⟨a, rfl⟩

/-- From `m`, `k` steps that show nothing reach `m₁` at the print of the alternatives `alts` of a
group, up to its `}` `c` and `rest'`, inside a body with calls `chain`, in the success mode,
with the register of `m` saved. -/
structure Enters (p : Program) (chain : List Bytes) (alts : List (List Item)) (m : Machine)
    (k : Nat) (m₁ : Machine) (c : Lexeme) (rest' : List Lexeme) : Prop where
  exec : Exec p m k [] m₁
  inside : Inside p chain m₁ (altsWords alts) (c :: rest')
  closeWord : c.word = closeWord
  mode : m₁.mode = .success
  register : m₁.register = m.register
  saved : m₁.snapshots.head? = some m.register

section Groups

variable {sources : List Source} {p : Program} {chain : List Bytes} {m : Machine}
  {rest : List Lexeme}

/-- **A nested group is entered at its `{` and left at its `}`.** -/
theorem enter_group {alts : List (List Item)} (h : Inside p chain m (Item.group alts).words rest)
    (hm : m.mode = .success) :
    ∃ m₁ c, Enters p chain alts m 1 m₁ c rest ∧ Leaves p m rest m₁ (c :: rest) := by
  obtain ⟨o, pre, c, hv, ho, hpre, hc⟩ := h.group
  obtain ⟨f, fs, hfs, hlt⟩ := h.deeper
  refine ⟨_, c, ⟨exec_open h.finished hv hm ho,
    ⟨h.finished, h.names, ⟨f, fs, hfs, Nat.lt_succ_of_lt hlt⟩, pre, Program.view_next hv, hpre⟩,
    hc, hm, rfl, rfl⟩, fun m₂ hmoved => ?_⟩
  -- the `}` closes the group, inside the body
  have hd : m₂.depth - 1 = m.depth := by
    rw [hmoved.depth]
    rfl
  exact ⟨_, exec_close_inner hmoved.finished hmoved.view hc hmoved.snapshots
    (hmoved.frames.trans hfs) (by rw [hd]; exact Nat.ne_of_gt hlt),
    ⟨hd, rfl, hmoved.frames, hmoved.finished, Program.view_next hmoved.view⟩, rfl, rfl⟩

/-- **A call of a defined function enters its body and returns past the call.** The call pushes
a frame and goes to the body's `{`; the body's `}` pops the frame and comes back. -/
theorem enter_call (hp : Program.load sources = .ok p) {f : Bytes} {body : List (List Item)}
    (h : Inside p chain m (Item.call f).words rest) (hm : m.mode = .success)
    (hvalid : (Item.call f).Valid) (hb : p.body? f = some body) :
    ValidAlts body ∧
      ∃ m₁ c rest',
        Enters p (f :: chain) body m 2 m₁ c rest' ∧ Leaves p m rest m₁ (c :: rest') := by
  obtain ⟨l, hv, hw⟩ := h.single
  obtain ⟨a, ha⟩ := Program.find?_of_body? hb
  obtain ⟨body', o, pre, c, rest', hbody, hva, ho, hpre, hc, hvalid'⟩ :=
    Program.body?_eq_some hp ha
  obtain rfl : body = body' := Option.some.inj (hb.symm.trans hbody)
  rw [← hw] at ha hvalid
  refine ⟨hvalid', _, c, rest',
    ⟨(exec_call h.finished hv hm hvalid ha).trans (exec_open h.finished hva hm ho),
      ⟨h.finished, by simp [h.names, hw], ⟨_, _, rfl, Nat.lt_succ_self _⟩, pre,
        Program.view_next hva, hpre⟩, hc, hm, rfl, rfl⟩, fun m₂ hmoved => ?_⟩
  -- the `}` of the body returns past the call
  have hd : m₂.depth - 1 = m.depth := by
    rw [hmoved.depth]
    rfl
  exact ⟨_, exec_close_return hmoved.finished hmoved.view hc hmoved.snapshots hmoved.frames hd rfl,
    ⟨hd, rfl, rfl, hmoved.finished, Program.view_next hv⟩, rfl, rfl⟩

/-- The print of a group with more than one alternative: the first, a `|`, the others. -/
theorem Inside.alts_cons {a b : List Item} {bs : List (List Item)}
    (h : Inside p chain m (altsWords (a :: b :: bs)) rest) :
    ∃ bl pre, Inside p chain m (seqWords a) (bl :: (pre ++ rest)) ∧ bl.word = barWord ∧
      pre.map (·.word) = altsWords (b :: bs) := by
  rw [altsWords_cons_cons] at h
  obtain ⟨pre, hseq, hpre⟩ := h.split
  obtain ⟨bl, pre', rfl, hbl, hpre'⟩ := List.map_eq_cons_iff.1 hpre
  exact ⟨bl, pre', hseq, hbl, hpre'⟩

/-- The print of a group starts with the print of its first alternative. -/
theorem Inside.alts_head {a : List Item} {as : List (List Item)}
    (h : Inside p chain m (altsWords (a :: as)) rest) :
    ∃ pre, Inside p chain m (seqWords a) (pre ++ rest) := by
  cases as with
  | nil => exact ⟨[], h⟩
  | cons b bs =>
    obtain ⟨bl, pre, hseq, -, -⟩ := h.alts_cons
    exact ⟨bl :: pre, hseq⟩

/-- A `|` after an alternative that ended with a register lands on the group's `}`. -/
theorem skip_rest {m₁ : Machine} {bl c : Lexeme} {pre : List Lexeme} {bs : List (List Item)}
    (hmoved : Moved p m m₁ (bl :: (pre ++ c :: rest))) (hmode : m₁.mode = .success)
    (hbl : bl.word = barWord) (hpre : pre.map (·.word) = altsWords bs) (hvalid : ValidAlts bs)
    (hc : c.word = closeWord) :
    ∃ m₂, Exec p m₁ 1 [] m₂ ∧ Moved p m m₂ (c :: rest) ∧ m₂.mode = .success ∧
      m₂.register = m₁.register := by
  have hview := Program.view_next hmoved.view
  have hclose : p.close? ⟨m₁.pc.source, bl.stop⟩ = some c := by
    rw [Program.close?_eq_closeOf, hview,
      Scan.closeOf_balanced_close _ (hpre ▸ balanced_altsWords hvalid) hc]
    rfl
  exact ⟨_, exec_skip hmoved.finished hmoved.view hmode hbl hclose, ⟨hmoved.depth,
    hmoved.snapshots, hmoved.frames, hmoved.finished, (Program.view_of_eq_append hview).1⟩,
    hmode, rfl⟩

/-- A `|` after an alternative that failed goes back to the register the group was entered
with: the machine is at the next alternatives. -/
theorem backtrack_next {m₁ : Machine} {n : Nat} {bl c : Lexeme} {pre : List Lexeme}
    {ws : List Bytes} {bs : List (List Item)}
    (h : Inside p chain m ws (c :: rest)) (hhead : m.snapshots.head? = some n)
    (hmoved : Moved p m m₁ (bl :: (pre ++ c :: rest))) (hmode : m₁.mode = .failed)
    (hbl : bl.word = barWord) (hpre : pre.map (·.word) = altsWords bs) :
    ∃ m₂, Exec p m₁ 1 [] m₂ ∧ Moved p m m₂ (pre ++ c :: rest) ∧
      Inside p chain m₂ (altsWords bs) (c :: rest) ∧ m₂.mode = .success ∧ m₂.register = n ∧
      m₂.snapshots.head? = some n := by
  obtain ⟨saved, hsaved⟩ : ∃ saved, m.snapshots = n :: saved := by
    cases hs : m.snapshots with
    | nil =>
      rw [hs] at hhead
      cases hhead
    | cons r rs =>
      rw [hs] at hhead
      exact ⟨rs, by rw [Option.some.inj hhead]⟩
  have hmoved₂ : Moved p m
      { m₁ with pc := ⟨m₁.pc.source, bl.stop⟩, register := n, mode := .success }
      (pre ++ c :: rest) :=
    ⟨hmoved.depth, hmoved.snapshots, hmoved.frames, hmoved.finished,
      Program.view_next hmoved.view⟩
  exact ⟨_, exec_backtrack hmoved.finished hmoved.view hmode hbl (hmoved.snapshots.trans hsaved),
    hmoved₂, h.of_moved hmoved₂ rfl hpre, rfl, rfl, by rw [hmoved₂.snapshots, hsaved]; rfl⟩

end Groups

/-! ### Steps within the expanded print -/

section Bounds

variable {p : Program} {ws vs : List Bytes} {k j : Nat}

/-- `k` steps are within the print `ws` of a piece: at every depth within which its calls are
expanded, the print with every call expanded into the call and the body it calls has at least
`k` tokens. -/
def StepsWithin (p : Program) (ws : List Bytes) (k : Nat) : Prop :=
  ∀ d, Expand.Within p.bodyText? d ws → k ≤ (Expand.expand p.bodyText? true d ws).length

theorem StepsWithin.mono (h : StepsWithin p ws k) (hj : j ≤ k) : StepsWithin p ws j :=
  fun d hd => Nat.le_trans hj (h d hd)

/-- As many steps as a print has tokens are within it. -/
theorem StepsWithin.of_length (h : k ≤ ws.length) : StepsWithin p ws k :=
  fun _ _ => Nat.le_trans h Expand.length_le_expand

theorem StepsWithin.append (h₁ : StepsWithin p ws k) (h₂ : StepsWithin p vs j) :
    StepsWithin p (ws ++ vs) (k + j) := fun d hd => by
  obtain ⟨hw, hv⟩ := Expand.within_append.1 hd
  rw [Expand.expand_append, List.length_append]
  exact Nat.add_le_add (h₁ d hw) (h₂ d hv)

theorem StepsWithin.extend (h : StepsWithin p ws k) : StepsWithin p (ws ++ vs) k :=
  h.append (.of_length (Nat.zero_le vs.length))

/-- The steps within the first alternative of a group are within the group's inside. -/
theorem StepsWithin.alts_head {a : List Item} {as : List (List Item)}
    (h : StepsWithin p (seqWords a) k) : StepsWithin p (altsWords (a :: as)) k := by
  cases as with
  | nil => exact h
  | cons b bs =>
    rw [altsWords_cons_cons]
    exact h.extend

/-- A group's `{` and `}` take a step each around its inside. -/
theorem StepsWithin.group {alts : List (List Item)} (h : StepsWithin p (altsWords alts) k) :
    StepsWithin p (Item.group alts).words (k + 2) := by
  have hgroup : StepsWithin p ([openWord] ++ altsWords alts ++ [closeWord]) (1 + k + 1) :=
    ((StepsWithin.of_length (Nat.le_refl 1)).append h).append (.of_length (Nat.le_refl 1))
  exact hgroup.mono (by omega)

/-- **A call of a defined function takes one step more than the body it calls**: the call's
token stands in front of the body in the expanded print. -/
theorem StepsWithin.call {f : Bytes} {body : List (List Item)} (hb : p.body? f = some body)
    (h : StepsWithin p (Item.group body).words k) : StepsWithin p [f] (k + 1) := fun d hd => by
  have ht : p.bodyText? f = some (Item.group body).words := by
    rw [Program.bodyText?, hb]
    rfl
  cases d with
  | zero => exact absurd hd (Expand.not_within_zero_single_of_some ht)
  | succ d =>
    have hk := h d ((Expand.within_succ_single_of_some ht).1 hd)
    rw [Expand.expand_succ_single_of_some ht, if_pos rfl, List.length_append,
      List.length_singleton]
    omega

end Bounds

/-! ### Following a derivation -/

section Forward

variable {sources : List Source} {p : Program}

mutual

/-- **The machine follows a derivation for an item, within the steps of its expanded print.**
From the item's print, in the success mode with the item's register, it ends the item as the
derivation says; an item that ends with a register takes at least one step. The steps, with the
one that meets the fault of an undefined call, are within the item's expanded print. -/
theorem RunItem.lands_within (hp : Program.load sources = .ok p) :
    ∀ {chain : List Bytes} {n : Nat} {i : Item} {r : Result} {out : Text},
      RunItem p.body? chain n i r out → ∀ {m : Machine} {rest : List Lexeme}, i.Valid →
      Inside p chain m i.words rest → m.mode = .success → m.register = n →
      ∃ k, Lands p m rest r out k ∧ (r.isOk = true → 0 < k) ∧
        StepsWithin p i.words (k + r.isUndefined.toNat)
  | _, _, _, _, _, .plus, m, rest, _, h, hm, hr => by
    obtain ⟨l, hv, hw⟩ := h.single
    exact ⟨1, lands_ok (exec_plus h.finished hv hm (Symbol.ofWord?_eq_some_iff.2 hw))
      (moved_past h.finished hv rfl rfl rfl rfl rfl) hm (by rw [← hr]), fun _ => Nat.one_pos,
      .of_length (Nat.le_refl 1)⟩
  | _, _, _, _, _, .minusZero, m, rest, _, h, hm, hr => by
    obtain ⟨l, hv, hw⟩ := h.single
    exact ⟨1, lands_fail (exec_minus_zero h.finished hv hm (Symbol.ofWord?_eq_some_iff.2 hw) hr)
      (moved_past h.finished hv rfl rfl rfl rfl rfl) rfl, fun _ => Nat.one_pos,
      .of_length (Nat.le_refl 1)⟩
  | _, _, _, _, _, .minusSucc, m, rest, _, h, hm, hr => by
    obtain ⟨l, hv, hw⟩ := h.single
    exact ⟨1, lands_ok (exec_minus_succ h.finished hv hm (Symbol.ofWord?_eq_some_iff.2 hw) hr)
      (moved_past h.finished hv rfl rfl rfl rfl rfl) hm rfl, fun _ => Nat.one_pos,
      .of_length (Nat.le_refl 1)⟩
  | _, _, _, _, _, .query, m, rest, _, h, hm, hr => by
    obtain ⟨l, hv, hw⟩ := h.single
    exact ⟨1, lands_ok (exec_query h.finished hv hm (Symbol.ofWord?_eq_some_iff.2 hw))
      (moved_past h.finished hv rfl rfl rfl rfl rfl) hm hr, fun _ => Nat.one_pos,
      .of_length (Nat.le_refl 1)⟩
  | _, _, _, _, _, .bang, m, rest, _, h, hm, hr => by
    obtain ⟨l, hv, hw⟩ := h.single
    have hl := lands_ok (exec_bang h.finished hv hm (Symbol.ofWord?_eq_some_iff.2 hw))
      (moved_past h.finished hv rfl rfl rfl rfl rfl) hm hr
    rw [List.flatten_singleton, hr] at hl
    exact ⟨1, hl, fun _ => Nat.one_pos, .of_length (Nat.le_refl 1)⟩
  | _, _, _, _, _, .atSign, m, rest, _, h, hm, hr => by
    obtain ⟨l, hv, hw⟩ := h.single
    have hl := lands_ok (exec_atSign h.finished hv hm (Symbol.ofWord?_eq_some_iff.2 hw))
      (moved_past h.finished hv rfl rfl rfl rfl rfl) hm hr
    rw [List.flatten_singleton, h.names] at hl
    exact ⟨1, hl, fun _ => Nat.one_pos, .of_length (Nat.le_refl 1)⟩
  | _, _, _, _, _, .callUndefined hb, m, rest, hvalid, h, hm, _ => by
    obtain ⟨l, hv, rfl⟩ := h.single
    have ha := (Program.body?_eq_none_iff hp).1 hb
    exact ⟨0, ⟨[], m, .refl m, rfl, h.finished, _, _, _, step_call_undefined hv hm hvalid ha, rfl⟩,
      (fun h => nomatch h), .of_length (Nat.le_refl 1)⟩
  | _, _, _, _, _, .call hb hg, m, rest, hvalid, h, hm, hr => by
    obtain ⟨hvalid', m₁, c, rest', he, hleave⟩ := enter_call hp h hm hvalid hb
    obtain ⟨k, hk, hsteps⟩ := RunGroup.lands_within hp hg hvalid' he.inside he.closeWord he.mode
      (he.register.trans hr) (by rw [he.saved, hr])
    -- the call and the body's `{` take two steps, the body's `}` one more
    obtain ⟨k', hpos, hk', hl⟩ := he.exec.wrap_lands (by decide) hleave hk
    exact ⟨k', hl, fun _ => hpos, (hsteps.group.call hb).mono (by omega)⟩
  | _, _, _, _, _, .group hg, m, rest, hvalid, h, hm, hr => by
    obtain ⟨m₁, c, he, hleave⟩ := enter_group h hm
    obtain ⟨k, hk, hsteps⟩ := RunGroup.lands_within hp hg hvalid he.inside he.closeWord he.mode
      (he.register.trans hr) (by rw [he.saved, hr])
    obtain ⟨k', hpos, hk', hl⟩ := he.exec.wrap_lands Nat.one_pos hleave hk
    exact ⟨k', hl, fun _ => hpos, hsteps.group.mono (by omega)⟩

/-- **The machine follows a derivation for an alternative**, within the steps of its expanded
print. -/
theorem RunSeq.lands_within (hp : Program.load sources = .ok p) :
    ∀ {chain : List Bytes} {n : Nat} {is : List Item} {r : Result} {out : Text},
      RunSeq p.body? chain n is r out → ∀ {m : Machine} {rest : List Lexeme}, ValidSeq is →
      Inside p chain m (seqWords is) rest → m.mode = .success → m.register = n →
      ∃ k, Lands p m rest r out k ∧ StepsWithin p (seqWords is) (k + r.isUndefined.toNat)
  | _, _, _, _, _, .nil, m, rest, _, h, hm, hr => by
    obtain ⟨pre, hv, hw⟩ := h.view
    obtain rfl : pre = [] := List.map_eq_nil_iff.1 hw
    exact ⟨0, lands_ok (.refl m) ⟨rfl, rfl, rfl, h.finished, hv⟩ hm hr, .of_length (Nat.le_refl 0)⟩
  | _, _, _, _, _, .cons hi hs, m, rest, hvalid, h, hm, hr => by
    rw [seqWords_cons] at h ⊢
    obtain ⟨pre, hitem, hpre⟩ := h.split
    obtain ⟨k₁, ⟨t₁, m₁, h₁, rfl, hmoved, hmode, hreg⟩, -, hsteps₁⟩ :=
      RunItem.lands_within hp hi hvalid.1 hitem hm hr
    obtain ⟨k₂, hk₂, hsteps₂⟩ :=
      RunSeq.lands_within hp hs hvalid.2 (h.of_moved hmoved rfl hpre) hmode hreg
    exact ⟨k₁ + k₂, Lands.prepend h₁ hmoved hk₂, (hsteps₁.append hsteps₂).mono (by omega)⟩
  | _, _, _, _, _, @RunSeq.stop _ _ _ _ _ r _ hi hr', m, rest, hvalid, h, hm, hr => by
    rw [seqWords_cons] at h ⊢
    obtain ⟨pre, hitem, hpre⟩ := h.split
    obtain ⟨k₁, hk₁, -, hsteps₁⟩ := RunItem.lands_within hp hi hvalid.1 hitem hm hr
    cases r with
    | ok v => cases hr'
    | fail =>
      -- the failed mode passes over the rest of the alternative, a step for each token at most
      obtain ⟨t₁, m₁, h₁, rfl, hmoved, hmode⟩ := hk₁
      obtain ⟨k₂, m₂, h₂, hmoved₂, hmode₂, hk₂⟩ :=
        skip_seq hvalid.2 (h.of_moved hmoved rfl hpre) hmode
      exact ⟨k₁ + k₂, ⟨t₁ ++ [], m₂, h₁.trans h₂, by simp, hmoved.trans hmoved₂, hmode₂⟩,
        hsteps₁.append (.of_length hk₂)⟩
    | undefined f => exact ⟨k₁, hk₁.undefined_rest, hsteps₁.extend⟩

/-- **The machine follows a derivation for a group**, from the print of its alternatives with
the register the group was entered with saved, to the group's `}`, within the steps of the
expanded print of its alternatives. -/
theorem RunGroup.lands_within (hp : Program.load sources = .ok p) :
    ∀ {chain : List Bytes} {n : Nat} {alts : List (List Item)} {r : Result} {out : Text},
      RunGroup p.body? chain n alts r out → ∀ {m : Machine} {c : Lexeme} {rest : List Lexeme},
      ValidAlts alts → Inside p chain m (altsWords alts) (c :: rest) → c.word = closeWord →
      m.mode = .success → m.register = n → m.snapshots.head? = some n →
      ∃ k, Lands p m (c :: rest) r out k ∧ StepsWithin p (altsWords alts) (k + r.isUndefined.toNat)
  | _, _, _, _, _, .nil, _, _, _, hvalid, _, _, _, _, _ => hvalid.elim
  | _, _, _, _, _, @RunGroup.first _ _ _ _ [] _ _ hs, _, _, _, hvalid, h, _, hm, hr, _ =>
    RunSeq.lands_within hp hs hvalid h hm hr
  | _, _, _, _, _, @RunGroup.first _ _ _ _ (b :: bs) _ _ hs, m, c, rest, hvalid, h, hc, hm, hr,
      _ => by
    obtain ⟨bl, pre, hseq, hbl, hpre⟩ := h.alts_cons
    obtain ⟨k₁, ⟨t₁, m₁, h₁, rfl, hmoved, hmode, hreg⟩, hsteps⟩ :=
      RunSeq.lands_within hp hs hvalid.1 hseq hm hr
    -- the `|` after a successful alternative lands on the group's `}`
    obtain ⟨m₂, h₂, hmoved₂, hmode₂, hreg₂⟩ := skip_rest hmoved hmode hbl hpre hvalid.2 hc
    rw [altsWords_cons_cons]
    exact ⟨k₁ + 1, ⟨t₁ ++ [], m₂, h₁.trans h₂, by simp, hmoved₂, hmode₂, hreg₂.trans hreg⟩,
      hsteps.append (.of_length (Nat.le_add_left 1 _))⟩
  | _, _, _, _, _, @RunGroup.next _ _ _ _ [] _ _ _ hs hg, _, _, _, hvalid, h, _, hm, hr, _ => by
    cases hg
    obtain ⟨k, hk, hsteps⟩ := RunSeq.lands_within hp hs hvalid h hm hr
    exact ⟨k, by simpa using hk, hsteps⟩
  | _, _, _, _, _, @RunGroup.next _ _ _ _ (b :: bs) _ _ _ hs hg, m, c, rest, hvalid, h, hc, hm,
      hr, hhead => by
    obtain ⟨bl, pre, hseq, hbl, hpre⟩ := h.alts_cons
    obtain ⟨k₁, ⟨t₁, m₁, h₁, rfl, hmoved, hmode⟩, hsteps₁⟩ :=
      RunSeq.lands_within hp hs hvalid.1 hseq hm hr
    -- the `|` after a failed alternative goes back to the saved register
    obtain ⟨m₂, h₂, hmoved₂, hin₂, hmode₂, hreg₂, hhead₂⟩ :=
      backtrack_next h hhead hmoved hmode hbl hpre
    obtain ⟨k₂, hk₂, hsteps₂⟩ := RunGroup.lands_within hp hg hvalid.2 hin₂ hc hmode₂ hreg₂ hhead₂
    have hl := Lands.prepend (h₁.trans h₂) hmoved₂ hk₂
    rw [List.flatten_append, List.flatten_nil, List.append_nil] at hl
    have hbar : StepsWithin p ([barWord] ++ altsWords (b :: bs)) (1 + (k₂ + _)) :=
      (StepsWithin.of_length (Nat.le_refl 1)).append hsteps₂
    rw [altsWords_cons_cons]
    exact ⟨k₁ + 1 + k₂, hl, (hsteps₁.append hbar).mono (by omega)⟩
  | _, _, _, _, _, .stuck hs, m, c, rest, hvalid, h, _, hm, hr, _ => by
    obtain ⟨pre, hseq⟩ := h.alts_head
    obtain ⟨k, hk, hsteps⟩ := RunSeq.lands_within hp hs hvalid.head hseq hm hr
    exact ⟨k, hk.undefined_rest, hsteps.alts_head⟩

end

/-- **The machine follows a derivation for an item.** From the item's print, in the success
mode with the item's register, it ends the item as the derivation says; an item that ends with a
register takes at least one step. -/
theorem RunItem.lands (hp : Program.load sources = .ok p) :
    ∀ {chain : List Bytes} {n : Nat} {i : Item} {r : Result} {out : Text},
      RunItem p.body? chain n i r out → ∀ {m : Machine} {rest : List Lexeme}, i.Valid →
      Inside p chain m i.words rest → m.mode = .success → m.register = n →
      ∃ k, Lands p m rest r out k ∧ (r.isOk = true → 0 < k) :=
  fun hi => fun hvalid h hm hr =>
    (RunItem.lands_within hp hi hvalid h hm hr).imp fun _ hk => ⟨hk.1, hk.2.1⟩

/-- **The machine follows a derivation for an alternative.** -/
theorem RunSeq.lands (hp : Program.load sources = .ok p) :
    ∀ {chain : List Bytes} {n : Nat} {is : List Item} {r : Result} {out : Text},
      RunSeq p.body? chain n is r out → ∀ {m : Machine} {rest : List Lexeme}, ValidSeq is →
      Inside p chain m (seqWords is) rest → m.mode = .success → m.register = n →
      ∃ k, Lands p m rest r out k :=
  fun hs => fun hvalid h hm hr => (RunSeq.lands_within hp hs hvalid h hm hr).imp fun _ hk => hk.1

/-- **The machine follows a derivation for a group**, from the print of its alternatives with
the register the group was entered with saved, to the group's `}`. -/
theorem RunGroup.lands (hp : Program.load sources = .ok p) :
    ∀ {chain : List Bytes} {n : Nat} {alts : List (List Item)} {r : Result} {out : Text},
      RunGroup p.body? chain n alts r out → ∀ {m : Machine} {c : Lexeme} {rest : List Lexeme},
      ValidAlts alts → Inside p chain m (altsWords alts) (c :: rest) → c.word = closeWord →
      m.mode = .success → m.register = n → m.snapshots.head? = some n →
      ∃ k, Lands p m (c :: rest) r out k :=
  fun hg => fun hvalid h hc hm hr hhead =>
    (RunGroup.lands_within hp hg hvalid h hc hm hr hhead).imp fun _ hk => hk.1

end Forward

end Machine

end Abacus
