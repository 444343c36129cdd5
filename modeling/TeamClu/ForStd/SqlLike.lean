import Mathlib.Data.List.Infix
import Mathlib.Tactic.SplitIfs

/-!
# The SQL `LIKE` operator

`like pattern s` is PostgreSQL's `s LIKE pattern`: `%` matches any run of characters, `_` any one
character, and a backslash makes the character after it literal.  A pattern is first read into
tokens.

The results compare `LIKE` with a plain prefix test.  `literalHead` is the text every match of a
pattern starts with, up to its first wildcard; `sampleMatch c` is one match, with `c` in the place
of every wildcard.
-/

namespace SqlLike

/-- One token of a pattern. -/
inductive Token where
  /-- This character. -/
  | lit (c : Char)
  /-- `_`: any one character. -/
  | one
  /-- `%`: any run of characters. -/
  | many
  deriving DecidableEq

/-- Read a pattern.  A backslash with nothing after it is an error in PostgreSQL; it is dropped. -/
def tokens : List Char → List Token
  | [] => []
  | c :: cs =>
    if c = '%' then .many :: tokens cs
    else if c = '_' then .one :: tokens cs
    else if c = '\\' then
      match cs with
      | [] => []
      | d :: ds => .lit d :: tokens ds
    else .lit c :: tokens cs

/-- Whether the tokens match the whole of `s`. -/
def matchTokens : List Token → List Char → Bool
  | [], s => s.isEmpty
  | .many :: ts, s => s.tails.any fun t => matchTokens ts t
  | .one :: ts, s => match s with | [] => false | _ :: cs => matchTokens ts cs
  | .lit c :: ts, s => match s with | [] => false | d :: cs => c == d && matchTokens ts cs

/-- `s LIKE pattern`. -/
def like (pattern s : List Char) : Bool := matchTokens (tokens pattern) s

/-- The characters of the tokens up to the first wildcard. -/
def litPrefix : List Token → List Char
  | .lit c :: ts => c :: litPrefix ts
  | _ => []

/-- One match of the tokens: `c` in the place of every wildcard. -/
def instantiate (c : Char) : List Token → List Char
  | [] => []
  | .lit d :: ts => d :: instantiate c ts
  | _ :: ts => c :: instantiate c ts

/-- The text every string matching `pattern` starts with: the pattern up to its first wildcard,
    escapes resolved. -/
def literalHead (pattern : List Char) : List Char := litPrefix (tokens pattern)

/-- A string matching `pattern`: `c` in the place of every wildcard, escapes resolved. -/
def sampleMatch (c : Char) (pattern : List Char) : List Char := instantiate c (tokens pattern)

/-- A character that is no backslash is read on its own. -/
theorem tokens_cons {c : Char} (hc : c ≠ '\\') (cs : List Char) :
    tokens (c :: cs) =
      (if c = '%' then .many else if c = '_' then .one else .lit c) :: tokens cs := by
  rw [tokens.eq_def]
  simp only [hc, if_false]
  split_ifs <;> rfl

/-! ## What a match says of the string -/

/-- A wildcard `%` at the front matches when the rest matches some tail. -/
theorem matchTokens_many_iff (ts : List Token) (s : List Char) :
    matchTokens (.many :: ts) s = true ↔ ∃ t, t <:+ s ∧ matchTokens ts t = true := by
  simp only [matchTokens, List.any_eq_true, List.mem_tails]

/-- Every match starts with the literal head. -/
theorem litPrefix_prefix_of_match {ts : List Token} {s : List Char}
    (h : matchTokens ts s = true) : litPrefix ts <+: s := by
  induction ts generalizing s with
  | nil => exact List.nil_prefix
  | cons t ts ih =>
    cases t with
    | lit c =>
      cases s with
      | nil => simp [matchTokens] at h
      | cons d s =>
        simp only [matchTokens, Bool.and_eq_true, beq_iff_eq] at h
        obtain ⟨rfl, h⟩ := h
        exact List.cons_prefix_cons.mpr ⟨rfl, ih h⟩
    | one | many => exact List.nil_prefix

/-- Every match contains every literal character of the pattern. -/
theorem lit_mem_of_match {ts : List Token} {s : List Char} {c : Char}
    (h : matchTokens ts s = true) (hc : Token.lit c ∈ ts) : c ∈ s := by
  induction ts generalizing s with
  | nil => simp at hc
  | cons t ts ih =>
    cases t with
    | many =>
      obtain ⟨t, ht, h⟩ := (matchTokens_many_iff ts s).mp h
      exact ht.subset (ih h (by simpa using hc))
    | one =>
      cases s with
      | nil => simp [matchTokens] at h
      | cons d s => exact List.mem_cons_of_mem _ (ih h (by simpa using hc))
    | lit d =>
      cases s with
      | nil => simp [matchTokens] at h
      | cons e s =>
        simp only [matchTokens, Bool.and_eq_true, beq_iff_eq] at h
        rcases List.mem_cons.mp hc with heq | hc
        · cases heq; simp [h.1]
        · exact List.mem_cons_of_mem _ (ih h.2 hc)

/-- The instance is a match. -/
theorem matchTokens_instantiate (c : Char) (ts : List Token) :
    matchTokens ts (instantiate c ts) = true := by
  induction ts with
  | nil => rfl
  | cons t ts ih =>
    cases t with
    | lit d => simp [instantiate, matchTokens, ih]
    | one => simp [instantiate, matchTokens, ih]
    | many => exact (matchTokens_many_iff ts _).mpr ⟨_, List.suffix_cons _ _, ih⟩

/-- A prefix of an instance without the wildcard's character lies in the literal head. -/
theorem prefix_litPrefix_of_instantiate {c : Char} {ts : List Token} {q : List Char}
    (hc : c ∉ q) (h : q <+: instantiate c ts) : q <+: litPrefix ts := by
  induction ts generalizing q with
  | nil => simpa [instantiate, litPrefix] using h
  | cons t ts ih =>
    cases q with
    | nil => exact List.nil_prefix
    | cons d q =>
      cases t with
      | lit e =>
        obtain ⟨rfl, htail⟩ := List.cons_prefix_cons.mp h
        exact List.cons_prefix_cons.mpr ⟨rfl, ih (fun hq => hc (List.mem_cons_of_mem _ hq)) htail⟩
      | one | many =>
        obtain ⟨rfl, -⟩ := List.cons_prefix_cons.mp h
        exact absurd List.mem_cons_self hc

theorem like_sampleMatch (c : Char) (pattern : List Char) :
    like pattern (sampleMatch c pattern) = true :=
  matchTokens_instantiate c _

theorem literalHead_prefix_of_like {pattern s : List Char} (h : like pattern s = true) :
    literalHead pattern <+: s :=
  litPrefix_prefix_of_match h

/-! ## Patterns `p%` -/

/-- Without a backslash in `p`, every string that starts with `p` matches `p%`, also where some of the characters of
    the pattern are changed to `%`. -/
theorem like_map_append_percent_of_prefix {f : Char → Char} (hf : ∀ c, f c = c ∨ f c = '%') {p s : List Char}
    (hp : '\\' ∉ p) (h : p <+: s) : like (p.map f ++ ['%']) s = true := by
  induction p generalizing s with
  | nil => exact (matchTokens_many_iff [] s).mpr ⟨[], List.nil_suffix, rfl⟩
  | cons c p ih =>
    obtain ⟨t, rfl⟩ := h
    have hrest := ih (fun hq => hp (List.mem_cons_of_mem _ hq)) (s := p ++ t) ⟨t, rfl⟩
    have hc : c ≠ '\\' := fun h => hp (h ▸ List.mem_cons_self)
    have hfc : f c ≠ '\\' := by rcases hf c with heq | heq <;> simp [heq, hc]
    simp only [like, List.map_cons, List.cons_append, tokens_cons hfc] at hrest ⊢
    split_ifs
    · exact (matchTokens_many_iff _ _).mpr ⟨p ++ t, List.suffix_cons _ _, hrest⟩
    · simpa only [matchTokens] using hrest
    · next hpercent _ =>
      have heq : f c = c := (hf c).resolve_right hpercent
      simpa [matchTokens, heq] using hrest

/-- Without metacharacters, the literal head of `p%` is `p`. -/
theorem literalHead_append_percent {p : List Char} (hp : ∀ c ∈ p, c ≠ '%' ∧ c ≠ '_' ∧ c ≠ '\\') :
    literalHead (p ++ ['%']) = p := by
  induction p with
  | nil => rfl
  | cons c p ih =>
    obtain ⟨h1, h2, h3⟩ := hp c List.mem_cons_self
    have hrest := ih fun d hd => hp d (List.mem_cons_of_mem _ hd)
    simp only [literalHead] at hrest
    simp [literalHead, tokens_cons h3, h1, h2, litPrefix, hrest]

end SqlLike
