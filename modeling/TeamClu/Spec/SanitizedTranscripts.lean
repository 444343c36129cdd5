import TeamClu.Native.PiTranscript

/-!
# A sanitized transcript carries no token

Where every `eyJ` text that `jwt_end` accepts is a JWT, every JWT is accepted, and no text becomes
acceptable when a token behind it is cut off, the export masks exactly tokens and masking again
changes nothing.  `jwt_end` counts the dots of the whole run it stands in, so a JWT at the end of a
sentence, with its full stop, is left in the transcript.

## Key results

- `jwtEnd_eq`: what the loop of `jwt_end` looks at
- `noToken_redactStr`, `masked_redactStr`, `redactStr_redactStr`: what holds of one string
- `sanitized`: what holds of every value whose JWTs stand alone
- `full_stop_leaks`: a JWT with a full stop behind it stays
-/

namespace TeamClu.PiTranscript

open Redact

/-! ## What is asked of an export -/

/-- A JWT-shaped token: three segments, the last two not empty, longer than eight bytes. -/
def Jwt (t : Str) : Prop :=
  ∃ header payload signature : Str, t = HEAD ++ header ++ '.' :: payload ++ '.' :: signature ∧
    (∀ c ∈ header ++ payload ++ signature, isSegmentChar c = true) ∧ payload ≠ [] ∧
    signature ≠ [] ∧ 8 < t.length

/-- An API key. -/
def ApiKey (t : Str) : Prop :=
  ∃ key : Str, t = SK ++ key ∧ (∀ c ∈ key, c.isAlphanum = true) ∧ 8 ≤ key.length

/-- The text with markers for some of its tokens, and the rest as it is. -/
inductive Masked : Str → Str → Prop
  | nil : Masked [] []
  | keep (c : Char) {s out : Str} : Masked s out → Masked (c :: s) (c :: out)
  | jwt {t s out : Str} : Jwt t → Masked s out → Masked (t ++ s) (REDACTED ++ out)
  | key {t s out : Str} : ApiKey t → Masked s out → Masked (t ++ s) (REDACTED_KEY ++ out)

/-- An inline base64 blob: at least 256 bytes of base64, white space aside, under one of the
    keys of a blob. -/
def InlineBlob {N : Type} (key : Str) (value : Value N) : Prop :=
  ∃ raw, value = .string raw ∧ key.map Char.toLower ∈ BLOB_KEYS ∧
    (∀ c ∈ raw, Str.isWhiteSpace c = true ∨ isBase64Char c = true) ∧
    256 ≤ Str.utf8Len (raw.filter fun c => !Str.isWhiteSpace c)

mutual

/-- The second value is the first with tokens masked and inline blobs dropped. -/
inductive Redacted {N : Type} : Value N → Value N → Prop
  | null : Redacted .null .null
  | bool (b : Bool) : Redacted (.bool b) (.bool b)
  | number (n : N) : Redacted (.number n) (.number n)
  | string {s out : Str} : Masked s out → Redacted (.string s) (.string out)
  | array {items outs : List (Value N)} :
      RedactedItems items outs → Redacted (.array items) (.array outs)
  | object {map out : List (Str × Value N)} :
      RedactedMap map out → Redacted (.object map) (.object out)

/-- The items of an array, one by one. -/
inductive RedactedItems {N : Type} : List (Value N) → List (Value N) → Prop
  | nil : RedactedItems [] []
  | cons {v out : Value N} {items outs : List (Value N)} :
      Redacted v out → RedactedItems items outs → RedactedItems (v :: items) (out :: outs)

/-- The fields of an object with their keys, without some inline blobs. -/
inductive RedactedMap {N : Type} : List (Str × Value N) → List (Str × Value N) → Prop
  | nil : RedactedMap [] []
  | drop {k : Str} {v : Value N} {map out : List (Str × Value N)} :
      InlineBlob k v → RedactedMap map out → RedactedMap ((k, v) :: map) out
  | keep {k : Str} {v w : Value N} {map out : List (Str × Value N)} :
      Redacted v w → RedactedMap map out → RedactedMap ((k, v) :: map) ((k, w) :: out)

end

mutual

/-- The string values anywhere in a value. -/
def Value.strings {N : Type} : Value N → List Str
  | .string s => [s]
  | .array items => itemStrings items
  | .object map => mapStrings map
  | .null | .bool _ | .number _ => []

/-- The string values in the items of an array. -/
def itemStrings {N : Type} : List (Value N) → List Str
  | [] => []
  | v :: items => v.strings ++ itemStrings items

/-- The string values in the fields of an object. -/
def mapStrings {N : Type} : List (Str × Value N) → List Str
  | [] => []
  | (_, v) :: map => v.strings ++ mapStrings map

end

mutual

/-- The string values of a value that are in no dropped blob. -/
def Value.keptStrings {N : Type} : Value N → List Str
  | .string s => [s]
  | .array items => keptItemStrings items
  | .object map => keptMapStrings map
  | .null | .bool _ | .number _ => []

/-- Those in the items of an array. -/
def keptItemStrings {N : Type} : List (Value N) → List Str
  | [] => []
  | v :: items => v.keptStrings ++ keptItemStrings items

/-- Those in the fields of an object. -/
def keptMapStrings {N : Type} : List (Str × Value N) → List Str
  | [] => []
  | (k, v) :: map =>
    if shouldDropInlineBlob k v then keptMapStrings map else v.keptStrings ++ keptMapStrings map

end

/-- No part of the text is a token. -/
def NoToken (s : Str) : Prop := ∀ t, t <:+: s → ¬ Jwt t ∧ ¬ ApiKey t

/-- What a sanitized export promises of one value. -/
structure Sanitized {N : Type} (v : Value N) : Prop where
  noToken : ∀ s ∈ (redactValue v).strings, NoToken s
  onlyTokens : Redacted v (redactValue v)
  idempotent : redactValue (redactValue v) = redactValue v

/-- The JWTs of a text stand alone: at every `eyJ`, `jwt_end` accepts exactly when a JWT begins
    there, and what it does not accept it does not accept either without a token behind it. -/
structure JwtsAlone (s : Str) : Prop where
  accepts_iff : ∀ r, r <:+ s → HEAD <+: r → ((jwtEnd r).isSome ↔ ∃ t, t <+: r ∧ Jwt t)
  cut : ∀ x r, x ++ r <:+ s → HEAD <+: x → jwtEnd (x ++ r) = none →
    (∃ t, t <+: r ∧ (Jwt t ∨ ApiKey t)) → jwtEnd x = none

/-! ## The loop of `jwt_end` -/

/-- The characters `jwt_end` passes. -/
def isRunChar (c : Char) : Bool := c == '.' || isSegmentChar c

/-- The text `jwt_end` passes. -/
def run (s : Str) : Str := s.takeWhile isRunChar

private theorem jwtEndLoop_eq (dots i : Nat) (s : Str) :
    jwtEndLoop dots i s = (dots + (run s).count '.', i + (run s).length) := by
  induction s generalizing dots i with
  | nil => rfl
  | cons c cs ih =>
    unfold run at ih ⊢
    rw [jwtEndLoop]
    by_cases hdot : c = '.'
    · subst hdot
      rw [if_pos rfl, ih, List.takeWhile_cons_of_pos (by rfl), List.count_cons_self,
        List.length_cons]
      grind
    · rw [if_neg hdot]
      by_cases hseg : isSegmentChar c = true
      · rw [if_pos hseg, ih, List.takeWhile_cons_of_pos (by simp [isRunChar, hseg]),
          List.count_cons_of_ne hdot, List.length_cons]
        grind
      · rw [if_neg hseg, List.takeWhile_cons_of_neg (by simp [isRunChar, hseg, hdot])]
        simp

/-- `jwt_end` counts the dots of the whole run. -/
theorem jwtEnd_eq (s : Str) :
    jwtEnd s = if (run s).count '.' = 2 ∧ 8 < (run s).length then some (run s).length else none := by
  simp [jwtEnd, jwtEndLoop_eq]

/-- A text that the run ends in, or that goes on with no character of a run. -/
theorem run_append {x r : Str} (hx : ∀ c ∈ x, isRunChar c = true)
    (hr : ∀ c ∈ r.head?, isRunChar c = false) : run (x ++ r) = x := by
  cases r with
  | nil => rw [List.append_nil, run, List.takeWhile_eq_self_iff.mpr hx]
  | cons c r =>
    have hc := hr c rfl
    rw [run, List.takeWhile_append_of_pos hx, List.takeWhile_cons_of_neg (by simp [hc]),
      List.append_nil]

/-- `jwt_end` looks at nothing but the run. -/
theorem jwtEnd_congr {s s' : Str} (h : run s = run s') : jwtEnd s = jwtEnd s' := by
  rw [jwtEnd_eq, jwtEnd_eq, h]

/-- The run of a run. -/
theorem run_run (s : Str) : run (run s) = run s :=
  List.takeWhile_eq_self_iff.mpr fun _ hc => (List.mem_takeWhile_imp hc)

theorem run_begins (s : Str) : run s <+: s := List.takeWhile_prefix _

/-- A prefix of run characters is in the run. -/
theorem prefix_run {t s : Str} (h : t <+: s) (ht : ∀ c ∈ t, isRunChar c = true) : t <+: run s := by
  obtain ⟨rest, rfl⟩ := h
  exact ⟨run rest, (List.takeWhile_append_of_pos ht).symm⟩

/-! ## Tokens and what the scanners accept -/

theorem jwtEnd_eq_some {s : Str} {n : Nat} :
    jwtEnd s = some n ↔ (run s).count '.' = 2 ∧ 8 < (run s).length ∧ (run s).length = n := by
  rw [jwtEnd_eq]
  split
  · next h => simp [h]
  · next h => simp only [reduceCtorEq, false_iff]; exact fun h' => h ⟨h'.1, h'.2.1⟩

private theorem jwtEnd_pos (s : Str) (n : Nat) (h : jwtEnd s = some n) : 0 < n := by
  obtain ⟨-, hlen, rfl⟩ := jwtEnd_eq_some.mp h
  omega

private theorem skEnd_pos (s : Str) (n : Nat) (h : skEnd s = some n) : 0 < n := by
  simp only [skEnd, ge_iff_le, Option.ite_none_right_eq_some, Option.some.injEq] at h
  omega

private theorem e_notMem : 'e' ∉ ['y', 'J'] := by decide

private theorem s_notMem : 's' ∉ ['k', '-'] := by decide

private theorem isRunChar_of_isSegmentChar {c : Char} (h : isSegmentChar c = true) :
    isRunChar c = true := by
  simp [isRunChar, h]

private theorem isRunChar_head : ∀ c ∈ HEAD, isRunChar c = true :=
  List.all_eq_true.mp (by decide)

/-- A JWT lies in one run. -/
theorem Jwt.isRunChar {t : Str} (h : Jwt t) : ∀ c ∈ t, isRunChar c = true := by
  obtain ⟨header, payload, signature, rfl, hseg, -, -, -⟩ := h
  intro c hc
  simp only [List.mem_append, List.mem_cons] at hc hseg
  rcases hc with ((hc | hc) | rfl | hc) | rfl | hc
  · exact isRunChar_head c hc
  · exact isRunChar_of_isSegmentChar (hseg c (.inl (.inl hc)))
  · rfl
  · exact isRunChar_of_isSegmentChar (hseg c (.inl (.inr hc)))
  · rfl
  · exact isRunChar_of_isSegmentChar (hseg c (.inr hc))

theorem Jwt.head_prefix {t : Str} (h : Jwt t) : HEAD <+: t := by
  obtain ⟨header, payload, signature, rfl, -⟩ := h
  exact ⟨header ++ '.' :: payload ++ '.' :: signature, by simp⟩

theorem Jwt.bracket_notMem {t : Str} (h : Jwt t) : '[' ∉ t := fun hmem =>
  absurd (h.isRunChar _ hmem) (by decide)

theorem ApiKey.bracket_notMem {t : Str} (h : ApiKey t) : '[' ∉ t := by
  obtain ⟨key, rfl, hkey, -⟩ := h
  intro hmem
  rcases List.mem_append.mp hmem with hmem | hmem
  · exact absurd hmem (by decide)
  · exact absurd (hkey _ hmem) (by decide)

theorem ApiKey.head_prefix {t : Str} (h : ApiKey t) : SK <+: t := by
  obtain ⟨key, rfl, -⟩ := h
  exact List.prefix_append _ _

theorem ApiKey.ne_nil {t : Str} (h : ApiKey t) : t ≠ [] := by
  obtain ⟨key, rfl, -⟩ := h
  simp [SK]

/-- The dots of a JWT. -/
theorem Jwt.count_dots {t : Str} (h : Jwt t) : t.count '.' = 2 := by
  obtain ⟨header, payload, signature, rfl, hseg, -, -, -⟩ := h
  have hnone : ∀ u : Str, (∀ c ∈ u, isSegmentChar c = true) → u.count '.' = 0 := fun u hu =>
    List.count_eq_zero.mpr fun hmem => absurd (hu _ hmem) (by decide)
  have hhead : HEAD.count '.' = 0 := by decide
  simp only [List.mem_append, or_imp, forall_and] at hseg
  simp [hnone _ hseg.1.1, hnone _ hseg.1.2, hnone _ hseg.2, hhead]

/-- What is accepted where a JWT begins is a JWT. -/
theorem jwt_take {r : Str} {n : Nat} (h : jwtEnd r = some n) (ht : ∃ t, t <+: r ∧ Jwt t) :
    Jwt (r.take n) := by
  obtain ⟨hdots, hlen, rfl⟩ := jwtEnd_eq_some.mp h
  rw [← List.prefix_iff_eq_take.mp (run_begins r)]
  obtain ⟨t, hpre, hjwt⟩ := ht
  obtain ⟨rest, hrest⟩ := prefix_run hpre hjwt.isRunChar
  -- the two dots of the run are in the JWT, so its last segment goes on to the end of the run
  have hnone : rest.count '.' = 0 := by
    have hsum := congrArg (List.count '.') hrest
    rw [List.count_append, hjwt.count_dots, hdots] at hsum
    omega
  have hseg : ∀ c ∈ rest, isSegmentChar c = true := by
    intro c hc
    have hrun : isRunChar c = true := by
      have hmem : c ∈ run r := hrest ▸ List.mem_append_right t hc
      exact List.mem_takeWhile_imp hmem
    have hne : c ≠ '.' := fun heq => List.count_eq_zero.mp hnone (heq ▸ hc)
    simpa [isRunChar, hne] using hrun
  obtain ⟨header, payload, signature, rfl, hall, hpayload, hsignature, hlong⟩ := hjwt
  refine ⟨header, payload, signature ++ rest, by simp [← hrest], ?_, hpayload, by simp [hsignature],
    hlen⟩
  intro c hc
  rw [← List.append_assoc, List.mem_append] at hc
  exact hc.elim (hall c) (hseg c)

/-- What is accepted as an API key is one. -/
theorem apiKey_take {r : Str} {n : Nat} (h : skEnd r = some n) (hr : SK <+: r) :
    ApiKey (r.take n) := by
  obtain ⟨after, rfl⟩ := hr
  have hdrop : (SK ++ after).drop 3 = after := rfl
  simp only [skEnd, hdrop, ge_iff_le, Option.ite_none_right_eq_some, Option.some.injEq] at h
  obtain ⟨hlen, rfl⟩ := h
  refine ⟨after.takeWhile Char.isAlphanum, ?_, fun c hc => List.mem_takeWhile_imp hc, hlen⟩
  have htake := List.prefix_iff_eq_take.mp (List.takeWhile_prefix Char.isAlphanum (l := after))
  have hsk : SK.length = 3 := rfl
  rw [← hsk, List.take_length_add_append, ← htake]

/-- An API key is accepted wherever it begins. -/
theorem skEnd_isSome {r t : Str} (ht : t <+: r) (hkey : ApiKey t) : (skEnd r).isSome = true := by
  obtain ⟨key, rfl, hall, hlen⟩ := hkey
  obtain ⟨rest, rfl⟩ := ht
  have hdrop : (SK ++ key ++ rest).drop 3 = key ++ rest := rfl
  have hlong : 8 ≤ ((key ++ rest).takeWhile Char.isAlphanum).length := by
    rw [List.takeWhile_append_of_pos hall, List.length_append]
    omega
  unfold skEnd
  rw [hdrop]
  simp [hlong]

/-! ## One string -/

/-- A place in the output where `eyJ` stands is a place in the text, which begins the same way. -/
private theorem exists_of_suffix_redactStr {s y x b : Str} (h : y <:+ redactStr s)
    (hy : y = x ++ b) (hhead : HEAD <+: x) (hx : '[' ∉ x) :
    ∃ r, x ++ r <:+ s ∧ jwtEnd (x ++ r) = none ∧ redactStr r = b := by
  have hheady : HEAD <+: y := hhead.trans (hy ▸ List.prefix_append x b)
  obtain ⟨m', hm', hmask⟩ := exists_of_suffix_mask s_notMem skEnd_pos
    (by decide : Foreign HEAD REDACTED_KEY) h hheady
  rw [hy] at hmask
  obtain ⟨m, rfl, hm⟩ := eq_append_of_mask_eq s_notMem skEnd_pos hmask hx
  obtain ⟨r', hr', hmask'⟩ := exists_of_suffix_mask e_notMem jwtEnd_pos
    (by decide : Foreign HEAD REDACTED) hm' (hhead.trans (List.prefix_append x m))
  obtain ⟨r, rfl, hr⟩ := eq_append_of_mask_eq e_notMem jwtEnd_pos hmask' hx
  obtain ⟨rest, rfl⟩ := hhead
  obtain ⟨-, -, hnone, -⟩ := token_eq_none_of_mask_eq (c := 'e') e_notMem jwtEnd_pos hmask' (by decide)
  refine ⟨r, hr', ends_of_token_eq_none hnone ⟨rest ++ r, by simp [HEAD]⟩, ?_⟩
  rw [← hm, ← hr]
  rfl

/-- No API key is left, and no JWT that `jwt_end` accepts. -/
theorem noToken_redactStr {s : Str} (h : JwtsAlone s) : NoToken (redactStr s) := by
  rintro t ⟨front, back, heq⟩
  have hsuffix : t ++ back <:+ redactStr s := ⟨front, by rw [← heq, List.append_assoc]⟩
  refine ⟨fun hjwt => ?_, fun hkey => ?_⟩
  · obtain ⟨r, hr, hnone, -⟩ :=
      exists_of_suffix_redactStr hsuffix rfl hjwt.head_prefix hjwt.bracket_notMem
    have hsome := (h.accepts_iff _ hr (hjwt.head_prefix.trans (List.prefix_append t r))).mpr
      ⟨t, List.prefix_append t r, hjwt⟩
    simp [hnone] at hsome
  · obtain ⟨m', -, hmask⟩ := exists_of_suffix_mask s_notMem skEnd_pos
      (by decide : Foreign SK REDACTED_KEY) hsuffix
      (hkey.head_prefix.trans (List.prefix_append t back))
    obtain ⟨m, rfl, -⟩ := eq_append_of_mask_eq s_notMem skEnd_pos hmask hkey.bracket_notMem
    have hsome := skEnd_isSome (List.prefix_append t m) hkey
    obtain ⟨rest, hrest⟩ := hkey.head_prefix
    rw [← hrest] at hmask hsome
    obtain ⟨-, -, hnone, -⟩ := token_eq_none_of_mask_eq (c := 's') s_notMem skEnd_pos hmask (by decide)
    rw [ends_of_token_eq_none hnone ⟨rest ++ m, by simp [SK]⟩] at hsome
    simp at hsome

/-- Behind a marker for a JWT the second scan goes on. -/
private theorem redactSkKeys_append_redacted (m : Str) :
    redactSkKeys (REDACTED ++ m) = REDACTED ++ redactSkKeys m :=
  mask_append_of_notMem (by decide) m

/-- What is masked are tokens. -/
theorem masked_redactStr {s : Str} (h : JwtsAlone s) : Masked s (redactStr s) := by
  suffices hall : ∀ r, r <:+ s → Masked r (redactStr r) from hall s (List.suffix_refl s)
  intro r hr
  induction hlen : r.length using Nat.strong_induction_on generalizing r with
  | _ len ih =>
    subst hlen
    rcases mask_cases REDACTED e_notMem jwtEnd_pos r with
      rfl | ⟨n, hn, hpos, hmask⟩ | ⟨c, cs, rfl, hnone, hmask⟩
    · exact .nil
    · -- `jwt_end` accepts, so a JWT is masked
      obtain ⟨hhead, hsome⟩ := token_eq_some.mp hn
      have hjwt := jwt_take hsome ((h.accepts_iff r hr hhead).mp (by rw [hsome]; rfl))
      have hrest := ih _ (length_drop_lt hn hpos) (r.drop n) ((List.drop_suffix n r).trans hr) rfl
      have hout : redactStr r = REDACTED ++ redactStr (r.drop n) := by
        rw [redactStr, redactJwt, HEAD, hmask, redactSkKeys_append_redacted]
        rfl
      rw [hout]
      conv => lhs; rw [← List.take_append_drop n r]
      exact .jwt hjwt hrest
    · -- the character is copied by the first scan
      have hfirst : redactJwt (c :: cs) = c :: redactJwt cs := hmask
      rcases mask_cases REDACTED_KEY s_notMem skEnd_pos (redactJwt (c :: cs)) with
        hnil | ⟨n, hn, hpos, hmask'⟩ | ⟨d, ds, hcons, -, hmask'⟩
      · simp [hfirst] at hnil
      · -- an API key of what the first scan left was in the text
        obtain ⟨hhead, hsome⟩ := token_eq_some.mp hn
        have hkey := apiKey_take hsome hhead
        obtain ⟨s', hs', hrest⟩ := eq_append_of_mask_eq e_notMem jwtEnd_pos
          (List.take_append_drop n (redactJwt (c :: cs))).symm hkey.bracket_notMem
        have hlt : s'.length < (c :: cs).length := by
          have := List.length_pos_iff.mpr hkey.ne_nil
          rw [hs', List.length_append]
          omega
        have hsuffix : s' <:+ s := (hs' ▸ List.suffix_append _ s' : s' <:+ c :: cs).trans hr
        have hmasked := ih _ hlt s' hsuffix rfl
        have hout : redactStr (c :: cs) = REDACTED_KEY ++ redactStr s' := by
          rw [redactStr, redactSkKeys, SK, hmask', ← hrest]
          rfl
        rw [hout, hs']
        exact .key hkey hmasked
      · rw [hfirst, List.cons.injEq] at hcons
        obtain ⟨rfl, rfl⟩ := hcons
        have hout : redactStr (c :: cs) = c :: redactStr cs := by
          rw [redactStr, redactSkKeys, SK, hmask']
          rfl
        rw [hout]
        exact .keep c (ih cs.length (by simp) cs ((List.suffix_cons c cs).trans hr) rfl)

/-- A character is copied unless a token begins with it. -/
private theorem token_or_copied {s : Str} (h : JwtsAlone s) {c : Char} {cs : Str}
    (hs : c :: cs <:+ s) :
    (∃ t, t <+: c :: cs ∧ (Jwt t ∨ ApiKey t)) ∨ ∃ b, redactStr (c :: cs) = c :: b := by
  rcases mask_cases REDACTED e_notMem jwtEnd_pos (c :: cs) with
    hnil | ⟨k, hk, -, -⟩ | ⟨d, ds, hcons, -, hmask⟩
  · cases hnil
  · obtain ⟨hhead, hsome⟩ := token_eq_some.mp hk
    obtain ⟨t, ht, hjwt⟩ := (h.accepts_iff _ hs hhead).mp (by rw [hsome]; rfl)
    exact .inl ⟨t, ht, .inl hjwt⟩
  · obtain ⟨rfl, rfl⟩ := List.cons.inj hcons
    have hfirst : redactJwt (c :: cs) = c :: redactJwt cs := hmask
    rcases mask_cases REDACTED_KEY s_notMem skEnd_pos (redactJwt (c :: cs)) with
      hnil | ⟨k, hk, -, -⟩ | ⟨d, ds, hcons', -, hmask'⟩
    · simp [hfirst] at hnil
    · -- an API key of what the first scan left was in the text
      obtain ⟨hhead, hsome⟩ := token_eq_some.mp hk
      have hkey := apiKey_take hsome hhead
      obtain ⟨s', hs', -⟩ := eq_append_of_mask_eq e_notMem jwtEnd_pos
        (List.take_append_drop k (redactJwt (c :: cs))).symm hkey.bracket_notMem
      exact .inl ⟨_, ⟨s', hs'.symm⟩, .inr hkey⟩
    · rw [hfirst, List.cons.injEq] at hcons'
      obtain ⟨rfl, rfl⟩ := hcons'
      exact .inr ⟨_, hmask'⟩

/-- Masking again changes nothing. -/
theorem redactStr_redactStr {s : Str} (h : JwtsAlone s) : redactStr (redactStr s) = redactStr s := by
  have hjwt : redactJwt (redactStr s) = redactStr s := by
    refine mask_eq_self e_notMem fun y hy => ?_
    rw [Option.eq_none_iff_forall_ne_some]
    intro n hn
    obtain ⟨hhead, hsome⟩ := token_eq_some.mp hn
    have hrun : HEAD <+: run y := prefix_run hhead isRunChar_head
    have hbracket : '[' ∉ run y := fun hmem => absurd (List.mem_takeWhile_imp hmem) (by decide)
    have hall : ∀ c ∈ run y, isRunChar c = true := fun c hc => List.mem_takeWhile_imp hc
    obtain ⟨b, hb⟩ := run_begins y
    have hx : jwtEnd (run y) = some n := by rw [jwtEnd_congr (run_run y), hsome]
    obtain ⟨r, hr, hnone, hrb⟩ := exists_of_suffix_redactStr hy hb.symm hrun hbracket
    -- were the run whole, it would have been accepted in the text
    by_cases hend : ∀ c ∈ r.head?, isRunChar c = false
    · rw [jwtEnd_congr ((run_append hall hend).trans (run_run y).symm), hx] at hnone
      cases hnone
    · cases r with
      | nil => simp at hend
      | cons c cs =>
        have hc : isRunChar c = true := by simpa using hend
        have hsuffix : c :: cs <:+ s := (List.suffix_append (run y) _).trans hr
        rcases token_or_copied h hsuffix with htoken | ⟨b', hcopied⟩
        · rw [h.cut (run y) (c :: cs) hr hrun hnone htoken] at hx
          cases hx
        · have hlong : run y ++ [c] <+: run y := by
            refine prefix_run ⟨b', ?_⟩ ?_
            · rw [List.append_assoc, List.singleton_append, ← hcopied, hrb, hb]
            · intro d hd
              rcases List.mem_append.mp hd with hd | hd
              · exact hall d hd
              · rwa [List.mem_singleton.mp hd]
          have hle := hlong.length_le
          rw [List.length_append] at hle
          exact absurd hle (Nat.not_succ_le_self _)
  rw [redactStr, hjwt]
  refine mask_eq_self s_notMem fun y hy => ?_
  rw [Option.eq_none_iff_forall_ne_some]
  intro n hn
  obtain ⟨hhead, hsome⟩ := token_eq_some.mp hn
  have hinfix : y.take n <:+: redactStr s := (List.take_prefix n y).isInfix.trans hy.isInfix
  exact (noToken_redactStr h _ hinfix).2 (apiKey_take hsome hhead)

/-! ## Values -/

/-- A character has at most four bytes. -/
private theorem utf8Len_le_mul (s : Str) : Str.utf8Len s ≤ 4 * s.length := by
  induction s with
  | nil => rfl
  | cons c s ih =>
    have := Char.utf8Size_le_four c
    rw [Str.utf8Len_cons, List.length_cons]
    omega

/-- The first test of `looks_like_base64` never holds: 22 bytes are more than five characters. -/
theorem looksLikeBase64_eq (raw : Str) :
    looksLikeBase64 raw = (decide (Str.utf8Len (raw.filter fun ch => !Str.isWhiteSpace ch) ≥ 256) &&
      (raw.filter fun ch => !Str.isWhiteSpace ch).all isBase64Char) := by
  have hnever (prefix_ : Str) (h : Str.sliceTo raw 22 = some prefix_) :
      eqIgnoreAsciiCase prefix_ "data:".toList = false := by
    obtain ⟨-, hbytes⟩ := Str.sliceTo_eq_some h
    have hfour := utf8Len_le_mul prefix_
    rw [eqIgnoreAsciiCase, beq_eq_false_iff_ne]
    intro heq
    have hlen : prefix_.length = 5 := by simpa using congrArg List.length heq
    omega
  unfold looksLikeBase64
  cases h : Str.sliceTo raw 22 with
  | none => rfl
  | some prefix_ =>
    simp only [hnever prefix_ h, Bool.false_and]
    rfl

/-- A text that looks like base64 has no bracket. -/
private theorem bracket_notMem_of_looksLikeBase64 {raw : Str} (h : looksLikeBase64 raw = true) :
    '[' ∉ raw := by
  rw [looksLikeBase64_eq, Bool.and_eq_true, List.all_eq_true] at h
  intro hmem
  have := h.2 '[' (List.mem_filter.mpr ⟨hmem, by decide⟩)
  revert this
  decide

/-- A text that is masked to one without brackets was not masked. -/
private theorem redactStr_eq_self {s : Str} (h : '[' ∉ redactStr s) : redactStr s = s := by
  have hsk : redactStr s = redactJwt s := mask_eq_self_of_notMem s_notMem skEnd_pos h
  rw [hsk] at h ⊢
  exact mask_eq_self_of_notMem e_notMem jwtEnd_pos h

/-- What is dropped is an inline blob. -/
theorem inlineBlob_of_drop {N : Type} {k : Str} {v : Value N}
    (h : shouldDropInlineBlob k v = true) : InlineBlob k v := by
  cases v with
  | string raw =>
    simp only [shouldDropInlineBlob] at h
    split at h
    · cases h
    · rw [Bool.and_eq_true, looksLikeBase64_eq, Bool.and_eq_true, decide_eq_true_eq,
        List.all_eq_true] at h
      obtain ⟨hkey, hlen, hall⟩ := h
      refine ⟨raw, rfl, by simpa using hkey, fun c hc => ?_, hlen⟩
      cases hw : Str.isWhiteSpace c
      · exact .inr (hall c (List.mem_filter.mpr ⟨hc, by simp [hw]⟩))
      · exact .inl rfl
  | _ => cases h

/-- A value is dropped after masking exactly when it was dropped before. -/
theorem drop_of_drop_redactValue {N : Type} {k : Str} {v : Value N}
    (h : shouldDropInlineBlob k (redactValue v) = true) : shouldDropInlineBlob k v = true := by
  cases v with
  | string raw =>
    rw [redactValue] at h
    have hlook : looksLikeBase64 (redactStr raw) = true := by
      simp only [shouldDropInlineBlob] at h
      split at h
      · cases h
      · exact ((Bool.and_eq_true _ _).mp h).2
    rwa [redactStr_eq_self (bracket_notMem_of_looksLikeBase64 hlook)] at h
  | _ => simp [redactValue, shouldDropInlineBlob] at h

mutual

/-- The strings of the result are those that were kept, masked. -/
theorem strings_redactValue {N : Type} (v : Value N) :
    (redactValue v).strings = v.keptStrings.map redactStr := by
  cases v with
  | string s => rfl
  | array items => rw [redactValue, Value.strings, Value.keptStrings, itemStrings_redactItems items]
  | object map => rw [redactValue, Value.strings, Value.keptStrings, mapStrings_redactMap map]
  | null | bool | number => rfl

/-- Those in the items of an array. -/
theorem itemStrings_redactItems {N : Type} (items : List (Value N)) :
    itemStrings (redactItems items) = (keptItemStrings items).map redactStr := by
  match items with
  | [] => rfl
  | v :: items =>
    rw [redactItems, itemStrings, keptItemStrings, List.map_append, strings_redactValue v,
      itemStrings_redactItems items]

/-- Those in the fields of an object. -/
theorem mapStrings_redactMap {N : Type} (map : List (Str × Value N)) :
    mapStrings (redactMap map) = (keptMapStrings map).map redactStr := by
  match map with
  | [] => rfl
  | (k, v) :: map =>
    rw [redactMap, keptMapStrings]
    split
    · exact mapStrings_redactMap map
    · rw [mapStrings, List.map_append, strings_redactValue v, mapStrings_redactMap map]

end

mutual

/-- Nothing but tokens is masked, and nothing but inline blobs is dropped. -/
theorem redacted_redactValue {N : Type} (v : Value N) (h : ∀ s ∈ v.keptStrings, JwtsAlone s) :
    Redacted v (redactValue v) := by
  cases v with
  | string s => exact .string (masked_redactStr (h s (by simp [Value.keptStrings])))
  | array items => exact .array (redactedItems_redactItems items h)
  | object map => exact .object (redactedMap_redactMap map h)
  | null => exact .null
  | bool b => exact .bool b
  | number n => exact .number n

theorem redactedItems_redactItems {N : Type} (items : List (Value N))
    (h : ∀ s ∈ keptItemStrings items, JwtsAlone s) : RedactedItems items (redactItems items) := by
  match items with
  | [] => exact .nil
  | v :: items =>
    rw [keptItemStrings, List.forall_mem_append] at h
    exact .cons (redacted_redactValue v h.1) (redactedItems_redactItems items h.2)

theorem redactedMap_redactMap {N : Type} (map : List (Str × Value N))
    (h : ∀ s ∈ keptMapStrings map, JwtsAlone s) : RedactedMap map (redactMap map) := by
  match map with
  | [] => exact .nil
  | (k, v) :: map =>
    rw [keptMapStrings] at h
    rw [redactMap]
    split at h
    · next hdrop =>
      rw [if_pos hdrop]
      exact .drop (inlineBlob_of_drop hdrop) (redactedMap_redactMap map h)
    · next hdrop =>
      rw [if_neg hdrop]
      rw [List.forall_mem_append] at h
      exact .keep (redacted_redactValue v h.1) (redactedMap_redactMap map h.2)

end

mutual

/-- Masking a value again changes nothing. -/
theorem redactValue_redactValue {N : Type} (v : Value N) (h : ∀ s ∈ v.keptStrings, JwtsAlone s) :
    redactValue (redactValue v) = redactValue v := by
  cases v with
  | string s =>
    simp only [redactValue, redactStr_redactStr (h s (by simp [Value.keptStrings]))]
  | array items => simp only [redactValue, redactItems_redactItems items h]
  | object map => simp only [redactValue, redactMap_redactMap map h]
  | null | bool | number => rfl

theorem redactItems_redactItems {N : Type} (items : List (Value N))
    (h : ∀ s ∈ keptItemStrings items, JwtsAlone s) :
    redactItems (redactItems items) = redactItems items := by
  match items with
  | [] => rfl
  | v :: items =>
    rw [keptItemStrings, List.forall_mem_append] at h
    simp only [redactItems, redactValue_redactValue v h.1, redactItems_redactItems items h.2]

theorem redactMap_redactMap {N : Type} (map : List (Str × Value N))
    (h : ∀ s ∈ keptMapStrings map, JwtsAlone s) :
    redactMap (redactMap map) = redactMap map := by
  match map with
  | [] => rfl
  | (k, v) :: map =>
    rw [keptMapStrings] at h
    rw [redactMap]
    split at h
    · next hdrop =>
      rw [if_pos hdrop]
      exact redactMap_redactMap map h
    · next hdrop =>
      rw [if_neg hdrop]
      rw [List.forall_mem_append] at h
      have hkeep : ¬ shouldDropInlineBlob k (redactValue v) = true := fun hagain =>
        hdrop (drop_of_drop_redactValue hagain)
      rw [redactMap, if_neg hkeep, redactValue_redactValue v h.1, redactMap_redactMap map h.2]

end

/-- A value whose JWTs stand alone is exported without tokens, with everything else as it is, and
    masking it again changes nothing. -/
theorem sanitized {N : Type} (v : Value N) (h : ∀ s ∈ v.keptStrings, JwtsAlone s) : Sanitized v where
  noToken s hs := by
    rw [strings_redactValue] at hs
    obtain ⟨s', hs', rfl⟩ := List.mem_map.mp hs
    exact noToken_redactStr (h s' hs')
  onlyTokens := redacted_redactValue v h
  idempotent := redactValue_redactValue v h

/-! ## Two texts -/

/-- A JWT before a comma, and an API key. -/
def plainText : Str := "Bearer eyJhbGci.aaa.sig, key sk-abcdefghij".toList

/-- A JWT at the end of a sentence. -/
def sentence : Str := "Use eyJhbGci.aaa.sig.".toList

/-- The JWT in both. -/
def shortJwt : Str := "eyJhbGci.aaa.sig".toList

private theorem jwt_shortJwt : Jwt shortJwt :=
  ⟨"hbGci".toList, "aaa".toList, "sig".toList, rfl, List.all_eq_true.mp (by decide), by decide,
    by decide, by decide⟩

private theorem jwtsAlone_plainText : JwtsAlone plainText := by
  have hone : ∀ r, r <:+ plainText → HEAD <+: r →
      r = "eyJhbGci.aaa.sig, key sk-abcdefghij".toList := fun r hr hhead => by
    have hall : ∀ r ∈ plainText.tails, HEAD.isPrefixOf r = true →
        r = "eyJhbGci.aaa.sig, key sk-abcdefghij".toList := by decide +kernel
    exact hall r ((List.mem_tails r plainText).mpr hr) (List.isPrefixOf_iff_prefix.mpr hhead)
  have hsome : jwtEnd "eyJhbGci.aaa.sig, key sk-abcdefghij".toList = some 16 := rfl
  refine ⟨fun r hr hhead => ?_, fun x r hr hhead hnone => ?_⟩
  · rw [hone r hr hhead, hsome]
    exact iff_of_true rfl ⟨shortJwt, ⟨", key sk-abcdefghij".toList, rfl⟩, jwt_shortJwt⟩
  · rw [hone _ hr (hhead.trans (List.prefix_append x r)), hsome] at hnone
    cases hnone

/-- Both tokens of the text are masked. -/
theorem sanitized_plainText : Sanitized (.array [.string plainText, .number 1] : Value Nat) :=
  sanitized _ (by
    intro s hs
    have heq : s = plainText := by simpa [Value.keptStrings, keptItemStrings] using hs
    exact heq ▸ jwtsAlone_plainText)

/-- The JWT of the sentence stays in the export. -/
theorem full_stop_leaks : ¬ Sanitized (.string sentence : Value Nat) := fun h => by
  have hsame : redactStr sentence = sentence := by decide +kernel
  have hclean := h.noToken sentence (by rw [redactValue, hsame]; exact List.mem_singleton_self _)
  exact (hclean shortJwt ⟨"Use ".toList, ".".toList, rfl⟩).1 jwt_shortJwt

end TeamClu.PiTranscript
