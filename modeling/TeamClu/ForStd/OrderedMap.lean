import Mathlib.Data.List.Nodup
import Mathlib.Tactic.Tauto
import TeamClu.ForStd.Assoc

/-!
# Maps in the order of insertion

A JavaScript object or `Map`: a key has one value, a new key is put at the end, and a key that is there keeps
its place.  `OrderedMap` carries that its keys are different, so an entry and a lookup are the same thing
(`mem_entries_iff`).
-/

/-- A list of entries with different keys. -/
structure OrderedMap (α β : Type) where
  entries : List (α × β)
  nodup : (entries.map (·.1)).Nodup
  deriving DecidableEq

namespace OrderedMap

variable {α β : Type} [DecidableEq α] (m : OrderedMap α β)

/-- The map without entries. -/
def empty : OrderedMap α β := ⟨[], List.nodup_nil⟩

/-- The value of a key. -/
def get (a : α) : Option β := m.entries.lookup a

/-- The keys, in their order. -/
def keys : List α := m.entries.map (·.1)

/-- The values, in the order of their keys. -/
def values : List β := m.entries.map (·.2)

/-- The map with a value for a key. -/
def put (a : α) (b : β) : OrderedMap α β := ⟨Assoc.put a b m.entries, Assoc.nodup_put m.nodup b⟩

/-- The entries that `p` keeps. -/
def filter (p : α × β → Bool) : OrderedMap α β :=
  ⟨m.entries.filter p, m.nodup.sublist (List.filter_sublist.map _)⟩

variable {m} {a a' : α} {b : β}

theorem mem_entries_iff : (a, b) ∈ m.entries ↔ m.get a = some b :=
  ⟨Assoc.lookup_of_mem m.nodup, Assoc.mem_of_lookup⟩

/-- A key has one entry. -/
theorem eq_of_mem_entries {e e' : α × β} (h : e ∈ m.entries) (h' : e' ∈ m.entries) (hkey : e.1 = e'.1) :
    e = e' := by
  obtain ⟨a, b⟩ := e
  obtain ⟨a', b'⟩ := e'
  obtain rfl : a = a' := hkey
  have hget := mem_entries_iff.mp h
  rw [mem_entries_iff.mp h', Option.some_inj] at hget
  rw [hget]

omit [DecidableEq α] in
theorem nodup_entries : m.entries.Nodup := List.Nodup.of_map _ m.nodup

theorem mem_keys_iff : a ∈ m.keys ↔ (m.get a).isSome = true := Assoc.isSome_lookup_iff.symm

theorem mem_values_iff : b ∈ m.values ↔ ∃ a, m.get a = some b := by
  simp only [values, List.mem_map, ← mem_entries_iff]
  exact ⟨fun ⟨e, he, hb⟩ => ⟨e.1, hb ▸ he⟩, fun ⟨a, ha⟩ => ⟨(a, b), ha, rfl⟩⟩

@[simp] theorem get_empty : (empty : OrderedMap α β).get a = none := rfl

theorem get_cons_self {l : List (α × β)} (h : (((a, b) :: l).map (·.1)).Nodup) :
    (⟨(a, b) :: l, h⟩ : OrderedMap α β).get a = some b := List.lookup_cons_self

theorem get_cons_of_ne {l : List (α × β)} (hne : a' ≠ a) (h : (((a, b) :: l).map (·.1)).Nodup) :
    (⟨(a, b) :: l, h⟩ : OrderedMap α β).get a' = get ⟨l, (List.nodup_cons.mp h).2⟩ a' :=
  Assoc.lookup_cons_of_ne hne

theorem get_eq_none (h : a ∉ m.keys) : m.get a = none := Assoc.lookup_eq_none h

theorem get_put : (m.put a b).get a' = if a' = a then some b else m.get a' := Assoc.lookup_put b

@[simp] theorem get_put_self : (m.put a b).get a = some b := Assoc.lookup_put_self b

theorem get_put_of_ne (h : a' ≠ a) : (m.put a b).get a' = m.get a' := Assoc.lookup_put_of_ne h b

theorem mem_keys_put : a' ∈ (m.put a b).keys ↔ a' = a ∨ a' ∈ m.keys := Assoc.mem_keys_put b

theorem get_filter (p : α × β → Bool) : (m.filter p).get a = (m.get a).filter fun b => p (a, b) := by
  rw [Option.ext_iff]
  intro b
  rw [← mem_entries_iff, Option.filter_eq_some_iff, ← mem_entries_iff]
  exact List.mem_filter

/-- Keys are taken away. -/
theorem get_filter_notMem (l : List α) [∀ a, Decidable (a ∈ l)] :
    (m.filter fun e => e.1 ∉ l).get a = if a ∈ l then none else m.get a := by
  rw [get_filter]
  split
  · next h => cases m.get a <;> simp [h]
  · next h => cases m.get a <;> simp [h]

/-- A loop that sets one key after another: what a key has is what its own turns of the loop make of it. -/
theorem get_foldl_put {γ : Type} (key : γ → α) (value : Option β → γ → β) (l : List γ) (m : OrderedMap α β)
    (a : α) : (l.foldl (fun m c => m.put (key c) (value (m.get (key c)) c)) m).get a =
      (l.filter (key · = a)).foldl (fun b c => some (value b c)) (m.get a) := by
  induction l generalizing m with
  | nil => rfl
  | cons c l ih =>
    rw [List.foldl_cons, ih]
    by_cases hc : key c = a
    · rw [List.filter_cons_of_pos (by simpa using hc), List.foldl_cons, ← hc, get_put_self]
    · rw [List.filter_cons_of_neg (by simpa using hc), get_put_of_ne (Ne.symm hc)]

/-- What holds of every entry that a loop sets holds of all its entries. -/
theorem forall_entries_foldl_put {γ : Type} (key : γ → α) (value : Option β → γ → β) (P : α → β → Prop)
    (l : List γ) (hl : ∀ b, ∀ c ∈ l, P (key c) (value b c)) {m : OrderedMap α β}
    (hm : ∀ a b, m.get a = some b → P a b) (a : α) (b : β)
    (h : (l.foldl (fun m c => m.put (key c) (value (m.get (key c)) c)) m).get a = some b) : P a b := by
  induction l generalizing m with
  | nil => exact hm a b h
  | cons c l ih =>
    refine ih (fun b d hd => hl b d (List.mem_cons_of_mem _ hd)) (fun a' b' h' => ?_) h
    rw [get_put] at h'
    split at h'
    · next heq =>
      cases h'
      rw [heq]
      exact hl _ c List.mem_cons_self
    · exact hm a' b' h'

end OrderedMap
