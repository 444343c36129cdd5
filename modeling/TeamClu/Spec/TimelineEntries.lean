import TeamClu.Native.ChatTimeline

/-!
# Changing one entry

The reducer changes the first or the last entry that fits.  The entries split around it
(`updateFirst_split`, `updateLast_split`), so what the change keeps of one entry it keeps of the list,
and what it relates of one entry it relates of the lists (`forall₂_updateFirst`, `forall₂_updateLast`).
-/

namespace TeamClu.Timeline

/-- Texts compared character by character. -/
def plainText : SwiftText where
  same a b := a = b
  hasPrefix text start := start.isPrefixOf text
  count := List.length

variable {p : TimelineEntry → Bool} {f : TimelineEntry → TimelineEntry} {es : List TimelineEntry}

/-- The entries around the first one that fits. -/
theorem updateFirst_split (h : es.any p = true) :
    ∃ before e after, es = before ++ e :: after ∧ p e = true ∧ (∀ x ∈ before, p x = false) ∧
      updateFirst p f es = before ++ f e :: after := by
  induction es with
  | nil => cases h
  | cons e es ih =>
    unfold updateFirst
    cases he : p e with
    | true => exact ⟨[], e, es, rfl, he, fun _ hx => absurd hx List.not_mem_nil, rfl⟩
    | false =>
      rw [List.any_cons, he, Bool.false_or] at h
      obtain ⟨before, x, after, rfl, hx, hbefore, heq⟩ := ih h
      refine ⟨e :: before, x, after, rfl, hx, ?_, ?_⟩
      · rw [List.forall_mem_cons]
        exact ⟨he, hbefore⟩
      · rw [heq]
        rfl

/-- The entries around the last one that fits. -/
theorem updateLast_split (h : es.any p = true) :
    ∃ before e after, es = before ++ e :: after ∧ p e = true ∧ (∀ x ∈ after, p x = false) ∧
      updateLast p f es = before ++ f e :: after := by
  have h' : es.reverse.any p = true := by rwa [List.any_reverse]
  obtain ⟨before, e, after, hsplit, he, hbefore, heq⟩ := updateFirst_split (f := f) h'
  refine ⟨after.reverse, e, before.reverse, ?_, he, ?_, ?_⟩
  · rw [← List.reverse_reverse es, hsplit]
    simp
  · exact fun x hx => hbefore x (List.mem_reverse.mp hx)
  · rw [updateLast, heq]
    simp

/-- What holds of the entries, and of the changed one, holds after the change. -/
theorem forall_updateFirst {P : TimelineEntry → Prop} (h : ∀ e ∈ es, P e)
    (hf : ∀ e ∈ es, p e = true → P (f e)) : ∀ e ∈ updateFirst p f es, P e := by
  induction es with
  | nil => exact h
  | cons e es ih =>
    rw [List.forall_mem_cons] at h hf
    unfold updateFirst
    split
    · next he =>
      rw [List.forall_mem_cons]
      exact ⟨hf.1 he, h.2⟩
    · rw [List.forall_mem_cons]
      exact ⟨h.1, ih h.2 hf.2⟩

/-- As many entries have a property when the change keeps it. -/
theorem countP_updateFirst {q : TimelineEntry → Bool} (hf : ∀ e ∈ es, p e = true → q (f e) = q e) :
    (updateFirst p f es).countP q = es.countP q := by
  induction es with
  | nil => rfl
  | cons e es ih =>
    rw [List.forall_mem_cons] at hf
    unfold updateFirst
    split
    · next he => rw [List.countP_cons, List.countP_cons, hf.1 he]
    · rw [List.countP_cons, List.countP_cons, ih hf.2]

/-- A change of the first entry that fits relates the entries when it relates that entry. -/
theorem forall₂_updateFirst {R : TimelineEntry → TimelineEntry → Prop} (hR : ∀ e, R e e) :
    List.Forall₂ R es (updateFirst p f es) ↔ ∀ e ∈ es.find? p, R e (f e) := by
  induction es with
  | nil => simp [updateFirst]
  | cons e es ih =>
    unfold updateFirst
    cases hp : p e with
    | true => simp [hp, hR]
    | false => simp [hp, hR e, ih]

/-- The same of the last entry that fits. -/
theorem forall₂_updateLast {R : TimelineEntry → TimelineEntry → Prop} (hR : ∀ e, R e e) :
    List.Forall₂ R es (updateLast p f es) ↔ ∀ e ∈ es.reverse.find? p, R e (f e) := by
  rw [updateLast, ← List.forall₂_reverse_iff, List.reverse_reverse, forall₂_updateFirst hR]

/-- What holds of the entries, and of every changed one, holds after the change. -/
theorem forall_updateLast {P : TimelineEntry → Prop} (h : ∀ e ∈ es, P e)
    (hf : ∀ e, P e → P (f e)) : ∀ e ∈ updateLast p f es, P e := by
  intro e he
  rw [updateLast, List.mem_reverse] at he
  refine forall_updateFirst (fun e he => h e (List.mem_reverse.mp he)) (fun e he _ => ?_) e he
  exact hf e (h e (List.mem_reverse.mp he))

/-- Without replies that wait, only the source of the input changes the timeline. -/
theorem claim_of_pending_nil (T : SwiftText) {r : TimelineState × Effect}
    (h : r.1.pendingPersistedReplies = []) :
    (if r.2 = .entriesChanged then
      let (entries, waiting) := claimPending T r.1.pendingPersistedReplies r.1.entries
      { r.1 with entries, pendingPersistedReplies := waiting }
    else r.1) = r.1 := by
  split
  · rw [h]
    obtain ⟨s, effect⟩ := r
    cases s
    cases h
    rfl
  · rfl

end TeamClu.Timeline
