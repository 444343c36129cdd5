import TeamClu.ForStd.Lines
import TeamClu.Native.DurableQueue

/-!
# The log reader, line by line

`for_each_log_line` reads a file in buffers of any sizes and collects each line across them.  On a
file made of terminated lines and an unterminated tail it does what `readLines` does, which takes
the lines one by one: how the file is split into buffers does not matter
(`forEachLogLine_eq_readLines`).  A terminated line is too long when it exceeds the limit together
with its newline.
-/

namespace TeamClu.Mqtt

open Lines

/-- Read the terminated lines and the tail, the first of them line `lineNo` at offset `start`. -/
def readLines {σ : Type} (callback : σ → LogLine → Except QueueError σ) (tail : Bytes) :
    List Bytes → Nat → Nat → σ → Except QueueError σ
  | [], lineNo, start, state =>
    if tail.length > MAX_DURABLE_LOG_LINE_BYTES then .error (.lineTooLong lineNo)
    else if tail = [] then .ok state
    else
      match Str.fromUtf8 tail with
      | none => .error (.invalidUtf8 lineNo)
      | some text => callback state { lineNo, start, text, isFinal := true }
  | l :: ls, lineNo, start, state =>
    if l.length + 1 > MAX_DURABLE_LOG_LINE_BYTES then .error (.lineTooLong lineNo)
    else
      match Str.fromUtf8 l with
      | none => .error (.invalidUtf8 lineNo)
      | some text =>
        match callback state { lineNo, start, text, isFinal := ls.isEmpty && tail.isEmpty } with
        | .error e => .error e
        | .ok state => readLines callback tail ls (lineNo + 1) (start + (l.length + 1)) state

/-! ## Buffers -/

/-- No buffer is empty. -/
theorem ne_nil_of_mem_buffers {sizes : List Nat} {bytes b : Bytes} (h : b ∈ buffers sizes bytes) :
    b ≠ [] := by
  induction sizes generalizing bytes with
  | nil =>
    cases bytes with
    | nil => simp [buffers] at h
    | cons x bytes => simp only [buffers, List.mem_singleton] at h; simp [h]
  | cons n sizes ih =>
    cases bytes with
    | nil => simp [buffers] at h
    | cons x bytes =>
      rcases List.mem_cons.mp h with rfl | h
      · simp
      · exact ih h

/-- Together the buffers are the file. -/
@[simp] theorem flatten_buffers (sizes : List Nat) (bytes : Bytes) :
    (buffers sizes bytes).flatten = bytes := by
  induction sizes generalizing bytes with
  | nil => cases bytes <;> simp [buffers]
  | cons n sizes ih =>
    cases bytes with
    | nil => simp [buffers]
    | cons x bytes => simp [buffers, ih]

/-- Every splitting into buffers arises from its sizes. -/
theorem buffers_flatten {bufs : List Bytes} (hne : ∀ b ∈ bufs, b ≠ []) :
    buffers (bufs.map (·.length - 1)) bufs.flatten = bufs := by
  induction bufs with
  | nil => rfl
  | cons b bufs ih =>
    obtain ⟨x, b, rfl⟩ := List.exists_cons_of_ne_nil (hne b List.mem_cons_self)
    simp [buffers, ih fun c hc => hne c (List.mem_cons_of_mem _ hc)]

/-- A buffer with a newline, split at its first one. -/
private theorem exists_of_idxOf? {buffer : Bytes} {i : Nat}
    (h : buffer.idxOf? newlineByte = some i) :
    ∃ a b, buffer = a ++ newlineByte :: b ∧ newlineByte ∉ a ∧ a.length = i := by
  induction buffer generalizing i with
  | nil => simp at h
  | cons x buffer ih =>
    rw [List.idxOf?_cons] at h
    split_ifs at h with hx
    · obtain rfl : 0 = i := Option.some.inj h
      exact ⟨[], buffer, by rw [beq_iff_eq.mp hx]; rfl, List.not_mem_nil, rfl⟩
    · obtain ⟨j, hj, rfl⟩ := Option.map_eq_some_iff.mp h
      obtain ⟨a, b, rfl, ha, rfl⟩ := ih hj
      refine ⟨x :: a, b, rfl, ?_, rfl⟩
      simp only [List.mem_cons, not_or]
      exact ⟨fun hxe => hx (beq_iff_eq.mpr hxe.symm), ha⟩

/-- What is left of the buffers, as bytes. -/
private theorem flatten_consume (buffer : Bytes) (take : Nat) (rest : List Bytes) :
    (consume buffer take rest).flatten = buffer.drop take ++ rest.flatten := by
  unfold consume
  split <;> rename_i h <;> simp [h]

private theorem consume_ne_nil {buffer : Bytes} {take : Nat} {rest : List Bytes}
    (hrest : ∀ b ∈ rest, b ≠ []) : ∀ b ∈ consume buffer take rest, b ≠ [] := by
  unfold consume
  split
  · exact hrest
  · intro b hb
    rcases List.mem_cons.mp hb with rfl | hb
    · assumption
    · exact hrest b hb

/-- Non-empty buffers are none exactly when they hold no byte. -/
private theorem eq_nil_iff_flatten {bufs : List Bytes} (hne : ∀ b ∈ bufs, b ≠ []) :
    bufs = [] ↔ bufs.flatten = [] := by
  cases bufs with
  | nil => simp
  | cons b bufs => simp [hne b List.mem_cons_self]

/-! ## The loop -/

/-- From any point of the loop on, with `pre` read of the current line. -/
private theorem forEachLogLine_go {σ : Type} (callback : σ → LogLine → Except QueueError σ)
    (n : Nat) (bufs : List Bytes) (hn : (bufs.map (·.length + 1)).sum = n)
    (hne : ∀ b ∈ bufs, b ≠ []) (pre : Bytes) (hpre : newlineByte ∉ pre)
    (hlen : pre.length ≤ MAX_DURABLE_LOG_LINE_BYTES) (lines : List Bytes)
    (hlines : ∀ l ∈ lines, newlineByte ∉ l) (tail : Bytes) (htail : newlineByte ∉ tail)
    (hfile : pre ++ bufs.flatten = unlines newlineByte lines ++ tail) (lineNo start : Nat)
    (state : σ) :
    forEachLogLine callback bufs
      { line := pre, lineStart := start, lineNo, offset := start + pre.length } state =
      readLines callback tail lines lineNo start state := by
  -- strong induction on what is left to read
  induction n using Nat.strong_induction_on generalizing bufs pre lines lineNo start state with
  | _ n ih =>
  cases bufs with
  | nil =>
    rw [List.flatten_nil, List.append_nil] at hfile
    obtain ⟨rfl, rfl⟩ := eq_nil_of_not_mem hpre hfile
    unfold forEachLogLine readLines
    exact (if_neg (Nat.not_lt.mpr hlen)).symm
  | cons buffer rest =>
    have hrest : ∀ b ∈ rest, b ≠ [] := fun b hb => hne b (List.mem_cons_of_mem _ hb)
    have hlt := measure_consume_lt buffer (buffer.idxOf? newlineByte) rest
    rw [hn] at hlt
    rw [List.flatten_cons] at hfile
    unfold forEachLogLine
    cases hnl : buffer.idxOf? newlineByte with
    | none =>
      -- the whole buffer belongs to the current line
      have hbuf : newlineByte ∉ buffer := List.idxOf?_eq_none_iff.mp hnl
      have hpre' : newlineByte ∉ pre ++ buffer := by simp [hpre, hbuf]
      have hleft : consume buffer (taken none buffer) rest = rest := by simp [consume, taken]
      have htake : taken none buffer = buffer.length := rfl
      rw [← List.append_assoc] at hfile
      rw [hnl] at hlt
      simp only [hleft, Option.isSome_none, Bool.false_eq_true, if_false, Option.getD_none]
      split_ifs with hmax
      · -- too long already: so is the line it belongs to
        have hlong : (pre ++ buffer).length > MAX_DURABLE_LOG_LINE_BYTES := by
          simpa [htake] using hmax
        cases lines with
        | nil =>
          have hl := congrArg List.length hfile
          simp only [List.length_append, unlines_nil, List.length_nil] at hl hlong
          unfold readLines
          rw [if_pos (by omega)]
        | cons l ls =>
          have hfile' : (pre ++ buffer) ++ rest.flatten =
              l ++ newlineByte :: (unlines newlineByte ls ++ tail) := by simpa using hfile
          have hl := (prefix_of_append hpre' hfile').length_le
          unfold readLines
          rw [if_pos (by omega)]
      · have hlen' : (pre ++ buffer).length ≤ MAX_DURABLE_LOG_LINE_BYTES := by
          simpa [htake] using hmax
        have hgo := ih _ (by rwa [hleft] at hlt) rest rfl hrest (pre ++ buffer) hpre' hlen' lines
          hlines hfile lineNo start state
        simpa [htake, Nat.add_assoc] using hgo
    | some i =>
      obtain ⟨a, b, rfl, ha, rfl⟩ := exists_of_idxOf? hnl
      have htake : taken (some a.length) (a ++ newlineByte :: b) = a.length + 1 := rfl
      have hdrop : (a ++ newlineByte :: b).drop (a.length + 1) = b := by simp
      have htaken : (a ++ newlineByte :: b).take a.length = a := by simp
      have hpre' : newlineByte ∉ pre ++ a := by simp [hpre, ha]
      -- the line ends in this buffer: it is the first of `lines`
      have hfile' : (pre ++ a) ++ newlineByte :: (b ++ rest.flatten) =
          unlines newlineByte lines ++ tail := by simpa using hfile
      obtain ⟨ls, rfl, hrestFile⟩ := eq_cons_of_append_sep hlines htail hpre' hfile'
      have hls : ∀ l ∈ ls, newlineByte ∉ l := fun l hl => hlines l (List.mem_cons_of_mem _ hl)
      rw [hnl] at hlt
      have hleftNe := @consume_ne_nil (a ++ newlineByte :: b) (a.length + 1) rest hrest
      have hleftFlat := flatten_consume (a ++ newlineByte :: b) (a.length + 1) rest
      rw [hdrop, hrestFile] at hleftFlat
      have hfinal : (consume (a ++ newlineByte :: b) (a.length + 1) rest).isEmpty =
          (ls.isEmpty && tail.isEmpty) := by
        rw [Bool.eq_iff_iff, Bool.and_eq_true, List.isEmpty_iff, List.isEmpty_iff,
          List.isEmpty_iff, eq_nil_iff_flatten hleftNe, hleftFlat, append_eq_nil_iff]
      simp only [htake, Option.isSome_some, if_true, Option.getD_some, htaken, hfinal]
      unfold readLines
      have hlength : (pre ++ a).length + 1 = pre.length + (a.length + 1) := by
        rw [List.length_append]; omega
      rw [hlength]
      split_ifs with hmax
      · rfl
      · cases Str.fromUtf8 (pre ++ a) with
        | none => rfl
        | some text =>
          simp only
          cases callback state _ with
          | error e => rfl
          | ok state =>
            have hgo := ih _ hlt (consume (a ++ newlineByte :: b) (a.length + 1) rest) rfl
              hleftNe [] List.not_mem_nil (Nat.zero_le _) ls hls
              (by rw [List.nil_append, hleftFlat]) (lineNo + 1)
              (start + (pre.length + (a.length + 1))) state
            simpa [Nat.add_assoc] using hgo

/-- Reading a file of terminated lines and a tail, in whichever buffers, is reading its lines. -/
theorem forEachLogLine_eq_readLines {σ : Type} (callback : σ → LogLine → Except QueueError σ)
    (sizes : List Nat) {lines : List Bytes} (hlines : ∀ l ∈ lines, newlineByte ∉ l) {tail : Bytes}
    (htail : newlineByte ∉ tail) (state : σ) :
    forEachLogLine callback (buffers sizes (unlines newlineByte lines ++ tail)) {} state =
      readLines callback tail lines 1 0 state := by
  have hgo := forEachLogLine_go callback _ (buffers sizes (unlines newlineByte lines ++ tail)) rfl
    (fun b hb => ne_nil_of_mem_buffers hb) [] List.not_mem_nil (Nat.zero_le _) lines hlines tail
    htail (by simp) 1 0 state
  exact hgo

end TeamClu.Mqtt
