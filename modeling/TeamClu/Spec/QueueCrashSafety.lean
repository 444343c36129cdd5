import TeamClu.ForStd.Machine
import TeamClu.Spec.DurableQueueCorrect
import TeamClu.Spec.StoreJson

/-!
# Crash safety of a durable queue

A run interleaves the operations of a queue with crashes and reopens.  A crash in the middle of an
append leaves any number of the bytes of the record and its newline; a crash around a compaction
leaves the old file (`crash` before it) or the new one (`crash` after it).  Beside the queue a run
keeps what `put` has returned and which acknowledgements have reached the log.

The queue recovers what it should (`Recovers`) after every reopen of a run of careful steps
(`queue_crash_safe`).  A step is not careful when it appends behind a record whose newline was lost,
or when a crash leaves bytes that end inside a character.  `queue_loses_put` is a run of the first
kind.
-/

namespace TeamClu.Mqtt

open DurableQueue

/-- A queue's log, the process that has it open, and what the run remembers. -/
structure QueueWorld (T : Type) where
  file : Bytes := []
  process : Option (DurableQueue T) := none
  /-- The ids `put` has returned, with their items. -/
  returned : List (Nat × T) := []
  /-- The ids whose acknowledgement has been appended. -/
  acked : List Nat := []

/-- What can happen next. -/
inductive QueueEvent (T : Type) where
  /-- The process starts and opens the log, reading it in buffers of these sizes. -/
  | reopen (sizes : List Nat)
  | put (item : T)
  | ack (id : Nat)
  | compact
  /-- The process is killed between two operations. -/
  | crash
  /-- The process is killed while `put` appends: `n` bytes reach the log. -/
  | crashPut (item : T) (n : Nat)
  /-- The process is killed while `ack` appends: `n` bytes reach the log. -/
  | crashAck (id : Nat) (n : Nat)

section

variable {T : Type} {itemText : T → Str}

/-- What a crash leaves of the line of a record: its first `n` bytes, nothing when the record is
    refused. -/
def tornLine (itemText : T → Str) (r : LogRecord T) (n : Nat) : Bytes :=
  if (encode (LogRecord.text itemText) r).length > MAX_DURABLE_LOG_LINE_BYTES then []
  else (encodeLine (LogRecord.text itemText) r).take n

/-- One step of a run. -/
def QueueWorld.step (serde : Serde (LogRecord.text itemText)) (w : QueueWorld T) :
    QueueEvent T → QueueWorld T
  | .reopen sizes =>
    match DurableQueue.open serde w.file sizes with
    | .error _ => { w with process := none }
    | .ok q => { w with file := q.file, process := some q }
  | .put item =>
    match w.process with
    | none => w
    | some q =>
      match q.put itemText item with
      | .error _ => w
      | .ok (q, id) =>
        { w with file := q.file, process := some q, returned := (id, item) :: w.returned }
  | .ack id =>
    match w.process with
    | none => w
    | some q =>
      match q.ack itemText id with
      | .error _ => w
      | .ok q' =>
        { w with file := q'.file, process := some q'
                 acked := if id ∈ q.entries then id :: w.acked else w.acked }
  | .compact =>
    match w.process with
    | none => w
    | some q => { w with file := (q.compact itemText).file, process := some (q.compact itemText) }
  | .crash => { w with process := none }
  | .crashPut item n =>
    match w.process with
    | none => w
    | some q =>
      { w with file := q.file ++ tornLine itemText (.put q.nextId item) n, process := none }
  | .crashAck id n =>
    match w.process with
    | none => w
    | some q =>
      if id ∈ q.entries then
        let full := (encode (LogRecord.text itemText) (.ack id)).length ≤ n
        { w with file := q.file ++ tornLine itemText (.ack id) n, process := none
                 acked := if full then id :: w.acked else w.acked }
      else { w with process := none }

/-- The runs of a queue, from no log at all. -/
def queueMachine (serde : Serde (LogRecord.text itemText)) :
    Machine (QueueWorld T) (QueueEvent T) where
  init := {}
  step := QueueWorld.step serde

/-- Whether the event opens the log. -/
def QueueEvent.isReopen : QueueEvent T → Bool
  | reopen _ => true
  | _ => false

/-- The log is open, every item that `put` returned and nobody acknowledged is there under its id,
    no acknowledged one is, and the next id is new. -/
def Recovers (w : QueueWorld T) : Prop :=
  ∃ q, w.process = some q ∧
    (∀ p ∈ w.returned, p.1 ∉ w.acked → q.entries[p.1]? = some p.2) ∧
    (∀ id ∈ w.acked, id ∉ q.entries) ∧
    (∀ p ∈ w.returned, p.1 < q.nextId)

/-- The log is empty or ends in a newline. -/
def endsLine (file : Bytes) : Bool := file.isEmpty || file.getLast? == some newlineByte

/-- Whether a put of this item is one the queue has room for: a line the reader takes, behind a
    newline, and an id that is not the last. -/
def roomFor (itemText : T → Str) (q : DurableQueue T) (item : T) : Bool :=
  endsLine q.file && q.nextId < U64_MAX &&
    (encode (LogRecord.text itemText) (.put q.nextId item)).length < MAX_DURABLE_LOG_LINE_BYTES

/-- The careful steps: every append is behind a newline, and a crash leaves whole characters. -/
def carefulStep (itemText : T → Str) (w : QueueWorld T) (e : QueueEvent T) : Bool :=
  match w.process with
  | none => true
  | some q =>
    match e with
    | .put item => roomFor itemText q item
    | .ack id => !q.entries.contains id || endsLine q.file
    | .crashPut item n =>
      roomFor itemText q item && (Str.fromUtf8 (tornLine itemText (.put q.nextId item) n)).isSome
    | .crashAck id _ => !q.entries.contains id || endsLine q.file
    | _ => true

/-! ## The invariant -/

/-- What a run remembers, against what the log replays to. -/
structure Remembers (w : QueueWorld T) (st : Recovered T) : Prop where
  pos : 1 ≤ st.nextId
  le : st.nextId ≤ U64_MAX
  entry_lt : ∀ id ∈ st.entries, id < st.nextId
  returned_lt : ∀ p ∈ w.returned, p.1 < st.nextId
  acked_lt : ∀ id ∈ w.acked, id < st.nextId
  returned_entry : ∀ p ∈ w.returned, p.1 ∉ w.acked → st.entries[p.1]? = some p.2
  acked_not_entry : ∀ id ∈ w.acked, id ∉ st.entries

/-- The log holds records that fit and a tail; the run remembers nothing else than what they replay
    to; and the process, if there is one, has recovered just that and left no torn tail. -/
def LogInv (itemText : T → Str) (w : QueueWorld T) : Prop :=
  ∃ rs tail extra, w.file = logBytes (LogRecord.text itemText) rs ++ tail ∧
    (∀ r ∈ rs ++ extra, Fits (LogRecord.text itemText) r) ∧
    Tail (LogRecord.text itemText) tail extra ∧ Remembers w (replay (rs ++ extra)) ∧
    ∀ q, w.process = some q → q.file = w.file ∧ q.Replays (rs ++ extra) ∧
      tail = extra.flatMap (encode (LogRecord.text itemText))

/-- Ids in strict order are in order. -/
private theorem Remembers.idsOk {w : QueueWorld T} {st : Recovered T} (h : Remembers w st) :
    IdsOk st.entries st.nextId where
  pos := h.pos
  le := h.le
  entry_le id hid := by have := h.entry_lt id hid; have := h.le; omega
  succ_le id hid := by
    have := h.entry_lt id hid
    have := h.le
    unfold saturatingSucc
    omega

/-- Only what is remembered matters. -/
private theorem Remembers.congr {w w' : QueueWorld T} {st : Recovered T} (h : Remembers w st)
    (hreturned : w'.returned = w.returned) (hacked : w'.acked = w.acked) : Remembers w' st := by
  obtain ⟨h1, h2, h3, h4, h5, h6, h7⟩ := h
  rw [← hreturned] at h4 h6
  rw [← hacked] at h5 h6 h7
  exact ⟨h1, h2, h3, h4, h5, h6, h7⟩

/-- Replaying a put of the next id, whether or not its call returned. -/
private theorem Remembers.put {w w' : QueueWorld T} {st : Recovered T} (h : Remembers w st)
    (hid : st.nextId < U64_MAX) (item : T)
    (hreturned : w'.returned = w.returned ∨ w'.returned = (st.nextId, item) :: w.returned)
    (hacked : w'.acked = w.acked) : Remembers w' (st.apply (.put st.nextId item)) := by
  have hnext : (st.apply (.put st.nextId item)).nextId = st.nextId + 1 := by
    simp only [Recovered.apply, saturatingSucc]
    omega
  have hsub : ∀ p ∈ w'.returned, p = (st.nextId, item) ∨ p ∈ w.returned := by
    rcases hreturned with heq | heq <;> rw [heq] <;> simp
    exact fun a b hp => .inr hp
  constructor
  · omega
  · omega
  · -- the new id is above the old ones
    intro id hmem
    rw [hnext]
    rcases Std.ExtTreeMap.mem_insert.mp hmem with heq | hmem
    · have := Std.LawfulEqCmp.eq_of_compare heq
      omega
    · have := h.entry_lt id hmem
      omega
  · -- what was returned is below the next id
    intro p hp
    rcases hsub p hp with rfl | hp
    · simp only [hnext]; omega
    · have := h.returned_lt p hp
      omega
  · -- and so is what was acknowledged
    intro id hmem
    rw [hacked] at hmem
    have := h.acked_lt id hmem
    omega
  · -- an item that is not acknowledged is pending, the new one with the others
    intro p hp hnot
    simp only [Recovered.apply, Std.ExtTreeMap.getElem?_insert]
    rcases hsub p hp with rfl | hp
    · rw [if_pos Std.ReflCmp.compare_self]
    · have hlt := h.returned_lt p hp
      rw [if_neg fun heq => by have := Std.LawfulEqCmp.eq_of_compare heq; omega]
      exact h.returned_entry p hp (hacked ▸ hnot)
  · -- no acknowledged item comes back
    intro id hmem hentry
    rw [hacked] at hmem
    rcases Std.ExtTreeMap.mem_insert.mp hentry with heq | hentry
    · have := Std.LawfulEqCmp.eq_of_compare heq
      have := h.acked_lt id hmem
      omega
    · exact h.acked_not_entry id hmem hentry

/-- Replaying an acknowledgement of a pending id. -/
private theorem Remembers.ack {w w' : QueueWorld T} {st : Recovered T} (h : Remembers w st)
    {id : Nat} (hid : id ∈ st.entries) (hreturned : w'.returned = w.returned)
    (hacked : w'.acked = id :: w.acked) : Remembers w' (st.apply (.ack id)) := by
  constructor
  · exact h.pos
  · exact h.le
  · exact fun i hi => h.entry_lt i (Std.ExtTreeMap.mem_of_mem_erase hi)
  · rw [hreturned]; exact h.returned_lt
  · -- the acknowledged id was pending, so it is below the next one
    intro i hi
    rw [hacked] at hi
    rcases List.mem_cons.mp hi with rfl | hi
    · exact h.entry_lt i hid
    · exact h.acked_lt i hi
  · -- an item that is still owed is not the acknowledged one
    intro p hp hnot
    rw [hreturned] at hp
    rw [hacked, List.mem_cons, not_or] at hnot
    simp only [Recovered.apply, Std.ExtTreeMap.getElem?_erase]
    rw [if_neg fun heq => hnot.1 (Std.LawfulEqCmp.eq_of_compare heq).symm]
    exact h.returned_entry p hp hnot.2
  · -- the acknowledged entry is gone
    intro i hi hentry
    rw [hacked] at hi
    rcases List.mem_cons.mp hi with rfl | hi
    · exact (Std.ExtTreeMap.mem_erase.mp hentry).1 Std.ReflCmp.compare_self
    · exact h.acked_not_entry i hi (Std.ExtTreeMap.mem_of_mem_erase hentry)

/-! ## What a crash leaves of a line -/

/-- A torn line that decodes is a log of at most that record, with a tail: the record counts when
    all of its bytes are there. -/
private theorem tornLine_eq {r : LogRecord T} (hfit : Fits (LogRecord.text itemText) r) (n : Nat)
    (hutf8 : (Str.fromUtf8 (tornLine itemText r n)).isSome = true) :
    ∃ rs tail extra, tornLine itemText r n = logBytes (LogRecord.text itemText) rs ++ tail ∧
      Tail (LogRecord.text itemText) tail extra ∧
      rs ++ extra = if (encode (LogRecord.text itemText) r).length ≤ n then [r] else [] := by
  have hlen : ¬ (encode (LogRecord.text itemText) r).length > MAX_DURABLE_LOG_LINE_BYTES := by
    unfold Fits at hfit
    omega
  unfold tornLine at hutf8 ⊢
  rw [if_neg hlen] at hutf8 ⊢
  rcases Nat.lt_trichotomy n (encode (LogRecord.text itemText) r).length with hlt | heq | hgt
  · -- part of the record
    have htake : (encodeLine (LogRecord.text itemText) r).take n =
        (encode (LogRecord.text itemText) r).take n :=
      List.take_append_of_le_length (Nat.le_of_lt hlt)
    rw [htake] at hutf8 ⊢
    rw [if_neg (by omega)]
    cases n with
    | zero => exact ⟨[], [], [], rfl, .none, rfl⟩
    | succ n =>
      obtain ⟨text, htext⟩ := Option.isSome_iff_exists.mp hutf8
      have hbytes := Str.utf8_of_fromUtf8 htext
      have hlength := congrArg List.length hbytes
      rw [Str.length_utf8, List.length_take, Nat.min_eq_left (Nat.le_of_lt hlt)] at hlength
      refine ⟨[], _, [], rfl, ?_, rfl⟩
      rw [← hbytes]
      refine .torn (r := r) (Str.prefix_of_utf8_prefix (hbytes ▸ List.take_prefix _ _)) ?_ ?_ ?_
      · rintro rfl
        simp at hlength
      · rintro rfl
        have : (encode (LogRecord.text itemText) r).length = n + 1 := by
          rw [← hlength]
          exact Str.length_utf8 _
        omega
      · unfold Fits at hfit
        omega
  · -- the whole record, without its newline
    have htake : (encodeLine (LogRecord.text itemText) r).take n =
        encode (LogRecord.text itemText) r := by
      rw [heq]
      exact List.take_left' rfl
    rw [htake, if_pos (Nat.le_of_eq heq.symm)]
    exact ⟨[], _, [r], rfl, .complete (by unfold Fits at hfit; omega), rfl⟩
  · -- the whole line
    have htake : (encodeLine (LogRecord.text itemText) r).take n =
        encodeLine (LogRecord.text itemText) r :=
      List.take_of_length_le (by
        simp only [encodeLine, List.length_append, List.length_cons, List.length_nil]
        omega)
    rw [htake, if_pos (Nat.le_of_lt hgt)]
    exact ⟨[r], [], [], by rw [List.append_nil, logBytes_singleton], .none, rfl⟩

/-- Whatever a crash leaves of an acknowledgement decodes: its text is ASCII. -/
private theorem isSome_fromUtf8_tornLine_ack (id n : Nat) :
    (Str.fromUtf8 (tornLine itemText (.ack id : LogRecord T) n)).isSome = true := by
  unfold tornLine
  split_ifs
  · rfl
  · have hascii : ∀ c ∈ LogRecord.text itemText (.ack id : LogRecord T) ++ ['\n'],
        c.utf8Size = 1 := by
      intro c hc
      simp only [LogRecord.text, List.mem_append, List.mem_singleton] at hc
      rcases hc with (hc | hc | hc) | rfl
      · have hall : (JsonText.lit "\x7b\"Ack\":\x7b\"id\":").all (·.utf8Size == 1) = true := by
          rw [JsonText.lit]; decide
        exact beq_iff_eq.mp (List.all_eq_true.mp hall c hc)
      · exact JsonText.utf8Size_of_isDigit (JsonText.isDigit_of_mem_natText hc)
      · have hall : (JsonText.lit "\x7d\x7d").all (·.utf8Size == 1) = true := by
          rw [JsonText.lit]; decide
        exact beq_iff_eq.mp (List.all_eq_true.mp hall c hc)
      · decide
    have hline : encodeLine (LogRecord.text itemText) (.ack id : LogRecord T) =
        Str.utf8 (LogRecord.text itemText (.ack id : LogRecord T) ++ ['\n']) := by
      rw [Str.utf8_append]
      rfl
    rw [hline, Str.take_utf8 hascii, Str.fromUtf8_utf8]
    rfl

/-! ## Steps -/

variable (serde : Serde (LogRecord.text itemText))

/-- A log that ends its last line has no tail. -/
private theorem eq_nil_of_endsLine (serde : Serde (LogRecord.text itemText)) {rs extra : List (LogRecord T)} {tail : Bytes}
    (htail : Tail (LogRecord.text itemText) tail extra)
    (hwhole : tail = extra.flatMap (encode (LogRecord.text itemText)))
    (hends : endsLine (logBytes (LogRecord.text itemText) rs ++ tail) = true) :
    tail = [] ∧ extra = [] := by
  have hnl := htail.newline_not_mem serde
  -- a tail that ends the file would have to end in a newline, and no tail holds one
  have hnil : tail = [] := by
    by_contra hne
    simp only [endsLine, Bool.or_eq_true, List.isEmpty_iff, List.append_eq_nil_iff, beq_iff_eq,
      List.getLast?_append_of_ne_nil _ hne] at hends
    rcases hends with h | h
    · exact hne h.2
    · exact hnl (List.mem_of_getLast? h)
  refine ⟨hnil, ?_⟩
  cases htail with
  | none => rfl
  | torn => rfl
  | @complete r =>
    have htext := Str.utf8_injective (t := []) hnil
    obtain ⟨-, body, hbody⟩ := serde.objectLine r
    rw [hbody] at htext
    -- so it is empty, and the record of an object is not
    exact absurd htext (List.cons_ne_nil _ _)

/-- What the invariant says of a process whose log ends in a newline. -/
private theorem LogInv.clean (serde : Serde (LogRecord.text itemText)) {w : QueueWorld T}
    (h : LogInv itemText w) {q : DurableQueue T} (hq : w.process = some q) (hends : endsLine q.file = true) :
    ∃ rs, q.file = logBytes (LogRecord.text itemText) rs ∧
      (∀ r ∈ rs, Fits (LogRecord.text itemText) r) ∧ Remembers w (replay rs) ∧ q.Replays rs := by
  obtain ⟨rs, tail, extra, hfile, hfit, htail, hrem, hproc⟩ := h
  obtain ⟨hqfile, hrep, hwhole⟩ := hproc q hq
  rw [hqfile, hfile] at hends
  obtain ⟨rfl, rfl⟩ := eq_nil_of_endsLine serde htail hwhole hends
  rw [List.append_nil] at hfile hfit hrem hrep
  exact ⟨rs, by rw [hqfile, hfile], hfit, hrem, hrep⟩

/-- The invariant after a step that leaves a process with a log of whole lines. -/
private theorem LogInv.of_clean {w : QueueWorld T} {q : DurableQueue T} {rs : List (LogRecord T)}
    (hfile : w.file = q.file) (hproc : w.process = some q)
    (hlog : q.file = logBytes (LogRecord.text itemText) rs)
    (hfit : ∀ r ∈ rs, Fits (LogRecord.text itemText) r) (hrem : Remembers w (replay rs))
    (hrep : q.Replays rs) : LogInv itemText w := by
  refine ⟨rs, [], [], by rw [hfile, hlog, List.append_nil], ?_, .none, ?_, ?_⟩
  · rwa [List.append_nil]
  · rwa [List.append_nil]
  · intro q' hq'
    rw [hproc] at hq'
    obtain rfl := Option.some.inj hq'
    exact ⟨hfile.symm, by rwa [List.append_nil], rfl⟩

/-- The invariant after a crash that leaves part of a line behind whole ones. -/
private theorem LogInv.of_torn {w : QueueWorld T} {rs : List (LogRecord T)} {r : LogRecord T}
    {n : Nat} (hfile : w.file = logBytes (LogRecord.text itemText) rs ++ tornLine itemText r n)
    (hproc : w.process = none) (hfit : ∀ q ∈ rs, Fits (LogRecord.text itemText) q)
    (hr : Fits (LogRecord.text itemText) r)
    (hutf8 : (Str.fromUtf8 (tornLine itemText r n)).isSome = true)
    (hrem : Remembers w (replay (rs ++
      if (encode (LogRecord.text itemText) r).length ≤ n then [r] else []))) :
    LogInv itemText w := by
  obtain ⟨rs', tail, extra, htorn, htail, hextra⟩ := tornLine_eq hr n hutf8
  -- the torn line is records and a tail, behind those of the log
  refine ⟨rs ++ rs', tail, extra, ?_, ?_, htail, ?_, ?_⟩
  · rw [hfile, htorn, logBytes_append, List.append_assoc]
  · intro q hq
    rw [List.append_assoc, hextra] at hq
    rcases List.mem_append.mp hq with hq | hq
    · exact hfit q hq
    · split_ifs at hq
      · rw [List.mem_singleton.mp hq]; exact hr
      · exact absurd hq List.not_mem_nil
  · rwa [List.append_assoc, hextra]
  · -- the process has crashed
    intro q hq
    rw [hproc] at hq
    exact nomatch hq

/-- Opening recovers, and keeps the invariant. -/
private theorem reopen_step {w : QueueWorld T} (h : LogInv itemText w) (sizes : List Nat) :
    LogInv itemText (w.step serde (.reopen sizes)) ∧ Recovers (w.step serde (.reopen sizes)) := by
  obtain ⟨rs, tail, extra, hfile, hfit, htail, hrem, -⟩ := h
  have hopen := open_log serde (fun r hr => hfit r (List.mem_append_left _ hr)) htail sizes
  rw [← hfile] at hopen
  have hwhole : Tail (LogRecord.text itemText) (extra.flatMap (encode (LogRecord.text itemText)))
      extra := by
    cases htail with
    | none => exact .none
    | torn => exact .none
    | complete hlen => rw [List.flatMap_singleton]; exact .complete hlen
  constructor
  · unfold QueueWorld.step
    simp only [hopen]
    refine ⟨rs, _, extra, rfl, hfit, hwhole, hrem.congr rfl rfl, ?_⟩
    intro q hq
    obtain rfl := Option.some.inj hq
    exact ⟨rfl, ⟨rfl, rfl⟩, rfl⟩
  · unfold QueueWorld.step
    simp only [hopen]
    exact ⟨_, rfl, hrem.returned_entry, hrem.acked_not_entry, hrem.returned_lt⟩

/-- What room for an item says. -/
private theorem roomFor_iff (q : DurableQueue T) (item : T) :
    roomFor itemText q item = true ↔ endsLine q.file = true ∧ q.nextId < U64_MAX ∧
      Fits (LogRecord.text itemText) (.put q.nextId item) := by
  simp only [roomFor, Bool.and_eq_true, decide_eq_true_eq, Fits, and_assoc]

/-- Records that fit, with one more. -/
private theorem fits_concat {rs : List (LogRecord T)} {r : LogRecord T}
    (hfit : ∀ q ∈ rs, Fits (LogRecord.text itemText) q) (hr : Fits (LogRecord.text itemText) r) :
    ∀ q ∈ rs ++ [r], Fits (LogRecord.text itemText) q := by
  intro q hq
  rcases List.mem_append.mp hq with hq | hq
  · exact hfit q hq
  · rw [List.mem_singleton.mp hq]; exact hr

/-- The ids of the process are in order. -/
private theorem LogInv.idsOk {w : QueueWorld T} (h : LogInv itemText w) {q : DurableQueue T}
    (hq : w.process = some q) : IdsOk q.entries q.nextId := by
  obtain ⟨rs, tail, extra, -, -, -, hrem, hproc⟩ := h
  obtain ⟨-, hrep, -⟩ := hproc q hq
  rw [hrep.entries_eq, hrep.nextId_eq]
  exact hrem.idsOk

/-- The process is gone, the log is as it was. -/
private theorem LogInv.killed {w : QueueWorld T} (h : LogInv itemText w) :
    LogInv itemText { w with process := none } := by
  obtain ⟨rs, tail, extra, hfile, hfit, htail, hrem, -⟩ := h
  exact ⟨rs, tail, extra, hfile, hfit, htail, hrem.congr rfl rfl, nofun⟩

/-- The process has written its log anew. -/
private theorem LogInv.compacted {w : QueueWorld T} (h : LogInv itemText w) {q : DurableQueue T}
    (hq : w.process = some q) :
    LogInv itemText { w with file := (q.compact itemText).file
                             process := some (q.compact itemText) } := by
  have hids := h.idsOk hq
  obtain ⟨rs, tail, extra, hfile, hfit, htail, hrem, hproc⟩ := h
  obtain ⟨-, hrep, -⟩ := hproc q hq
  have hsnap := replays_snapshot hids
  refine .of_clean (q := q.compact itemText) rfl rfl (compact_file q)
    (fits_snapshot hrep hids hfit) ?_ ⟨hsnap.entries_eq, hsnap.nextId_eq⟩
  · have hreplay : (replay q.snapshot).entries = (replay (rs ++ extra)).entries ∧
        (replay q.snapshot).nextId = (replay (rs ++ extra)).nextId :=
      ⟨by rw [← hsnap.entries_eq, hrep.entries_eq], by rw [← hsnap.nextId_eq, hrep.nextId_eq]⟩
    obtain ⟨h1, h2, h3, h4, h5, h6, h7⟩ := hrem
    rw [← hreplay.1] at h3 h6 h7
    rw [← hreplay.2] at h1 h2 h3 h4 h5
    exact ⟨h1, h2, h3, h4, h5, h6, h7⟩

/-- A careful step keeps the invariant. -/
theorem logInv_step {w : QueueWorld T} {e : QueueEvent T} (h : LogInv itemText w)
    (hcareful : carefulStep itemText w e = true) : LogInv itemText (w.step serde e) := by
  cases hproc : w.process with
  | none =>
    cases e with
    -- a closed queue can only be opened, or crash
    | reopen sizes => exact (reopen_step serde h sizes).1
    | crash => exact h.killed
    | _ => simpa only [QueueWorld.step, hproc] using h
  | some q =>
    have hids := h.idsOk hproc
    simp only [carefulStep, hproc] at hcareful
    cases e with
    | reopen sizes => exact (reopen_step serde h sizes).1
    | crash => exact h.killed
    | compact =>
      simp only [QueueWorld.step, hproc]
      exact h.compacted hproc
    -- the record is appended whole
    | put item =>
      obtain ⟨hends, hid, hr⟩ := (roomFor_iff q item).mp hcareful
      obtain ⟨rs, hlog, hfit, hrem, hrep⟩ := LogInv.clean serde h hproc hends
      have hlen : ¬ (encode (LogRecord.text itemText) (.put q.nextId item)).length >
          MAX_DURABLE_LOG_LINE_BYTES := by
        unfold Fits at hr
        omega
      simp only [QueueWorld.step, hproc, put_eq, if_neg hlen]
      refine .of_clean (q := q.afterPut itemText item) rfl rfl ?_ (fits_concat hfit hr) ?_
        (replays_afterPut hrep hids item)
      · rw [logBytes_append, logBytes_singleton, ← hlog]
        rfl
      · rw [replay_concat]
        rw [hrep.nextId_eq] at hid ⊢
        exact hrem.put hid item (.inr rfl) rfl
    -- the crash leaves a part of it
    | crashPut item n =>
      rw [Bool.and_eq_true] at hcareful
      obtain ⟨hends, hid, hr⟩ := (roomFor_iff q item).mp hcareful.1
      obtain ⟨rs, hlog, hfit, hrem, hrep⟩ := LogInv.clean serde h hproc hends
      simp only [QueueWorld.step, hproc]
      refine .of_torn (by rw [hlog]) rfl hfit hr hcareful.2 ?_
      split_ifs
      · rw [replay_concat]
        rw [hrep.nextId_eq] at hid ⊢
        exact hrem.put hid item (.inl rfl) rfl
      · rw [List.append_nil]
        exact hrem.congr rfl rfl
    | ack id =>
      by_cases hid : id ∈ q.entries
      · have hends : endsLine q.file = true := by
          simpa [Std.ExtTreeMap.contains_iff_mem.mpr hid] using hcareful
        obtain ⟨rs, hlog, hfit, hrem, hrep⟩ := LogInv.clean serde h hproc hends
        -- the acknowledgement alone keeps the invariant, a compaction after it does too
        have hacked : LogInv itemText { w with file := (q.afterAck itemText id).file
                                               process := some (q.afterAck itemText id)
                                               acked := id :: w.acked } := by
          refine .of_clean (q := q.afterAck itemText id) rfl rfl ?_
            (fits_concat hfit (fits_ack (hids.entry_le id hid))) ?_ (replays_afterAck hrep id)
          · rw [logBytes_append, logBytes_singleton, ← hlog]
            rfl
          · rw [replay_concat]
            exact hrem.ack (hrep.entries_eq ▸ hid) rfl rfl
        simp only [QueueWorld.step, hproc, ack_eq hids, if_pos hid]
        unfold compactIfNeeded
        split_ifs
        · exact hacked
        · exact hacked.compacted rfl
      · simp only [QueueWorld.step, hproc, ack_eq hids, if_neg hid]
        obtain ⟨rs, tail, extra, hfile, hfit, htail, hrem, hq⟩ := h
        -- an unknown id is not written
        exact ⟨rs, tail, extra, by rw [← hfile]; exact (hq q hproc).1, hfit, htail,
          hrem.congr rfl rfl, fun q' hq' => by
            obtain rfl := Option.some.inj hq'
            exact ⟨rfl, (hq q hproc).2⟩⟩
    | crashAck id n =>
      by_cases hid : id ∈ q.entries
      · have hends : endsLine q.file = true := by
          simpa [Std.ExtTreeMap.contains_iff_mem.mpr hid] using hcareful
        obtain ⟨rs, hlog, hfit, hrem, hrep⟩ := LogInv.clean serde h hproc hends
        simp only [QueueWorld.step, hproc, if_pos hid]
        refine .of_torn (by rw [hlog]) rfl hfit (fits_ack (hids.entry_le id hid))
          (isSome_fromUtf8_tornLine_ack id n) ?_
        split_ifs
        · rw [replay_concat]
          exact hrem.ack (hrep.entries_eq ▸ hid) rfl rfl
        · rw [List.append_nil]
          -- the part of the record is dropped by the next open
          exact hrem.congr rfl rfl
      · simp only [QueueWorld.step, hproc, if_neg hid]
        exact h.killed

/-- Nothing has been written and nothing is remembered. -/
private theorem logInv_init : LogInv itemText ({} : QueueWorld T) :=
  ⟨[], [], [], rfl, nofun, .none,
    ⟨Nat.le_refl _, by change 1 ≤ U64_MAX; decide, nofun, nofun, nofun, nofun, nofun⟩, nofun⟩

/-- In a run of careful steps, every reopen recovers the queue. -/
theorem queue_crash_safe (events : List (QueueEvent T))
    (hcareful : (queueMachine serde).Steps (fun w e => carefulStep itemText w e = true) {} events) :
    (queueMachine serde).Steps
      (fun w e => e.isReopen = true → Recovers ((queueMachine serde).step w e)) {} events := by
  refine Machine.Steps.of_invariant (I := LogInv itemText) (fun w e h hc => logInv_step serde h hc)
    (fun w e h _ hreopen => ?_) logInv_init hcareful
  cases e with
  | reopen sizes => exact (reopen_step serde h sizes).2
  | _ => exact absurd hreopen Bool.false_ne_true

end

/-! ## Runs of the inbox -/

/-- An inbox item with a topic of its own. -/
def inboxItem (topic : String) : DurableInbound :=
  { topic := topic.toList, payload := [1], retained := false, messageId := none }

/-- A crash leaves part of a record, the next process acknowledges and compacts. -/
def carefulRun : List (QueueEvent DurableInbound) :=
  [.reopen [], .put (inboxItem "a"), .crashPut (inboxItem "b") 30, .reopen [9], .ack 1,
    .put (inboxItem "c"), .compact, .crash, .reopen []]

/-- Every reopen of that run recovers the queue. -/
theorem queue_crash_safe_carefulRun :
    (queueMachine storeSerde.inbox).Steps
      (fun w e => e.isReopen = true → Recovers ((queueMachine storeSerde.inbox).step w e)) {}
      carefulRun :=
  queue_crash_safe storeSerde.inbox carefulRun (by decide +kernel)

/-- A crash leaves a whole record without its newline; the next put is lost with it. -/
def lostNewlineRun : List (QueueEvent DurableInbound) :=
  [.reopen [], .crashPut (inboxItem "a") 86, .reopen [], .put (inboxItem "b"), .reopen []]

/-- A crash leaves the first byte of a character of a topic; the log no longer opens. -/
def cutCharacterRun : List (QueueEvent DurableInbound) :=
  [.reopen [], .crashPut (inboxItem "中") 33, .reopen []]

/-- Two runs after which the queue is not recovered: in the first a put that returned id 2 is gone
    and the next id is 1, in the second the log does not open. -/
theorem queue_loses_put :
    ¬ Recovers ((queueMachine storeSerde.inbox).run lostNewlineRun) ∧
      ¬ Recovers ((queueMachine storeSerde.inbox).run cutCharacterRun) := by
  constructor
  · rintro ⟨q, hq, hpending, -, -⟩
    have hreturned : (2, inboxItem "b") ∈
        ((queueMachine storeSerde.inbox).run lostNewlineRun).returned := by decide +kernel
    have hacked : ((queueMachine storeSerde.inbox).run lostNewlineRun).acked = [] := by
      decide +kernel
    have hentry : (((queueMachine storeSerde.inbox).run lostNewlineRun).process.bind
        fun q => q.entries[2]?) = none := by decide +kernel
    rw [hq, Option.bind_some] at hentry
    have hkept := hpending _ hreturned (by rw [hacked]; exact List.not_mem_nil)
    rw [hentry] at hkept
    exact nomatch hkept
  · rintro ⟨q, hq, -⟩
    have hclosed : ((queueMachine storeSerde.inbox).run cutCharacterRun).process.isNone = true := by
      decide +kernel
    rw [hq] at hclosed
    exact nomatch hclosed

end TeamClu.Mqtt
