import TeamClu.Native.SseTee

/-!
# The usage tee is transparent

The events of a stream depend on its text only, not on where it was cut into chunks
(`cutEvents_append`, `decodeStream_append`): each but the last ends at its first blank line
(`eventsOf_spec`).  Handling an event depends on the event only.  So every chunking passes on the same bytes
and reports the same usage, unless an event throws (`tee_transparent_iff`).  However reads, a failure and a cancel interleave, the end is reported once
(`ends_once`).
-/

namespace TeamClu.Gateway

variable {N : Type} (opts : TeeOpts N)

/-! ## What a stream should give -/

/-- The events of a text: those that end in a blank line, and the rest. -/
def eventsOf (s : Str) : List Str :=
  (cutEvents s).1 ++ if (cutEvents s).2 = [] then [] else [(cutEvents s).2]

/-- The usage that an event reports. -/
def usageIn (event : Str) : Option (UpstreamUsage N) :=
  (eventValue opts event).bind fun obj => (readUsage opts.numbers obj).join

/-- A usage-only event: it reports usage, and its list of choices is empty. -/
def usageOnly (event : Str) : Bool :=
  (usageIn opts event).isSome && ((eventValue opts event).map noChoices).getD false

/-- Whether the text of an event is passed on. -/
def kept (event : Str) : Bool := !(opts.dropUsageOnlyFrame && usageOnly opts event)

/-- The bytes that an event generated. -/
def bytesIn (event : Str) : Nat := ((eventValue opts event).map generatedBytes).getD 0

/-- A count of the event's usage cannot be converted to a number, and handling the event throws. -/
def Throws (event : Str) : Prop := ∃ obj, eventValue opts event = some obj ∧ readUsage opts.numbers obj = none

/-- The tee after the upstream gave these chunks and ended. -/
def teeOf (chunks : List (List UInt8)) : Tee N :=
  (teeMachine opts).run (chunks.map .read ++ [.finish])

/-- What the tee owes a text, however its bytes are cut: the stream closes behind the text without its
    usage-only events, or with them, and every usage and all bytes are reported. -/
structure Transparent (s : Str) (chunks : List (List UInt8)) : Prop where
  closes : (teeOf opts chunks).stream = .closed
  output : (teeOf opts chunks).output = Str.utf8 ((eventsOf s).filter (kept opts)).flatten
  /-- Without a dropped event the bytes are those of the upstream. -/
  untouched : (∀ event ∈ eventsOf s, kept opts event = true) →
    (teeOf opts chunks).output = Str.utf8 s
  usages : (teeOf opts chunks).usages = (eventsOf s).filterMap (usageIn opts)
  ends : (teeOf opts chunks).ends = [(.complete, ((eventsOf s).map (bytesIn opts)).sum)]

/-! ## Cutting into events -/

private theorem cutEvents_blank (rest : Str) :
    cutEvents ('\n' :: '\n' :: rest) = (['\n', '\n'] :: (cutEvents rest).1, (cutEvents rest).2) := rfl

/-- A text that does not start with a blank line, by its first character. -/
private theorem cutEvents_cons {c : Char} {rest : Str} (h : ∀ rest', ¬ (c = '\n' ∧ rest = '\n' :: rest')) :
    cutEvents (c :: rest) = match cutEvents rest with
      | (event :: events, tail) => ((c :: event) :: events, tail)
      | ([], tail) => ([], c :: tail) := by
  have hblank : ∀ rest', c = '\n' → rest = '\n' :: rest' → False :=
    fun rest' hc hrest => h rest' ⟨hc, hrest⟩
  have hcut := cutEvents.eq_2 c rest hblank
  exact hcut

/-- The events and the rest are the text. -/
theorem flatten_cutEvents (s : Str) : (cutEvents s).1.flatten ++ (cutEvents s).2 = s := by
  fun_induction cutEvents s with
  | case1 rest events tail hcut ih => simpa [hcut] using ih
  | case2 c rest _ event events tail hcut ih => simpa [hcut] using ih
  | case3 c rest _ tail hcut ih => simpa [hcut] using ih
  | case4 => rfl

/-- Without an event all of the text is left. -/
private theorem tail_of_no_event {s : Str} (h : (cutEvents s).1 = []) : (cutEvents s).2 = s := by
  have hflat := flatten_cutEvents s
  rwa [h, List.flatten_nil, List.nil_append] at hflat

/-- The text ends at its first blank line. -/
structure EndsAtBlank (event : Str) : Prop where
  ends : ['\n', '\n'] <:+ event
  first : ¬ ['\n', '\n'] <:+: event.dropLast

/-- Every event that is cut off ends at its first blank line, and what is left has none. -/
theorem cutEvents_endsAtBlank (s : Str) :
    (∀ event ∈ (cutEvents s).1, EndsAtBlank event) ∧ ¬ ['\n', '\n'] <:+: (cutEvents s).2 := by
  fun_induction cutEvents s with
  | case1 rest events tail hcut ih =>
    rw [hcut] at ih
    refine ⟨List.forall_mem_cons.mpr ⟨⟨List.suffix_rfl, fun h => ?_⟩, ih.1⟩, ih.2⟩
    exact absurd h.length_le (by simp)
  | case2 c rest hno event events tail hcut ih =>
    rw [hcut] at ih
    obtain ⟨hevent, hevents⟩ := List.forall_mem_cons.mp ih.1
    refine ⟨List.forall_mem_cons.mpr ⟨⟨hevent.ends.trans (List.suffix_cons _ _), fun h => ?_⟩, hevents⟩, ih.2⟩
    have hne : event ≠ [] := fun hnil => by simpa [hnil] using hevent.ends
    rw [List.dropLast_cons_of_ne_nil hne, List.infix_cons_iff] at h
    refine h.elim (fun hprefix => ?_) hevent.first
    -- a blank line at the front of the event would be one at the front of the text
    have hrest : event <+: rest := by
      have hflat := flatten_cutEvents rest
      rw [hcut, List.flatten_cons, List.append_assoc] at hflat
      exact ⟨_, hflat⟩
    obtain ⟨hc, hprefix⟩ := List.cons_prefix_cons.mp hprefix
    obtain ⟨rest', hrest'⟩ := hprefix.trans ((List.dropLast_prefix event).trans hrest)
    exact hno rest' hc.symm hrest'.symm
  | case3 c rest hno tail hcut ih =>
    rw [hcut] at ih
    have htail := tail_of_no_event (congrArg Prod.fst hcut)
    rw [hcut] at htail
    refine ⟨fun event h => absurd h List.not_mem_nil, fun h => ?_⟩
    refine (List.infix_cons_iff.mp h).elim (fun hprefix => ?_) ih.2
    obtain ⟨hc, rest', hrest'⟩ := List.cons_prefix_cons.mp hprefix
    exact hno rest' hc.symm (hrest'.trans htail).symm
  | case4 => exact ⟨fun event h => absurd h List.not_mem_nil, by simp⟩

/-- The events are the text, cut behind blank lines: each but the last ends at its first one. -/
theorem eventsOf_spec (s : Str) :
    (eventsOf s).flatten = s ∧ ∀ event ∈ (eventsOf s).dropLast, EndsAtBlank event := by
  obtain ⟨hevents, -⟩ := cutEvents_endsAtBlank s
  rw [eventsOf]
  split
  · next hnil =>
    rw [List.append_nil]
    refine ⟨?_, fun event h => hevents event (List.mem_of_mem_dropLast h)⟩
    simpa [hnil] using flatten_cutEvents s
  · rw [List.dropLast_concat]
    refine ⟨?_, hevents⟩
    simpa using flatten_cutEvents s

/-- More text is cut behind what is left of the text before. -/
theorem cutEvents_append (a b : Str) :
    cutEvents (a ++ b) = ((cutEvents a).1 ++ (cutEvents ((cutEvents a).2 ++ b)).1,
      (cutEvents ((cutEvents a).2 ++ b)).2) := by
  fun_induction cutEvents a with
  | case1 rest events tail hcut ih =>
    simp only [List.cons_append, cutEvents_blank]
    rw [ih, hcut]
  | case2 c rest hno event events tail hcut ih =>
    have hne : rest ≠ [] := by
      rintro rfl
      cases hcut
    obtain ⟨d, rest', rfl⟩ := List.exists_cons_of_ne_nil hne
    rw [List.cons_append, cutEvents_cons, ih, hcut]
    · rfl
    · rintro rest'' ⟨rfl, heq⟩
      obtain ⟨rfl, -⟩ := List.cons.inj heq
      exact hno rest' rfl rfl
  | case3 c rest hno tail hcut ih =>
    -- nothing is cut off yet
    have htail := tail_of_no_event (congrArg Prod.fst hcut)
    rw [hcut] at htail
    rw [List.nil_append, show tail = rest from htail]
  | case4 => rfl

/-! ## Decoding -/

/-- What is decoded and what is held are the bytes. -/
private theorem decodeStream_bytes (bytes : List UInt8) :
    Str.utf8 (decodeStream bytes).1 ++ (decodeStream bytes).2 = bytes := by
  unfold decodeStream
  cases hcut : (List.range 4).findSome? fun k =>
      (Str.fromUtf8 (bytes.take (bytes.length - k))).map (·, bytes.drop (bytes.length - k)) with
  | none => simp
  | some cut =>
    obtain ⟨k, -, hk⟩ := List.exists_of_findSome?_eq_some hcut
    obtain ⟨text, htext, rfl⟩ := Option.map_eq_some_iff.mp hk
    rw [Option.getD_some, Str.utf8_of_fromUtf8 htext, List.take_append_drop]

/-- The bytes of a text are decoded, and nothing is held. -/
private theorem decodeStream_utf8 (s : Str) : decodeStream (Str.utf8 s) = (s, []) := by
  have hfirst : (Str.fromUtf8 ((Str.utf8 s).take ((Str.utf8 s).length - 0))).map
      (·, (Str.utf8 s).drop ((Str.utf8 s).length - 0)) = some (s, []) := by
    rw [Nat.sub_zero, List.take_length, List.drop_length, Str.fromUtf8_utf8]
    rfl
  unfold decodeStream
  rw [show List.range 4 = [0, 1, 2, 3] from rfl, List.findSome?_cons, hfirst]
  rfl

/-! ## Handling events -/

variable {opts}

/-- An event throws exactly when handling it does. -/
private theorem handleEvent_eq_none_iff (event : Str) :
    handleEvent opts event = none ↔ Throws opts event := by
  unfold handleEvent Throws
  cases eventValue opts event with
  | none => simp
  | some obj =>
    cases hread : readUsage opts.numbers obj with
    | none => simp [hread]
    | some usage => simp [hread]

/-- What handling an event does that does not throw. -/
private theorem handleEvent_of_not_throws {event : Str} (h : ¬ Throws opts event) :
    ∃ handled, handleEvent opts event = some handled ∧
      handled.text = (if kept opts event then event else []) ∧
      handled.usage = usageIn opts event ∧ handled.bytes = bytesIn opts event := by
  unfold handleEvent kept usageOnly usageIn bytesIn
  cases hvalue : eventValue opts event with
  | none => exact ⟨_, rfl, by simp, rfl, rfl⟩
  | some obj =>
    cases hread : readUsage opts.numbers obj with
    | none => exact absurd ⟨obj, hvalue, hread⟩ h
    | some usage =>
      simp only [Option.bind_some, hread, Option.join_some, Option.map_some, Option.getD_some]
      refine ⟨_, rfl, ?_, rfl, rfl⟩
      cases opts.dropUsageOnlyFrame <;> cases usage.isSome && noChoices obj <;> rfl

/-- Handling events one after another, none of which throws. -/
private theorem handleAll_of_not_throws (s : Tee N) {events : List Str}
    (h : ∀ event ∈ events, ¬ Throws opts event) :
    s.handleAll opts events = ({ s with
      output := s.output ++ Str.utf8 (events.filter (kept opts)).flatten
      usages := s.usages ++ events.filterMap (usageIn opts)
      generated := s.generated + (events.map (bytesIn opts)).sum }, false) := by
  induction events generalizing s with
  | nil => simp [Tee.handleAll]
  | cons event events ih =>
    obtain ⟨handled, hhandled, htext, husage, hbytes⟩ :=
      handleEvent_of_not_throws (h event List.mem_cons_self)
    rw [Tee.handleAll, hhandled]
    simp only
    rw [ih _ fun e he => h e (List.mem_cons_of_mem _ he)]
    simp only [Tee.push, htext, husage, hbytes]
    congr 1
    congr 1
    · rw [List.map_cons, List.sum_cons, Nat.add_assoc]
    · cases hkept : kept opts event with
      | true => simp [hkept]
      | false => simp [hkept]
    · cases husage' : usageIn opts event with
      | none => simp [husage']
      | some usage => simp [husage']

/-- An event that throws stops the handling. -/
private theorem handleAll_of_throws (s : Tee N) {events : List Str}
    (h : ∃ event ∈ events, Throws opts event) : (s.handleAll opts events).2 = true := by
  induction events generalizing s with
  | nil =>
    obtain ⟨event, hevent, -⟩ := h
    cases hevent
  | cons event events ih =>
    rw [Tee.handleAll]
    cases hhandled : handleEvent opts event with
    | none => rfl
    | some handled =>
      obtain ⟨thrower, hmem, hthrows⟩ := h
      rcases List.mem_cons.mp hmem with rfl | hmem
      · rw [(handleEvent_eq_none_iff thrower).mpr hthrows] at hhandled
        cases hhandled
      · exact ih _ ⟨thrower, hmem, hthrows⟩

/-- Handling events changes nothing else. -/
private theorem handleAll_frame (s : Tee N) (events : List Str) :
    (s.handleAll opts events).1.ended = s.ended ∧ (s.handleAll opts events).1.reading = s.reading ∧
      (s.handleAll opts events).1.stream = s.stream ∧ (s.handleAll opts events).1.ends = s.ends := by
  induction events generalizing s with
  | nil => exact ⟨rfl, rfl, rfl, rfl⟩
  | cons event events ih =>
    rw [Tee.handleAll]
    cases handleEvent opts event with
    | none => exact ⟨rfl, rfl, rfl, rfl⟩
    | some handled => exact ih (s.push handled)

/-! ## Reading chunks -/

/-- A tee that has read this text and holds the bytes of a character that is not complete. -/
structure HasRead (opts : TeeOpts N) (text : Str) (pending : List UInt8) (s : Tee N) : Prop where
  pending : s.pending = pending
  atStart : s.atStart = text.isEmpty
  buf : s.buf = (cutEvents text).2
  reading : s.reading = true
  ended : s.ended = false
  stream : s.stream = .readable
  ends : s.ends = []
  output : s.output = Str.utf8 ((cutEvents text).1.filter (kept opts)).flatten
  usages : s.usages = (cutEvents text).1.filterMap (usageIn opts)
  generated : s.generated = ((cutEvents text).1.map (bytesIn opts)).sum

/-- Before the first chunk. -/
private theorem hasRead_init : HasRead opts [] [] (teeMachine opts).init :=
  ⟨rfl, rfl, rfl, rfl, rfl, rfl, rfl, rfl, rfl, rfl⟩

/-- One more chunk, where no event throws. -/
private theorem HasRead.read {text : Str} {pending : List UInt8} {s : Tee N}
    (h : HasRead opts text pending s) (chunk : List UInt8)
    (hbom : (text ++ (decodeStream (pending ++ chunk)).1).head? ≠ some '\uFEFF')
    (hevents : ∀ event ∈ (cutEvents (text ++ (decodeStream (pending ++ chunk)).1)).1,
      ¬ Throws opts event) :
    HasRead opts (text ++ (decodeStream (pending ++ chunk)).1) (decodeStream (pending ++ chunk)).2
      (teeStep opts s (.read chunk)) := by
  have hmark : (if s.atStart && (decodeStream (pending ++ chunk)).1.head? == some '\uFEFF' then
      (decodeStream (pending ++ chunk)).1.tail else (decodeStream (pending ++ chunk)).1) =
        (decodeStream (pending ++ chunk)).1 := by
    rw [if_neg]
    rw [h.atStart]
    cases text with
    | nil => simpa using hbom
    | cons c text => simp
  rw [cutEvents_append] at hevents
  rw [teeStep, if_neg (by simp [h.reading]), if_neg (by simp [h.ended])]
  simp only [h.pending, hmark, h.buf]
  rw [handleAll_of_not_throws _ fun event he => hevents event (List.mem_append_right _ he)]
  simp only
  have hcut := cutEvents_append text (decodeStream (pending ++ chunk)).1
  refine ⟨rfl, ?_, ?_, h.reading, h.ended, h.stream, h.ends, ?_, ?_, ?_⟩
  · simp only [h.atStart]
    cases text <;> simp
  · rw [hcut]
  · rw [hcut, h.output]
    simp
  · rw [hcut, h.usages, List.filterMap_append]
  · rw [hcut, h.generated, List.map_append, List.sum_append]

/-- The events of the beginning of a text are events of the text. -/
private theorem events_subset {a b : Str} (h : a <+: b) : (cutEvents a).1 ⊆ (cutEvents b).1 := by
  obtain ⟨rest, rfl⟩ := h
  rw [cutEvents_append]
  exact List.subset_append_left _ _

/-- All chunks of a text, where no event throws. -/
private theorem HasRead.readAll {text : Str} {pending : List UInt8} {s : Tee N} {whole : Str}
    (h : HasRead opts text pending s) (hbom : whole.head? ≠ some '\uFEFF')
    (hevents : ∀ event ∈ (cutEvents whole).1, ¬ Throws opts event) {chunks : List (List UInt8)}
    (hchunks : Str.utf8 text ++ pending ++ chunks.flatten = Str.utf8 whole)
    (hdone : chunks = [] → pending = []) :
    HasRead opts whole [] ((teeMachine opts).runFrom s (chunks.map .read)) := by
  induction chunks generalizing text pending s with
  | nil =>
    obtain rfl := hdone rfl
    rw [List.flatten_nil, List.append_nil, List.append_nil] at hchunks
    rwa [← Str.utf8_injective hchunks]
  | cons chunk chunks ih =>
    have hbytes := decodeStream_bytes (pending ++ chunk)
    have hread : Str.utf8 (text ++ (decodeStream (pending ++ chunk)).1) ++
        (decodeStream (pending ++ chunk)).2 ++ chunks.flatten = Str.utf8 whole := by
      rw [Str.utf8_append, List.append_assoc, List.append_assoc,
        ← List.append_assoc (Str.utf8 (decodeStream (pending ++ chunk)).1), hbytes, ← hchunks]
      simp
    have hprefix : text ++ (decodeStream (pending ++ chunk)).1 <+: whole :=
      Str.prefix_of_utf8_prefix ⟨_, by rw [← hread, List.append_assoc]⟩
    rw [List.map_cons, Machine.runFrom_cons]
    refine ih (h.read chunk ?_ fun event he => hevents event (events_subset hprefix he)) hread ?_
    · obtain ⟨rest, hrest⟩ := hprefix
      cases hdecoded : text ++ (decodeStream (pending ++ chunk)).1 with
      | nil => simp
      | cons c cs =>
        rw [hdecoded] at hrest
        rwa [← hrest] at hbom
    · -- behind the last chunk no character is incomplete
      rintro rfl
      obtain ⟨rest, hrest⟩ := Str.prefix_of_utf8_prefix (s := text) (t := whole)
        ⟨_, by rw [← hchunks, List.append_assoc]⟩
      rw [← hrest, Str.utf8_append, List.append_assoc, List.append_cancel_left_eq] at hchunks
      rw [show pending ++ chunk = Str.utf8 rest by simpa using hchunks, decodeStream_utf8]

/-! ## The end of the stream -/

/-- What is left in the buffer is one more event. -/
private def rest (s : Str) : List Str := if (cutEvents s).2 = [] then [] else [(cutEvents s).2]

/-- The upstream ends, and what is left does not throw. -/
private theorem HasRead.finish {text : Str} {s : Tee N} (h : HasRead opts text [] s)
    (hrest : ∀ event ∈ rest text, ¬ Throws opts event) :
    (teeStep opts s .finish).stream = .closed ∧
      (teeStep opts s .finish).output = Str.utf8 ((eventsOf text).filter (kept opts)).flatten ∧
      (teeStep opts s .finish).usages = (eventsOf text).filterMap (usageIn opts) ∧
      (teeStep opts s .finish).ends = [(.complete, ((eventsOf text).map (bytesIn opts)).sum)] := by
  have hevents : eventsOf text = (cutEvents text).1 ++ rest text := rfl
  rw [teeStep, if_neg (by simp [h.reading]), if_neg (by simp [h.ended]), h.buf,
    show (if (cutEvents text).2 = [] then [] else [(cutEvents text).2]) = rest text from rfl,
    handleAll_of_not_throws s hrest]
  simp only [Tee.finish, h.ended, Bool.false_eq_true, if_false, h.output, h.usages, h.generated, h.ends,
    hevents]
  refine ⟨trivial, ?_, ?_, ?_⟩
  · simp [rest]
  · rw [List.filterMap_append]
  · rw [List.map_append, List.sum_append]
    rfl

/-- The upstream ends, and what is left throws. -/
private theorem HasRead.finish_throws {text : Str} {s : Tee N} (h : HasRead opts text [] s)
    (hrest : ∃ event ∈ rest text, Throws opts event) : (teeStep opts s .finish).stream = .errored := by
  rw [teeStep, if_neg (by simp [h.reading]), if_neg (by simp [h.ended]), h.buf]
  have hthrows := handleAll_of_throws s hrest
  simp only [rest] at hthrows
  split
  · next hhandled =>
    rw [hhandled] at hthrows
    cases hthrows
  · rfl

/-- A text that comes in one chunk, with an event that throws, fails the stream. -/
private theorem errored_of_throws {s : Str} (hbom : s.head? ≠ some '\uFEFF')
    (h : ∃ event ∈ eventsOf s, Throws opts event) : (teeOf opts [Str.utf8 s]).stream = .errored := by
  have hrun : teeOf opts [Str.utf8 s] =
      teeStep opts (teeStep opts (teeMachine opts).init (.read (Str.utf8 s))) .finish := rfl
  rw [hrun]
  by_cases hcut : ∀ event ∈ (cutEvents s).1, ¬ Throws opts event
  · -- the rest throws
    have hread := HasRead.read (@hasRead_init N opts) (Str.utf8 s)
      (by rw [List.nil_append, List.nil_append, decodeStream_utf8]; exact hbom)
      (by rw [List.nil_append, List.nil_append, decodeStream_utf8]; exact hcut)
    rw [List.nil_append, List.nil_append, decodeStream_utf8] at hread
    refine hread.finish_throws ?_
    obtain ⟨event, hmem, hthrows⟩ := h
    rcases List.mem_append.mp hmem with hmem | hmem
    · exact absurd hthrows (hcut event hmem)
    · exact ⟨event, hmem, hthrows⟩
  · -- an event before the rest throws, and nothing is read any more
    have hthrows : ∃ event ∈ (cutEvents s).1, Throws opts event := by
      by_contra hno
      exact hcut fun event he ht => hno ⟨event, he, ht⟩
    have hmark : (if (teeMachine opts).init.atStart && s.head? == some '\uFEFF' then s.tail else s) = s := by
      rw [if_neg]
      simpa [teeMachine] using hbom
    have herror : ∃ s' : Tee N, teeStep opts (teeMachine opts).init (.read (Str.utf8 s)) = s'.error := by
      rw [teeStep, if_neg (by simp [teeMachine]), if_neg (by simp [teeMachine])]
      simp only [show (teeMachine opts).init.pending = [] from rfl, List.nil_append, decodeStream_utf8,
        hmark, show (teeMachine opts).init.buf = [] from rfl]
      have hstop := handleAll_of_throws
        ({ (teeMachine opts).init with
          pending := []
          atStart := (teeMachine opts).init.atStart && s.isEmpty
          buf := (cutEvents s).2 } : Tee N) hthrows
      split
      · next hhandled =>
        rw [hhandled] at hstop
        cases hstop
      · exact ⟨_, rfl⟩
    obtain ⟨s', hs'⟩ := herror
    rw [hs']
    rfl

/-! ## Every stream and every interleaving -/

/-- The end is recorded in the calls of `onEnd`, and the loop runs until then. -/
private structure EndInv (s : Tee N) : Prop where
  once : s.ends.length = if s.ended then 1 else 0
  stopped : s.reading = false → s.ended = true

private theorem EndInv.finish {s : Tee N} (h : EndInv s) (outcome : Outcome) :
    (s.finish outcome).ended = true ∧ (s.finish outcome).ends.length = 1 := by
  have honce := h.once
  unfold Tee.finish
  split
  · next hended => exact ⟨hended, by simpa [hended] using honce⟩
  · next hended => exact ⟨rfl, by simpa [hended] using honce⟩

private theorem EndInv.error {s : Tee N} (h : EndInv s) : EndInv s.error := by
  obtain ⟨hended, hlen⟩ := h.finish .errored
  exact ⟨by simpa [Tee.error, hended] using hlen, fun _ => hended⟩

/-- Events that are handled do not end the stream. -/
private theorem EndInv.handleAll {s s' : Tee N} {events : List Str} {threw : Bool}
    (hhandled : s.handleAll opts events = (s', threw)) (h : EndInv s) : EndInv s' := by
  obtain ⟨hended, hreading, -, hends⟩ := @handleAll_frame N opts s events
  rw [hhandled] at hended hreading hends
  exact ⟨by rw [hends, hended, h.once], fun hstop => by rw [hended, h.stopped (hreading ▸ hstop)]⟩

/-- Every step keeps the invariant; an end of the upstream, its failure and a cancel end the stream. -/
private theorem EndInv.step {s : Tee N} (h : EndInv s) (input : TeeInput) :
    EndInv (teeStep opts s input) ∧ (s.ended = true → (teeStep opts s input).ended = true) ∧
      ((∀ chunk, input ≠ .read chunk) → (teeStep opts s input).ended = true) := by
  have hstopped : EndInv { s with reading := false } ↔ s.ended = true :=
    ⟨fun hinv => hinv.stopped rfl, fun hended => ⟨h.once, fun _ => hended⟩⟩
  have herror : ∀ {s' : Tee N}, EndInv s' → EndInv s'.error ∧ s'.error.ended = true := fun hinv =>
    ⟨hinv.error, (hinv.finish .errored).1⟩
  cases input with
  | read chunk =>
    rw [teeStep]
    split
    · exact ⟨h, id, fun hno => absurd rfl (hno chunk)⟩
    split
    · next hended => exact ⟨hstopped.mpr hended, id, fun hno => absurd rfl (hno chunk)⟩
    · next hended =>
      simp only
      split
      · next s' hhandled =>
        have hinv := EndInv.handleAll hhandled ⟨h.once, h.stopped⟩
        exact ⟨hinv, fun hno => absurd hno hended, fun hno => absurd rfl (hno chunk)⟩
      · next s' hhandled =>
        have hinv := EndInv.handleAll hhandled ⟨h.once, h.stopped⟩
        exact ⟨(herror hinv).1, fun _ => (herror hinv).2, fun _ => (herror hinv).2⟩
  | finish =>
    rw [teeStep]
    split
    · next hreading =>
      have hended := h.stopped (by simpa using hreading)
      exact ⟨h, id, fun _ => hended⟩
    split
    · next hended => exact ⟨hstopped.mpr hended, id, fun _ => hended⟩
    · split
      · next s' hhandled =>
        have hinv := EndInv.handleAll hhandled h
        obtain ⟨hended', hlen⟩ := EndInv.finish hinv .complete
        exact ⟨⟨by simpa [hended'] using hlen, fun _ => hended'⟩, fun _ => hended', fun _ => hended'⟩
      · next s' hhandled =>
        have hinv := EndInv.handleAll hhandled h
        exact ⟨(herror hinv).1, fun _ => (herror hinv).2, fun _ => (herror hinv).2⟩
  | fail =>
    rw [teeStep]
    split
    · next hreading =>
      have hended := h.stopped (by simpa using hreading)
      exact ⟨h, id, fun _ => hended⟩
    split
    · next hended => exact ⟨hstopped.mpr hended, id, fun _ => hended⟩
    · exact ⟨(herror h).1, fun _ => (herror h).2, fun _ => (herror h).2⟩
  | cancel =>
    rw [teeStep]
    split
    · next hended => exact ⟨h, id, fun _ => hended⟩
    · obtain ⟨hended', hlen⟩ := h.finish .cancelled
      exact ⟨⟨by simpa [hended'] using hlen, fun _ => hended'⟩, fun _ => hended', fun _ => hended'⟩

/-- However reads, the end or the failure of the upstream and a cancel interleave: `onEnd` is called at
    most once, and once when the stream ends. -/
theorem ends_once (opts : TeeOpts N) (inputs : List TeeInput) :
    ((teeMachine opts).run inputs).ends.length ≤ 1 ∧
      ((∃ input ∈ inputs, ∀ chunk, input ≠ .read chunk) →
        ((teeMachine opts).run inputs).ends.length = 1) := by
  have hrun : ∀ (inputs : List TeeInput) (s : Tee N), EndInv s →
      EndInv ((teeMachine opts).runFrom s inputs) ∧
        (s.ended = true → ((teeMachine opts).runFrom s inputs).ended = true) ∧
        ((∃ input ∈ inputs, ∀ chunk, input ≠ .read chunk) →
          ((teeMachine opts).runFrom s inputs).ended = true) := by
    intro inputs
    induction inputs with
    | nil => exact fun s hs => ⟨hs, id, fun ⟨_, hmem, _⟩ => (by cases hmem)⟩
    | cons input inputs ih =>
      intro s hs
      obtain ⟨hstep, hkeep, hend⟩ := @EndInv.step N opts s hs input
      obtain ⟨hinv, hkeep', hend'⟩ := ih _ hstep
      refine ⟨hinv, fun hended => hkeep' (hkeep hended), fun ⟨last, hmem, hlast⟩ => ?_⟩
      rcases List.mem_cons.mp hmem with rfl | hmem
      · exact hkeep' (hend hlast)
      · exact hend' ⟨last, hmem, hlast⟩
  obtain ⟨hinv, -, hended⟩ := hrun inputs (teeMachine opts).init ⟨rfl, fun h => (by cases h)⟩
  refine ⟨?_, fun hterminal => ?_⟩
  · have := hinv.once
    unfold Machine.run
    split_ifs at this <;> omega
  · have := hinv.once
    rwa [if_pos (hended hterminal)] at this

/-- The tee is transparent for a text under every chunking, and its end is reported once under every
    interleaving, exactly when no event of the text throws. -/
theorem tee_transparent_iff (opts : TeeOpts N) {s : Str} (hbom : s.head? ≠ some '\uFEFF') :
    ((∀ chunks, chunks.flatten = Str.utf8 s → Transparent opts s chunks) ∧
      ∀ inputs : List TeeInput, ((teeMachine opts).run inputs).ends.length ≤ 1 ∧
        ((∃ input ∈ inputs, ∀ chunk, input ≠ .read chunk) →
          ((teeMachine opts).run inputs).ends.length = 1)) ↔
      ∀ event ∈ eventsOf s, ¬ Throws opts event := by
  constructor
  · rintro ⟨htransparent, -⟩ event hevent hthrows
    have hclosed := (htransparent [Str.utf8 s] (by simp)).closes
    rw [errored_of_throws hbom ⟨event, hevent, hthrows⟩] at hclosed
    cases hclosed
  · refine fun hno => ⟨fun chunks hchunks => ?_, ends_once opts⟩
    have hread := HasRead.readAll (hasRead_init) hbom
      (fun event he => hno event (List.mem_append_left _ he)) (by simpa using hchunks) (fun _ => rfl)
    have hrun : teeOf opts chunks =
        teeStep opts ((teeMachine opts).runFrom (teeMachine opts).init (chunks.map .read)) .finish := by
      unfold teeOf Machine.run
      rw [Machine.runFrom_append]
      rfl
    obtain ⟨hcloses, houtput, husages, hends⟩ := hread.finish fun event he =>
      hno event (List.mem_append_right _ he)
    rw [← hrun] at hcloses houtput husages hends
    refine ⟨hcloses, houtput, fun hkept => ?_, husages, hends⟩
    rw [houtput, List.filter_eq_self.mpr hkept]
    congr 1
    have hflat := flatten_cutEvents s
    unfold eventsOf
    rw [List.flatten_append]
    split
    · next hnil => rw [hnil] at hflat; simpa using hflat
    · simpa using hflat

/-- A frame whose count of prompt tokens is an object with a field `toString`. -/
private def badFrame : Str := "data: \x7b\"usage\":\x7b\"prompt_tokens\":\x7b\"toString\":1\x7d\x7d\x7d\n\n".toList

/-- A frame with usage and no choices. -/
private def usageFrame : Str := "data: \x7b\"usage\":\x7b\"prompt_tokens\":3\x7d,\"choices\":[]\x7d\n\n".toList

/-- A gateway that hides usage-only frames; its parser reads the two frames. -/
private def sampleOpts : TeeOpts Nat where
  numbers := { ofNat := id, ofText := fun _ => 0, toText := fun n => Str.utf16 (Nat.toDigits 10 n),
               isFinite := fun _ => true }
  parse payload :=
    if payload = (badFrame.drop 6).dropLast.dropLast then
      some (.obj [(js "usage", .obj [(js "prompt_tokens", .obj [(js "toString", .num 1)])])])
    else if payload = (usageFrame.drop 6).dropLast.dropLast then
      some (.obj [(js "usage", .obj [(js "prompt_tokens", .num 3)]), (js "choices", .arr [])])
    else none
  dropUsageOnlyFrame := true

/-- A stream with a usage frame. -/
theorem tee_transparent_usageFrame :
    (∀ chunks, chunks.flatten = Str.utf8 usageFrame → Transparent sampleOpts usageFrame chunks) ∧
      eventsOf usageFrame = [usageFrame] ∧ usageOnly sampleOpts usageFrame = true := by
  have hevents : eventsOf usageFrame = [usageFrame] := by decide +kernel
  refine ⟨((tee_transparent_iff sampleOpts (by decide)).mpr fun event hevent => ?_).1, hevents,
    by decide +kernel⟩
  rw [hevents, List.mem_singleton] at hevent
  rw [hevent, ← handleEvent_eq_none_iff]
  have hsome : (handleEvent sampleOpts usageFrame).isSome = true := by decide +kernel
  exact fun hnone => by simp [hnone] at hsome

/-- A count that is an object with a field `toString` fails the stream. -/
theorem tee_fails_on_toString :
    ¬ ∀ s : Str, s.head? ≠ some '\uFEFF' → ∀ chunks, chunks.flatten = Str.utf8 s →
      Transparent sampleOpts s chunks := by
  intro h
  have hclosed := (h badFrame (by decide) [Str.utf8 badFrame] (by simp)).closes
  have herrored : (teeOf sampleOpts [Str.utf8 badFrame]).stream = .errored := by
    refine errored_of_throws (by decide) ⟨badFrame, ?_, ?_⟩
    · have hevents : eventsOf badFrame = [badFrame] := by decide +kernel
      rw [hevents]
      exact List.mem_singleton.mpr rfl
    · rw [← handleEvent_eq_none_iff]
      have hnone : (handleEvent sampleOpts badFrame).isNone = true := by decide +kernel
      exact Option.isNone_iff_eq_none.mp hnone
  rw [herrored] at hclosed
  cases hclosed

end TeamClu.Gateway
