import AgentOS.Outbox.Drain

/-!
# Reading the outbox batch by batch

`drain_all` reads from the cursor, moves it behind the last event of the batch and stops at an empty batch.  A batch is
bounded twice, by the number of its events and by the bytes that are read, and blank lines are skipped; so a window may
hold nothing but blank lines, and is then taken for the end of the file.  `batches_cover_iff` says when that happens.
-/

namespace AgentOS

open Lines

variable {Envelope : Type} (codec : Codec Envelope)

/-- What the loop of `drain_all` visits from `start` on: it stops at an empty batch, else goes on behind its last event;
`none` where the fuel is used up. -/
def readBatches (outbox : List UInt8) (maxEvents maxBytes : Int) : Nat → Nat → Option (List (PendingEvent Envelope))
  | 0, _ => none
  | fuel + 1, start =>
    let batch := readPending codec outbox start (some maxEvents) (some maxBytes)
    match batch.getLast? with
    | none => some []
    | some last => (readBatches outbox maxEvents maxBytes fuel last.endOffset).map (batch ++ ·)

/-- Each line that is not blank, together with the blank lines directly in front of it, is at most `bound` bytes long;
`run` blank bytes precede the first line. -/
def BlankRunsFit (bound : Nat) : Nat → List (List UInt8) → Prop
  | _, [] => True
  | run, line :: lines =>
    if isBlank (decode line) then BlankRunsFit bound (run + line.length + 1) lines
    else run + line.length + 1 ≤ bound ∧ BlankRunsFit bound 0 lines

/-! ### Blank runs -/

variable {codec} {bound run : Nat}

/-- The bytes of complete lines. -/
private abbrev size (lines : List (List UInt8)) : Nat := (lines.flatMap (· ++ [newline])).length

private theorem size_cons (line : List UInt8) (lines : List (List UInt8)) :
    size (line :: lines) = line.length + 1 + size lines := by
  rw [size, List.flatMap_cons, List.length_append, List.length_append, List.length_singleton]

private theorem size_append (a b : List (List UInt8)) : size (a ++ b) = size a + size b := by
  rw [size, List.flatMap_append, List.length_append]

private theorem length_le_size (lines : List (List UInt8)) : lines.length ≤ size lines := by
  induction lines with
  | nil => exact Nat.le_refl 0
  | cons line lines ih =>
    rw [List.length_cons, size_cons]
    omega

private theorem blankRunsFit_blank {blank : List (List UInt8)} (hblank : ∀ line ∈ blank, isBlank (decode line) = true)
    (lines : List (List UInt8)) :
    BlankRunsFit bound run (blank ++ lines) ↔ BlankRunsFit bound (run + size blank) lines := by
  induction blank generalizing run with
  | nil => rfl
  | cons line blank ih =>
    rw [List.cons_append, BlankRunsFit, if_pos (hblank line List.mem_cons_self),
      ih fun l hl => hblank l (List.mem_cons_of_mem _ hl), size_cons, Nat.add_assoc run, Nat.add_assoc run]

/-- Lines that are short enough together, the last of them not blank, do not matter. -/
private theorem blankRunsFit_fitting {lines : List (List UInt8)} {line : List UInt8}
    (hline : isBlank (decode line) = false)
    (hle : run + size lines + line.length + 1 ≤ bound) (rest : List (List UInt8)) :
    BlankRunsFit bound run (lines ++ line :: rest) ↔ BlankRunsFit bound 0 rest := by
  induction lines generalizing run with
  | nil =>
    rw [List.nil_append, BlankRunsFit, if_neg (by simp [hline])]
    exact and_iff_right hle
  | cons first lines ih =>
    rw [size_cons] at hle
    rw [List.cons_append, BlankRunsFit]
    split
    · exact ih (by omega)
    · rw [ih (by omega)]
      exact and_iff_right (by omega)

/-! ### One batch -/

private theorem pendingLoop_grows (maxEvents : Option Int) {records : List (PendingEvent Envelope)} (h : records ≠ [])
    (lines : List (List UInt8 × Nat)) : pendingLoop codec maxEvents records lines ≠ [] := by
  obtain ⟨read, -, heq⟩ := pendingLoop_eq codec maxEvents records lines
  rw [heq]
  exact fun hnil => h (List.append_eq_nil_iff.1 hnil).1

/-- A batch is empty only when there is nothing to read. -/
private theorem blank_of_pendingLoop_nil {maxEvents : Int} (hpos : 0 < maxEvents) {lines : List (List UInt8 × Nat)}
    (h : pendingLoop codec (some maxEvents) [] lines = []) : ∀ line ∈ lines, isBlank (decode line.1) = true := by
  induction lines with
  | nil => exact fun line hline => absurd hline List.not_mem_nil
  | cons line lines ih =>
    have hgoes : ¬ (some maxEvents).any (fun n => n ≤ (([] : List (PendingEvent Envelope)).length : Int)) = true := by
      simpa using hpos
    rw [pendingLoop, if_neg hgoes] at h
    split at h
    · rename_i hblank
      exact List.forall_mem_cons.2 ⟨hblank, ih h⟩
    · exact absurd h (pendingLoop_grows _ (by simp) _)

private theorem stamp_of_prefix {start : Nat} {lines : List (List UInt8)} {read : List (List UInt8 × Nat)}
    (h : read <+: stamp start lines) : ∃ first rest, lines = first ++ rest ∧ read = stamp start first := by
  induction lines generalizing start read with
  | nil => exact ⟨[], [], rfl, List.prefix_nil.1 h⟩
  | cons line lines ih =>
    cases read with
    | nil => exact ⟨[], line :: lines, rfl, rfl⟩
    | cons x read =>
      obtain ⟨rfl, htail⟩ := List.cons_prefix_cons.1 h
      obtain ⟨first, rest, rfl, rfl⟩ := ih htail
      exact ⟨line :: first, rest, rfl, rfl⟩

private theorem filter_stamp_blank {start : Nat} {lines : List (List UInt8)}
    (h : ∀ line ∈ lines, isBlank (decode line) = true) :
    (stamp start lines).filter (fun line => !isBlank (decode line.1)) = [] := by
  refine List.filter_eq_nil_iff.2 fun x hx => ?_
  have hmem : x.1 ∈ lines := stamp_map_fst start lines ▸ List.mem_map_of_mem hx
  simp [h x.1 hmem]

private theorem exists_last {lines : List (List UInt8)} (h : ¬ ∀ line ∈ lines, isBlank (decode line) = true) :
    ∃ first line blank, lines = first ++ line :: blank ∧ isBlank (decode line) = false ∧
      ∀ l ∈ blank, isBlank (decode l) = true := by
  induction lines with
  | nil => exact absurd (fun line hline => absurd hline List.not_mem_nil) h
  | cons l ls ih =>
    by_cases hls : ∀ line ∈ ls, isBlank (decode line) = true
    · refine ⟨[], l, ls, rfl, ?_, hls⟩
      exact Bool.eq_false_iff.2 fun hl => h (List.forall_mem_cons.2 ⟨hl, hls⟩)
    · obtain ⟨first, line, blank, rfl, hline, hblank⟩ := ih hls
      exact ⟨l :: first, line, blank, rfl, hline, hblank⟩

variable (codec) in
/-- A batch is empty, and then nothing is to be read, or ends with a line that is not blank. -/
private theorem pendingLoop_cases {maxEvents : Int} (hpos : 0 < maxEvents) (start : Nat) (window : List (List UInt8)) :
    (pendingLoop codec (some maxEvents) [] (stamp start window) = [] ∧
      ∀ line ∈ window, isBlank (decode line) = true) ∨
    ∃ first line rest, window = first ++ line :: rest ∧ isBlank (decode line) = false ∧
      pendingLoop codec (some maxEvents) [] (stamp start window) =
        ((stamp start (first ++ [line])).filter fun line => !isBlank (decode line.1)).map (pendingEvent codec) := by
  obtain ⟨read, hread, heq⟩ := pendingLoop_eq codec (some maxEvents) [] (stamp start window)
  obtain ⟨lines, rest, hwindow, rfl⟩ := stamp_of_prefix hread
  rw [List.nil_append] at heq
  by_cases hlines : ∀ line ∈ lines, isBlank (decode line) = true
  · rw [filter_stamp_blank hlines] at heq
    refine Or.inl ⟨heq, fun line hline => ?_⟩
    obtain ⟨x, hx, rfl⟩ := List.mem_map.1 ((stamp_map_fst start window).symm ▸ hline)
    exact blank_of_pendingLoop_nil hpos heq x hx
  · obtain ⟨first, line, blank, rfl, hline, hblank⟩ := exists_last hlines
    refine Or.inr ⟨first, line, blank ++ rest, by rw [hwindow, List.append_assoc, List.cons_append], hline, ?_⟩
    rw [heq, ← List.singleton_append, ← List.append_assoc, stamp_append newline start (first ++ [line]),
      List.filter_append, filter_stamp_blank hblank, List.append_nil]

/-! ### The whole outbox -/

/-- What `read_pending` reads of the lines from `start` on. -/
private theorem readPending_lines {outbox : List UInt8} {start : Nat} {lines : List (List UInt8)}
    (hdrop : outbox.drop start = lines.flatMap (· ++ [newline])) (hlines : ∀ line ∈ lines, newline ∉ line)
    (maxEvents : Option Int) :
    readPending codec outbox start maxEvents (some bound) =
      pendingLoop codec maxEvents [] (stamp start (fitting bound lines)) := by
  rw [readPending, readBytes, if_neg (by omega), Int.toNat_natCast, hdrop, framed, lines_take hlines]

private theorem getLast?_batch {start : Nat} {first : List (List UInt8)} {line : List UInt8}
    (hline : isBlank (decode line) = false) :
    (((stamp start (first ++ [line])).filter fun line => !isBlank (decode line.1)).map (pendingEvent codec)).getLast? =
      some (pendingEvent codec (line, start + size (first ++ [line]))) := by
  have hsize : start + size (first ++ [line]) = start + size first + line.length + 1 := by
    rw [size_append, size_cons, ← Nat.add_assoc, ← Nat.add_assoc]
    rfl
  rw [stamp_append newline, List.filter_append, hsize, stamp, stamp, List.filter_cons_of_pos (by simp [hline]),
    List.filter_nil, List.map_append, List.map_singleton, List.getLast?_concat]

private theorem exists_first {lines : List (List UInt8)} (h : ¬ ∀ line ∈ lines, isBlank (decode line) = true) :
    ∃ blank line rest, lines = blank ++ line :: rest ∧ (∀ l ∈ blank, isBlank (decode l) = true) ∧
      isBlank (decode line) = false := by
  induction lines with
  | nil => exact absurd (fun line hline => absurd hline List.not_mem_nil) h
  | cons l ls ih =>
    by_cases hl : isBlank (decode l) = true
    · obtain ⟨blank, line, rest, rfl, hblank, hline⟩ := ih fun hls => h (List.forall_mem_cons.2 ⟨hl, hls⟩)
      exact ⟨l :: blank, line, rest, rfl, List.forall_mem_cons.2 ⟨hl, hblank⟩, hline⟩
    · exact ⟨[], l, ls, rfl, fun x hx => absurd hx List.not_mem_nil, Bool.eq_false_iff.2 hl⟩

/-- Where a window holds only blank lines, either all that follows is blank or a blank run does not fit. -/
private theorem blank_window {start : Nat} {lines : List (List UInt8)}
    (h : ∀ line ∈ fitting bound lines, isBlank (decode line) = true) :
    (stamp start lines).filter (fun line => !isBlank (decode line.1)) = [] ↔ BlankRunsFit bound 0 lines := by
  by_cases hall : ∀ line ∈ lines, isBlank (decode line) = true
  · refine iff_of_true (filter_stamp_blank hall) ?_
    rw [← List.append_nil lines, blankRunsFit_blank hall]
    trivial
  · obtain ⟨blank, line, rest, rfl, hblank, hline⟩ := exists_first hall
    refine iff_of_false ?_ ?_
    · intro hnil
      obtain ⟨x, hx, hxline⟩ := List.mem_map.1 ((stamp_map_fst start (blank ++ line :: rest)).symm ▸
        List.mem_append_right blank (List.mem_cons_self : line ∈ line :: rest))
      have := List.filter_eq_nil_iff.1 hnil x hx
      rw [hxline, hline] at this
      exact this rfl
    · rw [blankRunsFit_blank hblank, BlankRunsFit, if_neg (by simp [hline])]
      rintro ⟨hle, -⟩
      have hsize : size (blank ++ [line]) ≤ bound := by
        rw [size_append, size_cons]
        exact Nat.le_trans (by simp [size]; omega) hle
      have hfits := fits_of_le hsize rest
      rw [List.append_assoc, List.singleton_append] at hfits
      have := h line (hfits.subset (by simp))
      rw [hline] at this
      cases this

variable (codec) in
/-- The loop from a boundary on. -/
private theorem readBatches_spec {n : Nat} (hn : 0 < n) {outbox : List UInt8} {fuel start : Nat}
    {lines : List (List UInt8)} (hlines : ∀ line ∈ lines, newline ∉ line)
    (hdrop : outbox.drop start = lines.flatMap (· ++ [newline])) (hfuel : lines.length < fuel) :
    (readBatches codec outbox n bound fuel start).isSome ∧
    (readBatches codec outbox n bound fuel start =
        some (((stamp start lines).filter fun line => !isBlank (decode line.1)).map (pendingEvent codec)) ↔
      BlankRunsFit bound 0 lines) := by
  induction fuel generalizing start lines with
  | zero => omega
  | succ fuel ih =>
    obtain ⟨⟨rest, hrest⟩, hle⟩ := fitting_le newline bound lines
    rw [readBatches, readPending_lines hdrop hlines]
    rcases pendingLoop_cases codec (by omega : (0 : Int) < n) start (fitting bound lines) with
      ⟨hempty, hblank⟩ | ⟨first, line, more, hwindow, hline, hbatch⟩
    · rw [hempty]
      refine ⟨rfl, ?_⟩
      show some [] = some _ ↔ _
      rw [Option.some_inj, eq_comm, List.map_eq_nil_iff]
      exact blank_window hblank
    · obtain rfl : lines = (first ++ [line]) ++ (more ++ rest) := by
        rw [← hrest, hwindow]
        simp
      generalize hnext : start + size (first ++ [line]) = next
      have hdropNext : outbox.drop next = (more ++ rest).flatMap (· ++ [newline]) := by
        rw [← hnext, ← List.drop_drop, hdrop, List.flatMap_append, List.drop_left]
      obtain ⟨hends, hiff⟩ := ih (fun l hl => hlines l (List.mem_append_right _ hl)) hdropNext (by
        rw [List.length_append, List.length_append, List.length_singleton] at hfuel
        omega)
      have hfits : BlankRunsFit bound 0 ((first ++ [line]) ++ (more ++ rest)) ↔
          BlankRunsFit bound 0 (more ++ rest) := by
        have hsize : size (first ++ line :: more) ≤ bound := hwindow ▸ hle
        rw [size_append, size_cons] at hsize
        rw [List.append_assoc, List.singleton_append]
        exact blankRunsFit_fitting hline (by omega) _
      have hstamp : stamp start ((first ++ [line]) ++ (more ++ rest)) =
          stamp start (first ++ [line]) ++ stamp next (more ++ rest) := by
        rw [stamp_append newline, hnext]
      rw [hbatch, getLast?_batch hline, hfits, ← hiff, hstamp, hnext, List.filter_append, List.map_append]
      have hoffset : (pendingEvent codec (line, next)).endOffset = next := (pendingEvent_of codec _).2
      simp only [hoffset, Option.isSome_map]
      refine ⟨hends, ?_⟩
      rw [Option.map_eq_some_iff]
      constructor
      · rintro ⟨visited, hvisited, heq⟩
        rw [hvisited, List.append_cancel_left heq]
      · intro hvisited
        exact ⟨_, hvisited, rfl⟩

/-- The outbox after the lines have been appended. -/
def appended (codec : Codec Envelope) (texts : List String) : List UInt8 :=
  (texts.foldl (appendLine codec) Sys.init).content

variable (codec) in
private theorem appended_lines (texts : List String) : ∃ lines : List (List UInt8),
    (∀ line ∈ lines, newline ∉ line) ∧ appended codec texts = lines.flatMap (· ++ [newline]) := by
  have hrun : ∀ (s : Sys Envelope) (lines : List (List UInt8)), (∀ line ∈ lines, newline ∉ line) →
      s.content = lines.flatMap (· ++ [newline]) → ∃ lines : List (List UInt8), (∀ line ∈ lines, newline ∉ line) ∧
        (texts.foldl (appendLine codec) s).content = lines.flatMap (· ++ [newline]) := by
    induction texts with
    | nil => exact fun s lines hlines hcontent => ⟨lines, hlines, hcontent⟩
    | cons text texts ih =>
      intro s lines hlines hcontent
      rw [List.foldl_cons, appendLine]
      split
      · exact ih s lines hlines hcontent
      · rename_i htext
        split
        · exact ih _ lines hlines hcontent
        · refine ih _ (lines ++ [encode text]) ?_ ?_
          · intro line hline
            rcases List.mem_append.1 hline with hline | hline
            · exact hlines line hline
            · exact List.mem_singleton.1 hline ▸ newline_notMem_encode htext
          · rw [List.flatMap_append, ← hcontent, List.flatMap_singleton]
            rfl
  exact hrun Sys.init [] (fun line hline => absurd hline List.not_mem_nil) rfl

variable (codec) in
private theorem cover_iff {n : Nat} (hn : 0 < n) {outbox : List UInt8} {ls : List (List UInt8)}
    (hls : ∀ l ∈ ls, newline ∉ l) (houtbox : outbox = ls.flatMap (· ++ [newline])) :
    readBatches codec outbox n (n * maxLineBytes) (outbox.length + 1) 0 =
        some (((framed newline 0 outbox).filter fun line => !isBlank (decode line.1)).map (pendingEvent codec)) ↔
      BlankRunsFit (n * maxLineBytes) 0 ls := by
  have hlength : ls.length ≤ outbox.length := by
    rw [houtbox]
    exact length_le_size ls
  have hlines : lines newline outbox = ls := by
    rw [houtbox, lines_of_flatMap hls]
  have hdrop : outbox.drop 0 = ls.flatMap (· ++ [newline]) := houtbox
  rw [framed, hlines, ← Int.natCast_mul]
  exact (readBatches_spec codec hn hls hdrop (Nat.lt_succ_of_le hlength)).2

variable (codec) in
/-- The loop of `drain_all` visits every complete line that is not blank once, in the order of the file and with the
offset behind it, just in case each of them fits into a window together with the blank lines directly in front of it. -/
theorem batches_cover_iff (texts : List String) {n : Nat} (hn : 0 < n) :
    readBatches codec (appended codec texts) n (n * maxLineBytes) ((appended codec texts).length + 1) 0 =
        some (((framed newline 0 (appended codec texts)).filter fun line => !isBlank (decode line.1)).map
          (pendingEvent codec)) ↔
      BlankRunsFit (n * maxLineBytes) 0 (lines newline (appended codec texts)) := by
  obtain ⟨ls, hls, houtbox⟩ := appended_lines codec texts
  rw [cover_iff codec hn hls houtbox, houtbox, lines_of_flatMap hls]

/-- `model_validate_json` on lines that are no JSON. -/
private def noEnvelopes : Codec Unit where
  validate _ := .error "Invalid JSON: expected value at line 1 column 1"
  sha256 _ := ""

theorem batches_cover_line :
    readBatches noEnvelopes (appended noEnvelopes ["a"]) (1 : Nat) ((1 : Nat) * maxLineBytes)
        ((appended noEnvelopes ["a"]).length + 1) 0 =
      some (((framed newline 0 (appended noEnvelopes ["a"])).filter fun line => !isBlank (decode line.1)).map
        (pendingEvent noEnvelopes)) := by
  have hfits : BlankRunsFit (1 * maxLineBytes) 0 [[97]] := by
    rw [BlankRunsFit, if_neg (by decide)]
    exact ⟨by decide, trivial⟩
  exact (batches_cover_iff noEnvelopes ["a"] (by decide)).2 hfits

/-- A line of blanks that fills the first window, and one more line. -/
private def blankWindow : List String := [String.ofList (List.replicate 65535 ' '), "a"]

private theorem encode_blanks (k : Nat) : encode (String.ofList (List.replicate k ' ')) = List.replicate k 32 := by
  have hblank : encodeChar ' ' = [32] := by decide
  rw [encode, String.toList_ofList, List.flatMap_replicate, hblank, List.flatten_replicate_singleton]

variable (codec) in
private theorem appended_pair {a b : String} (ha : '\n' ∉ a.toList) (hb : '\n' ∉ b.toList)
    (hafits : ¬ maxLineBytes < (outboxLine a).length) (hbfits : ¬ maxLineBytes < (outboxLine b).length) :
    appended codec [a, b] = [encode a, encode b].flatMap (· ++ [newline]) := by
  rw [appended, List.foldl_cons, List.foldl_cons, List.foldl_nil, appendLine, if_neg hb, if_neg hbfits, appendLine,
    if_neg ha, if_neg hafits, List.flatMap_cons, List.flatMap_singleton]
  rfl

private theorem appended_blankWindow :
    appended noEnvelopes blankWindow = [List.replicate 65535 32, [97]].flatMap (· ++ [newline]) := by
  have hblanks : '\n' ∉ (String.ofList (List.replicate 65535 ' ')).toList := by
    rw [String.toList_ofList]
    intro h
    exact absurd (List.eq_of_mem_replicate h) (by decide)
  have hfits : ¬ maxLineBytes < (outboxLine (String.ofList (List.replicate 65535 ' '))).length := by
    rw [outboxLine, encode_blanks, List.length_append, List.length_replicate]
    decide
  rw [blankWindow, appended_pair noEnvelopes hblanks (by decide) hfits (by decide), encode_blanks]
  rfl

/-- A window of blanks is taken for the end of the outbox. -/
theorem batches_end_early :
    readBatches noEnvelopes (appended noEnvelopes blankWindow) (1 : Nat) ((1 : Nat) * maxLineBytes)
        ((appended noEnvelopes blankWindow).length + 1) 0 ≠
      some (((framed newline 0 (appended noEnvelopes blankWindow)).filter fun line => !isBlank (decode line.1)).map
        (pendingEvent noEnvelopes)) := by
  have hclean : ∀ l ∈ [List.replicate 65535 32, [97]], newline ∉ l := by
    rw [List.forall_mem_cons, List.forall_mem_singleton]
    exact ⟨fun h => absurd (List.eq_of_mem_replicate h) (by decide), by decide⟩
  have hblank : isBlank (decode (List.replicate 65535 32)) = true := by
    rw [← encode_blanks, decode_encode, isBlank, String.toList_ofList]
    exact List.all_eq_true.2 fun c hc => List.eq_of_mem_replicate hc ▸ rfl
  rw [Ne, cover_iff noEnvelopes (by decide) hclean appended_blankWindow, BlankRunsFit, if_pos hblank, BlankRunsFit,
    if_neg (by decide), List.length_replicate]
  rintro ⟨hle, -⟩
  exact absurd hle (by decide)

end AgentOS
