import AgentOS.Outbox.Store
import AgentOS.Python.Dumps
import AgentOS.Python.Scanner

/-!
# The cursor files

`cursor.json` and `inbox_cursor.json` as the bytes on disk, and what `read_cursor`, `write_cursor` and
`read_inbox_cursors` make of them.

* `readCursor_written`: what is read of a `cursor.json` that `write_cursor` wrote.
* `cursor_stable_iff`: the cursor survives later appends just in case the head that is hashed into its token does.
-/

namespace AgentOS

open Py

/-- What the interpreter brings: how a float literal is read and a float is written, the decimal digits among the code
points, and how many lists and dicts `json.loads` can open at once, at least one. -/
structure Interpreter where
  float : Str → PyFloat
  reprFloat : PyFloat → String
  decimal : CodePoint → Option Nat
  limit : Nat
  limit_pos : 0 < limit

/-- The sync directory; a file is `none` while it does not exist or cannot be read. -/
structure SyncDir where
  outbox : Option (List UInt8)
  cursor : Option (List UInt8)
  inboxCursor : Option (List UInt8)

/-- The text of the outbox. -/
def SyncDir.content (dir : SyncDir) : List UInt8 := dir.outbox.getD []

/-- `_fsutil.append_bytes` on `outbox.jsonl`. -/
def SyncDir.append (dir : SyncDir) (data : List UInt8) : SyncDir := { dir with outbox := some (dir.content ++ data) }

section

variable {Envelope : Type} (interpreter : Interpreter) (codec : Codec Envelope)

/-- `stored is not None and current is not None and stored != current`. -/
def staleGeneration : Value → Option String → Bool
  | .none, _ => false
  | _, none => false
  | .str stored, some current => stored ≠ lit current
  | _, some _ => true

/-- `read_cursor`, from the parsed `cursor.json` on. -/
def cursorOffset (dir : SyncDir) (items : List (Str × Value)) : Except Error Int :=
  match intOf interpreter.decimal ((items.lookup (lit "offset")).getD (.int 0)) with
  | .error error => if error = .typeError ∨ error.isValueError then .ok 0 else .error error
  | .ok offset =>
    if offset < 0 then .ok 0
    else if staleGeneration (Value.get items (lit "generation")) (outboxGeneration codec dir.outbox) then .ok 0
    else if (dir.content.length : Int) < offset then .ok 0
    else .ok offset

/-- `read_cursor`. -/
def readCursor (dir : SyncDir) : Except Error Int :=
  match dir.cursor.bind (utf8 false) with
  | none => .ok 0
  | some text => match Py.loads interpreter.limit interpreter.float text with
    | .error error => if error.isValueError then .ok 0 else .error error
    | .ok (.dict items) => cursorOffset interpreter codec dir items
    | .ok _ => .ok 0

/-- What `write_cursor` writes. -/
def cursorPayload (offset : Int) (generation : Option String) : String :=
  dumps interpreter.reprFloat (.obj [("offset", .int offset), ("generation", generation.elim .null .str)])

/-- `write_cursor`. -/
def writeCursor (dir : SyncDir) (offset : Int) : Except Error SyncDir :=
  if offset < 0 then .error .valueError
  else if maxStrDigits < (Nat.toDigits 10 offset.toNat).length then .error .valueError
  else .ok { dir with
    cursor := some (encode (cursorPayload interpreter offset (outboxGeneration codec dir.outbox))) }

/-- The loop of `read_inbox_cursors`. -/
def inboxCursors (cursors : List (Str × Int)) : List (Str × Value) → Except Error (List (Str × Int))
  | [] => .ok cursors
  | (key, value) :: items => match intOf interpreter.decimal value with
    | .ok n => inboxCursors (setItem cursors key n) items
    | .error error => if error = .typeError ∨ error.isValueError then inboxCursors cursors items else .error error

/-- `read_inbox_cursors`. -/
def readInboxCursors (dir : SyncDir) : Except Error (List (Str × Int)) :=
  match dir.inboxCursor with
  | none => .ok []
  | some data => match decodeJson data with
    | none => .ok []
    | some text => match Py.loads interpreter.limit interpreter.float text with
      | .error error => if error.isValueError then .ok [] else .error error
      | .ok (.dict items) => inboxCursors interpreter [] items
      | .ok _ => .ok []

end

/-! ### What is read of a written cursor -/

def hexDigits : List Char := "0123456789abcdef".toList

/-- The tokens of the code are hexadecimal. -/
def Codec.Hex {Envelope : Type} (codec : Codec Envelope) :
    Prop := ∀ data, ∀ c ∈ (codec.sha256 data).toList, c ∈ hexDigits

section

variable {interpreter : Interpreter}

private theorem hex_spec {c : Char} (h : c ∈ hexDigits) : c.toNat < 0x80 ∧ escapeChar c = [c] ∧
    (code c ≠ code '"' ∧ code c ≠ code '\\' ∧ ¬ code c < 0x20) := by
  have hall : hexDigits.all (fun c => c.toNat < 0x80 ∧ escapeChar c = [c] ∧
    (code c ≠ code '"' ∧ code c ≠ code '\\' ∧ ¬ code c < 0x20)) = true := by decide
  exact of_decide_eq_true (List.all_eq_true.1 hall c h)

private theorem flatMap_escapeChar {cs : List Char} (h : ∀ c ∈ cs, c ∈ hexDigits) : cs.flatMap escapeChar = cs := by
  induction cs with
  | nil => rfl
  | cons c cs ih =>
    rw [List.flatMap_cons, (hex_spec (h c List.mem_cons_self)).2.1, ih fun d hd => h d (List.mem_cons_of_mem _ hd)]
    rfl

/-- The token as `json.dumps` writes it. -/
private def generationText : Option String → List Char
  | none => "null".toList
  | some token => '"' :: token.toList ++ ['"']

private theorem toList_cursorPayload (offset : Nat) {generation : Option String}
    (hhex : ∀ token, generation = some token → ∀ c ∈ token.toList, c ∈ hexDigits) :
    (cursorPayload interpreter offset generation).toList = "\x7b\"offset\": ".toList ++ Nat.toDigits 10 offset ++
      ", \"generation\": ".toList ++ generationText generation ++ ['\x7d'] := by
  have hoffset : (toString (offset : Int)).toList = Nat.toDigits 10 offset := Nat.toList_repr
  have htoken : (dumps interpreter.reprFloat (generation.elim .null .str)).toList = generationText generation := by
    cases generation with
    | none => rfl
    | some token =>
      show (dumpsStr token).toList = _
      rw [dumpsStr, String.toList_ofList, flatMap_escapeChar (hhex token rfl)]
      rfl
  simp only [cursorPayload, dumps, dumpsField, dumpsFields, String.toList_append, hoffset, htoken, List.append_assoc]
  rfl

private theorem ascii_of_all {cs : List Char} (h : cs.all (fun c => c.toNat < 0x80) = true) :
    ∀ c ∈ cs, c.toNat < 0x80 :=
  fun c hc => of_decide_eq_true (List.all_eq_true.1 h c hc)

private theorem ascii_cursorPayload (offset : Nat) {generation : Option String}
    (hhex : ∀ token, generation = some token → ∀ c ∈ token.toList, c ∈ hexDigits) :
    ∀ c ∈ (cursorPayload interpreter offset generation).toList, c.toNat < 0x80 := by
  have hdigits : ∀ c ∈ Nat.toDigits 10 offset, c.toNat < 0x80 := by
    intro c hc
    have hdigit := Nat.isDigit_of_mem_toDigits (by decide) (by decide) hc
    rw [Char.isDigit, Bool.and_eq_true, decide_eq_true_eq, decide_eq_true_eq] at hdigit
    exact Nat.lt_of_le_of_lt hdigit.2 (by decide)
  have htoken : ∀ c ∈ generationText generation, c.toNat < 0x80 := by
    cases generation with
    | none => exact ascii_of_all (by decide)
    | some token =>
      have hquote : ∀ c ∈ ['"'], c.toNat < 0x80 := ascii_of_all (by decide)
      show ∀ c ∈ ['"'] ++ token.toList ++ ['"'], c.toNat < 0x80
      simp only [List.forall_mem_append]
      exact ⟨⟨hquote, fun c hc => (hex_spec (hhex token rfl c hc)).1⟩, hquote⟩
  rw [toList_cursorPayload offset hhex]
  simp only [List.forall_mem_append]
  exact ⟨⟨⟨⟨ascii_of_all (by decide), hdigits⟩, ascii_of_all (by decide)⟩, htoken⟩, ascii_of_all (by decide)⟩

/-- What `read_cursor` finds under `"generation"`. -/
private def generationValue : Option String → Value
  | none => .none
  | some token => .str (lit token)

private def generationToken : Option String → Token
  | none => .atom .none
  | some token => .str (lit token)

private theorem lex_generationText (float : Str → PyFloat) {generation : Option String}
    (hhex : ∀ token, generation = some token → ∀ c ∈ token.toList, c ∈ hexDigits) :
    lex float .between ((generationText generation).map code ++ [code '\x7d']) =
      [generationToken generation, .closeBrace] := by
  cases generation with
  | none => rfl
  | some token =>
    have hplain : ∀ c ∈ lit token, c ≠ code '"' ∧ c ≠ code '\\' ∧ ¬ c < 0x20 := by
      intro c hc
      obtain ⟨d, hd, rfl⟩ := List.mem_map.1 hc
      exact (hex_spec (hhex token rfl d hd)).2.2
    have hquoted : (generationText (some token)).map code ++ [code '\x7d'] =
        code '"' :: lit token ++ code '"' :: [code '\x7d'] := by
      simp [generationText, lit]
    rw [hquoted, lex_str float hplain]
    rfl

variable (interpreter) in
/-- The written text is read as the dict it was written from. -/
private theorem loads_cursorPayload {offset : Nat} (hoffset : offset < 10 ^ maxStrDigits) {generation : Option String}
    (hhex : ∀ token, generation = some token → ∀ c ∈ token.toList, c ∈ hexDigits) :
    Py.loads interpreter.limit interpreter.float (lit (cursorPayload interpreter offset generation)) =
      .ok (.dict [(lit "offset", .int offset), (lit "generation", generationValue generation)]) := by
  have htext : lit (cursorPayload interpreter offset generation) = lit "\x7b\"offset\": " ++ (decimalDigits offset ++
      code ',' :: (lit " \"generation\": " ++ ((generationText generation).map code ++ [code '\x7d']))) := by
    rw [lit, toList_cursorPayload offset hhex]
    simp only [List.map_append, List.append_assoc]
    rfl
  have hopen : ∀ rest, lex interpreter.float .between (lit "\x7b\"offset\": " ++ rest) =
      .openBrace :: .str (lit "offset") :: .colon :: lex interpreter.float .between rest := fun _ => rfl
  have hmiddle : ∀ rest, lex interpreter.float .between (code ',' :: (lit " \"generation\": " ++ rest)) =
      .comma :: .str (lit "generation") :: .colon :: lex interpreter.float .between rest := fun _ => rfl
  have hbrace : scanToken interpreter.limit ⟨[], .value⟩ .openBrace = .ok ⟨[], .firstKey⟩ :=
    if_pos interpreter.limit_pos
  unfold Py.loads
  rw [htext, hopen, lex_decimal _ hoffset (by decide), hmiddle, lex_generationText _ hhex]
  rw [List.foldlM_cons, hbrace]
  cases generation with
  | none => rfl
  | some token => rfl

variable {Envelope : Type} {codec : Codec Envelope} {dir : SyncDir}

variable (interpreter codec) in
/-- What is read of a cursor that `write_cursor` wrote: the offset, unless the outbox has another head or is shorter. -/
theorem readCursor_written {offset : Nat} (hoffset : offset < 10 ^ maxStrDigits) {generation : Option String}
    (hhex : ∀ token, generation = some token → ∀ c ∈ token.toList, c ∈ hexDigits)
    (hcursor : dir.cursor = some (encode (cursorPayload interpreter offset generation))) :
    readCursor interpreter codec dir =
      .ok (if staleGeneration (generationValue generation) (outboxGeneration codec dir.outbox) = true ∨
        dir.content.length < offset then 0 else offset) := by
  have hloads := loads_cursorPayload interpreter hoffset hhex
  have hitem : Value.get [(lit "offset", .int offset),
    (lit "generation", generationValue generation)] (lit "generation") =
      generationValue generation := rfl
  have hdata : dir.cursor.bind (utf8 false) = some (lit (cursorPayload interpreter offset generation)) := by
    rw [hcursor, Option.bind_some, utf8_encode (ascii_cursorPayload offset hhex)]
  rw [readCursor, hdata]
  dsimp only
  rw [hloads]
  show cursorOffset interpreter codec dir _ = _
  have hint : intOf interpreter.decimal
      (([(lit "offset", .int offset), (lit "generation", generationValue generation)].lookup (lit "offset")).getD
        (.int 0)) = .ok offset := rfl
  rw [cursorOffset, hint]
  dsimp only
  rw [if_neg (by omega), hitem]
  by_cases hstale : staleGeneration (generationValue generation) (outboxGeneration codec dir.outbox) = true
  · rw [if_pos hstale, if_pos (Or.inl hstale)]
  · rw [if_neg hstale]
    by_cases hshort : dir.content.length < offset
    · rw [if_pos (by omega), if_pos (Or.inr hshort)]
    · rw [if_neg (by omega), if_neg (not_or.2 ⟨hstale, hshort⟩)]

/-! ### Later appends -/

private theorem outboxGeneration_eq (codec : Codec Envelope) (dir : SyncDir) : outboxGeneration codec dir.outbox =
    if dir.content = [] then none else some (codec.sha256 (dir.content.take generationSampleBytes)) := by
  unfold outboxGeneration SyncDir.content
  cases dir.outbox with
  | none => rfl
  | some data =>
    cases data with
    | nil => rfl
    | cons b bs => rfl

private theorem append_all (dir : SyncDir) (writes : List (List UInt8)) :
    (writes.foldl SyncDir.append dir).content = dir.content ++ writes.flatten ∧
      (writes.foldl SyncDir.append dir).cursor = dir.cursor := by
  induction writes generalizing dir with
  | nil => exact ⟨(List.append_nil _).symm, rfl⟩
  | cons data writes ih =>
    obtain ⟨hcontent, hcursor⟩ := ih (dir.append data)
    rw [List.foldl_cons, hcontent, hcursor, List.flatten_cons, ← List.append_assoc]
    exact ⟨rfl, rfl⟩

private theorem lit_injective : Function.Injective lit := by
  intro s t h
  refine String.toList_inj.1 (List.map_injective_iff.2 (fun c d hcd => ?_) h)
  have hval := congrArg Fin.val hcd
  rw [val_code, val_code] at hval
  rw [← Char.ofNat_toNat c, hval, Char.ofNat_toNat]

private theorem staleGeneration_iff {stored current : Option String} :
    staleGeneration (generationValue stored) current = true ↔ ∃ a b, stored = some a ∧ current = some b ∧ a ≠ b := by
  cases stored with
  | none => simp [staleGeneration, generationValue]
  | some a =>
    cases current with
    | none => simp [staleGeneration, generationValue]
    | some b => simp [staleGeneration, generationValue, lit_injective.eq_iff]

/-- A cursor is stale after later appends if they have changed the hash of the head. -/
private theorem stale_append (codec : Codec Envelope) {dir later : SyncDir} {added : List UInt8}
    (hlater : later.content = dir.content ++ added) :
    staleGeneration (generationValue (outboxGeneration codec dir.outbox)) (outboxGeneration codec later.outbox) = true ↔
      dir.content ≠ [] ∧ codec.sha256 (dir.content.take generationSampleBytes) ≠
        codec.sha256 ((dir.content ++ added).take generationSampleBytes) := by
  rw [staleGeneration_iff, outboxGeneration_eq, outboxGeneration_eq, hlater]
  constructor
  · rintro ⟨a, b, ha, hb, hne⟩
    split at ha
    · cases ha
    · split at hb
      · cases hb
      · obtain rfl := Option.some.inj ha
        obtain rfl := Option.some.inj hb
        exact ⟨‹_›, hne⟩
  · rintro ⟨hcontent, hne⟩
    refine ⟨_, _, if_neg hcontent, if_neg ?_, hne⟩
    exact fun hnil => hcontent (List.append_eq_nil_iff.1 hnil).1

/-- Appending to an outbox that is at least as long as the sample, or appending nothing, leaves the head alone. -/
private theorem hash_append_eq_iff (codec : Codec Envelope) (content added : List UInt8) :
    codec.sha256 (content.take generationSampleBytes) = codec.sha256 ((content ++ added).take generationSampleBytes) ↔
      generationSampleBytes ≤ content.length ∨ added = [] ∨
        codec.sha256 content = codec.sha256 ((content ++ added).take generationSampleBytes) := by
  by_cases hlong : generationSampleBytes ≤ content.length
  · rw [List.take_append_of_le_length hlong]
    simp [hlong]
  · by_cases hadded : added = []
    · simp [hadded]
    · rw [List.take_of_length_le (by omega : content.length ≤ generationSampleBytes)]
      simp [hlong, hadded]

variable (interpreter) in
/-- The cursor that was written is read after later appends just in case it is 0, or the head of the outbox that was
hashed is still its head: the outbox was at least as long as the sample, or nothing is appended, or the two heads have
one hash.  An offset that cannot be printed cannot be written. -/
theorem cursor_stable_iff (hcodec : codec.Hex) {offset : Nat} (hle : offset ≤ dir.content.length)
    (writes : List (List UInt8)) :
    (∃ written, writeCursor interpreter codec dir offset = .ok written ∧
      readCursor interpreter codec (writes.foldl SyncDir.append written) = .ok offset) ↔
    offset = 0 ∨ offset < 10 ^ maxStrDigits ∧ (generationSampleBytes ≤ dir.content.length ∨ writes.flatten = [] ∨
      codec.sha256 dir.content = codec.sha256 ((dir.content ++ writes.flatten).take generationSampleBytes)) := by
  have hdigits : maxStrDigits < (Nat.toDigits 10 offset).length ↔ ¬ offset < 10 ^ maxStrDigits := by
    rw [← Nat.length_toDigits_le_iff (by decide) (by decide), Nat.not_le]
  by_cases hprint : offset < 10 ^ maxStrDigits
  · have hwrite : writeCursor interpreter codec dir offset = .ok { dir with
        cursor := some (encode (cursorPayload interpreter offset (outboxGeneration codec dir.outbox))) } := by
      rw [writeCursor, if_neg (by omega), Int.toNat_natCast, if_neg (by rw [hdigits]; exact not_not.2 hprint)]
    have hhex : ∀ token, outboxGeneration codec dir.outbox = some token → ∀ c ∈ token.toList, c ∈ hexDigits := by
      intro token htoken
      rw [outboxGeneration_eq] at htoken
      split at htoken
      · cases htoken
      · exact Option.some.inj htoken ▸ hcodec _
    generalize hwritten : ({ dir with
      cursor := some (encode (cursorPayload interpreter offset (outboxGeneration codec dir.outbox))) } : SyncDir) =
        written at hwrite
    obtain ⟨hcontent, hcursor⟩ := append_all written writes
    have hsame : written.content = dir.content := by rw [← hwritten]; rfl
    rw [hsame] at hcontent
    have hread := readCursor_written interpreter codec hprint hhex
      (hcursor.trans (by rw [← hwritten]))
    simp only [stale_append codec hcontent, hcontent, List.length_append] at hread
    have hhead := hash_append_eq_iff codec dir.content writes.flatten
    have hlong : ¬ dir.content.length + writes.flatten.length < offset := by omega
    rw [hwrite]
    constructor
    · rintro ⟨written', hok, hsucceeds⟩
      obtain rfl := Except.ok.inj hok
      rw [hread] at hsucceeds
      split at hsucceeds
      · exact Or.inl (by have := Except.ok.inj hsucceeds; omega)
      · rename_i hkept
        by_cases hempty : dir.content = []
        · exact Or.inl (by rw [hempty] at hle; exact Nat.le_zero.1 hle)
        · exact Or.inr ⟨hprint, hhead.1 (by_contra fun hchanged => hkept (Or.inl ⟨hempty, hchanged⟩))⟩
    · intro hcondition
      refine ⟨written, rfl, ?_⟩
      rw [hread]
      split
      · rename_i hreset
        rcases hcondition with rfl | ⟨-, hsame⟩
        · rfl
        · exact absurd hreset (not_or.2 ⟨fun h => h.2 (hhead.2 hsame), hlong⟩)
      · rfl
  · have hwrite : writeCursor interpreter codec dir offset = .error .valueError := by
      rw [writeCursor, if_neg (by omega), Int.toNat_natCast, if_pos (hdigits.2 hprint)]
    rw [hwrite]
    refine iff_of_false ?_ ?_
    · rintro ⟨written, hok, -⟩
      cases hok
    · rintro (rfl | ⟨hlt, -⟩)
      · exact hprint (Nat.pow_pos (by decide))
      · exact hprint hlt

/-- No float is read or written. -/
def plainInterpreter : Interpreter where
  float := fun _ => .nan
  reprFloat := fun _ => "nan"
  decimal := fun c => if Py.isDigit c then some (c.val - 48) else none
  limit := 1000
  limit_pos := by decide

/-- The hashes of `a\n` and of `a\nb\n`. -/
def twoHashes : Codec Unit where
  validate := fun _ => .error "Invalid JSON"
  sha256 := fun data =>
    if data = outboxLine "a" then "87428fc522803d31065e7bce3cf03fe475096631e5e07bbd7a0fde60c4cf25c7"
    else if data = outboxLine "a" ++ outboxLine "b" then
      "911169ddaaf146aff539f58c26c489af3b892dff0fe283c1c264c65ae5aa59a2"
    else ""

private theorem hex_of_all {cs : List Char} (h : cs.all (· ∈ hexDigits) = true) : ∀ c ∈ cs, c ∈ hexDigits :=
  fun c hc => of_decide_eq_true (List.all_eq_true.1 h c hc)

private theorem twoHashes_hex : twoHashes.Hex := by
  intro data
  show ∀ c ∈ (ite (data = outboxLine "a") _ (ite (data = _) _ _) : String).toList, c ∈ hexDigits
  split
  · exact hex_of_all (by decide)
  · split
    · exact hex_of_all (by decide)
    · exact hex_of_all (by decide)

private def oneLine : SyncDir := ⟨some (outboxLine "a"), none, none⟩

/-- An outbox as long as the sample. -/
private def fullSample : SyncDir := ⟨some (List.replicate 2048 [97, 10]).flatten, none, none⟩

theorem cursor_stable_full_sample : ∃ written,
    writeCursor plainInterpreter twoHashes fullSample 4096 = .ok written ∧
      readCursor plainInterpreter twoHashes ([outboxLine "b"].foldl SyncDir.append written) = .ok 4096 := by
  have hlength : fullSample.content.length = 4096 := by decide +kernel
  exact (cursor_stable_iff plainInterpreter twoHashes_hex hlength.ge [outboxLine "b"]).2
    (Or.inr ⟨by decide +kernel, Or.inl hlength.ge⟩)

/-- One line of two bytes, the cursor behind it, and one more line: the cursor is lost. -/
theorem cursor_lost : ¬ ∃ written, writeCursor plainInterpreter twoHashes oneLine 2 = .ok written ∧
    readCursor plainInterpreter twoHashes ([outboxLine "b"].foldl SyncDir.append written) = .ok 2 := by
  rintro ⟨written, hwrite, hread⟩
  have hlost : ((writeCursor plainInterpreter twoHashes oneLine 2).toOption.bind fun written =>
      (readCursor plainInterpreter twoHashes (written.append (outboxLine "b"))).toOption) = some 0 := by
    decide +kernel
  rw [hwrite] at hlost
  have hsame : (readCursor plainInterpreter twoHashes (written.append (outboxLine "b"))).toOption = some 2 :=
    congrArg Except.toOption hread
  exact absurd (hsame.symm.trans hlost) (by decide)

end

end AgentOS
