import AgentOS.Chunking.Prose

/-!
# Chunks of a conversation

`chunk_messages` packs rendered messages into chunks; a message that exceeds the budget alone is cut by `chunk_prose`.

* `message_chunks_partition`: the chunks are those of a sequence of groups, runs of messages that are packed together
  and messages that are cut.
* `message_chunks_bounded_iff`: the role in front of each piece of a message that is cut is not counted.
-/

namespace AgentOS

open Py

/-- An item of `messages`; `none` is a key that is missing or `None`. -/
structure Message where
  role : Option Str
  text : Option Str
  id : Option Str

namespace Message

/-- `(msg.get("role") or "unknown").strip() or "unknown"`. -/
def speaker (m : Message) : Str :=
  let role := m.role.getD []
  let stripped := Py.strip (if role = [] then lit "unknown" else role)
  if stripped = [] then lit "unknown" else stripped

/-- `(msg.get("text") or "").strip()`. -/
def body (m : Message) : Str := Py.strip (m.text.getD [])

/-- `str(msg.get("id") or "")`. -/
def msgId (m : Message) : Str := m.id.getD []

end Message

/-- `_render_message`. -/
def renderMessage (role text : Str) : Str := Py.strip (role ++ lit ": " ++ text)

def Message.rendered (m : Message) : Str := renderMessage m.speaker m.body

structure MessageChunk where
  text : Str
  roles : List Str
  messageIds : List Str
  deriving DecidableEq

/-- The variables of `chunk_messages`. -/
structure MessagePack where
  out : List MessageChunk
  parts : List Str
  roles : List Str
  ids : List Str
  tokens : Nat

/-- `flush`. -/
def MessagePack.flush (p : MessagePack) : MessagePack :=
  if p.parts = [] then ⟨p.out, [], [], [], 0⟩
  else ⟨p.out ++ [⟨(lit "\n\n").intercalate p.parts, p.roles, p.ids⟩], [], [], [], 0⟩

/-- The message joins the pending ones. -/
def MessagePack.push (p : MessagePack) (m : Message) (tokens : Nat) : MessagePack where
  out := p.out
  parts := p.parts ++ [m.rendered]
  roles := if m.speaker ∈ p.roles then p.roles else p.roles ++ [m.speaker]
  ids := if m.msgId = [] then p.ids else p.ids ++ [m.msgId]
  tokens := p.tokens + tokens

section

variable (table : WordTable) (target ov : Nat)

/-- The chunks of a message that exceeds the budget. -/
def pieceChunks (m : Message) : List MessageChunk :=
  (chunkProse table target ov m.body).map fun piece =>
    ⟨renderMessage m.speaker piece, [m.speaker], if m.msgId = [] then [] else [m.msgId]⟩

/-- The loop of `chunk_messages` on one message. -/
def MessagePack.step (p : MessagePack) (m : Message) : MessagePack :=
  if m.body = [] then p
  else
    let tokens := estimateTokens table m.rendered
    if target < tokens then { p.flush with out := p.flush.out ++ pieceChunks table target ov m }
    else if p.parts ≠ [] ∧ target < p.tokens + tokens then p.flush.push m tokens
    else p.push m tokens

/-- `chunk_messages`, with the overlap of `chunk_prose` in tokens. -/
def chunkMessages (messages : List Message) : List MessageChunk :=
  (messages.foldl (MessagePack.step table target ov) ⟨[], [], [], [], 0⟩).flush.out

end

/-! ### Groups of messages -/

/-- Messages that are packed into one chunk, or one that is cut. -/
inductive Group where
  | packed (messages : List Message)
  | split (message : Message)

namespace Group

def messages : Group → List Message
  | packed messages => messages
  | split message => [message]

/-- The chunks of a group: all of the messages that are packed, with their ids in order and their roles in the order in
which they appear first, or the pieces of the one that is cut, each for itself. -/
def chunks (table : WordTable) (target ov : Nat) : Group → List MessageChunk
  | packed messages => [⟨(lit "\n\n").intercalate (messages.map Message.rendered),
      (messages.map Message.speaker).eraseDups, (messages.map Message.msgId).filter (· ≠ [])⟩]
  | split message => pieceChunks table target ov message

/-- The messages that are packed fit the budget, each and all together, and the one that is cut does not. -/
def Fits (table : WordTable) (target : Nat) : Group → Prop
  | packed messages => messages ≠ [] ∧ (∀ m ∈ messages, estimateTokens table m.rendered ≤ target) ∧
      totalTokens table (messages.map Message.rendered) ≤ target
  | split message => target < estimateTokens table message.rendered

end Group

variable {table : WordTable} {target ov : Nat}

/-- The chunks so far are those of groups, and the pending variables those of the messages behind them. -/
structure Grouped (table : WordTable) (target ov : Nat) (done : List Message) (p : MessagePack) (groups : List Group)
    (pending : List Message) : Prop where
  messages : groups.flatMap Group.messages ++ pending = done.filter (·.body ≠ [])
  fits : ∀ group ∈ groups, group.Fits table target
  out : p.out = groups.flatMap (Group.chunks table target ov)
  parts : p.parts = pending.map Message.rendered
  roles : p.roles = (pending.map Message.speaker).eraseDups
  ids : p.ids = (pending.map Message.msgId).filter (· ≠ [])
  total : p.tokens = totalTokens table p.parts
  bounded : p.tokens ≤ target

/-- The pending messages become a group. -/
private theorem Grouped.flush {done pending : List Message} {p : MessagePack} {groups : List Group}
    (h : Grouped table target ov done p groups pending) :
    ∃ groups, Grouped table target ov done p.flush groups [] := by
  rw [MessagePack.flush]
  split
  · rename_i hnil
    obtain rfl : pending = [] := List.map_eq_nil_iff.1 (h.parts.symm.trans hnil)
    exact ⟨groups, h.messages, h.fits, h.out, rfl, rfl, rfl, rfl, Nat.zero_le _⟩
  · rename_i hne
    have hpending : pending ≠ [] := by
      rintro rfl
      exact hne h.parts
    refine ⟨groups ++ [.packed pending], ?_, ?_, ?_, rfl, rfl, rfl, rfl, Nat.zero_le _⟩
    · rw [← h.messages, List.flatMap_append, List.append_nil, List.flatMap_singleton]
      rfl
    · have hall : totalTokens table (pending.map Message.rendered) ≤ target := by
        rw [← h.parts, ← h.total]
        exact h.bounded
      have heach : ∀ m ∈ pending, estimateTokens table m.rendered ≤ target := fun m hm =>
        (estimate_le_total (List.mem_map_of_mem hm)).trans hall
      exact List.forall_mem_append.2 ⟨h.fits, List.forall_mem_singleton.2 ⟨hpending, heach, hall⟩⟩
    · rw [List.flatMap_append, List.flatMap_singleton, h.out, h.parts, h.roles, h.ids]
      rfl

private theorem Grouped.push {done pending : List Message} {p : MessagePack} {groups : List Group} {m : Message}
    (h : Grouped table target ov done p groups pending) (hbody : m.body ≠ [])
    (hfits : p.tokens + estimateTokens table m.rendered ≤ target) :
    Grouped table target ov (done ++ [m]) (p.push m (estimateTokens table m.rendered)) groups (pending ++ [m]) where
  messages := by
    rw [← List.append_assoc, h.messages, List.filter_append, List.filter_cons_of_pos (by simpa using hbody),
      List.filter_nil]
  fits := h.fits
  out := h.out
  parts := by
    rw [List.map_append, ← h.parts]
    rfl
  roles := by
    rw [List.map_append, List.eraseDups_append, ← h.roles, List.map_singleton, MessagePack.push]
    dsimp only
    have hmem : m.speaker ∈ p.roles ↔ m.speaker ∈ pending.map Message.speaker := by
      rw [h.roles, List.mem_eraseDups]
    split
    · rename_i hrole
      have hnone : [m.speaker].removeAll (pending.map Message.speaker) = [] := by
        simpa [List.removeAll] using hmem.1 hrole
      rw [hnone, List.eraseDups_nil, List.append_nil]
    · rename_i hrole
      have hone : [m.speaker].removeAll (pending.map Message.speaker) = [m.speaker] := by
        simpa [List.removeAll] using fun h => hrole (hmem.2 h)
      rw [hone]
      rfl
  ids := by
    rw [List.map_append, List.filter_append, ← h.ids, List.map_singleton, MessagePack.push]
    dsimp only
    split
    · rename_i hnil
      rw [List.filter_cons_of_neg (by simp [hnil]), List.filter_nil, List.append_nil]
    · rename_i hne
      rw [List.filter_cons_of_pos (by simp [hne]), List.filter_nil]
  total := by
    show p.tokens + _ = totalTokens table (p.parts ++ [m.rendered])
    rw [totalTokens_concat, h.total]
  bounded := hfits

private theorem Grouped.step {done pending : List Message} {p : MessagePack} {groups : List Group}
    (h : Grouped table target ov done p groups pending) (m : Message) :
    ∃ groups pending, Grouped table target ov (done ++ [m]) (p.step table target ov m) groups pending := by
  unfold MessagePack.step
  dsimp only
  split
  · rename_i hbody
    refine ⟨groups, pending, ?_, h.fits, h.out, h.parts, h.roles, h.ids, h.total, h.bounded⟩
    rw [h.messages, List.filter_append, List.filter_cons_of_neg (by simp [hbody]), List.filter_nil, List.append_nil]
  · rename_i hbody
    have hfilter : (done ++ [m]).filter (·.body ≠ []) = done.filter (·.body ≠ []) ++ [m] := by
      rw [List.filter_append, List.filter_cons_of_pos (by simpa using hbody), List.filter_nil]
    split
    · rename_i hlong
      obtain ⟨groups', h'⟩ := h.flush
      refine ⟨groups' ++ [.split m], [], ?_, ?_, ?_, h'.parts, h'.roles, h'.ids, h'.total, h'.bounded⟩
      · rw [hfilter, ← h'.messages, List.flatMap_append, List.append_nil, List.append_nil]
        rfl
      · exact List.forall_mem_append.2 ⟨h'.fits, List.forall_mem_singleton.2 hlong⟩
      · rw [List.flatMap_append, ← h'.out, List.flatMap_singleton]
        rfl
    · rename_i hshort
      split
      · obtain ⟨groups', h'⟩ := h.flush
        have hzero : p.flush.tokens = 0 := h'.total.trans (by rw [h'.parts]; rfl)
        exact ⟨groups', [] ++ [m], h'.push hbody (by omega)⟩
      · rename_i hroom
        refine ⟨groups, pending ++ [m], h.push hbody ?_⟩
        by_cases hnil : p.parts = []
        · have hzero : p.tokens = 0 := h.total.trans (by rw [hnil]; rfl)
          omega
        · exact Nat.not_lt.1 fun hlt => hroom ⟨hnil, hlt⟩

variable (table target ov) in
private theorem chunkMessages_grouped (messages : List Message) : ∃ groups,
    Grouped table target ov messages
      (messages.foldl (MessagePack.step table target ov) ⟨[], [], [], [], 0⟩).flush groups [] := by
  have hrun : ∀ (rest done : List Message) (p : MessagePack) (groups : List Group) (pending : List Message),
      Grouped table target ov done p groups pending → ∃ groups pending,
        Grouped table target ov (done ++ rest) (rest.foldl (MessagePack.step table target ov) p) groups pending := by
    intro rest
    induction rest with
    | nil =>
      intro done p groups pending h
      rw [List.append_nil]
      exact ⟨groups, pending, h⟩
    | cons m rest ih =>
      intro done p groups pending h
      obtain ⟨groups', pending', h'⟩ := h.step m
      rw [← List.singleton_append, ← List.append_assoc]
      exact ih _ _ _ _ h'
  have hinit : Grouped table target ov [] ⟨[], [], [], [], 0⟩ [] [] :=
    ⟨rfl, fun group hgroup => absurd hgroup List.not_mem_nil, rfl, rfl, rfl, rfl, rfl, Nat.zero_le _⟩
  obtain ⟨groups, pending, h⟩ := hrun messages [] _ _ _ hinit
  exact h.flush

variable (table target ov) in
/-- Every message with a text is in one group, in order: it is packed where it fits the budget, and cut where it does
not. -/
theorem message_chunks_partition (messages : List Message) : ∃ groups : List Group,
    groups.flatMap Group.messages = messages.filter (·.body ≠ []) ∧ (∀ group ∈ groups, group.Fits table target) ∧
    chunkMessages table target ov messages = groups.flatMap (Group.chunks table target ov) := by
  obtain ⟨groups, h⟩ := chunkMessages_grouped table target ov messages
  exact ⟨groups, (List.append_nil _).symm.trans h.messages, h.fits, h.out⟩

variable (table ov) in
/-- A message with a text has a chunk. -/
theorem chunkMessages_ne_nil (htarget : 0 < target) {messages : List Message} {m : Message} (hm : m ∈ messages)
    (hbody : m.body ≠ []) : chunkMessages table target ov messages ≠ [] := by
  obtain ⟨groups, h⟩ := chunkMessages_grouped table target ov messages
  have hmem : m ∈ groups.flatMap Group.messages := by
    rw [← List.append_nil (groups.flatMap Group.messages), h.messages]
    exact List.mem_filter.2 ⟨hm, by simpa using hbody⟩
  obtain ⟨group, hgroup, hm⟩ := List.mem_flatMap.1 hmem
  have hchunks : group.chunks table target ov ≠ [] := by
    cases group with
    | packed messages => exact List.cons_ne_nil _ _
    | split message =>
      obtain rfl := List.mem_singleton.1 hm
      have hpieces : chunkProse table target ov m.body ≠ [] :=
        chunkProse_ne_nil table ov htarget (by rwa [Message.body, strip_strip])
      exact fun hnil => hpieces (List.map_eq_nil_iff.1 hnil)
  obtain ⟨chunk, hchunk⟩ := List.exists_mem_of_ne_nil _ hchunks
  rw [chunkMessages, h.out]
  exact List.ne_nil_of_mem (List.mem_flatMap.2 ⟨group, hgroup, hchunk⟩)

/-! ### The budget -/

private theorem speaker_spec (m : Message) : m.speaker ≠ [] ∧ ∀ c ∈ m.speaker.head?, Py.isspace c = false := by
  rw [Message.speaker]
  generalize (if m.role.getD [] = [] then lit "unknown" else m.role.getD []) = role
  split
  · refine ⟨List.cons_ne_nil _ _, ?_⟩
    rintro c ⟨⟩
    rfl
  · rename_i hne
    exact ⟨hne, (strip_ends role).1⟩

private theorem code_colon_spec : Py.isspace (code ':') = false ∧ code ':' ∈ marks := by decide

private theorem blank_spec : Py.isspace (code ' ') = true ∧ isCjk (code ' ') = false := by decide

/-- A role adds its tokens and a colon. -/
private theorem estimate_render (m : Message) {piece : Str} (hpiece : Ended piece) :
    estimateTokens table (renderMessage m.speaker piece) =
      estimateTokens table m.speaker + 1 + estimateTokens table piece := by
  obtain ⟨hne, hhead⟩ := speaker_spec m
  obtain ⟨z, hz, hspace⟩ := hpiece
  have hstrip : Py.strip (m.speaker ++ lit ": " ++ piece) = m.speaker ++ lit ": " ++ piece := by
    refine strip_of_ends ?_ ?_
    · intro c hc
      rw [List.append_assoc, List.head?_append_of_ne_nil _ hne] at hc
      exact hhead c hc
    · intro c hc
      rw [List.getLast?_append, Option.mem_def.1 hz] at hc
      exact Option.some.inj hc ▸ hspace
  have hcolon : table.word (code ':') = false := table.mark _ code_colon_spec.2
  have hsign : tokens table [code ':'] = [[code ':']] := by
    have hrow : Row table [[code ':']] := Row.sign (Or.inr ⟨hcolon, code_colon_spec.1⟩) Row.nil
    exact tokens_flatten hrow
  have hblank : tokens table (code ' ' :: piece) = tokens table piece := by
    have hlast : ∀ c ∈ [code ' '].getLast?, table.word c = false := by
      rintro c ⟨⟩
      exact table.space _ blank_spec.1
    rw [← List.singleton_append, tokens_append (Or.inl hlast),
      tokens_space fun c hc => List.mem_singleton.1 hc ▸ blank_spec, List.nil_append]
  have htail : tokens table (code ':' :: code ' ' :: piece) = [code ':'] :: tokens table piece := by
    have hlast : ∀ c ∈ [code ':'].getLast?, table.word c = false := by
      rintro c ⟨⟩
      exact hcolon
    rw [← List.singleton_append, tokens_append (Or.inl hlast), hsign, hblank, List.singleton_append]
  have hnext : ∀ c ∈ (code ':' :: code ' ' :: piece).head?, table.word c = false := by
    rintro c ⟨⟩
    exact hcolon
  have htext : m.speaker ++ lit ": " ++ piece = m.speaker ++ code ':' :: code ' ' :: piece := List.append_assoc _ _ _
  rw [renderMessage, hstrip, htext, estimateTokens, tokens_append (Or.inr hnext), htail, List.length_append,
    List.length_cons, estimateTokens, estimateTokens]
  omega

/-- The separators between the messages of a chunk are not counted. -/
private theorem estimate_packed (parts : List Str) :
    estimateTokens table ((lit "\n\n").intercalate parts) = totalTokens table parts := by
  have hnewline : ∀ c ∈ lit "\n\n", Py.isspace c = true ∧ isCjk c = false := by
    intro c hc
    have heq : c = code '\n' := by simpa [lit] using hc
    rw [heq]
    decide
  have hne : lit "\n\n" ≠ [] := by decide
  rw [estimateTokens, tokens_intercalate hne hnewline, List.length_flatMap]
  rfl

/-- The chunks of a group exceed the budget just in case they are pieces of a message and the role leaves no room. -/
private theorem group_bounded_iff (htarget : 0 < target) {group : Group} (h : group.Fits table target) :
    (∀ chunk ∈ group.chunks table target ov, estimateTokens table chunk.text ≤ target) ↔
      ∀ m ∈ group.messages, target < estimateTokens table m.rendered →
        ∀ piece ∈ chunkProse table target ov m.body,
          estimateTokens table m.speaker + 1 + estimateTokens table piece ≤ target := by
  cases group with
  | packed messages =>
    have hchunk : estimateTokens table ((lit "\n\n").intercalate (messages.map Message.rendered)) ≤ target :=
      (estimate_packed _).trans_le h.2.2
    refine ⟨fun _ m hm hlong => absurd (h.2.1 m hm) (Nat.not_le.2 hlong), fun _ chunk hmem => ?_⟩
    rw [List.mem_singleton.1 hmem]
    exact hchunk
  | split m =>
    have hended := chunkProse_ended table ov htarget m.body
    rw [Group.messages, List.forall_mem_singleton, Group.chunks, pieceChunks, List.forall_mem_map]
    constructor
    · intro hbounded _ piece hpiece
      rw [← estimate_render m (hended piece hpiece)]
      exact hbounded piece hpiece
    · intro hroom piece hpiece
      rw [estimate_render m (hended piece hpiece)]
      exact hroom h piece hpiece

private theorem chunkProse_nil : chunkProse table target ov [] = [] := rfl

variable (table ov) in
/-- The role in front of each piece of a message that is cut is not counted: every chunk fits the budget just in case
there is room for it. -/
theorem message_chunks_bounded_iff (htarget : 0 < target) (messages : List Message) :
    (∀ chunk ∈ chunkMessages table target ov messages, estimateTokens table chunk.text ≤ target) ↔
      ∀ m ∈ messages, target < estimateTokens table m.rendered → ∀ piece ∈ chunkProse table target ov m.body,
        estimateTokens table m.speaker + 1 + estimateTokens table piece ≤ target := by
  obtain ⟨groups, h⟩ := chunkMessages_grouped table target ov messages
  have hchunks : (∀ chunk ∈ chunkMessages table target ov messages, estimateTokens table chunk.text ≤ target) ↔
      ∀ group ∈ groups, ∀ chunk ∈ group.chunks table target ov, estimateTokens table chunk.text ≤ target := by
    rw [chunkMessages, h.out, List.forall_mem_flatMap]
  have hmessages : messages.filter (·.body ≠ []) = groups.flatMap Group.messages :=
    ((List.append_nil _).symm.trans h.messages).symm
  rw [hchunks]
  constructor
  · intro hbounded m hm hlong piece hpiece
    by_cases hbody : m.body = []
    · rw [hbody, chunkProse_nil] at hpiece
      exact absurd hpiece List.not_mem_nil
    · have hmem : m ∈ groups.flatMap Group.messages :=
        hmessages ▸ List.mem_filter.2 ⟨hm, by simpa using hbody⟩
      obtain ⟨group, hgroup, hm⟩ := List.mem_flatMap.1 hmem
      exact (group_bounded_iff htarget (h.fits group hgroup)).1 (hbounded group hgroup) m hm hlong piece hpiece
  · intro hroom group hgroup
    refine (group_bounded_iff htarget (h.fits group hgroup)).2 fun m hm => ?_
    have hmem : m ∈ messages.filter (·.body ≠ []) := hmessages ▸ List.mem_flatMap.2 ⟨group, hgroup, hm⟩
    exact hroom m (List.mem_of_mem_filter hmem)

/-- A message of four words. -/
def fourWords : Message := ⟨some (lit "user"), some (lit "a b c d"), none⟩

/-- Two messages of six tokens each are packed into two chunks of six. -/
theorem message_chunks_bounded_words : (chunkMessages asciiWords 6 0 [fourWords, fourWords]).length = 2 ∧
    ∀ chunk ∈ chunkMessages asciiWords 6 0 [fourWords, fourWords], estimateTokens asciiWords chunk.text ≤ 6 := by
  refine ⟨by decide +kernel,
    (message_chunks_bounded_iff asciiWords 0 (by decide) [fourWords, fourWords]).2 fun m hm hlong => ?_⟩
  simp only [List.mem_cons, List.not_mem_nil, or_false, or_self] at hm
  subst hm
  exact absurd hlong (by decide +kernel)

/-- With a budget of three tokens for a role, a colon and a word, three words are put behind the role. -/
theorem message_chunks_exceed : ∃ chunk ∈ chunkMessages asciiWords 3 0 [fourWords],
    estimateTokens asciiWords (fourWords.speaker ++ lit ": a") = 3 ∧ estimateTokens asciiWords chunk.text = 5 := by
  refine ⟨⟨lit "user: a b c", [lit "user"], []⟩, ?_⟩
  decide +kernel

end AgentOS
